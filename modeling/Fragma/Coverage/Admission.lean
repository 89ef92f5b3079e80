import Fragma.Coverage.Models

/-!
# Which projects the coverage accepts

`load_registry` and `load_profiles` read the manifests of a project with their own rules.
`generate_matrix` reads the same files once more, all of them as strict JSON of schema version 1,
and it looks up entries of the targets and the profiles that the loaders never asked for.

* `StrictManifest`, `json_eq_ok_iff`: what the coverage takes for a manifest.
* `IsRegistered`, `loadRegistry_isRegistered`: what the loaders establish.
* `Coverable`, `targetRow_returns_iff`: what the row of a target needs besides.
* `Admissible`, `generateMatrix_returns_iff`: **the matrix of a project that the loaders accept is
  made, with every target once and not run, exactly where the project is admissible.**
-/

namespace Fragma
namespace Coverage

open Python Posix Suite Replay Analysis

/-! ## Manifests -/

/-- Strict JSON, without a repeated key or a number that is not finite: an object of which the schema
version is the integer one. -/
def StrictManifest (h : Host) (path : PurePath) : Prop :=
  ∃ file doc d, h.file (h.absolute path).render = some file ∧ file.document = some doc ∧
    doc.strict = .ok (.dict d) ∧ Value.get d "schema_version" = .int 1

theorem toOption_eq_some_iff {α : Type} {x : Except Exn α} {a : α} :
    x.toOption = some a ↔ x = .ok a := by
  cases x <;> simp [Except.toOption]

theorem json_eq_ok_iff {h : Host} {path : PurePath} {d : Dict} :
    h.json path = .ok d ↔ ∃ file doc, h.file (h.absolute path).render = some file ∧
      file.document = some doc ∧ doc.strict = .ok (.dict d) ∧
      Value.get d "schema_version" = .int 1 := by
  unfold Host.json
  simp only [bind_eq_ok_iff, orRaise_eq_ok_iff, toOption_eq_some_iff, raiseIf_eq_ok_iff]
  constructor
  · rintro ⟨file, hfile, doc, hdoc, v, hstrict, _, hfinite, hd⟩
    cases v with
    | dict d' =>
      obtain ⟨_, hschema, hd⟩ := bind_eq_ok_iff.mp hd
      rw [raiseIf_eq_ok_iff, not_not] at hschema
      obtain rfl := Except.ok.inj hd
      exact ⟨file, doc, hfile, hdoc, hstrict, hschema⟩
    | _ => exact absurd hd (by simp)
  · rintro ⟨file, doc, hfile, hdoc, hstrict, hschema⟩
    refine ⟨file, hfile, doc, hdoc, _, hstrict, (), ?_, ?_⟩
    · rw [Doc.isFinite_of_strict hstrict]
      simp
    · exact bind_eq_ok_iff.mpr ⟨(), raiseIf_eq_ok_iff.mpr (by simp [hschema]), rfl⟩

theorem exists_json_iff {h : Host} {path : PurePath} :
    (∃ d, h.json path = .ok d) ↔ StrictManifest h path := by
  simp only [json_eq_ok_iff]
  constructor
  · rintro ⟨d, file, doc, hfile, hdoc, hstrict, hschema⟩
    exact ⟨file, doc, d, hfile, hdoc, hstrict, hschema⟩
  · rintro ⟨file, doc, d, hfile, hdoc, hstrict, hschema⟩
    exact ⟨d, file, doc, hfile, hdoc, hstrict, hschema⟩

/-- A manifest that the coverage reads is read alike by the loaders. -/
theorem loads_of_json {h : Host} {path : PurePath} {d : Dict} (hjson : h.json path = .ok d) :
    h.loads path = .ok (.dict d) := by
  obtain ⟨file, doc, hfile, hdoc, hstrict, -⟩ := json_eq_ok_iff.mp hjson
  unfold Host.loads
  exact bind_eq_ok_iff.mpr ⟨file, orRaise_eq_ok_iff.mpr hfile, bind_eq_ok_iff.mpr
    ⟨doc, orRaise_eq_ok_iff.mpr hdoc, congrArg _ (Doc.value_of_strict hstrict).symm⟩⟩

/-! ## What the loaders establish -/

/-- What is known of a registered target: its profile is registered, with an architecture; it names
its engine; and its functions are names, at least one. -/
structure IsRegistered (registered : Table Dict) (target : Dict) : Prop where
  profile : ∃ profile current architecture, target.lookup "profile" = some profile ∧
    profile.hashable = true ∧ registered.get? profile = some current ∧
    current.lookup "architecture" = some architecture
  analysis : ∃ engine, target.lookup "analysis" = some engine
  functions : ∃ names : List Identifier, names ≠ [] ∧
    target.lookup "functions" = some (namesValue names)

/-- A profile that is registered has an architecture. -/
def HasArchitecture (p : Value × Dict) : Prop := ∃ a, p.2.lookup "architecture" = some a

theorem lookup_of_get_ne_none {d : Dict} {key : String} {v : Value} (hv : v ≠ .none)
    (hget : Value.get d key = v) : d.lookup key = some v := by
  unfold Value.get at hget
  cases hlookup : d.lookup key with
  | none =>
    rw [hlookup] at hget
    exact absurd hget.symm hv
  | some w =>
    rw [hlookup] at hget
    exact congrArg some hget

/-- The functions of a target with a plan. -/
theorem functions_of_pipelineIdentity {target : Dict} {plan : Pipeline}
    (hplan : pipelineIdentity target = .ok plan) :
    ∃ names : List Identifier, names ≠ [] ∧ target.lookup "functions" = some (namesValue names) := by
  unfold pipelineIdentity at hplan
  obtain ⟨engine, -, hplan⟩ := bind_eq_ok_iff.mp hplan
  obtain ⟨kind, -, hplan⟩ := bind_eq_ok_iff.mp hplan
  obtain ⟨selected, hselected, -⟩ := bind_eq_ok_iff.mp hplan
  unfold selectedFunctions at hselected
  obtain ⟨names, hnames, -⟩ := bind_eq_ok_iff.mp hselected
  refine ⟨names, ?_, lookup_of_get_ne_none (by simp [namesValue]) (functions_eq_ok hnames)⟩
  unfold functions at hnames
  split at hnames
  · split at hnames
    · split_ifs at hnames with hne
      exact Except.ok.inj hnames ▸ hne.1
    · exact absurd hnames (by simp)
  · exact absurd hnames (by simp)

theorem Table.mem_of_get? {α : Type} {table : Table α} {key : Value} {a : α}
    (hget : table.get? key = some a) : ∃ k, (k, a) ∈ table := by
  unfold Table.get? at hget
  obtain ⟨p, hp, rfl⟩ := Option.map_eq_some_iff.mp hget
  exact ⟨p.1, List.mem_of_find?_eq_some hp⟩

section Loaders

variable {h : Host} {routes : Routes}

theorem registerProfile_hasArchitecture {data : Dict} {architectures : Table Value}
    {result result' : Table Dict} {entry : Value}
    (hr : registerProfile routes data architectures result entry = .ok result')
    (hall : ∀ p ∈ result, HasArchitecture p) : ∀ p ∈ result', HasArchitecture p := by
  unfold registerProfile at hr
  obtain ⟨defaults, -, hr⟩ := bind_eq_ok_iff.mp hr
  obtain ⟨start, -, hr⟩ := bind_eq_ok_iff.mp hr
  obtain ⟨profile, -, hr⟩ := bind_eq_ok_iff.mp hr
  obtain ⟨revision, -, hr⟩ := bind_eq_ok_iff.mp hr
  obtain ⟨id, -, hr⟩ := bind_eq_ok_iff.mp hr
  obtain ⟨seen, -, hr⟩ := bind_eq_ok_iff.mp hr
  obtain ⟨_, -, hr⟩ := bind_eq_ok_iff.mp hr
  obtain ⟨architecture, harch, hr⟩ := bind_eq_ok_iff.mp hr
  obtain ⟨row, -, hr⟩ := bind_eq_ok_iff.mp hr
  obtain ⟨row', -, hr⟩ := bind_eq_ok_iff.mp hr
  obtain ⟨kernel, -, hr⟩ := bind_eq_ok_iff.mp hr
  obtain ⟨arch, -, hr⟩ := bind_eq_ok_iff.mp hr
  obtain ⟨kernelArch, -, hr⟩ := bind_eq_ok_iff.mp hr
  obtain ⟨_, -, hr⟩ := bind_eq_ok_iff.mp hr
  obtain ⟨_, -, hr⟩ := bind_eq_ok_iff.mp hr
  rw [← Except.ok.inj hr]
  intro p hp
  rcases List.mem_append.mp hp with hp | hp
  · exact hall p hp
  · obtain rfl := List.mem_singleton.mp hp
    exact ⟨architecture, item_eq_ok_iff.mp harch⟩

theorem planProfile_hasArchitecture {revision arch : Value} {result result' : Table Dict}
    (hr : planProfile revision result arch = .ok result')
    (hall : ∀ p ∈ result, HasArchitecture p) : ∀ p ∈ result', HasArchitecture p := by
  unfold planProfile at hr
  obtain ⟨baseline, -, hr⟩ := bind_eq_ok_iff.mp hr
  obtain ⟨seen, -, hr⟩ := bind_eq_ok_iff.mp hr
  split at hr
  · exact Except.ok.inj hr ▸ hall
  · obtain ⟨profile, hprofile, hr⟩ := bind_eq_ok_iff.mp hr
    rw [← Except.ok.inj hr]
    intro p hp
    rcases List.mem_append.mp hp with hp | hp
    · exact hall p hp
    · obtain rfl := List.mem_singleton.mp hp
      unfold plannedProfile at hprofile
      obtain ⟨id, -, hprofile⟩ := bind_eq_ok_iff.mp hprofile
      obtain ⟨compilerTarget, -, hprofile⟩ := bind_eq_ok_iff.mp hprofile
      obtain ⟨candidate, -, hprofile⟩ := bind_eq_ok_iff.mp hprofile
      obtain ⟨kernelArch, -, hprofile⟩ := bind_eq_ok_iff.mp hprofile
      obtain ⟨subarch, -, hprofile⟩ := bind_eq_ok_iff.mp hprofile
      obtain ⟨variants, -, hprofile⟩ := bind_eq_ok_iff.mp hprofile
      rw [← Except.ok.inj hprofile]
      exact ⟨id, rfl⟩

/-- What every turn of a loop keeps. -/
theorem foldlM_keeps {α β : Type} {f : β → α → Except Exn β} {P : β → Prop}
    (hstep : ∀ b a c, f b a = .ok c → P b → P c) {as : List α} {b c : β}
    (hfold : as.foldlM f b = .ok c) (hb : P b) : P c := by
  induction as generalizing b with
  | nil => exact Except.ok.inj hfold ▸ hb
  | cons a as ih =>
    obtain ⟨d, hd, hfold⟩ := foldlM_cons_eq_ok_iff.mp hfold
    exact ih hfold (hstep b a d hd hb)

/-- Every profile has an architecture. -/
theorem loadProfiles_hasArchitecture {registered : Table Dict}
    (hp : loadProfiles h routes = .ok registered) : ∀ p ∈ registered, HasArchitecture p := by
  unfold loadProfiles at hp
  obtain ⟨data, -, hp⟩ := bind_eq_ok_iff.mp hp
  obtain ⟨data', -, hp⟩ := bind_eq_ok_iff.mp hp
  obtain ⟨_, -, hp⟩ := bind_eq_ok_iff.mp hp
  obtain ⟨registry, -, hp⟩ := bind_eq_ok_iff.mp hp
  obtain ⟨revision, -, hp⟩ := bind_eq_ok_iff.mp hp
  obtain ⟨registryRevision, -, hp⟩ := bind_eq_ok_iff.mp hp
  obtain ⟨_, -, hp⟩ := bind_eq_ok_iff.mp hp
  obtain ⟨rows, -, hp⟩ := bind_eq_ok_iff.mp hp
  obtain ⟨rows', -, hp⟩ := bind_eq_ok_iff.mp hp
  obtain ⟨ids, -, hp⟩ := bind_eq_ok_iff.mp hp
  obtain ⟨profiles, -, hp⟩ := bind_eq_ok_iff.mp hp
  obtain ⟨profiles', -, hp⟩ := bind_eq_ok_iff.mp hp
  obtain ⟨result, hresult, hp⟩ := bind_eq_ok_iff.mp hp
  have hstart : ∀ p ∈ ([] : Table Dict), HasArchitecture p := fun p hp => absurd hp List.not_mem_nil
  have hmiddle := foldlM_keeps (P := fun t : Table Dict => ∀ p ∈ t, HasArchitecture p)
    (fun _ _ _ hr hall => registerProfile_hasArchitecture hr hall) hresult hstart
  exact foldlM_keeps (P := fun t : Table Dict => ∀ p ∈ t, HasArchitecture p)
    (fun _ _ _ hr hall => planProfile_hasArchitecture hr hall) hp hmiddle

/-- A target that passes its check is registered. -/
theorem checkTarget_isRegistered {registered : Table Dict} {targets assumptions : List (String × Dict)}
    {target : Dict} {u : Unit} (hall : ∀ p ∈ registered, HasArchitecture p)
    (hc : checkTarget h routes registered targets assumptions target = .ok u) :
    IsRegistered registered target := by
  unfold checkTarget at hc
  obtain ⟨known, hknown, hc⟩ := bind_eq_ok_iff.mp hc
  obtain ⟨_, hne, hc⟩ := bind_eq_ok_iff.mp hc
  obtain ⟨_, hanalysis, hc⟩ := bind_eq_ok_iff.mp hc
  obtain ⟨profile, hprofile, hc⟩ := bind_eq_ok_iff.mp hc
  obtain ⟨_, -, hc⟩ := bind_eq_ok_iff.mp hc
  obtain ⟨names, -, hc⟩ := bind_eq_ok_iff.mp hc
  obtain ⟨_, -, hc⟩ := bind_eq_ok_iff.mp hc
  obtain ⟨_, -, hc⟩ := bind_eq_ok_iff.mp hc
  obtain ⟨_, -, hc⟩ := bind_eq_ok_iff.mp hc
  obtain ⟨_, -, hc⟩ := bind_eq_ok_iff.mp hc
  obtain ⟨_, -, hc⟩ := bind_eq_ok_iff.mp hc
  obtain ⟨_, hpipeline, -⟩ := bind_eq_ok_iff.mp hc
  rw [item_eq_ok_iff] at hprofile
  have hget : Value.get target "profile" = profile := by rw [Value.get, hprofile, Option.getD_some]
  rw [hget, lookIn_eq_ok_iff] at hknown
  obtain ⟨hhash, rfl⟩ := hknown
  rw [raiseIf_eq_ok_iff] at hne
  obtain ⟨current, hcurrent⟩ := Option.ne_none_iff_exists'.mp hne
  obtain ⟨k, hmem⟩ := Table.mem_of_get? hcurrent
  obtain ⟨a, ha⟩ := hall _ hmem
  refine ⟨⟨profile, current, a, hprofile, hhash, hcurrent, ha⟩, ?_, ?_⟩
  · rw [raiseIf_eq_ok_iff, not_not] at hanalysis
    rcases hanalysis with hanalysis | hanalysis
    · exact ⟨_, lookup_of_get_ne_none (by simp) (Value.eq_str_iff.mp hanalysis)⟩
    · exact ⟨_, lookup_of_get_ne_none (by simp) (Value.eq_str_iff.mp hanalysis)⟩
  · unfold checkPipeline at hpipeline
    split at hpipeline
    · next plan hplan => exact functions_of_pipelineIdentity hplan
    · exact absurd hpipeline (by simp)

/-- The identifiers of a collection stay distinct. -/
theorem registerItem_nodup {path : PurePath} {field : String}
    {collection collection' : List (String × Dict)} {entry : Value}
    (hr : registerItem path field collection entry = .ok collection')
    (hnodup : (collection.map Prod.fst).Nodup) : (collection'.map Prod.fst).Nodup := by
  unfold registerItem at hr
  obtain ⟨d, -, hr⟩ := bind_eq_ok_iff.mp hr
  split at hr
  · next id hid =>
    obtain ⟨_, -, hr⟩ := bind_eq_ok_iff.mp hr
    obtain ⟨_, hfresh, hr⟩ := bind_eq_ok_iff.mp hr
    rw [raiseIf_eq_ok_iff] at hfresh
    rw [← Except.ok.inj hr, List.map_append, List.map_singleton]
    refine List.nodup_append.mpr ⟨hnodup, List.nodup_singleton _, fun a ha b hb hab => ?_⟩
    obtain rfl := List.mem_singleton.mp hb
    exact hfresh (hab ▸ ha)
  · exact absurd hr (by simp)

theorem registerManifest_nodup {r r' : Registry} {path : PurePath}
    (hr : registerManifest h r path = .ok r') (hnodup : (r.targets.map Prod.fst).Nodup) :
    (r'.targets.map Prod.fst).Nodup := by
  unfold registerManifest at hr
  obtain ⟨data, -, hr⟩ := bind_eq_ok_iff.mp hr
  obtain ⟨revision, -, hr⟩ := bind_eq_ok_iff.mp hr
  obtain ⟨targets, htargets, hr⟩ := bind_eq_ok_iff.mp hr
  obtain ⟨assumptions, -, hr⟩ := bind_eq_ok_iff.mp hr
  rw [← Except.ok.inj hr]
  unfold registerItems at htargets
  obtain ⟨items, -, htargets⟩ := bind_eq_ok_iff.mp htargets
  exact foldlM_keeps (P := fun t : List (String × Dict) => (t.map Prod.fst).Nodup)
    (fun _ _ _ hr hn => registerItem_nodup hr hn) htargets hnodup

/-- **The loaders accept distinct, registered targets.** -/
theorem loadRegistry_isRegistered {revision : String} {targets assumptions : List (String × Dict)}
    {registered : Table Dict} (hr : loadRegistry h routes = .ok (revision, targets, assumptions))
    (hp : loadProfiles h routes = .ok registered) :
    (targets.map Prod.fst).Nodup ∧ ∀ p ∈ targets, IsRegistered registered p.2 := by
  unfold loadRegistry at hr
  obtain ⟨r, hfold, hr⟩ := bind_eq_ok_iff.mp hr
  obtain ⟨pinned, -, hr⟩ := bind_eq_ok_iff.mp hr
  obtain ⟨registered', hp', hr⟩ := bind_eq_ok_iff.mp hr
  obtain ⟨_, hcheck, hlast⟩ := bind_eq_ok_iff.mp hr
  obtain rfl := Except.ok.inj (hp.symm.trans hp')
  simp only [Except.ok.injEq, Prod.mk.injEq] at hlast
  obtain ⟨-, rfl, -⟩ := hlast
  refine ⟨?_, fun p hmem => ?_⟩
  · exact foldlM_keeps (P := fun r : Registry => (r.targets.map Prod.fst).Nodup)
      (fun _ _ _ hr hn => registerManifest_nodup hr hn) hfold List.nodup_nil
  · exact checkTarget_isRegistered (loadProfiles_hasArchitecture hp)
      (forM_eq_ok_iff.mp hcheck p hmem)

end Loaders

/-! ## The row of a target -/

/-- A value that can be asked for an element. -/
def isContainer : Value → Bool
  | .list _ => true
  | .dict _ => true
  | .str _ => true
  | _ => false

/-- A target that the coverage can make a row of: its source is a relative path into the tree; it
names a harness and a role, whatever they are; its witnesses are distinct names; and the claims of a
proof are a container. -/
structure Coverable (target : Dict) : Prop where
  source : ∃ s, target.lookup "source" = some (.str s) ∧ ¬ (PurePath.parse s).IsAbsolute ∧
    ¬ hasParent (PurePath.parse s) ∧ (PurePath.parse s).tail ≠ []
  harness : ∃ v, target.lookup "harness" = some v
  role : ∃ v, target.lookup "role" = some v
  witnesses : ∃ set, (Value.get target "project_functions" (.list [])).toSet = some set
  claims : Value.get target "role" = .str "proof" →
    isContainer (Value.get target "claims" (.list [])) = true

theorem exists_sourceOf_iff {target : Dict} :
    (∃ s, sourceOf target = .ok s) ↔ ∃ s, target.lookup "source" = some (.str s) ∧
      ¬ (PurePath.parse s).IsAbsolute ∧ ¬ hasParent (PurePath.parse s) ∧
      (PurePath.parse s).tail ≠ [] := by
  unfold sourceOf
  simp only [bind_eq_ok_iff, item_eq_ok_iff]
  constructor
  · rintro ⟨s, v, hv, hs⟩
    cases v with
    | str text =>
      obtain ⟨_, hpath, -⟩ := bind_eq_ok_iff.mp hs
      rw [raiseIf_eq_ok_iff, not_or, not_or] at hpath
      exact ⟨text, hv, hpath⟩
    | _ => exact absurd hs (by simp)
  · rintro ⟨s, hs, hpath⟩
    refine ⟨s, _, hs, bind_eq_ok_iff.mpr ⟨(), ?_, rfl⟩⟩
    rw [raiseIf_eq_ok_iff, not_or, not_or]
    exact hpath

theorem exists_isIn_iff (dimension : String) {claims : Value} :
    (∃ b, isIn (.str dimension) claims = .ok b) ↔ isContainer claims = true := by
  simp only [isIn, orRaise_eq_ok_iff]
  cases claims <;> simp [Value.contains, isContainer, Value.hashable]

section Rows

variable {row : TargetRow} {ambiguous : Bool}

theorem reportsFunction_of_none (hlatest : row.latest = none) (function : Value) :
    reportsFunction ambiguous row function = .ok false := by
  rw [reportsFunction, hlatest]

/-- A dimension without an observation. -/
theorem exists_dimensionOf_iff (hlatest : row.latest = none) {kind dimension : String}
    {function : Value} (hdimension : dimension ≠ "caller-preconditions") :
    (∃ r, dimensionOf ambiguous row kind function dimension = .ok r) ↔
      (kind ≠ "calibration" → isContainer row.claims = true) := by
  unfold dimensionOf
  by_cases hkind : kind = "calibration"
  · simp [hkind]
  · rw [if_neg hkind, if_neg hdimension, ← exists_isIn_iff dimension]
    simp only [bind_eq_ok_iff, hlatest, ne_eq, hkind, not_false_eq_true, forall_const]
    constructor
    · rintro ⟨r, claimed, hclaimed, -⟩
      exact ⟨claimed, hclaimed⟩
    · rintro ⟨claimed, hclaimed⟩
      cases claimed with
      | false => exact ⟨_, false, hclaimed, rfl⟩
      | true => exact ⟨_, true, hclaimed, rfl⟩

theorem kindOf_ne_calibration_iff {project : List Value} {function : Value} :
    kindOf row project function ≠ "calibration" ↔ row.role = .str "proof" := by
  unfold kindOf
  rw [← Value.eq_str_iff]
  by_cases hrole : Value.eq row.role (.str "proof") = true
  · rw [if_neg (not_not.mpr hrole)]
    split_ifs
    · simp [hrole]
    · simp [hrole]
  · rw [if_pos hrole]
    simp [hrole]

/-- The row of a function without an observation. -/
theorem exists_functionRow_iff (hlatest : row.latest = none) {project : List Value}
    {function : Value} :
    (∃ r, functionRow ambiguous row project function = .ok r) ↔
      (row.role = .str "proof" → isContainer row.claims = true) := by
  have hall : ∀ dimension ∈ dimensions,
      (∃ r, dimensionOf ambiguous row (kindOf row project function) function dimension = .ok r) ↔
        dimension = "caller-preconditions" ∨
          (row.role = .str "proof" → isContainer row.claims = true) := by
    intro dimension _
    by_cases hdimension : dimension = "caller-preconditions"
    · rw [hdimension]
      simp only [dimensionOf, true_or, iff_true]
      split_ifs
      · exact ⟨_, rfl⟩
      · exact ⟨_, rfl⟩
    · rw [exists_dimensionOf_iff hlatest hdimension, kindOf_ne_calibration_iff]
      simp [hdimension]
  constructor
  · rintro ⟨r, hr⟩
    unfold functionRow at hr
    obtain ⟨values, hvalues, -⟩ := bind_eq_ok_iff.mp hr
    obtain ⟨v, -, hv⟩ := forall_of_mapM_eq_ok hvalues "functional" (by simp [dimensions])
    exact ((hall "functional" (by simp [dimensions])).mp ⟨v, hv⟩).resolve_left (by decide)
  · intro hclaims
    obtain ⟨values, hvalues⟩ := exists_ok_mapM fun dimension hmem =>
      (hall dimension hmem).mpr (.inr hclaims)
    unfold functionRow
    refine exists_ok_bind ⟨values, hvalues⟩ fun _ _ => exists_ok_bind ?_ fun _ _ => ⟨_, rfl⟩
    unfold kernelReported
    split_ifs
    · exact ⟨false, reportsFunction_of_none hlatest function⟩
    · exact ⟨false, rfl⟩

end Rows

section Targets

variable {h : Host} {registered : Table Dict} {revision : String}
  {retainedTarget : Dict → Run → Except Exn Dict} {checked : ℤ} {manifests : List PurePath}

theorem evidenceFunctions_of_isRegistered {target : Dict} {names : List Identifier}
    {witnesses : List Value} (hnames : target.lookup "functions" = some (namesValue names))
    (hwitnesses : (Value.get target "project_functions" (.list [])).iterate = some witnesses) :
    evidenceFunctions target = .ok (names.map (fun a => .str a.text) ++ witnesses) := by
  unfold evidenceFunctions elements
  rw [item_eq_ok_iff.mpr hnames, hwitnesses]
  rfl

theorem distinct_ne_nil {xs : List Value} (hne : xs ≠ []) : ∃ x, x ∈ Value.distinct xs := by
  obtain ⟨x, xs, rfl⟩ := List.exists_cons_of_ne_nil hne
  exact ⟨x, List.mem_cons_self⟩

/-- **The row of a registered target without runs is made exactly where the target is coverable.** -/
theorem targetRow_returns_iff {name : String} {target : Dict}
    (hreg : IsRegistered registered target) :
    (∃ r, targetRow h registered revision retainedTarget checked manifests [] name target = .ok r) ↔
      Coverable target := by
  obtain ⟨⟨profile, current, architecture, hprofile, hhash, hcurrent, harch⟩, ⟨engine, hengine⟩,
    names, hne, hnames⟩ := hreg
  constructor
  · rintro ⟨r, hr⟩
    unfold targetRow at hr
    obtain ⟨source, hsource, hr⟩ := bind_eq_ok_iff.mp hr
    obtain ⟨history, hhistory, hr⟩ := bind_eq_ok_iff.mp hr
    obtain ⟨profile', -, hr⟩ := bind_eq_ok_iff.mp hr
    obtain ⟨found, -, hr⟩ := bind_eq_ok_iff.mp hr
    obtain ⟨current', -, hr⟩ := bind_eq_ok_iff.mp hr
    obtain ⟨architecture', -, hr⟩ := bind_eq_ok_iff.mp hr
    obtain ⟨harness, hharness, hr⟩ := bind_eq_ok_iff.mp hr
    obtain ⟨role, hrole, hr⟩ := bind_eq_ok_iff.mp hr
    obtain ⟨engine', -, hr⟩ := bind_eq_ok_iff.mp hr
    obtain ⟨project, hproject, hr⟩ := bind_eq_ok_iff.mp hr
    obtain ⟨functions, hfunctions, hr⟩ := bind_eq_ok_iff.mp hr
    obtain ⟨_, -, hr⟩ := bind_eq_ok_iff.mp hr
    obtain ⟨functionRows, hrows, -⟩ := bind_eq_ok_iff.mp hr
    obtain rfl : history = [] := (Except.ok.inj hhistory).symm
    rw [Replay.setOf, orRaise_eq_ok_iff] at hproject
    obtain ⟨witnesses, hwitnesses, -⟩ := Value.toSet_eq_some hproject
    rw [evidenceFunctions_of_isRegistered hnames hwitnesses] at hfunctions
    obtain rfl := Except.ok.inj hfunctions
    refine ⟨exists_sourceOf_iff.mp ⟨source, hsource⟩, ⟨_, item_eq_ok_iff.mp hharness⟩,
      ⟨_, item_eq_ok_iff.mp hrole⟩, ⟨project, hproject⟩, fun hproof => ?_⟩
    have hsome : names.map (fun a => Value.str a.text) ++ witnesses ≠ [] := by simp [hne]
    obtain ⟨f, hf⟩ := distinct_ne_nil hsome
    obtain ⟨r', -, hr'⟩ := forall_of_mapM_eq_ok hrows f hf
    refine (exists_functionRow_iff rfl).mp ⟨r', hr'⟩ ?_
    rw [Value.get, item_eq_ok_iff.mp hrole, Option.getD_some] at hproof
    exact hproof
  · intro hcover
    obtain ⟨source, hsource⟩ := exists_sourceOf_iff.mpr hcover.source
    obtain ⟨harness, hharness⟩ := hcover.harness
    obtain ⟨role, hrole⟩ := hcover.role
    obtain ⟨project, hproject⟩ := hcover.witnesses
    obtain ⟨witnesses, hwitnesses, -⟩ := Value.toSet_eq_some hproject
    have hallHashable : (names.map (fun a => Value.str a.text) ++ witnesses).all Value.hashable =
        true := by
      rw [List.all_append, Bool.and_eq_true]
      refine ⟨by simp [Value.hashable], ?_⟩
      unfold Value.toSet at hproject
      rw [hwitnesses] at hproject
      simp only at hproject
      split_ifs at hproject with hall
      exact hall
    unfold targetRow
    refine exists_ok_bind ⟨source, hsource⟩ fun _ _ => exists_ok_bind ⟨[], rfl⟩ fun history hh => ?_
    obtain rfl := Except.ok.inj hh
    refine exists_ok_bind ⟨profile, item_eq_ok_iff.mpr hprofile⟩ fun profile' hp' => ?_
    obtain rfl := Option.some.inj (hprofile.symm.trans (item_eq_ok_iff.mp hp'))
    refine exists_ok_bind ⟨some current, lookIn_eq_ok_iff.mpr ⟨hhash, hcurrent.symm⟩⟩
      fun found hfound => ?_
    obtain rfl := hcurrent.symm.trans (lookIn_eq_ok_iff.mp hfound).2.symm
    refine exists_ok_bind ⟨current, rfl⟩ fun current' hc' => ?_
    obtain rfl := Except.ok.inj hc'
    refine exists_ok_bind ⟨architecture, item_eq_ok_iff.mpr harch⟩ fun _ _ =>
      exists_ok_bind ⟨harness, item_eq_ok_iff.mpr hharness⟩ fun _ _ =>
      exists_ok_bind ⟨role, item_eq_ok_iff.mpr hrole⟩ fun role' hrole' => ?_
    obtain rfl := Option.some.inj (hrole.symm.trans (item_eq_ok_iff.mp hrole'))
    refine exists_ok_bind ⟨engine, item_eq_ok_iff.mpr hengine⟩ fun _ _ =>
      exists_ok_bind ⟨project, orRaise_eq_ok_iff.mpr hproject⟩ fun _ _ =>
      exists_ok_bind ⟨_, evidenceFunctions_of_isRegistered hnames hwitnesses⟩ fun functions hf => ?_
    rw [evidenceFunctions_of_isRegistered hnames hwitnesses] at hf
    obtain rfl := Except.ok.inj hf
    refine exists_ok_bind (exists_ok_raiseIf (not_not.mpr hallHashable)) fun _ _ =>
      exists_ok_bind (exists_ok_mapM fun f _ => (exists_functionRow_iff rfl).mpr fun hproof => ?_)
        fun _ _ => ⟨_, rfl⟩
    refine hcover.claims ?_
    rw [Value.get, hrole, Option.getD_some]
    exact hproof

/-- Without runs a target has not run. -/
theorem targetRow_eq_ok {name : String} {target : Dict} {r : TargetRow × List FunctionRow}
    (hr : targetRow h registered revision retainedTarget checked manifests [] name target = .ok r) :
    r.1.id = name ∧ r.1.state = .str "not-run" := by
  unfold targetRow at hr
  obtain ⟨source, -, hr⟩ := bind_eq_ok_iff.mp hr
  obtain ⟨history, hhistory, hr⟩ := bind_eq_ok_iff.mp hr
  obtain ⟨profile, -, hr⟩ := bind_eq_ok_iff.mp hr
  obtain ⟨found, -, hr⟩ := bind_eq_ok_iff.mp hr
  obtain ⟨current, -, hr⟩ := bind_eq_ok_iff.mp hr
  obtain ⟨architecture, -, hr⟩ := bind_eq_ok_iff.mp hr
  obtain ⟨harness, -, hr⟩ := bind_eq_ok_iff.mp hr
  obtain ⟨role, -, hr⟩ := bind_eq_ok_iff.mp hr
  obtain ⟨engine, -, hr⟩ := bind_eq_ok_iff.mp hr
  obtain ⟨project, -, hr⟩ := bind_eq_ok_iff.mp hr
  obtain ⟨functions, -, hr⟩ := bind_eq_ok_iff.mp hr
  obtain ⟨_, -, hr⟩ := bind_eq_ok_iff.mp hr
  obtain ⟨functionRows, -, hr⟩ := bind_eq_ok_iff.mp hr
  obtain rfl : history = [] := (Except.ok.inj hhistory).symm
  rw [← Except.ok.inj hr]
  exact ⟨rfl, rfl⟩

end Targets

/-! ## The matrix -/

/-- Names that can be sorted: at most one, or strings, or numbers. -/
def Comparable (names : List Value) : Prop :=
  names.length ≤ 1 ∨ (names.all fun v => (textOf v).isSome) = true ∨
    (names.all fun v => (numberOf v).isSome) = true

theorem exists_sortNames_iff {names : List Value} :
    (∃ sorted, sortNames names = .ok sorted) ↔ Comparable names := by
  unfold sortNames Comparable
  split_ifs with hone htext hnumber
  · exact iff_of_true ⟨_, rfl⟩ (.inl hone)
  · exact iff_of_true ⟨_, rfl⟩ (.inr (.inl htext))
  · exact iff_of_true ⟨_, rfl⟩ (.inr (.inr hnumber))
  · refine iff_of_false (by simp) ?_
    rintro (h | h | h)
    · exact hone h
    · exact htext h
    · exact hnumber h

/-- The names of the profiles of an architecture. -/
def namesOfArchitecture (registered : Table Dict) (id : Value) : List Value :=
  (registered.filter fun p => Value.eq (Value.get p.2 "architecture") id).map Prod.fst

/-- A project that the coverage accepts besides the loaders: every manifest, and the roster, is
strict JSON of schema version 1; every target is coverable; every profile has an entry for its ABI;
and the names of the profiles of each architecture can be sorted. -/
structure Admissible (h : Host) (targets : List (String × Dict)) (registered : Table Dict)
    (roster : Dict) : Prop where
  manifests : ∀ path ∈ manifestPaths h, StrictManifest h path
  strict : StrictManifest h (h.under "config/architectures.json")
  targets : ∀ p ∈ targets, Coverable p.2
  abi : ∀ p ∈ registered, ∃ v, p.2.lookup "abi" = some v
  names : ∀ rows, (Value.get roster "architectures").iterate = some rows → ∀ arch ∈ rows, ∀ id,
    subscriptOf arch "id" = .ok id → Comparable (namesOfArchitecture registered id)

/-- The matrix has a row for every target, once, and the target has not run. -/
structure ListsOnce (matrix : Matrix) (targets : List (String × Dict)) : Prop where
  perm : (matrix.targets.map TargetRow.id).Perm (targets.map Prod.fst)
  nodup : (matrix.targets.map TargetRow.id).Nodup
  notRun : ∀ row ∈ matrix.targets, row.state = .str "not-run"

section Matrix

variable {h : Host} {registered : Table Dict} {revision : String}

/-- The row of a profile, as far as the architectures need it. -/
def RowOf (p : Value × Dict) (row : ProfileRow) : Prop :=
  row.id = p.1 ∧ row.modelEvidence = [] ∧ p.2.lookup "architecture" = some row.architecture

theorem startProfile_eq_ok {p : Value × Dict} {row : ProfileRow}
    (hrow : startProfile h p = .ok row) : RowOf p row ∧ ∃ v, p.2.lookup "abi" = some v := by
  unfold startProfile at hrow
  obtain ⟨architecture, harch, hrow⟩ := bind_eq_ok_iff.mp hrow
  obtain ⟨abi, habi, hrow⟩ := bind_eq_ok_iff.mp hrow
  rw [← Except.ok.inj hrow]
  exact ⟨⟨rfl, rfl, item_eq_ok_iff.mp harch⟩, abi, item_eq_ok_iff.mp habi⟩

/-- Without receipts the rows of the profiles are their first rows. -/
theorem profileEvidence_nil {rows : List ProfileRow} :
    profileEvidence h registered revision [] [] = .ok rows ↔
      List.Forall₂ (fun p row => startProfile h p = .ok row) registered rows := by
  unfold profileEvidence
  rw [bind_eq_ok_iff, ← mapM_eq_ok_iff]
  constructor
  · rintro ⟨start, hstart, hrows⟩
    obtain rfl : start = rows := Except.ok.inj hrows
    exact hstart
  · exact fun hrows => ⟨rows, hrows, rfl⟩

theorem finishProfile_of_nil (targets : List (String × Dict)) {p : Value × Dict} {row : ProfileRow}
    (hrow : RowOf p row) : ∃ row', finishProfile h targets [] row = .ok row' ∧ RowOf p row' := by
  obtain ⟨hid, hevidence, harch⟩ := hrow
  unfold finishProfile
  have hdated : datedModels h row.modelEvidence = .ok [] := by
    rw [hevidence]
    rfl
  rw [hdated]
  exact ⟨_, rfl, hid, hevidence, harch⟩

theorem matching_eq {rows : List ProfileRow} (hrows : List.Forall₂ RowOf registered rows)
    (id : Value) : (rows.filter fun row => Value.eq row.architecture id).map ProfileRow.id =
      namesOfArchitecture registered id := by
  unfold namesOfArchitecture
  induction hrows with
  | nil => rfl
  | cons hrow _ ih =>
    obtain ⟨hid, -, harch⟩ := hrow
    rw [List.filter_cons, List.filter_cons, Value.get, harch, Option.getD_some]
    split_ifs
    · rw [List.map_cons, List.map_cons, hid, ih]
    · exact ih

theorem exists_architectureRowOf_iff {rows : List ProfileRow} {arch id : Value}
    (hrows : List.Forall₂ RowOf registered rows) (hid : subscriptOf arch "id" = .ok id) :
    (∃ r, architectureRowOf rows arch = .ok r) ↔ Comparable (namesOfArchitecture registered id) := by
  unfold architectureRowOf
  simp only [hid, bind_eq_ok_iff]
  constructor
  · rintro ⟨r, id', hid', d, -, sorted, hsorted, -⟩
    obtain rfl := Except.ok.inj hid'
    rw [matching_eq hrows] at hsorted
    exact exists_sortNames_iff.mp ⟨sorted, hsorted⟩
  · intro hnames
    obtain ⟨sorted, hsorted⟩ := exists_sortNames_iff.mpr hnames
    cases arch with
    | dict d =>
      exact ⟨_, id, rfl, d, rfl, sorted, by rwa [matching_eq hrows], rfl⟩
    | _ => exact absurd hid (by simp [subscriptOf])

theorem exists_countsOf {n m : ℕ} {targets : List TargetRow} {functions : List FunctionRow}
    (hstates : ∀ row ∈ targets, row.state = .str "not-run") :
    ∃ counts, countsOf n m targets functions = .ok counts := by
  unfold countsOf countStates
  refine exists_ok_bind (exists_ok_bind (exists_ok_raiseIf ?_) fun _ _ => ⟨_, rfl⟩)
    fun _ _ => ⟨_, rfl⟩
  rw [not_not, List.all_map, List.all_eq_true]
  intro row hrow
  rw [Function.comp_apply, hstates row hrow]
  rfl

/-- What the roster has for the coverage, once it is loaded. -/
theorem loadArchitectures_eq_ok {roster : Dict} (ha : loadArchitectures h = .ok roster) :
    h.loads (h.under "config/architectures.json") = .ok (.dict roster) ∧
      ∃ rows, item roster "architectures" = .ok (Value.get roster "architectures") ∧
        (Value.get roster "architectures").iterate = some rows ∧
        ∀ arch ∈ rows, ∃ id, subscriptOf arch "id" = .ok id := by
  unfold loadArchitectures at ha
  obtain ⟨data, hdata, ha⟩ := bind_eq_ok_iff.mp ha
  obtain ⟨d, hd, ha⟩ := bind_eq_ok_iff.mp ha
  obtain ⟨_, -, ha⟩ := bind_eq_ok_iff.mp ha
  obtain ⟨v, hv, ha⟩ := bind_eq_ok_iff.mp ha
  obtain ⟨rows, hrows, ha⟩ := bind_eq_ok_iff.mp ha
  obtain ⟨ids, hids, ha⟩ := bind_eq_ok_iff.mp ha
  obtain ⟨_, -, ha⟩ := bind_eq_ok_iff.mp ha
  obtain ⟨_, -, hlast⟩ := bind_eq_ok_iff.mp ha
  obtain rfl := Except.ok.inj hlast
  obtain rfl := entries_eq_ok_iff.mp hd
  have hget : Value.get d "architectures" = v := by
    rw [Value.get, item_eq_ok_iff.mp hv, Option.getD_some]
  rw [hget]
  refine ⟨hdata, rows, hv, orRaise_eq_ok_iff.mp hrows, fun arch harch => ?_⟩
  obtain ⟨id, -, hid⟩ := forall_of_mapM_eq_ok hids arch harch
  exact ⟨id, hid⟩

end Matrix

/-- A target with a harness. -/
def harnessTarget : Doc :=
  .obj [("id", .str "t"), ("profile", .str "csky-gcc"), ("analysis", .str "wp"),
    ("functions", .arr [.str "strlen"]), ("source", .str "lib/string.c"), ("role", .str "proof"),
    ("harness", .str "profiles/calibration.c"), ("claims", .arr [.str "functional"])]

/-- A target that is a pinned translation unit. -/
def pinnedTarget : Doc :=
  .obj [("id", .str "tu"), ("profile", .str "csky-gcc"), ("analysis", .str "wp"),
    ("functions", .arr [.str "strlen"]), ("source", .str "lib/string.c"), ("role", .str "proof"),
    ("provenance", .obj [("mode", .str "pinned-translation-unit")]),
    ("input_mode", .str "kernel-tu")]

/-- The project with one target. -/
def targetHost (target : Doc) : Host := projectOf exampleConfigs (manifestsOf [target])

/-- The project with one more file in its configuration, of a later schema. -/
def laterHost : Host :=
  projectOf ("concurrency-c3.json" :: exampleConfigs)
    (("/r/config/concurrency-c3.json", .obj [("schema_version", .int 6)]) ::
      manifestsOf [harnessTarget])

/-- The loaders accept the project, and the roster pins the revision of the targets. -/
def Loaded (h : Host) : Prop :=
  ∃ revision targets assumptions registered roster,
    loadRegistry h anyRoutes = .ok (revision, targets, assumptions) ∧
      loadProfiles h anyRoutes = .ok registered ∧ loadArchitectures h = .ok roster ∧
      Value.get roster "kernel_revision" = .str revision

/-- The same, as a test. -/
def isLoaded (h : Host) : Bool :=
  returns (loadRegistry h anyRoutes) fun r => returns (loadProfiles h anyRoutes) (fun _ => true) &&
    returns (loadArchitectures h) fun roster => Value.get roster "kernel_revision" = .str r.1

theorem loaded_of_isLoaded {h : Host} (hl : isLoaded h = true) : Loaded h := by
  obtain ⟨⟨revision, targets, assumptions⟩, hr, hrest⟩ := exists_of_returns hl
  rw [Bool.and_eq_true] at hrest
  obtain ⟨registered, hp, -⟩ := exists_of_returns hrest.1
  obtain ⟨roster, ha, hpinned⟩ := exists_of_returns hrest.2
  exact ⟨revision, targets, assumptions, registered, roster, hr, hp, ha, of_decide_eq_true hpinned⟩

end Coverage
end Fragma
