import Fragma.Coverage.Matrix
import Fragma.Python.Loops

/-!
# Which models a row reports

A summary stores a model under a name; the observation of the model goes by the profile that the
model names itself.  Where the two differ, the row of the first profile reports the level of a model
of the second.

* `Qualifies`, `currentModelLevel_ne_none_iff`: what an observation needs to have a level.
* `supplied`, `profileEvidence_eq_ok`: the observations of a row are those of the models that are
  supplied under its name.
* `OwnModel`, `ReportsOwn`: a row reports only its own models.
* `Misfiled`, `generateMatrix_reportsOwn_iff`: **every row does, unless a qualified model is stored
  under the name of another profile.**
-/

namespace Fragma
namespace Coverage

open Python Posix Suite Replay

/-! ## What a level says -/

theorem entries_eq_ok_iff {v : Value} {method : String} {d : Dict} :
    entries v method = .ok d ↔ v = .dict d := by
  cases v <;> simp [entries]

theorem item_eq_ok_iff {d : Dict} {key : String} {v : Value} :
    item d key = .ok v ↔ d.lookup key = some v := orRaise_eq_ok_iff

theorem lookIn_eq_ok_iff {α : Type} {table : Table α} {key : Value} {found : Option α} :
    lookIn table key = .ok found ↔ key.hashable = true ∧ found = table.get? key := by
  unfold lookIn
  split_ifs with hkey
  · simp [hkey, eq_comm]
  · simp [hkey]

theorem issueUnless_eq_nil_iff {condition : Prop} [Decidable condition] {issue : String} :
    issueUnless condition issue = [] ↔ condition := by
  unfold issueUnless
  split_ifs with hcondition
  · simp [hcondition]
  · simp [hcondition]

/-- What is caught is a default, and what is not caught is the result. -/
theorem catching_eq_ok {α : Type} {caught : ExnKind → Bool} {x : Except Exn α} {default : Exn → α}
    {a : α} (h : catching caught x default = .ok a) :
    x = .ok a ∨ ∃ e, x = .error e ∧ a = default e := by
  unfold catching at h
  cases x with
  | ok b => exact .inl h
  | error e =>
    simp only at h
    split_ifs at h
    exact .inr ⟨e, rfl, (Except.ok.inj h).symm⟩

/-- A model that shows a level for the profile that it names: it has passed at a level, with at
least one check and every check passed; it names the registered profile as it is, the pinned
revision and the schema; its analysis policy is as registered, and no recorded input has changed. -/
structure Qualifies (h : Host) (revision : String) (inputs : Value) (model current : Dict) :
    Prop where
  status : Value.get model "status" = .str "passed"
  level : Value.get model "level" = .str "L0" ∨ Value.get model "level" = .str "L1"
  checks : ∃ rows, Value.get model "checks" (.list []) = .list rows ∧ rows ≠ [] ∧
    ∀ row ∈ rows, ∃ d, row = .dict d ∧ Value.get d "status" = .str "passed"
  definition : Value.get model "profile_sha256" = .str (h.digest (.dict current))
  revision : Value.get model "kernel_revision" = .str revision
  architecture : ∃ a, current.lookup "architecture" = some a ∧
    Value.eq (Value.get model "architecture") a = true
  schema : Value.get model "schema_version" = .int 1
  policy : ∃ policy, checkedPolicy h (some current) model = .ok policy
  unchanged : checkedInputs h model inputs = .ok []

theorem checksPassed_eq_ok_true_iff {model : Dict} :
    checksPassed model = .ok true ↔
      ∃ rows, Value.get model "checks" (.list []) = .list rows ∧ rows ≠ [] ∧
        ∀ row ∈ rows, ∃ d, row = .dict d ∧ Value.get d "status" = .str "passed" := by
  have hrow : ∀ row : Value, (do
      let row ← entries row "get"
      .ok (Value.eq (Value.get row "status") (.str "passed")) : Except Exn Bool) = .ok true ↔
        ∃ d, row = .dict d ∧ Value.get d "status" = .str "passed" := by
    intro row
    rw [bind_eq_ok_iff]
    simp only [entries_eq_ok_iff, Except.ok.injEq, Value.eq_str_iff]
  unfold checksPassed
  simp only
  generalize Value.get model "checks" (.list []) = checks
  split_ifs with htruthy
  · rw [bind_eq_ok_iff]
    simp only [elements, orRaise_eq_ok_iff, allM_eq_ok_true_iff, hrow]
    constructor
    · rintro ⟨rows, hrows, hall⟩
      cases checks with
      | list rows' =>
        obtain rfl : rows' = rows := Option.some.inj hrows
        exact ⟨rows', rfl, by simpa [Value.truthy] using htruthy, hall⟩
      | str s =>
        obtain rfl : s.toList.map (fun c => Value.str (String.singleton c)) = rows :=
          Option.some.inj hrows
        have hne : s.toList ≠ [] := by
          intro hnil
          exact absurd htruthy (by simp [Value.truthy, String.toList_eq_nil_iff.mp hnil])
        obtain ⟨c, cs, hcs⟩ := List.exists_cons_of_ne_nil hne
        obtain ⟨d, hd, -⟩ := hall (.str (String.singleton c))
          (List.mem_map.mpr ⟨c, hcs ▸ List.mem_cons_self, rfl⟩)
        exact absurd hd (by simp)
      | dict ps =>
        obtain rfl : ps.map (fun p => Value.str p.1) = rows := Option.some.inj hrows
        have hne : ps ≠ [] := by simpa [Value.truthy] using htruthy
        obtain ⟨p, ps', hps⟩ := List.exists_cons_of_ne_nil hne
        obtain ⟨d, hd, -⟩ := hall (.str p.1) (List.mem_map.mpr ⟨p, hps ▸ List.mem_cons_self, rfl⟩)
        exact absurd hd (by simp)
      | _ => exact absurd hrows (by simp [Value.iterate])
    · rintro ⟨rows, rfl, -, hall⟩
      exact ⟨rows, rfl, hall⟩
  · constructor
    · exact fun h => absurd h (by simp)
    · rintro ⟨rows, rfl, hne, -⟩
      exact absurd (by simpa [Value.truthy] using hne) htruthy

variable {h : Host} {registered : Table Dict} {revision : String}

theorem identityIssues_eq_nil_iff {current : Option Dict} {model : Dict} {issues : List String}
    (hi : identityIssues h revision current model = .ok issues) :
    issues = [] ↔ ∃ d, current = some d ∧
      Value.get model "profile_sha256" = .str (h.digest (.dict d)) ∧
      Value.get model "kernel_revision" = .str revision ∧
      (∃ a, d.lookup "architecture" = some a ∧
        Value.eq (Value.get model "architecture") a = true) ∧
      Value.get model "schema_version" = .int 1 := by
  unfold identityIssues at hi
  obtain ⟨architecture, harch, hi⟩ := bind_eq_ok_iff.mp hi
  rw [← Except.ok.inj hi]
  simp only [List.append_eq_nil_iff, issueUnless_eq_nil_iff]
  cases current with
  | none => simp [matchesDefinition]
  | some d =>
    unfold matchesArchitecture at harch
    obtain ⟨a, ha, harch⟩ := bind_eq_ok_iff.mp harch
    rw [item_eq_ok_iff] at ha
    obtain rfl := Except.ok.inj harch
    simp only [matchesDefinition, decide_eq_true_eq, Option.some.injEq, exists_eq_left', ha,
      and_assoc]

theorem policyOf_eq_nil_iff {current : Option Dict} {model policy : Dict} {issues : List String}
    (hp : policyOf h current model = .ok (policy, issues)) :
    issues = [] ↔ ∃ policy, checkedPolicy h current model = .ok policy := by
  unfold policyOf at hp
  rcases catching_eq_ok hp with hok | ⟨e, herror, heq⟩
  · cases hc : checkedPolicy h current model with
    | error e =>
      rw [hc] at hok
      exact absurd hok (by simp [Except.map])
    | ok policy' =>
      rw [hc] at hok
      simp only [Except.map, Except.ok.injEq, Prod.mk.injEq] at hok
      simp [← hok.2]
  · cases hc : checkedPolicy h current model with
    | error e' => simp [(Prod.mk.inj heq).2]
    | ok policy' =>
      rw [hc] at herror
      exact absurd herror (by simp [Except.map])

theorem inputsOf_eq_nil_iff {model : Dict} {inputs : Value} {stale : List Change}
    {issues : List String} (hi : inputsOf h model inputs = .ok (stale, issues)) :
    issues = [] ∧ stale = [] ↔ checkedInputs h model inputs = .ok [] := by
  unfold inputsOf at hi
  rcases catching_eq_ok hi with hok | ⟨e, herror, heq⟩
  · cases hc : checkedInputs h model inputs with
    | error e =>
      rw [hc] at hok
      exact absurd hok (by simp [Except.map])
    | ok stale' =>
      rw [hc] at hok
      simp only [Except.map, Except.ok.injEq, Prod.mk.injEq] at hok
      simp [← hok.1, ← hok.2]
  · cases hc : checkedInputs h model inputs with
    | error e' => simp [(Prod.mk.inj heq).2]
    | ok stale' =>
      rw [hc] at herror
      exact absurd herror (by simp [Except.map])

theorem hasPassed_eq_ok_true_iff {model : Dict} :
    hasPassed model = .ok true ↔ Value.get model "status" = .str "passed" ∧
      (Value.get model "level" = .str "L0" ∨ Value.get model "level" = .str "L1") ∧
      checksPassed model = .ok true := by
  unfold hasPassed
  split_ifs with hlevel
  · rw [and_iff_right hlevel.1, and_iff_right hlevel.2]
  · constructor
    · exact fun h => absurd h (by simp)
    · exact fun h => absurd ⟨h.1, h.2.1⟩ hlevel

/-- **An observation has a level exactly where the model qualifies for the profile that it names.** -/
theorem currentModelLevel_ne_none_iff {model origin date inputs : Value} {o : ModelObservation}
    (ho : modelObservation h registered revision model origin date inputs = .ok o) :
    o.currentModelLevel ≠ .none ↔ ∃ m current, model = .dict m ∧
      registered.get? (Value.get m "profile_id") = some current ∧
      Qualifies h revision inputs m current := by
  unfold modelObservation at ho
  obtain ⟨m, hm, ho⟩ := bind_eq_ok_iff.mp ho
  obtain ⟨found, hfound, ho⟩ := bind_eq_ok_iff.mp ho
  obtain ⟨identity, hidentity, ho⟩ := bind_eq_ok_iff.mp ho
  obtain ⟨⟨policy, policyIssues⟩, hpolicy, ho⟩ := bind_eq_ok_iff.mp ho
  obtain ⟨⟨stale, inputIssues⟩, hinputs, ho⟩ := bind_eq_ok_iff.mp ho
  obtain ⟨passed, hpassed, ho⟩ := bind_eq_ok_iff.mp ho
  obtain ⟨runtime, -, ho⟩ := bind_eq_ok_iff.mp ho
  rw [← Except.ok.inj ho]
  obtain rfl := entries_eq_ok_iff.mp hm
  obtain ⟨-, rfl⟩ := lookIn_eq_ok_iff.mp hfound
  simp only [List.append_eq_nil_iff]
  constructor
  · intro hlevel
    have hall := (ne_eq _ _ ▸ hlevel : ¬ _ = Value.none)
    split_ifs at hall with hcondition
    · obtain ⟨rfl, ⟨⟨hid, hpol⟩, hinp⟩, hstale⟩ := hcondition
      obtain ⟨hstatus, hlevels, hchecks⟩ := hasPassed_eq_ok_true_iff.mp hpassed
      obtain ⟨current, hcurrent, hdefinition, hrevision, harch, hschema⟩ :=
        (identityIssues_eq_nil_iff hidentity).mp hid
      refine ⟨m, current, rfl, hcurrent, ?_⟩
      exact
        { status := hstatus
          level := hlevels
          checks := checksPassed_eq_ok_true_iff.mp hchecks
          definition := hdefinition
          revision := hrevision
          architecture := harch
          schema := hschema
          policy := hcurrent ▸ (policyOf_eq_nil_iff hpolicy).mp hpol
          unchanged := (inputsOf_eq_nil_iff hinputs).mp ⟨hinp, hstale⟩ }
    · exact absurd rfl hall
  · rintro ⟨m', current, hm', hcurrent, hq⟩
    obtain rfl := Value.dict.inj hm'
    have hpass : passed = true := by
      have htrue := hasPassed_eq_ok_true_iff.mpr
        ⟨hq.status, hq.level, checksPassed_eq_ok_true_iff.mpr hq.checks⟩
      exact Except.ok.inj (hpassed.symm.trans htrue)
    have hid := (identityIssues_eq_nil_iff hidentity).mpr
      ⟨current, hcurrent, hq.definition, hq.revision, hq.architecture, hq.schema⟩
    have hpol := (policyOf_eq_nil_iff hpolicy).mpr (hcurrent.symm ▸ hq.policy)
    obtain ⟨hinp, hstale⟩ := (inputsOf_eq_nil_iff hinputs).mpr hq.unchanged
    rw [if_pos ⟨hpass, ⟨⟨hid, hpol⟩, hinp⟩, hstale⟩]
    rcases hq.level with hlevel | hlevel
    · simp [hlevel]
    · simp [hlevel]

/-! ## The models of a row -/

/-- The models that the summaries and the receipts supply, in order. -/
def supplied (h : Host) (checked : ℤ) (summaryPaths profilePaths : List PurePath) :
    Except Exn (List Filing) := do
  let runs ← readSummaries h checked summaryPaths
  let stored ← collect runFilings runs
  let receipts ← collect (fun path => (receiptFiling h path).map fun f => [f]) profilePaths
  .ok (stored ++ receipts)

/-- The models that are filed under a name. -/
def filedUnder (filings : List Filing) (name : Value) : List Filing :=
  filings.filter fun f => decide (Value.Same name f.name)

/-- The row gains the observations of the models that are filed under its name. -/
structure Gains (h : Host) (registered : Table Dict) (revision : String) (filings : List Filing)
    (row row' : ProfileRow) : Prop where
  id : row'.id = row.id
  evidence : ∃ more, row'.modelEvidence = row.modelEvidence ++ more ∧
    List.Forall₂ (fun f o => f.observe h registered revision = .ok o)
      (filedUnder filings row.id) more

theorem Gains.refl (row : ProfileRow) : Gains h registered revision [] row row :=
  ⟨rfl, [], by simp, .nil⟩

theorem Gains.trans {fs gs : List Filing} {row row' row'' : ProfileRow}
    (hf : Gains h registered revision fs row row') (hg : Gains h registered revision gs row' row'') :
    Gains h registered revision (fs ++ gs) row row'' := by
  obtain ⟨more, hmore, hforall⟩ := hf.evidence
  obtain ⟨more', hmore', hforall'⟩ := hg.evidence
  refine ⟨hg.id.trans hf.id, more ++ more', ?_, ?_⟩
  · rw [hmore', hmore, List.append_assoc]
  · rw [filedUnder, List.filter_append]
    exact List.rel_append hforall (hf.id ▸ hforall')

theorem forall₂_gains_refl (rows : List ProfileRow) :
    List.Forall₂ (Gains h registered revision []) rows rows := by
  induction rows with
  | nil => exact .nil
  | cons row rows ih => exact .cons (.refl row) ih

/-- One model. -/
theorem addModel_eq_ok {rows rows' : List ProfileRow} {f : Filing}
    (hadd : addModel h registered revision rows f = .ok rows') :
    List.Forall₂ (Gains h registered revision [f]) rows rows' := by
  have hskip : ∀ row : ProfileRow, ¬ row.IsNamed f.name → Gains h registered revision [f] row row := by
    intro row hrow
    refine ⟨rfl, [], by simp, ?_⟩
    have hnone : filedUnder [f] row.id = [] :=
      List.filter_eq_nil_iff.mpr fun g hg => by
        obtain rfl := List.mem_singleton.mp hg
        simpa [ProfileRow.IsNamed] using hrow
    rw [hnone]
    exact .nil
  unfold addModel at hadd
  split_ifs at hadd with hnamed
  · obtain ⟨o, ho, hadd⟩ := bind_eq_ok_iff.mp hadd
    rw [← Except.ok.inj hadd, List.forall₂_map_right_iff]
    refine List.forall₂_same.mpr fun row _ => ?_
    split_ifs with hrow
    · refine ⟨rfl, [o], rfl, ?_⟩
      have hone : filedUnder [f] row.id = [f] :=
        List.filter_eq_self.mpr fun g hg => by
          obtain rfl := List.mem_singleton.mp hg
          simpa [ProfileRow.IsNamed] using hrow
      rw [hone]
      exact .cons ho .nil
    · exact hskip row hrow
  · rw [← Except.ok.inj hadd]
    refine List.forall₂_same.mpr fun row hrow => hskip row fun hname => ?_
    exact hnamed (List.any_eq_true.mpr ⟨row, hrow, by simpa using hname⟩)

/-- A loop of which every turn adds the models that it finds. -/
theorem foldlM_gains {α : Type} {step : List ProfileRow → α → Except Exn (List ProfileRow)}
    (filed : α → Except Exn (List Filing))
    (hstep : ∀ rows a rows', step rows a = .ok rows' → ∃ fs, filed a = .ok fs ∧
      List.Forall₂ (Gains h registered revision fs) rows rows')
    {as : List α} {rows rows' : List ProfileRow} (hfold : as.foldlM step rows = .ok rows') :
    ∃ fs, collect filed as = .ok fs ∧ List.Forall₂ (Gains h registered revision fs) rows rows' := by
  induction as generalizing rows with
  | nil =>
    rw [← Except.ok.inj hfold]
    exact ⟨[], rfl, forall₂_gains_refl rows⟩
  | cons a as ih =>
    obtain ⟨middle, ha, hfold⟩ := foldlM_cons_eq_ok_iff.mp hfold
    obtain ⟨fs, hfs, hgains⟩ := hstep rows a middle ha
    obtain ⟨gs, hgs, hgains'⟩ := ih hfold
    exact ⟨fs ++ gs, collect_cons_eq_ok_iff.mpr ⟨fs, gs, hfs, hgs, rfl⟩,
      forall₂_trans hgains hgains' fun _ _ _ => Gains.trans⟩

theorem collect_singleton (fs : List Filing) :
    collect (fun f => (.ok [f] : Except Exn (List Filing))) fs = .ok fs := by
  induction fs with
  | nil => rfl
  | cons f fs ih => exact collect_cons_eq_ok_iff.mpr ⟨[f], fs, rfl, ih, rfl⟩

/-- The models of a run. -/
theorem addRun_eq_ok {rows rows' : List ProfileRow} {run : Run}
    (hadd : addRun h registered revision rows run = .ok rows') :
    ∃ fs, runFilings run = .ok fs ∧ List.Forall₂ (Gains h registered revision fs) rows rows' := by
  unfold addRun at hadd
  obtain ⟨fs, hfs, hadd⟩ := bind_eq_ok_iff.mp hadd
  obtain ⟨gs, hgs, hgains⟩ := foldlM_gains (fun f => .ok [f])
    (fun rows f rows' hf => ⟨[f], rfl, addModel_eq_ok hf⟩) hadd
  rw [collect_singleton] at hgs
  obtain rfl := Except.ok.inj hgs
  exact ⟨fs, hfs, hgains⟩

/-- The model of a receipt of a single profile. -/
theorem addReceipt_eq_ok {rows rows' : List ProfileRow} {path : PurePath}
    (hadd : addReceipt h registered revision rows path = .ok rows') :
    ∃ fs, (receiptFiling h path).map (fun f => [f]) = .ok fs ∧
      List.Forall₂ (Gains h registered revision fs) rows rows' := by
  unfold addReceipt at hadd
  obtain ⟨f, hf, hadd⟩ := bind_eq_ok_iff.mp hadd
  obtain ⟨_, -, hadd⟩ := bind_eq_ok_iff.mp hadd
  obtain ⟨_, -, hadd⟩ := bind_eq_ok_iff.mp hadd
  exact ⟨[f], by rw [hf]; rfl, addModel_eq_ok hadd⟩

/-- The row of a profile has the observations of these models. -/
def Observes (h : Host) (registered : Table Dict) (revision : String) (filings : List Filing)
    (row : ProfileRow) : Prop :=
  List.Forall₂ (fun f o => f.observe h registered revision = .ok o)
    (filedUnder filings row.id) row.modelEvidence

/-- **A row has the observations of the models that are supplied under its name.** -/
theorem profileEvidence_eq_ok {runs : List Run} {profilePaths : List PurePath}
    {rows : List ProfileRow}
    (hrows : profileEvidence h registered revision runs profilePaths = .ok rows) :
    ∃ stored receipts, collect runFilings runs = .ok stored ∧
      collect (fun path => (receiptFiling h path).map fun f => [f]) profilePaths = .ok receipts ∧
      List.Forall₂ (fun p row => row.id = p.1 ∧
        Observes h registered revision (stored ++ receipts) row) registered rows := by
  unfold profileEvidence at hrows
  obtain ⟨start, hstart, hrows⟩ := bind_eq_ok_iff.mp hrows
  obtain ⟨middle, hmiddle, hrows⟩ := bind_eq_ok_iff.mp hrows
  obtain ⟨stored, hstored, hgains⟩ := foldlM_gains runFilings
    (fun rows run rows' (hadd : addRun h registered revision rows run = .ok rows') =>
      addRun_eq_ok hadd) hmiddle
  obtain ⟨receipts, hreceipts, hgains'⟩ := foldlM_gains
    (fun path => (receiptFiling h path).map fun f => [f])
    (fun rows path rows' (hadd : addReceipt h registered revision rows path = .ok rows') =>
      addReceipt_eq_ok hadd) hrows
  refine ⟨stored, receipts, hstored, hreceipts, ?_⟩
  have hempty : List.Forall₂ (fun (p : Value × Dict) row => row.id = p.1 ∧ row.modelEvidence = [])
      registered start := by
    refine (mapM_eq_ok_iff.mp hstart).imp fun p row hrow => ?_
    unfold startProfile at hrow
    obtain ⟨architecture, -, hrow⟩ := bind_eq_ok_iff.mp hrow
    obtain ⟨abi, -, hrow⟩ := bind_eq_ok_iff.mp hrow
    rw [← Except.ok.inj hrow]
    exact ⟨rfl, rfl⟩
  have hall := forall₂_trans hgains hgains' fun _ _ _ => Gains.trans
  refine forall₂_trans hempty hall fun p row row' hrow hgain => ?_
  obtain ⟨more, hmore, hforall⟩ := hgain.evidence
  refine ⟨hgain.id.trans hrow.1, ?_⟩
  unfold Observes
  rwa [hgain.id, hmore, hrow.2, List.nil_append]

/-! ## What a row reports -/

/-- The model is one of the profile: it names it, and it names the profile as it is registered, its
architecture and the pinned revision. -/
def OwnModel (h : Host) (registered : Table Dict) (revision : String) (name model : Value) : Prop :=
  ∃ m current, model = .dict m ∧ Value.Same name (Value.get m "profile_id") ∧
    registered.get? name = some current ∧
    Value.get m "profile_sha256" = .str (h.digest (.dict current)) ∧
    (∃ a, current.lookup "architecture" = some a ∧
      Value.eq (Value.get m "architecture") a = true) ∧
    Value.get m "kernel_revision" = .str revision

/-- A row reports only its own models: wherever it has an observation with a level, and where its
own level comes from, the model that was observed is one of the profile. -/
structure ReportsOwn (h : Host) (registered : Table Dict) (revision : String)
    (filings : List Filing) (row : ProfileRow) : Prop where
  evidence : List.Forall₂ (fun f o => o.currentModelLevel ≠ .none →
    OwnModel h registered revision row.id f.model) (filedUnder filings row.id) row.modelEvidence
  dated : row.currentDatedModelLevel ≠ .none →
    ∃ f o, (f, o) ∈ (filedUnder filings row.id).zip row.modelEvidence ∧
      row.latestDatedModel = some (.observation o) ∧
      row.currentDatedModelLevel = o.currentModelLevel ∧
      OwnModel h registered revision row.id f.model

/-- A qualified model that is filed under another name than that of its profile. -/
def Misfiled (h : Host) (registered : Table Dict) (revision : String) (name : Value) (f : Filing) :
    Prop :=
  ∃ m current, f.model = .dict m ∧ ¬ Value.Same name (Value.get m "profile_id") ∧
    registered.get? (Value.get m "profile_id") = some current ∧
    Qualifies h revision f.inputs m current

/-- A table has the same under equal keys. -/
theorem Table.get?_of_same {α : Type} {table : Table α} {key key' : Value}
    (hsame : Value.Same key key') : table.get? key = table.get? key' := by
  unfold Table.get?
  congr 2
  funext p
  exact decide_eq_decide.mpr ⟨fun h => h.trans hsame, fun h => h.trans hsame.symm⟩

/-- An observation with a level is one of an own model, unless the model is misfiled. -/
theorem ownModel_iff {name : Value} {f : Filing} {o : ModelObservation}
    (ho : f.observe h registered revision = .ok o) :
    (o.currentModelLevel ≠ .none → OwnModel h registered revision name f.model) ↔
      ¬ Misfiled h registered revision name f := by
  constructor
  · rintro hown ⟨m, current, hm, hname, hcurrent, hq⟩
    obtain ⟨m', -, hm', hsame, -⟩ :=
      hown ((currentModelLevel_ne_none_iff ho).mpr ⟨m, current, hm, hcurrent, hq⟩)
    rw [hm] at hm'
    exact hname (Value.dict.inj hm' ▸ hsame)
  · intro hmis hlevel
    obtain ⟨m, current, hm, hcurrent, hq⟩ := (currentModelLevel_ne_none_iff ho).mp hlevel
    by_cases hname : Value.Same name (Value.get m "profile_id")
    · exact ⟨m, current, hm, hname, (Table.get?_of_same hname).trans hcurrent, hq.definition,
        hq.architecture, hq.revision⟩
    · exact absurd ⟨m, current, hm, hname, hcurrent, hq⟩ hmis

theorem forall₂_ownModel_iff (name : Value) {fs : List Filing} {os : List ModelObservation}
    (hobs : List.Forall₂ (fun f o => f.observe h registered revision = .ok o) fs os) :
    List.Forall₂ (fun f o => o.currentModelLevel ≠ .none →
      OwnModel h registered revision name f.model) fs os ↔
      ∀ f ∈ fs, ¬ Misfiled h registered revision name f := by
  induction hobs with
  | nil => simp
  | cons ho _ ih => rw [List.forall₂_cons, List.forall_mem_cons, ih, ownModel_iff ho]

/-! ## The level of a row -/

theorem mem_of_datedModels {evidence : List ModelObservation} {dated : List (ℤ × ModelObservation)}
    (hd : datedModels h evidence = .ok dated) {p : ℤ × ModelObservation} (hp : p ∈ dated) :
    p.2 ∈ evidence := by
  unfold datedModels at hd
  obtain ⟨pairs, hpairs, hd⟩ := bind_eq_ok_iff.mp hd
  rw [← Except.ok.inj hd, List.mem_insertionSort] at hp
  obtain ⟨o, ho, hop⟩ := exists_of_forall₂_right (mapM_eq_ok_iff.mp hpairs) hp
  obtain ⟨time, -, hop⟩ := bind_eq_ok_iff.mp hop
  rw [← Except.ok.inj hop]
  exact (List.mem_filter.mp ho).1

theorem mem_of_latestModel {dated : List (ℤ × ModelObservation)} {o : ModelObservation}
    (hl : latestModel dated = some (.observation o)) : ∃ p ∈ dated, p.2 = o := by
  unfold latestModel at hl
  split at hl
  · exact absurd hl (by simp)
  · next last hlast =>
    refine ⟨last, List.mem_reverse.mp (hlast ▸ List.mem_cons_self), ?_⟩
    simpa using hl
  · next last before tail hlast =>
    split_ifs at hl
    · exact absurd hl (by simp)
    · refine ⟨last, List.mem_reverse.mp (hlast ▸ List.mem_cons_self), ?_⟩
      simpa using hl

/-- What finishing a row leaves alone, and where its level comes from. -/
theorem finishProfile_eq_ok {targets : List (String × Dict)} {runs : List Run}
    {row row' : ProfileRow} (hf : finishProfile h targets runs row = .ok row') :
    row'.id = row.id ∧ row'.modelEvidence = row.modelEvidence ∧
      (row'.currentDatedModelLevel ≠ .none → ∃ o ∈ row.modelEvidence,
        row'.latestDatedModel = some (.observation o) ∧
        row'.currentDatedModelLevel = o.currentModelLevel) := by
  unfold finishProfile at hf
  obtain ⟨dated, hdated, hf⟩ := bind_eq_ok_iff.mp hf
  rw [← Except.ok.inj hf]
  refine ⟨rfl, rfl, ?_⟩
  simp only
  intro hlevel
  split_ifs at hlevel ⊢ with hundated
  · exact absurd rfl hlevel
  · cases hlatest : latestModel dated with
    | none =>
      rw [hlatest] at hlevel
      exact absurd rfl hlevel
    | some latest =>
      cases latest with
      | ambiguous completedAt =>
        rw [hlatest] at hlevel
        exact absurd rfl hlevel
      | observation o =>
        obtain ⟨p, hp, rfl⟩ := mem_of_latestModel hlatest
        exact ⟨p.2, mem_of_datedModels hdated hp, rfl, rfl⟩

/-- A row with the observations of its models reports only its own ones, unless one is misfiled. -/
theorem reportsOwn_iff {filings : List Filing} {targets : List (String × Dict)} {runs : List Run}
    {row row' : ProfileRow} (hobs : Observes h registered revision filings row)
    (hf : finishProfile h targets runs row = .ok row') (targetRows : List TargetRow) :
    ReportsOwn h registered revision filings (row'.withTargets targetRows) ↔
      ∀ f ∈ filedUnder filings row.id, ¬ Misfiled h registered revision row.id f := by
  obtain ⟨hid, hevidence, hdated⟩ := finishProfile_eq_ok hf
  have hall := forall₂_ownModel_iff row.id hobs
  constructor
  · intro hown
    have := hown.evidence
    simp only [ProfileRow.withTargets, hid, hevidence] at this
    exact hall.mp this
  · intro hmis
    have hforall := hall.mpr hmis
    refine ⟨?_, ?_⟩
    · simp only [ProfileRow.withTargets, hid, hevidence]
      exact hforall
    · intro hlevel
      obtain ⟨o, ho, hlatest, hsame⟩ := hdated hlevel
      simp only [ProfileRow.withTargets, hid, hevidence]
      obtain ⟨f, hf, hown⟩ := exists_mem_zip_of_forall₂ hforall ho
      exact ⟨f, o, hf, hlatest, hsame, hown (hsame ▸ hlevel)⟩

/-! ## The matrix -/

/-- The rows of the profiles, as the matrix has them. -/
theorem generateMatrix_profiles {h : Host} {routes : Routes}
    {retainedTarget : Dict → Run → Except Exn Dict} {summaryPaths profilePaths : List PurePath}
    {checkedAt : Option String} {matrix : Matrix}
    (hm : generateMatrix h routes retainedTarget summaryPaths profilePaths checkedAt = .ok matrix) :
    ∃ targets registered runs rows finished,
      loadProfiles h routes = .ok registered ∧
      readSummaries h matrix.checkedAt summaryPaths = .ok runs ∧
      profileEvidence h registered matrix.revision runs profilePaths = .ok rows ∧
      List.Forall₂ (fun row row' => finishProfile h targets runs row = .ok row') rows finished ∧
      matrix.profiles = finished.map (ProfileRow.withTargets matrix.targets) := by
  unfold generateMatrix at hm
  obtain ⟨checked, -, hm⟩ := bind_eq_ok_iff.mp hm
  obtain ⟨_, -, hm⟩ := bind_eq_ok_iff.mp hm
  obtain ⟨⟨revision, targets, assumptions⟩, -, hm⟩ := bind_eq_ok_iff.mp hm
  obtain ⟨registered, hregistered, hm⟩ := bind_eq_ok_iff.mp hm
  obtain ⟨roster, -, hm⟩ := bind_eq_ok_iff.mp hm
  obtain ⟨_, -, hm⟩ := bind_eq_ok_iff.mp hm
  obtain ⟨runs, hruns, hm⟩ := bind_eq_ok_iff.mp hm
  obtain ⟨rows, hrows, hm⟩ := bind_eq_ok_iff.mp hm
  obtain ⟨finished, hfinished, hm⟩ := bind_eq_ok_iff.mp hm
  obtain ⟨pairs, -, hm⟩ := bind_eq_ok_iff.mp hm
  obtain ⟨architectures, -, hm⟩ := bind_eq_ok_iff.mp hm
  obtain ⟨architectures', -, hm⟩ := bind_eq_ok_iff.mp hm
  obtain ⟨architectureRows, -, hm⟩ := bind_eq_ok_iff.mp hm
  obtain ⟨counts, -, hm⟩ := bind_eq_ok_iff.mp hm
  rw [← Except.ok.inj hm]
  exact ⟨targets, registered, runs, rows, finished, hregistered, hruns, hrows,
    mapM_eq_ok_iff.mp hfinished, rfl⟩

/-- **Every row reports only its own models, unless a summary stores a qualified model of one
profile under the name of another.** -/
theorem generateMatrix_reportsOwn_iff {h : Host} {routes : Routes}
    {retainedTarget : Dict → Run → Except Exn Dict} {summaryPaths profilePaths : List PurePath}
    {checkedAt : Option String} {matrix : Matrix}
    (hm : generateMatrix h routes retainedTarget summaryPaths profilePaths checkedAt = .ok matrix) :
    ∃ registered filings, loadProfiles h routes = .ok registered ∧
      supplied h matrix.checkedAt summaryPaths profilePaths = .ok filings ∧
      ((∀ row ∈ matrix.profiles, ReportsOwn h registered matrix.revision filings row) ↔
        ∀ p ∈ registered, ∀ f ∈ filedUnder filings p.1,
          ¬ Misfiled h registered matrix.revision p.1 f) := by
  obtain ⟨targets, registered, runs, rows, finished, hregistered, hruns, hrows, hfinished,
    hprofiles⟩ := generateMatrix_profiles hm
  obtain ⟨stored, receipts, hstored, hreceipts, hobserves⟩ := profileEvidence_eq_ok hrows
  refine ⟨registered, stored ++ receipts, hregistered, ?_, ?_⟩
  · unfold supplied
    exact bind_eq_ok_iff.mpr ⟨runs, hruns, bind_eq_ok_iff.mpr
      ⟨stored, hstored, bind_eq_ok_iff.mpr ⟨receipts, hreceipts, rfl⟩⟩⟩
  · rw [hprofiles, List.forall_mem_map]
    have hpaired := forall₂_trans hobserves hfinished
      (T := fun p row' => ∃ row : ProfileRow, row.id = p.1 ∧
        Observes h registered matrix.revision (stored ++ receipts) row ∧
        finishProfile h targets runs row = .ok row')
      fun p row row' hrow hfinish => ⟨row, hrow.1, hrow.2, hfinish⟩
    refine forall_iff_of_forall₂ (hpaired.imp fun p row' ⟨row, hid, hobs, hfinish⟩ => ?_)
    exact hid ▸ reportsOwn_iff hobs hfinish matrix.targets

/-! ## A model of one architecture in the row of another -/

/-- A revision of the kernel. -/
def kernelRevision : String := "b9b3e33b70b71e516930117e21de3ad2a7723747"

/-- An architecture of a roster, without a registered profile. -/
def rosterEntry (name compilerTarget : String) : Doc :=
  .obj [("id", .str name), ("kernel_arch", .str name), ("subarch", .null),
    ("baseline_profile", .str (name ++ "-gcc")), ("compiler_target", .str compilerTarget),
    ("variants", .arr [])]

/-- A manifest of schema version 1 with further entries. -/
def manifestOf (entries : List (String × Doc)) : Doc :=
  .obj (("schema_version", .int 1) :: ("kernel_revision", .str kernelRevision) :: entries)

/-- The manifests of a project with two planned profiles and these targets. -/
def manifestsOf (targets : List Doc) : List (String × Doc) :=
  [("/r/config/architectures.json", manifestOf [("architectures",
      .arr [rosterEntry "arc" "arc-linux-gnu", rosterEntry "csky" "csky-linux-gnuabiv2"])]),
    ("/r/config/profiles.json", manifestOf [("defaults", .obj []), ("profiles", .arr [])]),
    ("/r/config/targets.json", manifestOf [("targets", .arr targets)]),
    ("/r/config/assumptions.json", manifestOf []),
    ("/r/toolchain/assumptions.json", manifestOf []), ("/r/toolchain/lock.json", manifestOf [])]

/-- A hash of a file that nothing looks at closely. -/
def someHash : String := "0421214960441d55a9859ecf90ddb72f90b7ca185481b2154652c40f392d63af"

/-- The hash of the fixture of a calibration. -/
def fixtureHash : String := "d4666f87653bb82980cec9b464772c432b2144960ff612b277b46fdde80807a9"

/-- The hash of the planned profile of `csky`. -/
def cskyHash : String := "6320390f9c1e466dc1c86423c257d96bdf2998b548a1f37dd83c2e9700a988f1"

/-- The hash of the planned profile of `arc`. -/
def arcHash : String := "b4fdff8012304129009f5097ef381ef7eb91fe5a1ed856634bd8fbf4a7297c07"

/-- A project under `/r` with these JSON files and a fixture. -/
def projectOf (configs : List String) (files : List (String × Doc)) : Host where
  root := PurePath.parse "/r"
  cwd := PurePath.parse "/r"
  configs := configs
  file path :=
    if path = "/r/profiles/calibration.c" then some ⟨fixtureHash, none⟩
    else (files.lookup path).map fun doc => ⟨someHash, some doc⟩
  isFile path := path = "/r/profiles/calibration.c" || (files.lookup path).isSome
  isSymlink _ := false
  resolve path := path
  digest v :=
    if Value.get (match v with | .dict d => d | _ => []) "id" = .str "csky-gcc" then cskyHash
    else arcHash
  instant text :=
    if text = "2026-01-01T00:00:00+00:00" then .ok 1767225600
    else .error (coverageError ("invalid evidence date: " ++ text))
  now := 1767312000

/-- The manifests of the configuration of the project. -/
def exampleConfigs : List String :=
  ["architectures.json", "assumptions.json", "profiles.json", "targets.json"]

/-- A model of `csky` that has passed at level L1. -/
def cskyModel : Doc :=
  .obj [("schema_version", .int 1), ("profile_id", .str "csky-gcc"), ("status", .str "passed"),
    ("level", .str "L1"), ("profile_sha256", .str cskyHash),
    ("kernel_revision", .str kernelRevision), ("architecture", .str "csky"),
    ("checks", .arr [.obj [("name", .str "layout"), ("status", .str "passed")]]),
    ("fixture_sha256", .str fixtureHash),
    ("generator", .obj [("path", .str "/usr/share/make_machdep.py")])]

/-- A summary of an incomplete run that stores a model under a name. -/
def summaryOf (name : String) (model : Doc) : Doc :=
  .obj [("schema_version", .int 1), ("status", .str "incomplete"),
    ("started_at", .str "2026-01-01T00:00:00+00:00"),
    ("completed_at", .str "2026-01-01T00:00:00+00:00"), ("selected_targets", .arr [.str "t"]),
    ("targets", .arr []), ("accepted", .bool false), ("profiles", .obj [(name, model)])]

/-- The project with a summary that stores the model of `csky` under a name. -/
def storedHost (name : String) : Host :=
  projectOf exampleConfigs (("/r/summary.json", summaryOf name cskyModel) :: manifestsOf [])

/-- Checks that always pass. -/
def anyRoutes : Routes := ⟨fun _ => .ok (), fun _ => .ok (), fun _ => .ok ()⟩

/-- Evidence that is never retained. -/
def noEvidence (_ : Dict) (_ : Run) : Except Exn Dict :=
  .ok [("status", .str "unavailable-or-mismatched")]

/-- The matrix of the project with the model of `csky` under a name. -/
def storedMatrix (name : String) : Except Exn Matrix :=
  generateMatrix (storedHost name) anyRoutes noEvidence [PurePath.parse "summary.json"] [] none

/-- The row of a profile has this level, from a model of this profile. -/
def ProfileRow.shows (row : ProfileRow) (name level model : String) : Bool :=
  row.id = .str name && row.currentDatedModelLevel = .str level &&
    match row.latestDatedModel with
    | some (.observation o) => o.profileId = .str model && o.currentModelLevel = .str level
    | _ => false

/-- Under its own name the model shows its level in its own row. -/
theorem generateMatrix_reportsOwn_csky :
    ∃ matrix, storedMatrix "csky-gcc" = .ok matrix ∧
      (matrix.profiles.any fun row => row.shows "csky-gcc" "L1" "csky-gcc") = true ∧
      ∃ registered filings, loadProfiles (storedHost "csky-gcc") anyRoutes = .ok registered ∧
        supplied (storedHost "csky-gcc") matrix.checkedAt [PurePath.parse "summary.json"] [] =
          .ok filings ∧
        ((∀ row ∈ matrix.profiles,
            ReportsOwn (storedHost "csky-gcc") registered matrix.revision filings row) ↔
          ∀ p ∈ registered, ∀ f ∈ filedUnder filings p.1,
            ¬ Misfiled (storedHost "csky-gcc") registered matrix.revision p.1 f) := by
  obtain ⟨matrix, hm, hshows⟩ := exists_of_returns (x := storedMatrix "csky-gcc")
    (f := fun m => m.profiles.any fun row => row.shows "csky-gcc" "L1" "csky-gcc")
    (by decide +kernel)
  exact ⟨matrix, hm, hshows, generateMatrix_reportsOwn_iff hm⟩

/-- Under the name of the other profile it shows its level in the other row. -/
theorem arcRow_shows_csky :
    ∃ matrix, storedMatrix "arc-gcc" = .ok matrix ∧
      ∃ row ∈ matrix.profiles, row.id = .str "arc-gcc" ∧
        row.currentDatedModelLevel = .str "L1" ∧
        ∃ o, row.latestDatedModel = some (.observation o) ∧ o.currentModelLevel = .str "L1" ∧
          o.profileId = .str "csky-gcc" := by
  obtain ⟨matrix, hm, hshows⟩ := exists_of_returns (x := storedMatrix "arc-gcc")
    (f := fun m => m.profiles.any fun row => row.shows "arc-gcc" "L1" "csky-gcc")
    (by decide +kernel)
  obtain ⟨row, hrow, hshows⟩ := List.any_eq_true.mp hshows
  refine ⟨matrix, hm, row, hrow, ?_⟩
  unfold ProfileRow.shows at hshows
  rw [Bool.and_eq_true, Bool.and_eq_true, decide_eq_true_eq, decide_eq_true_eq] at hshows
  obtain ⟨⟨hid, hlevel⟩, hlatest⟩ := hshows
  refine ⟨hid, hlevel, ?_⟩
  split at hlatest
  · next o ho =>
    rw [Bool.and_eq_true, decide_eq_true_eq, decide_eq_true_eq] at hlatest
    exact ⟨o, ho, hlatest.2, hlatest.1⟩
  · exact absurd hlatest (by simp)

end Coverage
end Fragma
