import Fragma.Keyed.Join
import Fragma.Report.Soundness

/-!
# What reviews waive

A review of an accepted target waives one diagnostic.  `SmokeWaiver`, `WarningWaiver` and
`TrapWaiver` say what a waived smoke goal, a waived warning and a reviewed property have in common
with their records, and `Waivers` that the records of the envelope and what they waive correspond
one to one.

* `smokeReview_waiver`, `warningReview_waiver`: one record.
* `envelopeReviews_waivers`: all the records of an envelope.
* `evaluateTarget_waivers`: **reviews waive one diagnostic each and nothing else**.
-/

namespace Fragma
namespace Report

open Python Posix Keyed

/-! ## One record and what it waives -/

/-- A smoke goal is the one that a record is about: it shows a dead call or dead code in a selected
function. -/
structure SmokeWaiver (host : Host) (root : PurePath) (functions : List String) (g : Goal)
    (d : Dict) : Prop where
  smoke : g.smoke = true
  inconsistent : g.outcome = .inconsistent
  goal : Value.get d "goal" = .str g.goal
  property : Value.get d "property" = .str g.property
  function : Value.get d "function" = .str g.function
  line : Value.get d "line" = .int g.line
  path : reviewPath host root (Value.get d "file") = .ok g.path
  dead : isDeadSmoke g.property = true
  selected : g.function ∈ functions

/-- The record and the warning have no place, or the same. -/
def SamePlace (host : Host) (root : PurePath) (d w : Dict) : Prop :=
  let file := Value.get w "path" (Value.get w "file")
  if Value.has d "file" then
    ∃ path, reviewPath host root (Value.get d "file") = .ok path ∧ file ≠ .none ∧
      Value.eq (Value.get w "line") (Value.get d "line") = true ∧
      reviewPath host root file = .ok path
  else file = .none ∧ Value.get w "line" = .none

/-- A warning says what a record says, at its place, and of no function but an analysed one. -/
structure Repeats (host : Host) (root : PurePath) (functions : List String) (d w : Dict) : Prop where
  fields : ∀ field ∈ ["message", "plugin", "severity"],
    Value.eq (Value.get w field) (Value.get d field) = true
  place : SamePlace host root d w
  function : Value.has w "function" = true → ∃ f ∈ functions, Value.get w "function" = .str f

/-- A warning is the only one that a record is about. -/
structure WarningWaiver (host : Host) (root : PurePath) (functions : List String)
    (warnings : List Value) (index : ℕ) (w : Value) (d : Dict) : Prop where
  stands : warnings[index]? = some w
  repeats : ∃ e, w = .dict e ∧ Repeats host root functions d e
  only : ∀ j e, warnings[j]? = some (.dict e) → Repeats host root functions d e → j = index

/-- The fields by which a reviewed property is found. -/
def trapFields : List String := ["path", "line", "function", "kind", "status", "property"]

/-- A property is the false assertion of an unselected function that a reviewed dead call would have
reached, and the only one with its status. -/
structure TrapWaiver (host : Host) (root : PurePath) (functions : List String) (rows : List Row)
    (r : Row) (d : Dict) : Prop where
  stands : r ∈ rows
  unselected : ∃ f, r.get "function" = .str f ∧ f ∉ functions ∧
    ∃ property, Value.get d "property" = .str property ∧
      deadName "_wp_smoke_dead_call_s" property = some f
  kind : r.get "kind" = .str "user assertion"
  property : r.get "property" = .str "\\false"
  unreachable : ∃ status, r.get "status" = .str status ∧ csvOutcome status = some .unreachable
  path : ∃ path, reviewPath host root (Value.get d "file") = .ok path ∧ r.get "path" = .str path
  line : Value.eq (r.get "line") (Value.get d "line") = true
  only : (rows.filter fun r' => trapFields.all fun field => Value.eq (r'.get field) (r.get field)) =
    [r]

/-! ## Smoke goals -/

theorem eq_of_eq_str {v : Value} {s : String} (h : Value.eq v (.str s) = true) : v = .str s :=
  Value.eq_str_iff.mp h

/-- A line number is an integer. -/
theorem exists_of_isLineNumber {v : Value} (h : isLineNumber v = true) : ∃ n, v = .int n := by
  cases v with
  | int n => exact ⟨n, rfl⟩
  | _ => exact absurd h (by simp [isLineNumber])

/-- What equals a value equals what that value equals. -/
theorem eq_congr_right {a b c : Value} (h : Value.Same b c) : Value.eq a b = Value.eq a c := by
  rw [Bool.eq_iff_iff, Value.eq_iff, Value.eq_iff]
  exact and_congr_right fun _ => ⟨fun hab => hab.trans h, fun hac => hac.trans h.symm⟩

theorem same_of_eq {a b : Value} (h : Value.eq a b = true) : Value.Same a b := (Value.eq_iff.mp h).2

theorem exists_of_isUnreachable {v : Value} (h : isUnreachable v = true) :
    ∃ status, v = .str status ∧ csvOutcome status = some .unreachable := by
  cases v with
  | str s => exact ⟨s, rfl, of_decide_eq_true h⟩
  | _ => exact absurd h (by simp [isUnreachable])

/-- The record of a dead path names a row that no other row repeats. -/
theorem reviewTrap_waiver {scope : ReviewScope} {path property : String} {line : Value} {d : Dict}
    {approved approved' : Approved} {trap : Value}
    (hpath : reviewPath scope.host scope.root (Value.get d "file") = .ok path)
    (hproperty : Value.get d "property" = .str property) (hline : Value.get d "line" = line)
    (h : reviewTrap scope path property line d approved trap = .ok approved') :
    approved'.smoke = approved.smoke ∧ approved'.warnings = approved.warnings ∧
      ∀ u ∈ approved'.unreachable, u ∈ approved.unreachable ∨
        u.2 = d ∧ TrapWaiver scope.host scope.root scope.analysisFunctions scope.rows u.1 d := by
  obtain ⟨hsmoke, hwarnings⟩ := reviewTrap_eq_ok h
  refine ⟨hsmoke, hwarnings, ?_⟩
  unfold reviewTrap at h
  split at h
  · rw [← Except.ok.inj h]
    exact fun u hu => .inl hu
  · next trap =>
    obtain ⟨_, -, h⟩ := bind_eq_ok_iff.mp h
    obtain ⟨trapPath, htrapPath, h⟩ := bind_eq_ok_iff.mp h
    obtain ⟨_, hexact, hlast⟩ := bind_eq_ok_iff.mp h
    clear h
    dsimp only at hlast
    rw [raiseIf_eq_ok_iff] at hexact
    simp only [not_or, not_not] at hexact
    obtain ⟨hsame, htrapLine, hunselected, hkind, hfalse, hunreachable, hdead⟩ := hexact
    subst hsame
    split at hlast
    · next r hlocated =>
      split_ifs at hlast
      have h := hlast
      rw [← Except.ok.inj h]
      intro u hu
      rcases List.mem_append.mp hu with hu | hu
      · exact .inl hu
      refine .inr ?_
      rw [List.mem_singleton.mp hu]
      refine ⟨rfl, ?_⟩
      have hmem : r ∈ scope.rows ∧ Value.eq (r.get "path") (.str trapPath) = true ∧
          ∀ field ∈ ["line", "function", "kind", "status", "property"],
            Value.eq (r.get field) (Value.get trap field) = true := by
        have := hlocated ▸ List.mem_singleton_self r
        simpa only [List.mem_filter, Bool.and_eq_true, List.all_eq_true] using this
      obtain ⟨hr, hrpath, hfields⟩ := hmem
      have hfunction : ∃ f, deadName "_wp_smoke_dead_call_s" property = some f ∧
          Value.get trap "function" = .str f := by
        obtain ⟨f, hf, heq⟩ := Option.map_eq_some_iff.mp hdead
        exact ⟨f, hf, heq.symm⟩
      obtain ⟨f, hname, hf⟩ := hfunction
      obtain ⟨status, hstatus, hcsv⟩ := exists_of_isUnreachable hunreachable
      have hfield : ∀ {field s}, field ∈ ["line", "function", "kind", "status", "property"] →
          Value.get trap field = .str s → r.get field = .str s := by
        intro field s hin htext
        exact Value.eq_str_iff.mp (htext ▸ hfields field hin)
      refine
        { stands := hr
          unselected := ⟨f, hfield (by decide) hf, fun hin => hunselected ?_, property, hproperty,
            hname⟩
          kind := hfield (by decide) hkind
          property := hfield (by decide) hfalse
          unreachable := ⟨status, hfield (by decide) hstatus, hcsv⟩
          path := ⟨trapPath, hpath, Value.eq_str_iff.mp hrpath⟩
          line := ?_
          only := ?_ }
      · rw [hf]
        exact Value.member_str_iff.mpr (List.mem_map_of_mem hin)
      · rw [hline, ← eq_congr_right (same_of_eq htrapLine)]
        exact hfields "line" (by decide)
      · rw [← hlocated]
        refine List.filter_congr fun r' _ => ?_
        have hsame : ∀ field ∈ ["line", "function", "kind", "status", "property"],
            Value.eq (r'.get field) (r.get field) = Value.eq (r'.get field) (Value.get trap field) :=
          fun field hin => eq_congr_right (same_of_eq (hfields field hin))
        have hsamePath : Value.eq (r'.get "path") (r.get "path") =
            Value.eq (r'.get "path") (.str trapPath) := eq_congr_right (same_of_eq hrpath)
        show (Value.eq (r'.get "path") (r.get "path") &&
          ["line", "function", "kind", "status", "property"].all fun field =>
            Value.eq (r'.get field) (r.get field)) = _
        rw [hsamePath]
        refine congrArg (Value.eq (r'.get "path") (.str trapPath) && ·) ?_
        rw [Bool.eq_iff_iff, List.all_eq_true, List.all_eq_true]
        exact forall₂_congr fun field hin => by rw [hsame field hin]
    · exact absurd hlast (by simp)
  · exact absurd h (by simp)

/-- A review of a smoke goal waives one goal. -/
theorem smokeReview_waiver {scope : ReviewScope} {approved approved' : Approved} {record : Value}
    (h : smokeReview scope approved record = .ok approved') :
    ∃ d g, record = .dict d ∧ approved'.smoke = approved.smoke ++ [(g.goal, d)] ∧
      g.goal ∉ approved.smoke.map Prod.fst ∧ approved'.warnings = approved.warnings ∧
      g ∈ scope.goals ∧ SmokeWaiver scope.host scope.root scope.analysisFunctions g d ∧
      ∀ u ∈ approved'.unreachable, u ∈ approved.unreachable ∨
        u.2 = d ∧ TrapWaiver scope.host scope.root scope.analysisFunctions scope.rows u.1 d := by
  unfold smokeReview at h
  obtain ⟨⟨d, hashes⟩, hd, h⟩ := bind_eq_ok_iff.mp h
  dsimp only at h
  obtain ⟨goal, hgoal, h⟩ := bind_eq_ok_iff.mp h
  obtain ⟨property, hproperty, h⟩ := bind_eq_ok_iff.mp h
  obtain ⟨function, hfunction, h⟩ := bind_eq_ok_iff.mp h
  obtain ⟨file, hfile, h⟩ := bind_eq_ok_iff.mp h
  obtain ⟨_, hline, h⟩ := bind_eq_ok_iff.mp h
  obtain ⟨path, hpath, h⟩ := bind_eq_ok_iff.mp h
  obtain ⟨_, hselected, h⟩ := bind_eq_ok_iff.mp h
  obtain ⟨_, hdead, h⟩ := bind_eq_ok_iff.mp h
  obtain ⟨_, hmatched, h⟩ := bind_eq_ok_iff.mp h
  obtain ⟨_, hfresh, htrap⟩ := bind_eq_ok_iff.mp h
  rw [raiseIf_eq_ok_iff] at hline hselected hdead hmatched hfresh
  rw [not_not] at hline hdead
  rw [not_or, not_not] at hselected
  rw [not_or, not_not, not_not] at hmatched
  obtain ⟨rfl, -⟩ := reviewRecord_eq_ok hd
  have hgoal := smokeText_eq_ok hgoal
  have hproperty := smokeText_eq_ok hproperty
  have hfunction := smokeText_eq_ok hfunction
  rw [← smokeText_eq_ok hfile] at hpath
  obtain ⟨hsmoke, hwarnings, htraps⟩ := reviewTrap_waiver hpath hproperty rfl htrap
  obtain ⟨hlength, houtcome⟩ := hmatched
  obtain ⟨g, hg⟩ := List.length_eq_one_iff.mp hlength
  have hmem := hg ▸ List.mem_singleton_self g
  rw [hg, List.all_cons, List.all_nil, Bool.and_true, decide_eq_true_eq] at houtcome
  simp only [List.mem_filter, Bool.and_eq_true, decide_eq_true_eq] at hmem
  obtain ⟨hgoals, ⟨⟨⟨⟨hs, rfl⟩, rfl⟩, rfl⟩, hgline⟩, rfl⟩ := hmem
  obtain ⟨n, hn⟩ := exists_of_isLineNumber hline
  have hgn : g.line = n := by
    rw [hn] at hgline
    simpa [Value.Same, Value.norm] using same_of_eq hgline
  refine ⟨d, g, rfl, hsmoke, ?_, hwarnings, hgoals, ?_, htraps⟩
  · intro hin
    obtain ⟨p, hp, hname⟩ := List.mem_map.mp hin
    have hnone := List.lookup_eq_none_iff.mp (Option.not_isSome_iff_eq_none.mp hfresh) p hp
    exact absurd hnone (by simp [hname])
  · exact
      { smoke := hs
        inconsistent := houtcome
        goal := hgoal
        property := hproperty
        function := hfunction
        line := by rw [hn, hgn]
        path := hpath
        dead := hdead
        selected := hselected.2 }

/-! ## Warnings -/

theorem inNames_eq_true_iff {names : List String} {v : Value} :
    inNames names v = .ok true ↔ ∃ name ∈ names, v = .str name := by
  unfold inNames
  constructor
  · intro h
    split_ifs at h
    exact Value.exists_str_of_member (Except.ok.inj h)
  · rintro ⟨name, hname, rfl⟩
    rw [if_pos (show (Value.str name).hashable = true from rfl)]
    exact congrArg _ (Value.member_str_iff.mpr (List.mem_map_of_mem hname))

/-- The path of a record is that of its file. -/
theorem warningPath_eq_ok {scope : ReviewScope} {hashes : List (String × String)} {d : Dict}
    {path : Option String} (h : warningPath scope hashes d = .ok path) :
    (Value.has d "file" = false ∧ path = none) ∨
      ∃ p, Value.has d "file" = true ∧ path = some p ∧
        reviewPath scope.host scope.root (Value.get d "file") = .ok p := by
  unfold warningPath at h
  split_ifs at h with hfile
  · obtain ⟨p, hp, h⟩ := bind_eq_ok_iff.mp h
    obtain ⟨_, -, h⟩ := bind_eq_ok_iff.mp h
    exact .inr ⟨p, hfile, (Except.ok.inj h).symm, hp⟩
  · exact .inl ⟨by simpa using hfile, (Except.ok.inj h).symm⟩

theorem warningPlaced_iff {scope : ReviewScope} {hashes : List (String × String)} {d w : Dict}
    {path : Option String} (hpath : warningPath scope hashes d = .ok path) :
    warningPlaced scope d path w = .ok true ↔ SamePlace scope.host scope.root d w := by
  unfold warningPlaced SamePlace
  dsimp only
  rcases warningPath_eq_ok hpath with ⟨hfile, rfl⟩ | ⟨p, hfile, rfl, hp⟩
  · rw [hfile, if_neg (by simp), Except.ok.injEq, Bool.and_eq_true, decide_eq_true_eq,
      decide_eq_true_eq]
  · rw [hfile, if_pos rfl]
    dsimp only
    constructor
    · intro h
      split_ifs at h with hplace
      · exact absurd (Except.ok.inj h) (by simp)
      · rw [not_or, not_not] at hplace
        refine ⟨p, hp, hplace.1, hplace.2, ?_⟩
        cases hfile' : reviewPath scope.host scope.root (Value.get w "path" (Value.get w "file")) with
        | error e =>
          rw [hfile'] at h
          exact absurd h (by simp [Except.map])
        | ok q =>
          rw [hfile'] at h
          exact congrArg _ (of_decide_eq_true (Except.ok.inj h))
    · rintro ⟨q, hq, hne, hline, hsame⟩
      obtain rfl := Except.ok.inj (hp.symm.trans hq)
      rw [if_neg (not_or.mpr ⟨hne, not_not.mpr hline⟩), hsame]
      simp [Except.map]

/-- A record is about the warnings that repeat it. -/
theorem warningMatches_iff {scope : ReviewScope} {hashes : List (String × String)} {d w : Dict}
    {path : Option String} (hpath : warningPath scope hashes d = .ok path) :
    warningMatches scope d path (.dict w) = .ok true ↔
      Repeats scope.host scope.root scope.analysisFunctions d w := by
  unfold warningMatches
  dsimp only
  constructor
  · intro h
    split_ifs at h with hfields
    · obtain ⟨placed, hplaced, h⟩ := bind_eq_ok_iff.mp h
      have hall := List.all_eq_true.mp hfields
      split_ifs at h with hfunction
      · rw [hfunction.1] at hplaced
        exact ⟨hall, (warningPlaced_iff hpath).mp hplaced, fun _ => inNames_eq_true_iff.mp h⟩
      · obtain rfl := Except.ok.inj h
        refine ⟨hall, (warningPlaced_iff hpath).mp hplaced, fun hhas => ?_⟩
        exact absurd ⟨rfl, hhas⟩ hfunction
    · exact absurd (Except.ok.inj h) (by simp)
  · rintro ⟨hfields, hplace, hfunction⟩
    rw [if_pos (List.all_eq_true.mpr hfields), bind_eq_ok_iff]
    refine ⟨true, (warningPlaced_iff hpath).mpr hplace, ?_⟩
    split_ifs with hhas
    · exact inNames_eq_true_iff.mpr (hfunction hhas.2)
    · rfl

/-- A review of a warning waives one warning. -/
theorem warningReview_waiver {scope : ReviewScope} {approved approved' : Approved} {record : Value}
    (h : warningReview scope approved record = .ok approved') :
    ∃ d index w, record = .dict d ∧ approved'.warnings = approved.warnings ++ [(index, d)] ∧
      index ∉ approved.warnings.map Prod.fst ∧ approved'.smoke = approved.smoke ∧
      approved'.unreachable = approved.unreachable ∧
      (∃ message, Value.get d "message" = .str message) ∧
      Value.get d "severity" = .str "warning" ∧
      WarningWaiver scope.host scope.root scope.analysisFunctions scope.warnings index w d := by
  unfold warningReview at h
  obtain ⟨⟨d, hashes⟩, hd, h⟩ := bind_eq_ok_iff.mp h
  dsimp only at h
  obtain ⟨message, hmessage, h⟩ := bind_eq_ok_iff.mp h
  obtain ⟨_, -, h⟩ := bind_eq_ok_iff.mp h
  obtain ⟨_, hseverity, h⟩ := bind_eq_ok_iff.mp h
  obtain ⟨_, -, h⟩ := bind_eq_ok_iff.mp h
  obtain ⟨_, -, h⟩ := bind_eq_ok_iff.mp h
  obtain ⟨path, hpath, h⟩ := bind_eq_ok_iff.mp h
  obtain ⟨matched, hmatched, h⟩ := bind_eq_ok_iff.mp h
  obtain ⟨hrec, -⟩ := reviewRecord_eq_ok hd
  rw [raiseIf_eq_ok_iff, not_or, not_not] at hseverity
  split at h
  · next w index =>
    split_ifs at h with hseen
    rw [← Except.ok.inj h]
    have hfilter := (select_eq_ok_iff.mp hmatched).2
    have hmem : (w, index) ∈ scope.warnings.zipIdx.filter
        (holds fun p => warningMatches scope d path p.1) := by
      rw [← hfilter]
      exact List.mem_singleton_self _
    obtain ⟨hzip, hholds⟩ := List.mem_filter.mp hmem
    obtain ⟨e, rfl, -⟩ := warningMatches_eq_true (holds_iff.mp hholds)
    refine ⟨d, index, .dict e, hrec, rfl, ?_, rfl, rfl, ⟨message, warningText_eq_ok hmessage⟩,
      hseverity.1, ?_⟩
    · intro hin
      obtain ⟨p, hp, hindex⟩ := List.mem_map.mp hin
      have hnone := List.lookup_eq_none_iff.mp (Option.not_isSome_iff_eq_none.mp hseen) p hp
      exact absurd hnone (by simp [hindex])
    · refine ⟨List.mem_zipIdx_iff_getElem?.mp hzip,
        ⟨e, rfl, (warningMatches_iff hpath).mp (holds_iff.mp hholds)⟩, fun j e' hj hrepeats => ?_⟩
      have hother : (Value.dict e', j) ∈ scope.warnings.zipIdx.filter
          (holds fun p => warningMatches scope d path p.1) :=
        List.mem_filter.mpr ⟨List.mem_zipIdx_iff_getElem?.mpr hj,
          holds_iff.mpr ((warningMatches_iff hpath).mpr hrepeats)⟩
      rw [← hfilter, List.mem_singleton] at hother
      exact (Prod.mk.inj hother).2
  · exact absurd h (by simp)

/-! ## All the records -/

/-- A message about guards. -/
def IsGuardMessage (message : String) : Prop :=
  startsWith "Skipped RTE guards:" message = true ∨ startsWith "-wp-rte can annotate" message = true

/-- What the records of an envelope approve. -/
structure Approved.Waives (approved : Approved) (host : Host) (root : PurePath) (envelope : Dict)
    (functions : List String) (goals : List Goal) (rows : List Row) (warnings : List Value) :
    Prop where
  smokeRecords : Value.get envelope "reviewed_smoke" =
    .list (approved.smoke.map fun p => .dict p.2)
  smokeNames : (approved.smoke.map Prod.fst).Nodup
  smoke : ∀ p ∈ approved.smoke, ∃ g ∈ goals, g.goal = p.1 ∧ SmokeWaiver host root functions g p.2
  warningRecords : Value.get envelope "reviewed_warnings" =
    .list (approved.warnings.map fun p => .dict p.2)
  warningIndices : (approved.warnings.map Prod.fst).Nodup
  warning : ∀ p ∈ approved.warnings, (∃ message, Value.get p.2 "message" = .str message) ∧
    Value.get p.2 "severity" = .str "warning" ∧
    ∃ w, WarningWaiver host root functions warnings p.1 w p.2
  guards : ∀ p ∈ approved.warnings, Value.get p.2 "message" = .str "Missing RTE guards" →
    ∀ j e message, warnings[j]? = some (.dict e) →
      Value.eq (Value.get e "plugin") (Value.get p.2 "plugin") = true →
      Value.get e "message" = .str message → IsGuardMessage message →
      ∃ d, (j, d) ∈ approved.warnings
  traps : ∀ u ∈ approved.unreachable, Value.dict u.2 ∈ approved.smoke.map (fun p => .dict p.2) ∧
    TrapWaiver host root functions rows u.1 u.2

/-- The invariant of the loop over the records of smoke goals, after the records `vs`. -/
structure SmokeLoop (scope : ReviewScope) (vs : List Value) (approved : Approved) : Prop where
  records : (approved.smoke.map fun p => Value.dict p.2) = vs
  names : (approved.smoke.map Prod.fst).Nodup
  waivers : ∀ p ∈ approved.smoke, ∃ g ∈ scope.goals, g.goal = p.1 ∧
    SmokeWaiver scope.host scope.root scope.analysisFunctions g p.2
  warnings : approved.warnings = []
  traps : ∀ u ∈ approved.unreachable, Value.dict u.2 ∈ vs ∧
    TrapWaiver scope.host scope.root scope.analysisFunctions scope.rows u.1 u.2

/-- The invariant of the loop over the records of warnings, after the records `vs`. -/
structure WarningLoop (scope : ReviewScope) (vs : List Value) (approved : Approved) : Prop where
  records : (approved.warnings.map fun p => Value.dict p.2) = vs
  indices : (approved.warnings.map Prod.fst).Nodup
  waivers : ∀ p ∈ approved.warnings, (∃ message, Value.get p.2 "message" = .str message) ∧
    Value.get p.2 "severity" = .str "warning" ∧
    ∃ w, WarningWaiver scope.host scope.root scope.analysisFunctions scope.warnings p.1 w p.2

/-- **An invariant of the loop that counts the records.** -/
theorem approveAll_induction {f : Approved → Value → Except Exn Approved}
    {P : List Value → Approved → Prop} {vs : List Value}
    (hstep : ∀ us a v a', P us a → f a v = .ok a' → P (us ++ [v]) a') {us : List Value}
    {a a' : Approved} (ha : P us a) (h : approveAll f a vs = .ok a') : P (us ++ vs) a' := by
  induction vs generalizing us a with
  | nil =>
    rw [← Except.ok.inj h, List.append_nil]
    exact ha
  | cons v vs ih =>
    rw [approveAll] at h
    obtain ⟨b, hb, h⟩ := bind_eq_ok_iff.mp h
    have hnext := ih (hstep us a v b ha hb) h
    rwa [List.append_assoc, List.singleton_append] at hnext

/-- One more key that is new. -/
theorem nodup_append_key {κ β : Type} {table : List (κ × β)} {k : κ} {b : β}
    (h : (table.map Prod.fst).Nodup) (hk : k ∉ table.map Prod.fst) :
    ((table ++ [(k, b)]).map Prod.fst).Nodup := by
  rw [List.map_append, List.map_singleton]
  exact (List.perm_append_singleton _ _).nodup_iff.mpr (List.nodup_cons.mpr ⟨hk, h⟩)

theorem SmokeLoop.step {scope : ReviewScope} {vs : List Value} {approved approved' : Approved}
    {v : Value} (h : SmokeLoop scope vs approved)
    (hok : smokeReview scope approved v = .ok approved') :
    SmokeLoop scope (vs ++ [v]) approved' := by
  obtain ⟨d, g, rfl, hsmoke, hnew, hwarnings, hg, hwaiver, htraps⟩ := smokeReview_waiver hok
  refine ⟨?_, ?_, ?_, hwarnings.trans h.warnings, ?_⟩
  · rw [hsmoke, List.map_append, h.records]
    rfl
  · rw [hsmoke]
    exact nodup_append_key h.names hnew
  · intro p hp
    rw [hsmoke] at hp
    rcases List.mem_append.mp hp with hp | hp
    · exact h.waivers p hp
    · rw [List.mem_singleton.mp hp]
      exact ⟨g, hg, rfl, hwaiver⟩
  · intro u hu
    rcases htraps u hu with hu | ⟨hd, htrap⟩
    · obtain ⟨hin, htrap⟩ := h.traps u hu
      exact ⟨List.mem_append_left _ hin, htrap⟩
    · rw [hd]
      exact ⟨List.mem_append_right _ (List.mem_singleton_self _), htrap⟩

theorem WarningLoop.step {scope : ReviewScope} {vs : List Value} {approved approved' : Approved}
    {v : Value} (h : WarningLoop scope vs approved)
    (hok : warningReview scope approved v = .ok approved') :
    WarningLoop scope (vs ++ [v]) approved' := by
  obtain ⟨d, index, w, rfl, hwarnings, hnew, -, -, hmessage, hseverity, hwaiver⟩ :=
    warningReview_waiver hok
  refine ⟨?_, ?_, ?_⟩
  · rw [hwarnings, List.map_append, h.records]
    rfl
  · rw [hwarnings]
    exact nodup_append_key h.indices hnew
  · intro p hp
    rw [hwarnings] at hp
    rcases List.mem_append.mp hp with hp | hp
    · exact h.waivers p hp
    · rw [List.mem_singleton.mp hp]
      exact ⟨hmessage, hseverity, w, hwaiver⟩

/-- Missing guards are waived with every diagnostic about guards of the plugin. -/
theorem guardCompanions_eq_ok {warnings : List Value} {approved : List (ℕ × Dict)} {d : Dict}
    {us : List Unit} (h : guardCompanions warnings approved d = .ok us)
    (hmissing : Value.get d "message" = .str "Missing RTE guards") {j : ℕ} {e : Dict}
    {message : String} (hj : warnings[j]? = some (.dict e))
    (hplugin : Value.eq (Value.get e "plugin") (Value.get d "plugin") = true)
    (hmessage : Value.get e "message" = .str message) (hguard : IsGuardMessage message) :
    ∃ d', (j, d') ∈ approved := by
  unfold guardCompanions at h
  rw [if_pos hmissing] at h
  obtain ⟨companions, hcompanions, h⟩ := bind_eq_ok_iff.mp h
  obtain ⟨_, hall, -⟩ := bind_eq_ok_iff.mp h
  rw [raiseIf_eq_ok_iff, not_or] at hall
  have hcompanion : isCompanion (Value.get d "plugin") (.dict e) = .ok true := by
    rw [isCompanion, if_pos hplugin, isGuardMessage, Value.get_of_get hmessage]
    exact congrArg _ (Bool.or_eq_true_iff.mpr hguard)
  have hmem : (Value.dict e, j) ∈ companions := by
    rw [(select_eq_ok_iff.mp hcompanions).2]
    exact List.mem_filter.mpr ⟨List.mem_zipIdx_iff_getElem?.mpr hj, holds_iff.mpr hcompanion⟩
  have hsome : ¬ (approved.lookup j).isNone = true := fun hnone =>
    hall.2 (List.any_eq_true.mpr ⟨_, hmem, hnone⟩)
  rw [Bool.not_eq_true, Option.isNone_eq_false_iff] at hsome
  obtain ⟨d', hd'⟩ := Option.isSome_iff_exists.mp hsome
  exact ⟨d', mem_of_lookup hd'⟩

/-- **The records of an envelope and what they approve correspond.** -/
theorem envelopeReviews_waives {host : Host} {target envelope : Dict} {goals : List Goal}
    {rows : List Row} {warnings : List Value} {functions : List String} {approved : Approved}
    (h : envelopeReviews host target envelope goals rows warnings functions = .ok approved) :
    ∃ root, envelopeRoot host envelope = .ok root ∧
      approved.Waives host root envelope functions goals rows warnings := by
  unfold envelopeReviews at h
  obtain ⟨_, -, h⟩ := bind_eq_ok_iff.mp h
  obtain ⟨_, -, h⟩ := bind_eq_ok_iff.mp h
  obtain ⟨_, -, h⟩ := bind_eq_ok_iff.mp h
  obtain ⟨_, -, h⟩ := bind_eq_ok_iff.mp h
  obtain ⟨root, hroot, h⟩ := bind_eq_ok_iff.mp h
  obtain ⟨context, -, h⟩ := bind_eq_ok_iff.mp h
  obtain ⟨⟨_, contextHashes⟩, -, h⟩ := bind_eq_ok_iff.mp h
  dsimp only at h
  obtain ⟨smoke, hsmoke, h⟩ := bind_eq_ok_iff.mp h
  obtain ⟨middle, hmiddle, h⟩ := bind_eq_ok_iff.mp h
  obtain ⟨waived, hwaived, h⟩ := bind_eq_ok_iff.mp h
  obtain ⟨final, hfinal, h⟩ := bind_eq_ok_iff.mp h
  obtain ⟨_, hguards, h⟩ := bind_eq_ok_iff.mp h
  obtain rfl := Except.ok.inj h
  have hstart : SmokeLoop ⟨host, root, contextHashes, goals, rows, warnings, functions⟩ []
      { Approved.empty with context := .dict context } :=
    ⟨rfl, List.nodup_nil, fun _ hp => absurd hp List.not_mem_nil, rfl,
      fun _ hu => absurd hu List.not_mem_nil⟩
  have hfirst := approveAll_induction (P := SmokeLoop _)
    (fun _ _ _ _ hinv hok => hinv.step hok) hstart hmiddle
  rw [List.nil_append] at hfirst
  have hmiddleLoop : WarningLoop ⟨host, root, contextHashes, goals, rows, warnings, functions⟩ []
      middle := by
    refine ⟨by rw [hfirst.warnings]; rfl, by rw [hfirst.warnings]; exact List.nodup_nil, ?_⟩
    intro p hp
    exact absurd (hfirst.warnings ▸ hp) List.not_mem_nil
  have hsecond := approveAll_induction (P := fun vs a => WarningLoop _ vs a ∧
      a.smoke = middle.smoke ∧ a.unreachable = middle.unreachable)
    (fun _ _ _ _ hinv hok => by
      obtain ⟨-, -, -, -, -, -, hs, hu, -⟩ := warningReview_waiver hok
      exact ⟨hinv.1.step hok, hs.trans hinv.2.1, hu.trans hinv.2.2⟩) ⟨hmiddleLoop, rfl, rfl⟩ hfinal
  rw [List.nil_append] at hsecond
  obtain ⟨hloop, hsame, htraps⟩ := hsecond
  refine ⟨root, hroot, ?_⟩
  exact
    { smokeRecords := by rw [hsame, hfirst.records]; exact (reviewRecords_eq_ok hsmoke).1
      smokeNames := by rw [hsame]; exact hfirst.names
      smoke := by rw [hsame]; exact hfirst.waivers
      warningRecords := by rw [hloop.records]; exact (reviewRecords_eq_ok hwaived).1
      warningIndices := hloop.indices
      warning := hloop.waivers
      guards := by
        intro p hp hmissing j e message hj hplugin hmessage hguard
        obtain ⟨us, hus⟩ := forall_of_collect_eq_ok hguards p hp
        exact guardCompanions_eq_ok hus hmissing hj hplugin hmessage hguard
      traps := by
        intro u hu
        rw [htraps] at hu
        rw [hsame, hfirst.records]
        exact hfirst.traps u hu }

/-! ## The result -/

/-- What an accepted result records of the reviews. -/
structure Waivers (result : Evaluation) (host : Host) (root : PurePath) (envelope : Dict)
    (functions : List String) (goals : List Goal) (rows : List Row) (warnings : List Value) :
    Prop where
  /-- The waived smoke goals and the records of smoke goals correspond one to one. -/
  smokeRecords : ∃ records, Value.get envelope "reviewed_smoke" = .list records ∧
    (result.reviewedSmoke.map fun p => Value.dict p.2).Perm records
  smokeGoals : (result.reviewedSmoke.map fun p => p.1.goal).Nodup
  smoke : ∀ p ∈ result.reviewedSmoke, p.1 ∈ goals ∧ SmokeWaiver host root functions p.1 p.2
  /-- The waived warnings and the records of warnings correspond one to one. -/
  warningRecords : ∃ records, Value.get envelope "reviewed_warnings" = .list records ∧
    (result.reviewedWarnings.map fun p => Value.dict p.2.2).Perm records
  warningIndices : (result.reviewedWarnings.map Prod.fst).Nodup
  warning : ∀ p ∈ result.reviewedWarnings,
    WarningWaiver host root functions warnings p.1 p.2.1 p.2.2
  /-- Missing guards are waived only with every diagnostic about guards of their plugin. -/
  guards : ∀ p ∈ result.reviewedWarnings, Value.get p.2.2 "message" = .str "Missing RTE guards" →
    ∀ j e message, warnings[j]? = some (.dict e) →
      Value.eq (Value.get e "plugin") (Value.get p.2.2 "plugin") = true →
      Value.get e "message" = .str message → IsGuardMessage message →
      ∃ q ∈ result.reviewedWarnings, q.1 = j
  /-- A reviewed property is at the dead call of a record. -/
  traps : ∀ u ∈ result.reviewedUnreachableProperties,
    (∃ p ∈ result.reviewedSmoke, p.2 = u.2) ∧ TrapWaiver host root functions rows u.1 u.2

/-- The goals of a report have distinct names. -/
theorem nodup_wpRowsFrom {host : Host} {index : ℕ} {seen : List String} {vs : List Value}
    {goals : List Goal} (h : wpRowsFrom host index seen vs = .ok goals) :
    (goals.map Goal.goal).Nodup ∧ ∀ g ∈ goals, g.goal ∉ seen := by
  induction vs generalizing index seen goals with
  | nil =>
    rw [← Except.ok.inj h]
    exact ⟨List.nodup_nil, fun _ hg => absurd hg List.not_mem_nil⟩
  | cons v vs ih =>
    rw [wpRowsFrom] at h
    cases hv : wpRow host index seen v with
    | error e =>
      rw [hv] at h
      exact absurd h (by simp)
    | ok g =>
      rw [hv] at h
      dsimp only at h
      cases hvs : wpRowsFrom host (index + 1) (g.goal :: seen) vs with
      | error e =>
        rw [hvs] at h
        exact absurd h (by simp [Except.map])
      | ok gs =>
        rw [hvs] at h
        obtain ⟨hnodup, hapart⟩ := ih hvs
        rw [← Except.ok.inj h]
        refine ⟨List.nodup_cons.mpr ⟨fun hmem => ?_, hnodup⟩, fun x hx => ?_⟩
        · obtain ⟨g', hg', heq⟩ := List.mem_map.mp hmem
          exact hapart g' hg' (heq ▸ List.mem_cons_self)
        · rcases List.mem_cons.mp hx with rfl | hx
          · exact (wpRow_reads hv).2
          · exact fun hin => hapart x hx (List.mem_cons_of_mem _ hin)

theorem nodup_readGoals {host : Host} {target : Dict} {wpGoals : Value}
    {goals : List Goal × List Issue} (h : readGoals host target wpGoals = .ok goals) :
    (goals.1.map Goal.goal).Nodup := by
  unfold readGoals at h
  by_cases hwp : Value.get target "analysis" = .str "wp"
  · rw [if_pos hwp] at h
    split at h
    · next gs hgs =>
      rw [← Except.ok.inj h]
      unfold wpRows at hgs
      split at hgs
      · exact (nodup_wpRowsFrom hgs).1
      · exact absurd hgs (by simp)
    · split_ifs at h
      · rw [← Except.ok.inj h]
        exact List.nodup_nil
      · rw [← Except.ok.inj h]
        exact List.nodup_nil
  · rw [if_neg hwp] at h
    rw [← Except.ok.inj h]
    exact List.nodup_nil

/-- The smoke goals that a record may be about. -/
def Evidence.deadGoals (e : Evidence) : List Goal :=
  e.goals.filter fun g => g.smoke ∧ g.outcome = .inconsistent

theorem waivedSmoke_eq (e : Evidence) :
    waivedSmoke e = join Goal.goal e.reviews.smoke e.deadGoals := by
  unfold waivedSmoke join Evidence.deadGoals
  rw [List.filterMap_filter]
  refine List.filterMap_congr fun g _ => ?_
  by_cases hdead : g.smoke = true ∧ g.outcome = .inconsistent
  · rw [if_pos hdead, if_pos (decide_eq_true hdead)]
  · rw [if_neg hdead, if_neg (by simpa using hdead)]

/-- A reviewed warning is a diagnostic, and no error. -/
theorem WarningWaiver.diagnostic {host : Host} {root : PurePath} {functions : List String}
    {warnings : List Value} {index : ℕ} {w : Value} {d : Dict} {message : String}
    (h : WarningWaiver host root functions warnings index w d)
    (hmessage : Value.get d "message" = .str message)
    (hseverity : Value.get d "severity" = .str "warning") :
    diagnosticOf w = some (message, .str "warning") := by
  obtain ⟨e, rfl, hrepeats⟩ := h.repeats
  have hsay : Value.get e "message" = .str message :=
    Value.eq_str_iff.mp (hmessage ▸ hrepeats.fields "message" (by decide))
  have hsev : Value.get e "severity" = .str "warning" :=
    Value.eq_str_iff.mp (hseverity ▸ hrepeats.fields "severity" (by decide))
  simp [diagnosticOf, hsay, hsev]

/-- The waived warnings are those with a record, where the records waive warnings. -/
theorem waivedWarnings_eq {e : Evidence} {host : Host} {root : PurePath} {envelope : Dict}
    {functions : List String}
    (h : e.reviews.Waives host root envelope functions e.goals e.rows e.warnings) :
    waivedWarnings e = (join Prod.snd e.reviews.warnings e.warnings.zipIdx).map fun p =>
      (p.1.2, p.1.1, p.2) := by
  unfold waivedWarnings join
  rw [List.map_filterMap]
  refine List.filterMap_congr fun p hp => ?_
  unfold reviewedWarning
  cases hlookup : e.reviews.warnings.lookup p.2 with
  | none => cases diagnosticOf p.1 with
    | none => rfl
    | some _ => rfl
  | some d =>
    obtain ⟨⟨message, hmessage⟩, hseverity, w, hwaiver⟩ := h.warning _ (mem_of_lookup hlookup)
    obtain rfl : w = p.1 :=
      Option.some.inj (hwaiver.stands.symm.trans (List.mem_zipIdx_iff_getElem?.mp hp))
    rw [hwaiver.diagnostic hmessage hseverity]
    rfl

/-- **What the records approve is what the result records.** -/
theorem Approved.Waives.waivers {e : Evidence} {host : Host} {root : PurePath} {envelope : Dict}
    {functions : List String} {result : Evaluation}
    (h : e.reviews.Waives host root envelope functions e.goals e.rows e.warnings)
    (hgoals : (e.goals.map Goal.goal).Nodup) (hsmoke : result.reviewedSmoke = waivedSmoke e)
    (hwarnings : result.reviewedWarnings = waivedWarnings e)
    (htraps : result.reviewedUnreachableProperties = e.reviews.unreachable) :
    Waivers result host root envelope functions e.goals e.rows e.warnings := by
  have hindices : ((e.warnings.zipIdx).map Prod.snd).Nodup := by
    rw [List.zipIdx_map_snd]
    exact List.nodup_range'
  have hdeadNames : (e.deadGoals.map Goal.goal).Nodup :=
    hgoals.sublist (List.filter_sublist.map _)
  have hsmokePerm : ((join Goal.goal e.reviews.smoke e.deadGoals).map fun p =>
      (p.1.goal, p.2)).Perm e.reviews.smoke := by
    refine join_perm hdeadNames h.smokeNames fun p hp => ?_
    obtain ⟨g, hg, hname, hwaiver⟩ := h.smoke p hp
    exact ⟨g, List.mem_filter.mpr ⟨hg, decide_eq_true ⟨hwaiver.smoke, hwaiver.inconsistent⟩⟩, hname⟩
  have hwarningPerm : ((join Prod.snd e.reviews.warnings e.warnings.zipIdx).map fun p =>
      (p.1.2, p.2)).Perm e.reviews.warnings := by
    refine join_perm hindices h.warningIndices fun p hp => ?_
    obtain ⟨-, -, w, hwaiver⟩ := h.warning p hp
    exact ⟨(w, p.1), List.mem_zipIdx_iff_getElem?.mpr hwaiver.stands, rfl⟩
  have hrecorded : ∀ q, q ∈ result.reviewedWarnings ↔
      (q.2.1, q.1) ∈ e.warnings.zipIdx ∧ (q.1, q.2.2) ∈ e.reviews.warnings := by
    intro q
    rw [hwarnings, waivedWarnings_eq h, List.mem_map]
    constructor
    · rintro ⟨p, hp, rfl⟩
      obtain ⟨hzip, hlookup⟩ := mem_join.mp hp
      exact ⟨hzip, (lookup_eq_some_iff_mem h.warningIndices).mp hlookup⟩
    · rintro ⟨hzip, hmem⟩
      exact ⟨((q.2.1, q.1), q.2.2), mem_join.mpr ⟨hzip, lookup_of_mem h.warningIndices hmem⟩, rfl⟩
  exact
    { smokeRecords := by
        refine ⟨_, h.smokeRecords, ?_⟩
        rw [hsmoke, waivedSmoke_eq]
        have := hsmokePerm.map fun p => Value.dict p.2
        rwa [List.map_map] at this
      smokeGoals := by
        rw [hsmoke, waivedSmoke_eq]
        exact nodup_join hdeadNames
      smoke := by
        intro p hp
        rw [hsmoke, waivedSmoke_eq] at hp
        obtain ⟨hdead, hlookup⟩ := mem_join.mp hp
        have hmem := (List.mem_filter.mp hdead).1
        obtain ⟨g, hg, hname, hwaiver⟩ := h.smoke _ (mem_of_lookup hlookup)
        obtain rfl := List.inj_on_of_nodup_map hgoals hg hmem hname
        exact ⟨hg, hwaiver⟩
      warningRecords := by
        refine ⟨_, h.warningRecords, ?_⟩
        rw [hwarnings, waivedWarnings_eq h, List.map_map]
        have := hwarningPerm.map fun p => Value.dict p.2
        rwa [List.map_map] at this
      warningIndices := by
        rw [hwarnings, waivedWarnings_eq h, List.map_map]
        exact nodup_join hindices
      warning := by
        intro q hq
        obtain ⟨hzip, hmem⟩ := (hrecorded q).mp hq
        obtain ⟨-, -, w, hwaiver⟩ := h.warning _ hmem
        obtain rfl : w = q.2.1 :=
          Option.some.inj (hwaiver.stands.symm.trans (List.mem_zipIdx_iff_getElem?.mp hzip))
        exact hwaiver
      guards := by
        intro q hq hmissing j w message hj hplugin hmessage hguard
        obtain ⟨d, hd⟩ := h.guards _ ((hrecorded q).mp hq).2 hmissing j w message hj hplugin
          hmessage hguard
        exact ⟨(j, .dict w, d), (hrecorded _).mpr ⟨List.mem_zipIdx_iff_getElem?.mpr hj, hd⟩, rfl⟩
      traps := by
        intro u hu
        rw [htraps] at hu
        obtain ⟨hin, htrap⟩ := h.traps u hu
        refine ⟨?_, htrap⟩
        obtain ⟨p, hp, hd⟩ := List.mem_map.mp hin
        obtain ⟨q, hq, hqp⟩ := List.mem_map.mp (hsmokePerm.mem_iff.mpr hp)
        refine ⟨q, ?_, ?_⟩
        · rw [hsmoke, waivedSmoke_eq]
          exact hq
        · rw [← hqp] at hd
          exact Value.dict.inj hd }

/-! ## Accepted targets -/

/-- What an evaluation reads: the goals of a WP target, the rows, and the warnings. -/
structure ReadsAs (host : Host) (target : Dict) (wpGoals properties warnings : Value)
    (goals : List Goal) (rows : List Row) (ws : List Value) : Prop where
  wp : Value.get target "analysis" = .str "wp" →
    ∃ vs, wpGoals = .list vs ∧ List.Forall₂ (Goal.Reads host) goals vs
  other : Value.get target "analysis" ≠ .str "wp" → goals = []
  rows : ∃ vs, properties = .list vs ∧ List.Forall₂ Row.Reads rows vs
  warnings : warnings = .list ws

/-- Without a review nothing is dead, unsupported or skipped. -/
structure NothingElse (result : Evaluation) (host : Host) (target : Dict) (goals : List Goal)
    (ws : List Value) : Prop where
  smoke : ∀ g ∈ goals, g.smoke = true → g.outcome = .inconsistent →
    ∃ d, (g, d) ∈ result.reviewedSmoke
  warnings : ∀ index w, ws[index]? = some w →
    (∃ d, (index, w, d) ∈ result.reviewedWarnings) ∨
      ∃ message severity, diagnosticOf w = some (message, severity) ∧ severity ≠ .str "error" ∧
        severity ≠ .str "unsupported" ∧ saysUnsupported host message = false ∧
        (hasSubstring "Missing RTE guards" message = true →
          Value.contains (Value.get target "claims" (.list [])) (.str "runtime-safety") = some false)

theorem Accepted.readsAs {host : Host} {target : Dict}
    {wpGoals properties returncode warnings review native : Value} {result : Evaluation}
    {declared : Declaration} {e : Evidence} {analysis : Analysis} {selected : List Row}
    (h : Accepted host target wpGoals properties returncode warnings review native result
      declared e analysis selected) :
    ReadsAs host target wpGoals properties warnings e.goals e.rows e.warnings := by
  obtain ⟨vs, hvs, -, hreads⟩ := h.gathered.rows
  exact ⟨h.goals_read, h.goals_eq_nil, ⟨vs, hvs, hreads⟩, h.gathered.warnings⟩

/-- An inconsistent smoke goal was proved or did not pass. -/
theorem Goal.of_outcome_inconsistent {g : Goal} (hs : g.smoke = true)
    (h : g.outcome = .inconsistent) : g.verdict = .valid ∨ g.passed = false := by
  rw [Goal.outcome, if_pos hs] at h
  split_ifs at h with hfailed hdead
  exact hdead

/-- **Nothing is waived without a record.** -/
theorem Accepted.nothingElse {host : Host} {target : Dict}
    {wpGoals properties returncode warnings review native : Value} {result : Evaluation}
    {declared : Declaration} {e : Evidence} {analysis : Analysis} {selected : List Row}
    (h : Accepted host target wpGoals properties returncode warnings review native result
      declared e analysis selected)
    (hsmoke : result.reviewedSmoke = waivedSmoke e)
    (hwarnings : result.reviewedWarnings = waivedWarnings e) :
    NothingElse result host target e.goals e.warnings where
  smoke := by
    intro g hg hs hdead
    obtain ⟨d, hd⟩ := h.smoke_reviewed.reviewed g hg hs (Goal.of_outcome_inconsistent hs hdead)
    obtain ⟨d', hd'⟩ : ∃ d', e.reviews.smoke.lookup g.goal = some d' := by
      rw [← Option.ne_none_iff_exists']
      intro hnone
      exact absurd (List.lookup_eq_none_iff.mp hnone _ hd) (by simp)
    refine ⟨d', ?_⟩
    rw [hsmoke, waivedSmoke_eq]
    exact mem_join.mpr ⟨List.mem_filter.mpr ⟨hg, decide_eq_true ⟨hs, hdead⟩⟩, hd'⟩
  warnings := by
    intro index w hw
    have hmem : (w, index) ∈ e.warnings.zipIdx := List.mem_zipIdx_iff_getElem?.mpr hw
    have hnil := collect_eq_nil_iff.mp h.warnings (w, index) hmem
    obtain ⟨message, severity, hdiagnostic, herror, hcases⟩ := warningIssue_eq_nil hnil
    rw [h.gathered.host_eq, h.gathered.target_eq] at hcases
    refine hcases.imp ?_ fun hclear => ⟨message, severity, hdiagnostic, herror, hclear⟩
    rintro ⟨d, hd⟩
    refine ⟨d, ?_⟩
    rw [hwarnings]
    refine List.mem_filterMap.mpr ⟨(w, index), hmem, ?_⟩
    rw [reviewedWarning, hdiagnostic, hd]
    exact if_neg herror

/-- **Reviews waive one diagnostic each and nothing else.** -/
theorem evaluateTarget_waivers {host : Host} {target : Dict}
    {wpGoals properties returncode warnings review native : Value} {result : Evaluation}
    (h : evaluateTarget host target wpGoals properties returncode warnings review native = .ok result)
    (haccepted : result.accepted = true) :
    ∃ declared goals rows ws, declaration target = some declared ∧
      ReadsAs host target wpGoals properties warnings goals rows ws ∧
      NothingElse result host target goals ws ∧
      ((review = .none ∧ result.reviewedSmoke = [] ∧ result.reviewedWarnings = [] ∧
          result.reviewedUnreachableProperties = []) ∨
        ∃ envelope root, review = .dict envelope ∧ envelopeRoot host envelope = .ok root ∧
          Waivers result host root envelope declared.analysisFunctions goals rows ws) := by
  obtain ⟨declared, e, analysis, selected, hacc, hsmoke, hwarnings, htraps⟩ :=
    evaluateTarget_reviewed h haccepted
  refine ⟨declared, e.goals, e.rows, e.warnings, hacc.declared_eq, hacc.readsAs,
    hacc.nothingElse hsmoke hwarnings, ?_⟩
  have hreviews := hacc.gathered.reviews
  have hgoals := nodup_readGoals hacc.gathered.goals
  unfold validatedReviews at hreviews
  split at hreviews
  · split_ifs at hreviews
    have hempty := (Except.ok.inj hreviews).symm
    refine .inl ⟨rfl, ?_, ?_, by rw [htraps, hempty]; rfl⟩
    · rw [hsmoke, waivedSmoke_eq, hempty]
      exact List.filterMap_eq_nil_iff.mpr fun _ _ => rfl
    · rw [hwarnings]
      refine List.filterMap_eq_nil_iff.mpr fun p _ => ?_
      rw [reviewedWarning, hempty]
      cases diagnosticOf p.1 with
      | none => rfl
      | some _ => rfl
  · next envelope =>
    obtain ⟨root, hroot, hwaives⟩ := envelopeReviews_waives hreviews
    exact .inr ⟨envelope, root, rfl, hroot, hwaives.waivers hgoals hsmoke hwarnings htraps⟩
  · exact absurd hreviews (by simp)

/-! ## A dead call and a warning -/

/-- The hashes and the evidence of a review of `abs.c`. -/
def absMetadata : Dict :=
  [("file_hashes", .dict [("/k/abs.c", .str (String.ofList (List.replicate 64 'b')))]),
    ("review_evidence", .list [.str "/k/abs.c"])]

/-- The dead call of `trap`. -/
def trapSmoke : Dict :=
  [("goal", .str "typed_trap"), ("property", .str "trap_wp_smoke_dead_call_s1"),
    ("function", .str "abs"), ("file", .str "/k/abs.c"), ("line", .int 3)]

/-- The false assertion that the call would have reached. -/
def trapProperty : Dict :=
  [("file", .str "/k/abs.c"), ("line", .int 3), ("function", .str "trap"),
    ("kind", .str "user assertion"), ("status", .str "Unreachable"), ("property", .str "\\false")]

/-- A warning of a plugin. -/
def absWarning : Dict :=
  [("message", .str "No code"), ("plugin", .str "kernel"), ("severity", .str "warning")]

/-- The reviews of `trapSmoke` and `absWarning`. -/
def absReviews : Dict :=
  [("review_context",
      .dict (("kernel_revision", .str (String.ofList (List.replicate 40 'a'))) :: absMetadata)),
    ("reviewed_smoke", .list [.dict (trapSmoke ++ absMetadata ++
      [("reason", .str "dead"), ("unreachable_property", .dict trapProperty)])]),
    ("reviewed_warnings", .list [.dict (absWarning ++ absMetadata ++
      [("reason", .str "known"), ("functions", .list [.str "abs"])])])]

/-- The target `absTarget` with the reviews. -/
def trapTarget : Dict := absTarget ++ [("profile", .str "p")] ++ absReviews

/-- The envelope of `trapTarget`. -/
def trapEnvelope : Dict :=
  [("status", .str "passed"), ("target_id", .str "abs"), ("profile", .str "p"),
    ("analysis", .str "wp"), ("source_root", .str "/k")] ++ absReviews

/-- The goals of `trapTarget`. -/
def trapGoals : Value :=
  match absGoals with
  | .list goals => .list (goals ++ [.dict (trapSmoke ++ [("smoke", .bool true),
      ("passed", .bool false), ("verdict", .str "valid"), ("provers", .list [.dict
        [("prover", .str "z3"), ("time", .int 1), ("success", .int 1)]])])])
  | v => v

/-- The row of the false assertion with a status. -/
def trapRow (status : String) : Value :=
  .dict [("status", .str status), ("function", .str "trap"), ("path", .str "/k/abs.c"),
    ("line", .int 3), ("kind", .str "user assertion"), ("property", .str "\\false")]

/-- The rows of `trapTarget`. -/
def trapRows : Value :=
  match absRows with
  | .list rows => .list (rows ++ [trapRow "Unreachable", trapRow "Dead"])
  | v => v

/-- The warnings of `trapTarget`: the reviewed one, and one of another function. -/
def trapWarnings : List Value :=
  [.dict absWarning, .dict (absWarning ++ [("function", .str "trap")])]

theorem evaluateTarget_waivers_trap :
    ∃ result, evaluateTarget plainHost trapTarget trapGoals trapRows (.int 0) (.list trapWarnings)
        (.dict trapEnvelope) .none = .ok result ∧ result.accepted = true ∧
      ∃ declared goals rows ws, declaration trapTarget = some declared ∧
        ReadsAs plainHost trapTarget trapGoals trapRows (.list trapWarnings) goals rows ws ∧
        NothingElse result plainHost trapTarget goals ws ∧
        ((Value.dict trapEnvelope = .none ∧ result.reviewedSmoke = [] ∧
            result.reviewedWarnings = [] ∧ result.reviewedUnreachableProperties = []) ∨
          ∃ envelope root, Value.dict trapEnvelope = .dict envelope ∧
            envelopeRoot plainHost envelope = .ok root ∧
            Waivers result plainHost root envelope declared.analysisFunctions goals rows ws) := by
  obtain ⟨result, h, haccepted⟩ := exists_of_returns (f := fun r : Evaluation => r.accepted)
    (x := evaluateTarget plainHost trapTarget trapGoals trapRows (.int 0) (.list trapWarnings)
      (.dict trapEnvelope) .none) (by decide +kernel)
  exact ⟨result, h, haccepted, evaluateTarget_waivers h haccepted⟩

/-- The entries of `trapRow`. -/
def trapRecord (status : String) : Dict :=
  match trapRow status with
  | .dict v => v
  | _ => []

/-- The waived warning repeats in another function, and the reviewed property with another status. -/
theorem trapTarget_repeats :
    ∃ result, evaluateTarget plainHost trapTarget trapGoals trapRows (.int 0) (.list trapWarnings)
        (.dict trapEnvelope) .none = .ok result ∧ result.accepted = true ∧
      (∃ w d e, result.reviewedWarnings = [(0, w, d)] ∧ trapWarnings[1]? = some (.dict e) ∧
        (∀ field ∈ ["message", "plugin", "severity"],
          Value.eq (Value.get e field) (Value.get d field) = true) ∧
        SamePlace plainHost (.parse "/k") d e) ∧
      ∃ r d vs v, result.reviewedUnreachableProperties = [(r, d)] ∧ trapRows = .list vs ∧
        vs[2]? = some (.dict v) ∧ r.get "status" = .str "Unreachable" ∧
        Value.get v "status" = .str "Dead" ∧
        ∀ field ∈ ["path", "line", "function", "kind", "property"],
          Value.eq (Value.get v field) (r.get field) = true := by
  obtain ⟨result, h, hresult⟩ := exists_of_returns
    (f := fun r : Evaluation => r.accepted &&
      decide (r.reviewedWarnings.map (fun p => (p.1, p.2.2)) = [(0, absWarning ++ absMetadata ++
        [("reason", .str "known"), ("functions", .list [.str "abs"])])]) &&
      decide (r.reviewedUnreachableProperties.map (fun u => u.1.record) =
        [Value.set (trapRecord "Unreachable") "outcome"
          (.str "unreachable")]))
    (x := evaluateTarget plainHost trapTarget trapGoals trapRows (.int 0) (.list trapWarnings)
      (.dict trapEnvelope) .none) (by decide +kernel)
  simp only [Bool.and_eq_true, decide_eq_true_eq] at hresult
  obtain ⟨⟨haccepted, hwarned⟩, hreached⟩ := hresult
  obtain ⟨p, hwarnings, hp⟩ := List.map_eq_singleton_iff.mp hwarned
  obtain ⟨u, hreviewed, hu⟩ := List.map_eq_singleton_iff.mp hreached
  obtain ⟨index, w, d⟩ := p
  obtain ⟨rfl, rfl⟩ := Prod.mk.inj hp
  obtain ⟨r, d⟩ := u
  refine ⟨result, h, haccepted, ⟨w, _, _, hwarnings, rfl, by decide +kernel, ?_⟩,
    r, d, _, _, hreviewed, rfl, rfl, ?_, by decide, ?_⟩
  · rw [SamePlace, if_neg (by decide +kernel)]
    exact ⟨by decide, by decide⟩
  · rw [Row.get, show r.record = _ from hu]
    decide +kernel
  · unfold Row.get
    rw [show r.record = _ from hu]
    decide +kernel

end Report
end Fragma
