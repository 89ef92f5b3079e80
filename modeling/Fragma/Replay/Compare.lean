import Fragma.Posix.PurePath
import Fragma.Replay.Differences

/-!
# The comparison of two replay views

`fragma/replay.py`, `compare_replays`.  Two views of recorded runs are checked, each on its own:
the digests that a view carries are those of its parts, and the acceptance, the targets and the
run that it names agree.  Then the digests of the two are compared, and the differences of the
parts explain what the digests tell apart.

* `checkView`: the checks on one view, with `Checked` for what they establish.
* `compareReplays`: the function, and `Comparison` for its result.
* `Comparison.SameVerdict`, `compareReplays_swap`: **the verdict does not depend on the order.**
* `Comparison.Explains`, `compareReplays_explains`: **the flags say what the differences say.**
-/

namespace Fragma
namespace Replay

open Python Posix

/-- `POLICY`. -/
def policy : String := "fragma-replay-v1"

/-- `require(condition, reason)`; the error is a `ValueError`. -/
def requireView (condition : Prop) [Decidable condition] (reason : String) : Except Exn Unit :=
  raiseIf (¬ condition) ⟨.valueError, reason⟩

@[simp] theorem requireView_eq_ok_iff {p : Prop} [Decidable p] {reason : String} {u : Unit} :
    requireView p reason = .ok u ↔ p := by
  rw [requireView, raiseIf_eq_ok_iff, not_not]

/-- `value[key]`. -/
def item (value : Dict) (key : String) : Except Exn Value :=
  orRaise (value.lookup key) ⟨.keyError, key⟩

/-- The entries of a value, where it has a method of this name. -/
def entries (value : Value) (method : String) : Except Exn Dict :=
  match value with
  | .dict d => .ok d
  | _ => .error ⟨.attributeError, method⟩

/-- `value.get(key, default)`. -/
def getOf (value : Value) (key : String) (default : Value := .none) : Except Exn Value := do
  let d ← entries value "get"
  .ok (Value.get d key default)

/-- `set(value)`. -/
def setOf (value : Value) : Except Exn (List Value) :=
  orRaise value.toSet ⟨.typeError, "not iterable or not hashable"⟩

/-- `left == right`, for sets. -/
def sameSet (left right : List Value) : Bool := Value.subset left right && Value.subset right left

/-! ## One view -/

/-- The parts of a view with the fields that carry their digests. -/
def digestFields : List (String × String) :=
  [("inputs", "input_id"), ("execution", "execution_id"), ("outcomes", "outcome_id")]

section Check

variable (sha : Value → String)

/-- The digest of a part stands in the view. -/
def checkDigest (value : Dict) (field identity : String) : Except Exn Unit := do
  let part ← item value field
  let hash ← digest sha part
  requireView (Value.get value identity = .str hash) ("replay view digest mismatch: " ++ field)

/-- The targets of the inputs are those of the outcomes and of the execution. -/
def checkTargets (value : Dict) (outcomes : Dict) : Except Exn Unit := do
  let targets ← getOf (Value.get value "inputs") "targets"
  match targets with
  | .list names => do
    requireView (names ≠ []) "empty or duplicate replay target selection"
    let selected ← setOf targets
    requireView (selected.length = names.length) "empty or duplicate replay target selection"
    let recorded ← item outcomes "targets"
    let recorded ← setOf recorded
    requireView (sameSet selected recorded = true) "replay target identity inventory differs"
    let executed ← setOf (Value.get value "execution")
    requireView (sameSet recorded executed = true) "replay target identity inventory differs"
  | _ => requireView False "empty or duplicate replay target selection"

/-- The fields of a run that was observed. -/
def instanceFields : List String := ["directory", "started_at", "completed_at", "summary_sha256"]

/-- The run that the view names is the one of which it has the summary. -/
def checkInstance (value : Dict) : Except Exn Unit := do
  match Value.get value "run_instance" with
  | .dict run => do
    requireView ((run.all fun p => p.1 ∈ instanceFields) = true ∧
      instanceFields.all (Value.has run) = true) "invalid observed execution identity"
    match Value.get run "directory" with
    | .str directory => do
      requireView (PurePath.parse directory).IsAbsolute "observed run directory is not absolute"
      let summary ← getOf (Value.get value "artifacts")
        ((PurePath.parse directory).join (PurePath.parse "summary.json")).render
      requireView (Value.eq summary (Value.get run "summary_sha256") = true)
        "run identity does not bind its actual summary artifact"
    | _ => requireView False "observed run directory is not absolute"
  | _ => requireView False "invalid observed execution identity"

/-- The checks of `compare_replays` on one view. -/
def checkView (value : Dict) : Except Exn Unit := do
  requireView (Value.get value "schema_version" = .int 1 ∧
    Value.get value "policy" = .str policy ∧ Value.get value "status" = .str "comparable")
    "invalid replay view"
  requireView (Value.get value "accepted" = .bool true ∨ Value.get value "accepted" = .bool false)
    "replay acceptance must be Boolean"
  forM digestFields fun f => checkDigest sha value f.1 f.2
  let outcomes ← entries (Value.get value "outcomes") "get"
  requireView (Value.get outcomes "accepted" = Value.get value "accepted")
    "view/outcome acceptance differs"
  requireView (Value.get outcomes "status" =
    .str (if Value.get value "accepted" = .bool true then "passed" else "incomplete"))
    "view/outcome status differs"
  checkTargets value outcomes
  requireView ((Value.get value "artifacts").truthy = true) "replay artifact inventory digest differs"
  let evidence ← digest sha (Value.get value "artifacts")
  requireView (Value.get value "evidence_id" = .str evidence)
    "replay artifact inventory digest differs"
  checkInstance value

end Check

/-! ## Two views -/

/-- The status of a comparison. -/
inductive ReplayStatus where
  /-- `same-evidence` -/
  | sameEvidence
  /-- `replay-passed` -/
  | replayPassed
  /-- `inputs-changed` -/
  | inputsChanged
  /-- `execution-changed` -/
  | executionChanged
  /-- `outcomes-changed` -/
  | outcomesChanged
  /-- `execution-limits-unavailable` -/
  | executionLimitsUnavailable
  /-- `matching-incomplete` -/
  | matchingIncomplete
  deriving DecidableEq, Repr

/-- What `compare_replays` returns. -/
structure Comparison where
  status : ReplayStatus
  replayPassed : Bool
  inputsEqual : Bool
  executionEqual : Bool
  outcomesEqual : Bool
  bothAccepted : Bool
  executionLimitsKnown : Bool
  distinctExecutionEvidence : Bool
  analysisPolicyScope : List (List (Value × Value))
  currentAnalysisPolicyOnBoth : Bool
  inputDiffs : List Difference
  executionDiffs : List Difference
  outcomeDiffs : List Difference
  evidenceIds : List Value

/-- `all(row.get("analysis_limits") is not None for row in rows)`: the first row without limits
ends the loop. -/
def limitsKnown : List Value → Except Exn Bool
  | [] => .ok true
  | row :: rows => do
    let limits ← getOf row "analysis_limits"
    if limits = .none then .ok false else limitsKnown rows

/-- `view["execution"].values()`. -/
def executionRows (view : Dict) : Except Exn (List Value) := do
  let rows ← entries (Value.get view "execution") "values"
  .ok (rows.map Prod.snd)

/-- The limits of both views are known. The rows of the second view are read when all those of the
first one have passed. -/
def bothLimitsKnown (left right : Dict) : Except Exn Bool := do
  let rows ← executionRows left
  if ← limitsKnown rows then
    let rows ← executionRows right
    limitsKnown rows
  else .ok false

/-- `view["run_instance"][field]`. -/
def runField (view : Dict) (field : String) : Value :=
  match Value.get view "run_instance" with
  | .dict run => Value.get run field
  | _ => .none

/-- The two runs are different ones: in their directories, their summaries, their times and their
artifacts. -/
def distinctEvidence (left right : Dict) : Bool :=
  !Value.eq (runField left "directory") (runField right "directory") &&
    !Value.eq (runField left "summary_sha256") (runField right "summary_sha256") &&
    !(decide (Value.Same (runField left "started_at") (runField right "started_at")) &&
      decide (Value.Same (runField left "completed_at") (runField right "completed_at"))) &&
    !Value.eq (Value.get left "evidence_id") (Value.get right "evidence_id")

/-- The observed policy of each target. -/
def policyScope (view : Dict) : Except Exn (List (Value × Value)) := do
  let inputs := Value.get view "inputs"
  let targets ← getOf inputs "targets"
  (targets.iterate.getD []).mapM fun identifier => do
    let identities ← getOf inputs "identities" (.dict [])
    let identities ← entries identities "get"
    let identity := match identifier with
      | .str name => Value.get identities name (.dict [])
      | _ => .dict []
    let observed ← getOf identity "analysis_policy" (.dict [])
    let status ← getOf observed "status" (.str "unavailable")
    .ok (identifier, status)

/-- The status, from the flags. -/
def statusOf (distinct passed inputs execution outcomes limits : Bool) : ReplayStatus :=
  if !distinct then .sameEvidence
  else if passed then .replayPassed
  else if !inputs then .inputsChanged
  else if !execution then .executionChanged
  else if !outcomes then .outcomesChanged
  else if !limits then .executionLimitsUnavailable
  else .matchingIncomplete

/-- `left[field] == right[field]`. -/
def sameField (left right : Dict) (field : String) : Bool :=
  Value.eq (Value.get left field) (Value.get right field)

/-- The dictionary that `compare_replays` returns. -/
def conclude (left right : Dict) (limits : Bool) (leftScope rightScope : List (Value × Value))
    (inputDiffs executionDiffs outcomeDiffs : List Difference) : Comparison :=
  let inputsEqual := sameField left right "input_id"
  let executionEqual := sameField left right "execution_id"
  let outcomesEqual := sameField left right "outcome_id"
  let both := (Value.get left "accepted").truthy && (Value.get right "accepted").truthy
  let distinct := distinctEvidence left right
  let passed := inputsEqual && executionEqual && outcomesEqual && both && limits && distinct
  { status := statusOf distinct passed inputsEqual executionEqual outcomesEqual limits
    replayPassed := passed
    inputsEqual := inputsEqual
    executionEqual := executionEqual
    outcomesEqual := outcomesEqual
    bothAccepted := both
    executionLimitsKnown := limits
    distinctExecutionEvidence := distinct
    analysisPolicyScope := [leftScope, rightScope]
    currentAnalysisPolicyOnBoth := [leftScope, rightScope].all fun scope =>
      scope.all fun p => Value.eq p.2 (.str "checked")
    inputDiffs := inputDiffs
    executionDiffs := executionDiffs
    outcomeDiffs := outcomeDiffs
    evidenceIds := [Value.get left "evidence_id", Value.get right "evidence_id"] }

/-- `compare_replays(left, right)`. -/
def compareReplays (sha : Value → String) (left right : Dict) : Except Exn Comparison := do
  checkView sha left
  checkView sha right
  let limits ← bothLimitsKnown left right
  let leftScope ← policyScope left
  let rightScope ← policyScope right
  let inputDiffs ← differences sha (Value.get left "inputs") (Value.get right "inputs")
  let executionDiffs ← differences sha (Value.get left "execution") (Value.get right "execution")
  let outcomeDiffs ← differences sha (Value.get left "outcomes") (Value.get right "outcomes")
  .ok (conclude left right limits leftScope rightScope inputDiffs executionDiffs outcomeDiffs)

/-! ## What the checks establish -/

variable {sha : Value → String}

theorem digest_eq_ok_iff {v : Value} {hash : String} :
    digest sha v = .ok hash ↔ v.isFinite = true ∧ hash = sha v.sorted := by
  unfold digest
  split_ifs with h
  · simp [h, eq_comm]
  · simp [h]

theorem differences_eq_ok_iff {left right : Value} {ds : List Difference} :
    differences sha left right = .ok ds ↔
      left.isFinite = true ∧ right.isFinite = true ∧ ds = differencesFrom sha left right "" := by
  unfold differences
  simp only [bind_eq_ok_iff, digest_eq_ok_iff, Except.ok.injEq]
  constructor
  · rintro ⟨_, ⟨hl, -⟩, _, ⟨hr, -⟩, rfl⟩
    exact ⟨hl, hr, rfl⟩
  · rintro ⟨hl, hr, rfl⟩
    exact ⟨_, ⟨hl, rfl⟩, _, ⟨hr, rfl⟩, rfl⟩

/-- A part of a view is finite, and the view carries its digest. -/
def Digested (sha : Value → String) (view : Dict) (field identity : String) : Prop :=
  (Value.get view field).isFinite = true ∧
    Value.get view identity = .str (sha (Value.get view field).sorted)

/-- What the checks on a view establish. -/
structure Checked (sha : Value → String) (view : Dict) : Prop where
  digested : ∀ f ∈ digestFields, Digested sha view f.1 f.2
  accepted : Value.get view "accepted" = .bool true ∨ Value.get view "accepted" = .bool false
  directory : ∃ run directory, Value.get view "run_instance" = .dict run ∧
    Value.get run "directory" = .str directory

theorem digested_of_checkDigest {view : Dict} {field identity : String}
    (h : checkDigest sha view field identity = .ok ()) : Digested sha view field identity := by
  unfold checkDigest at h
  simp only [bind_eq_ok_iff, item, orRaise_eq_ok_iff, digest_eq_ok_iff, requireView_eq_ok_iff] at h
  obtain ⟨part, hpart, _, ⟨hfinite, rfl⟩, hid⟩ := h
  have hget : Value.get view field = part := by
    rw [Value.get, hpart, Option.getD_some]
  exact ⟨hget ▸ hfinite, hget ▸ hid⟩

theorem forall_of_forM {ε α : Type} {f : α → Except ε PUnit} {as : List α}
    (h : forM as f = .ok ⟨⟩) : ∀ a ∈ as, f a = .ok ⟨⟩ := by
  induction as with
  | nil => simp
  | cons a as ih =>
    rw [List.forM_cons, bind_eq_ok_iff] at h
    obtain ⟨_, ha, has⟩ := h
    exact List.forall_mem_cons.mpr ⟨ha, ih has⟩

theorem directory_of_checkInstance {view : Dict} (h : checkInstance view = .ok ()) :
    ∃ run directory, Value.get view "run_instance" = .dict run ∧
      Value.get run "directory" = .str directory := by
  unfold checkInstance at h
  split at h
  · next run hrun =>
    rw [bind_eq_ok_iff] at h
    obtain ⟨-, -, h⟩ := h
    split at h
    · next directory hdirectory => exact ⟨run, directory, hrun, hdirectory⟩
    · exact absurd h (by simp)
  · exact absurd h (by simp)

theorem checked_of_checkView {view : Dict} (h : checkView sha view = .ok ()) :
    Checked sha view := by
  unfold checkView at h
  simp only [bind_eq_ok_iff, requireView_eq_ok_iff] at h
  obtain ⟨-, -, -, haccepted, ⟨⟩, hdigests, -, -, -, -, -, -, -, -, -, -, -, -, -, -, hrun⟩ := h
  exact ⟨fun f hf => digested_of_checkDigest (forall_of_forM hdigests f hf), haccepted,
    directory_of_checkInstance hrun⟩

theorem compareReplays_eq_ok_iff {left right : Dict} {c : Comparison} :
    compareReplays sha left right = .ok c ↔
      checkView sha left = .ok () ∧ checkView sha right = .ok () ∧
      ∃ limits, bothLimitsKnown left right = .ok limits ∧
      ∃ leftScope, policyScope left = .ok leftScope ∧
      ∃ rightScope, policyScope right = .ok rightScope ∧
      ∃ inputDiffs, differences sha (Value.get left "inputs") (Value.get right "inputs") =
        .ok inputDiffs ∧
      ∃ executionDiffs, differences sha (Value.get left "execution") (Value.get right "execution") =
        .ok executionDiffs ∧
      ∃ outcomeDiffs, differences sha (Value.get left "outcomes") (Value.get right "outcomes") =
        .ok outcomeDiffs ∧
      c = conclude left right limits leftScope rightScope inputDiffs executionDiffs outcomeDiffs := by
  unfold compareReplays
  simp only [bind_eq_ok_iff, Except.ok.injEq]
  constructor
  · rintro ⟨⟨⟩, hl, ⟨⟩, hr, limits, hlimits, ls, hls, rs, hrs, ds, hds, es, hes, os, hos, rfl⟩
    exact ⟨hl, hr, limits, hlimits, ls, hls, rs, hrs, ds, hds, es, hes, os, hos, rfl⟩
  · rintro ⟨hl, hr, limits, hlimits, ls, hls, rs, hrs, ds, hds, es, hes, os, hos, rfl⟩
    exact ⟨⟨⟩, hl, ⟨⟩, hr, limits, hlimits, ls, hls, rs, hrs, ds, hds, es, hes, os, hos, rfl⟩

/-! ## The order of the two views -/

/-- Two comparisons with the same status and the same flags. -/
structure Comparison.SameVerdict (c c' : Comparison) : Prop where
  status : c.status = c'.status
  replayPassed : c.replayPassed = c'.replayPassed
  inputsEqual : c.inputsEqual = c'.inputsEqual
  executionEqual : c.executionEqual = c'.executionEqual
  outcomesEqual : c.outcomesEqual = c'.outcomesEqual
  bothAccepted : c.bothAccepted = c'.bothAccepted
  executionLimitsKnown : c.executionLimitsKnown = c'.executionLimitsKnown
  distinctExecutionEvidence : c.distinctExecutionEvidence = c'.distinctExecutionEvidence
  currentAnalysisPolicyOnBoth : c.currentAnalysisPolicyOnBoth = c'.currentAnalysisPolicyOnBoth

theorem norm_eq_nan_iff {v : Value} : v.norm = .float .nan ↔ v = .float .nan := by
  cases v with
  | float x =>
    cases x with
    | finite q =>
      rw [Value.norm, Value.normFloat]
      split_ifs <;> simp
    | infinite negative => simp [Value.norm, Value.normFloat]
    | nan => simp [Value.norm, Value.normFloat]
  | _ => simp [Value.norm]

/-- `==` is symmetric. -/
theorem eq_swap (a b : Value) : Value.eq a b = Value.eq b a := by
  have hstep : ∀ a b : Value, Value.eq a b = true → Value.eq b a = true := by
    intro a b h
    obtain ⟨hnan, hsame⟩ := Value.eq_iff.mp h
    refine Value.eq_iff.mpr ⟨fun hb => hnan ?_, hsame.symm⟩
    subst hb
    exact norm_eq_nan_iff.mp hsame
  exact Bool.eq_iff_iff.mpr ⟨hstep a b, hstep b a⟩

theorem same_swap (a b : Value) : decide (Value.Same a b) = decide (Value.Same b a) :=
  decide_eq_decide.mpr ⟨Value.Same.symm, Value.Same.symm⟩

theorem distinctEvidence_swap (left right : Dict) :
    distinctEvidence left right = distinctEvidence right left := by
  unfold distinctEvidence
  rw [eq_swap (runField left "directory"), eq_swap (runField left "summary_sha256"),
    same_swap (runField left "started_at"), same_swap (runField left "completed_at"),
    eq_swap (Value.get left "evidence_id")]

/-- The limits of a row are known. -/
def KnownRow (row : Value) : Prop := ∃ d, row = .dict d ∧ Value.get d "analysis_limits" ≠ .none

theorem limitsKnown_eq_true_iff {rows : List Value} :
    limitsKnown rows = .ok true ↔ ∀ row ∈ rows, KnownRow row := by
  induction rows with
  | nil => simp [limitsKnown]
  | cons row rows ih =>
    rw [List.forall_mem_cons, ← ih, limitsKnown]
    cases row with
    | dict d =>
      have hknown : KnownRow (.dict d) ↔ Value.get d "analysis_limits" ≠ .none := by
        simp [KnownRow]
      rw [hknown]
      by_cases h : Value.get d "analysis_limits" = .none
      · simp [getOf, entries, bind, Except.bind, h]
      · simp [getOf, entries, bind, Except.bind, h]
    | _ => simp [getOf, entries, bind, Except.bind, KnownRow]

theorem bothLimitsKnown_eq_true_iff {left right : Dict} :
    bothLimitsKnown left right = .ok true ↔
      ∃ ls rs, executionRows left = .ok ls ∧ executionRows right = .ok rs ∧
        (∀ row ∈ ls, KnownRow row) ∧ ∀ row ∈ rs, KnownRow row := by
  unfold bothLimitsKnown
  simp only [bind_eq_ok_iff]
  constructor
  · rintro ⟨ls, hls, b, hb, h⟩
    cases b with
    | false => exact absurd h (by simp)
    | true =>
      rw [if_pos rfl, bind_eq_ok_iff] at h
      obtain ⟨rs, hrs, h⟩ := h
      exact ⟨ls, rs, hls, hrs, limitsKnown_eq_true_iff.mp hb, limitsKnown_eq_true_iff.mp h⟩
  · rintro ⟨ls, rs, hls, hrs, hl, hr⟩
    refine ⟨ls, hls, true, limitsKnown_eq_true_iff.mpr hl, ?_⟩
    rw [if_pos rfl, bind_eq_ok_iff]
    exact ⟨rs, hrs, limitsKnown_eq_true_iff.mpr hr⟩

/-- Where both orders of the views return, they find the same limits known. -/
theorem bothLimitsKnown_swap {left right : Dict} {b b' : Bool}
    (h : bothLimitsKnown left right = .ok b) (h' : bothLimitsKnown right left = .ok b') :
    b = b' := by
  have hswap : bothLimitsKnown left right = .ok true ↔ bothLimitsKnown right left = .ok true := by
    rw [bothLimitsKnown_eq_true_iff, bothLimitsKnown_eq_true_iff]
    constructor
    · rintro ⟨ls, rs, hls, hrs, hl, hr⟩
      exact ⟨rs, ls, hrs, hls, hr, hl⟩
    · rintro ⟨rs, ls, hrs, hls, hr, hl⟩
      exact ⟨ls, rs, hls, hrs, hl, hr⟩
  rw [h, h', Except.ok.injEq, Except.ok.injEq] at hswap
  exact Bool.eq_iff_iff.mpr hswap

/-- The execution of a view is a dictionary of dictionaries. -/
def Rows (view : Dict) : Prop :=
  ∃ d, Value.get view "execution" = .dict d ∧ ∀ p ∈ d, ∃ row, p.2 = .dict row

theorem exists_limitsKnown {rows : List Value} (h : ∀ row ∈ rows, ∃ d, row = .dict d) :
    ∃ b, limitsKnown rows = .ok b := by
  induction rows with
  | nil => exact ⟨true, rfl⟩
  | cons row rows ih =>
    obtain ⟨⟨d, rfl⟩, hrows⟩ := List.forall_mem_cons.mp h
    by_cases hd : Value.get d "analysis_limits" = .none
    · exact ⟨false, by simp [limitsKnown, getOf, entries, bind, Except.bind, hd]⟩
    · obtain ⟨b, hb⟩ := ih hrows
      exact ⟨b, by simp [limitsKnown, getOf, entries, bind, Except.bind, hd, hb]⟩

theorem Rows.exists_rows {view : Dict} (h : Rows view) :
    ∃ rows, executionRows view = .ok rows ∧ ∀ row ∈ rows, ∃ d, row = .dict d := by
  obtain ⟨d, hd, hrows⟩ := h
  refine ⟨d.map Prod.snd, by rw [executionRows, hd]; rfl, ?_⟩
  intro row hrow
  obtain ⟨p, hp, rfl⟩ := List.mem_map.mp hrow
  exact hrows p hp

theorem exists_bothLimitsKnown {left right : Dict} (hl : Rows left) (hr : Rows right) :
    ∃ b, bothLimitsKnown left right = .ok b := by
  obtain ⟨ls, hls, hlsd⟩ := hl.exists_rows
  obtain ⟨rs, hrs, hrsd⟩ := hr.exists_rows
  obtain ⟨b, hb⟩ := exists_limitsKnown hlsd
  unfold bothLimitsKnown
  cases b with
  | false => exact ⟨false, bind_eq_ok_iff.mpr ⟨ls, hls, bind_eq_ok_iff.mpr ⟨false, hb, rfl⟩⟩⟩
  | true =>
    obtain ⟨b', hb'⟩ := exists_limitsKnown hrsd
    exact ⟨b', bind_eq_ok_iff.mpr ⟨ls, hls, bind_eq_ok_iff.mpr ⟨true, hb,
      bind_eq_ok_iff.mpr ⟨rs, hrs, hb'⟩⟩⟩⟩

theorem conclude_swap (left right : Dict) (limits : Bool) (leftScope rightScope : List (Value × Value))
    (ds es os ds' es' os' : List Difference) :
    (conclude left right limits leftScope rightScope ds es os).SameVerdict
      (conclude right left limits rightScope leftScope ds' es' os') := by
  have hfield : ∀ field, sameField left right field = sameField right left field :=
    fun field => eq_swap _ _
  have hboth : ((Value.get left "accepted").truthy && (Value.get right "accepted").truthy) =
      ((Value.get right "accepted").truthy && (Value.get left "accepted").truthy) :=
    Bool.and_comm _ _
  have hdistinct := distinctEvidence_swap left right
  constructor
  all_goals
    unfold conclude
    simp only [hfield, hboth, hdistinct]
  simp only [List.all_cons, List.all_nil, Bool.and_true]
  exact Bool.and_comm _ _

/-- **The verdict does not depend on the order of the views.** -/
theorem compareReplays_swap {left right : Dict} {c c' : Comparison}
    (h : compareReplays sha left right = .ok c) (h' : compareReplays sha right left = .ok c') :
    c.SameVerdict c' := by
  obtain ⟨-, -, limits, hlimits, ls, hls, rs, hrs, ds, -, es, -, os, -, rfl⟩ :=
    compareReplays_eq_ok_iff.mp h
  obtain ⟨-, -, limits', hlimits', rs', hrs', ls', hls', ds', -, es', -, os', -, rfl⟩ :=
    compareReplays_eq_ok_iff.mp h'
  obtain rfl := bothLimitsKnown_swap hlimits hlimits'
  obtain rfl := Except.ok.inj (hls.symm.trans hls')
  obtain rfl := Except.ok.inj (hrs.symm.trans hrs')
  exact conclude_swap left right limits ls rs ds es os ds' es' os'

/-- The other order of the views returns where their executions can be read to the end. -/
theorem exists_compareReplays_swap {left right : Dict} {c : Comparison}
    (h : compareReplays sha left right = .ok c) (hl : Rows left) (hr : Rows right) :
    ∃ c', compareReplays sha right left = .ok c' := by
  obtain ⟨hleft, hright, -, -, ls, hls, rs, hrs, ds, hds, es, hes, os, hos, -⟩ :=
    compareReplays_eq_ok_iff.mp h
  have hswap : ∀ {a b : Value} {ds : List Difference}, differences sha a b = .ok ds →
      ∃ ds', differences sha b a = .ok ds' := by
    intro a b ds h
    obtain ⟨ha, hb, -⟩ := differences_eq_ok_iff.mp h
    exact ⟨_, differences_eq_ok_iff.mpr ⟨hb, ha, rfl⟩⟩
  obtain ⟨limits, hlimits⟩ := exists_bothLimitsKnown hr hl
  obtain ⟨ds', hds'⟩ := hswap hds
  obtain ⟨es', hes'⟩ := hswap hes
  obtain ⟨os', hos'⟩ := hswap hos
  exact ⟨_, compareReplays_eq_ok_iff.mpr ⟨hright, hleft, limits, hlimits, rs, hrs, ls, hls,
    ds', hds', es', hes', os', hos', rfl⟩⟩

/-! ## What the flags say -/

/-- The digest tells apart the parts of two views that are not written in the same way. -/
def CollisionFree (sha : Value → String) (left right : Dict) : Prop :=
  ∀ f ∈ digestFields, sha (Value.get left f.1).sorted = sha (Value.get right f.1).sorted →
    (Value.get left f.1).sorted = (Value.get right f.1).sorted

/-- The flags of a comparison say what its lists of differences say. -/
structure Comparison.Explains (c : Comparison) (left right : Dict) : Prop where
  inputs : c.inputsEqual = true ↔ c.inputDiffs = []
  execution : c.executionEqual = true ↔ c.executionDiffs = []
  outcomes : c.outcomesEqual = true ↔ c.outcomeDiffs = []
  /-- A replay that passes has nothing to explain, and both runs were accepted. -/
  passed : c.replayPassed = true → c.inputDiffs = [] ∧ c.executionDiffs = [] ∧
    c.outcomeDiffs = [] ∧ Value.get left "accepted" = .bool true ∧
    Value.get right "accepted" = .bool true

/-- The digests of a part agree exactly when there is no difference. -/
theorem sameField_iff {left right : Dict} (hl : Checked sha left) (hr : Checked sha right)
    (hfree : CollisionFree sha left right) {f : String × String} (hf : f ∈ digestFields)
    {ds : List Difference}
    (hds : differences sha (Value.get left f.1) (Value.get right f.1) = .ok ds) :
    sameField left right f.2 = true ↔ ds = [] := by
  obtain ⟨-, -, rfl⟩ := differences_eq_ok_iff.mp hds
  rw [(differencesFrom_exact sha _ _).empty_iff, sameField, (hl.digested f hf).2,
    (hr.digested f hf).2, Value.eq_str_iff, Value.str.injEq]
  exact ⟨hfree f hf, fun h => congrArg sha h⟩

theorem accepted_of_truthy {view : Dict} (h : Checked sha view)
    (ht : (Value.get view "accepted").truthy = true) : Value.get view "accepted" = .bool true := by
  rcases h.accepted with hb | hb
  · exact hb
  · rw [hb] at ht
    exact absurd ht (by simp [Value.truthy])

/-- **The flags say what the differences say.** -/
theorem compareReplays_explains {left right : Dict} {c : Comparison}
    (hfree : CollisionFree sha left right) (h : compareReplays sha left right = .ok c) :
    c.Explains left right := by
  obtain ⟨hleft, hright, limits, -, ls, -, rs, -, ds, hds, es, hes, os, hos, rfl⟩ :=
    compareReplays_eq_ok_iff.mp h
  have hl := checked_of_checkView hleft
  have hr := checked_of_checkView hright
  have hinputs := sameField_iff hl hr hfree (f := ("inputs", "input_id")) (by decide) hds
  have hexecution := sameField_iff hl hr hfree (f := ("execution", "execution_id")) (by decide) hes
  have houtcomes := sameField_iff hl hr hfree (f := ("outcomes", "outcome_id")) (by decide) hos
  refine ⟨hinputs, hexecution, houtcomes, fun hpassed => ?_⟩
  have hall : ((((sameField left right "input_id" = true ∧ sameField left right "execution_id" = true) ∧
      sameField left right "outcome_id" = true) ∧
      ((Value.get left "accepted").truthy = true ∧ (Value.get right "accepted").truthy = true)) ∧
      limits = true) ∧ distinctEvidence left right = true := by
    simpa only [conclude, Bool.and_eq_true] using hpassed
  obtain ⟨⟨⟨⟨⟨hin, hex⟩, hout⟩, hal, har⟩, -⟩, -⟩ := hall
  exact ⟨hinputs.mp hin, hexecution.mp hex, houtcomes.mp hout, accepted_of_truthy hl hal,
    accepted_of_truthy hr har⟩

/-- **A view compared with itself never passes**: it is one run. -/
theorem compareReplays_self {view : Dict} {c : Comparison}
    (h : compareReplays sha view view = .ok c) :
    c.replayPassed = false ∧ c.status = .sameEvidence := by
  obtain ⟨hview, -, limits, -, ls, -, rs, -, ds, -, es, -, os, -, rfl⟩ :=
    compareReplays_eq_ok_iff.mp h
  obtain ⟨run, directory, hrun, hdirectory⟩ := (checked_of_checkView hview).directory
  have hdistinct : distinctEvidence view view = false := by
    unfold distinctEvidence
    have hrunField : runField view "directory" = .str directory := by
      simp only [runField, hrun, hdirectory]
    rw [hrunField, Value.eq_str_iff.mpr rfl]
    rfl
  simp [conclude, hdistinct, statusOf]

/-- **Reported differences are exact.**  The list of differences of two values says where they
differ and that they are the same elsewhere; and the comparison of two views says in its flags what
its lists say, has the same verdict in the other order, and does not pass a view against itself. -/
theorem compareReplays_exact (sha : Value → String) :
    (∀ left right : Value, left.isFinite = true → right.isFinite = true →
      ∃ ds, differences sha left right = .ok ds ∧ Exact sha left right ds) ∧
    ∀ left right : Dict, CollisionFree sha left right →
      ∀ c, compareReplays sha left right = .ok c →
        c.Explains left right ∧
        (∀ c', compareReplays sha right left = .ok c' → c.SameVerdict c') ∧
        (Rows left → Rows right → ∃ c', compareReplays sha right left = .ok c') ∧
        (left = right → c.replayPassed = false) := by
  constructor
  · intro left right hl hr
    exact ⟨_, differences_eq_ok_iff.mpr ⟨hl, hr, rfl⟩, differencesFrom_exact sha left right⟩
  · intro left right hfree c h
    refine ⟨compareReplays_explains hfree h, fun c' h' => compareReplays_swap h h',
      exists_compareReplays_swap h, ?_⟩
    rintro rfl
    exact (compareReplays_self h).1

/-! ## Two recorded runs -/

/-- The execution of a run of one target, with its limits. -/
def helperExecution (limits : Value) : Value :=
  .dict [("helper", .dict [("analysis_limits", limits)])]

/-- The inputs of a run of one target. -/
def helperInputs : Value := .dict [("targets", .list [.str "helper"])]

/-- The outcomes of a run of one target that was accepted. -/
def helperOutcomes : Value :=
  .dict [("accepted", .bool true), ("status", .str "passed"),
    ("targets", .dict [("helper", .dict [])])]

/-- The artifacts of a run: its summary. -/
def helperArtifacts (run summary : String) : Value :=
  .dict [("/tmp/" ++ run ++ "/summary.json", .str summary)]

/-- The hash of the first summary. -/
def summaryOne : String := "49e9fcfb5617aad332d56d58ffd0c7020d29ec1d0d0a03b7d7c47f268820acf3"

/-- The hash of the second summary. -/
def summaryTwo : String := "b85d38dc71a8027700bebd3c30d39424852cf532883d88f0a0d992d3bf0eba9b"

/-- The SHA-256 hashes of the texts that the views below are made of. -/
def recordedHashes : List (Value × String) :=
  [(.int 1, "6b86b273ff34fce19d6b804eff5a3f5747ada4eaa22f1d49c01e52ddb7875b4b"),
    (.int 2, "d4735e3a265e16eee03f59718b9b5d03019c07d8b6c51f90da3a666eec13ab35"),
    (helperInputs, "2a9a6fbb64d8f6ca54a471669a171d3b5279c3cea51148c078e64bcbccb3bff7"),
    (helperExecution (.dict [("jobs", .int 1)]),
      "7628d442ceb0d920cb66afb2c8e978c4a220c6f32701f931d168442b9df05891"),
    (helperExecution .none, "77f525eecc21ce110773c24765dec454e1ad4889dbd6c2e027beb8efd5426178"),
    (.list [.str "helper"], "6b6c2bd9e2c35d527c22870851bdb083e1d20c6ac48d8be2e077f10e5c5247d8"),
    (helperOutcomes, "8c9066edb604822f4b9df7d3966c83ca08294fc2bc4cc931b94c8c9764f67b14"),
    (helperArtifacts "one" summaryOne,
      "c6a92a6107d9013e0f49337df4ed3f962cbf718cc7723fdd58e0f73bc0ba3c29"),
    (helperArtifacts "two" summaryTwo,
      "7d2abdebc8b76fec6d18c93c05fa35ca8e030c480e698fee3900a3524e673dd8")]

/-- The hash of one of these texts. -/
def recordedSha (v : Value) : String :=
  ((recordedHashes.find? fun p => decide (p.1 = v)).map Prod.snd).getD ""

/-- The view of a run of one target that was accepted. -/
def helperView (run summary : String) (execution : Value) : Dict :=
  [("schema_version", .int 1), ("policy", .str policy), ("status", .str "comparable"),
    ("accepted", .bool true), ("inputs", helperInputs), ("execution", execution),
    ("outcomes", helperOutcomes), ("artifacts", helperArtifacts run summary),
    ("run_instance", .dict [("directory", .str ("/tmp/" ++ run)), ("started_at", .str run),
      ("completed_at", .str run), ("summary_sha256", .str summary)]),
    ("input_id", .str (recordedSha helperInputs)), ("execution_id", .str (recordedSha execution)),
    ("outcome_id", .str (recordedSha helperOutcomes)),
    ("evidence_id", .str (recordedSha (helperArtifacts run summary)))]

/-- The execution in which the limits are known. -/
def limitedExecution : Value := helperExecution (.dict [("jobs", .int 1)])

theorem rows_helperView (run summary : String) (limits : Value) :
    Rows (helperView run summary (helperExecution limits)) :=
  ⟨[("helper", .dict [("analysis_limits", limits)])], rfl, by simp⟩

/-- Two accepted runs with the same parts pass, in both orders. -/
theorem compareReplays_exact_passed :
    ∃ c c', compareReplays recordedSha (helperView "one" summaryOne limitedExecution)
        (helperView "two" summaryTwo limitedExecution) = .ok c ∧
      compareReplays recordedSha (helperView "two" summaryTwo limitedExecution)
        (helperView "one" summaryOne limitedExecution) = .ok c' ∧
      c.replayPassed = true ∧ c'.replayPassed = true ∧ c.inputDiffs = [] := by
  have hreturns : returns (compareReplays recordedSha (helperView "one" summaryOne limitedExecution)
      (helperView "two" summaryTwo limitedExecution)) (fun c => c.replayPassed) = true := by
    decide +kernel
  obtain ⟨c, hc, hpassed⟩ := exists_of_returns hreturns
  obtain ⟨hexplains, hsame, hswap, -⟩ := (compareReplays_exact recordedSha).2 _ _
    (by unfold CollisionFree; decide +kernel) c hc
  obtain ⟨c', hc'⟩ := hswap (rows_helperView _ _ _) (rows_helperView _ _ _)
  exact ⟨c, c', hc, hc', hpassed, (hsame c' hc').replayPassed ▸ hpassed,
    (hexplains.passed hpassed).1⟩

/-- A place above a difference differs too, although nothing at it or above it is reported.  And
where the limits of the first run are unknown, the comparison returns without a look at the
execution of the second one, on which the other order raises. -/
theorem differences_above :
    ¬ (∀ left right ds, differences recordedSha left right = .ok ds →
      ∀ loc, (∀ d ∈ ds, ∀ loc', d.path = shown (pointer loc') → ¬ loc' <+: loc) →
        (left.at loc).map Value.sorted = (right.at loc).map Value.sorted) ∧
    ¬ (∀ left right, CollisionFree recordedSha left right →
      ∀ c, compareReplays recordedSha left right = .ok c →
        ∃ c', compareReplays recordedSha right left = .ok c' ∧ c.SameVerdict c') := by
  constructor
  · intro h
    have hds : differences recordedSha (.dict [("a", .int 1)]) (.dict [("a", .int 2)]) =
        .ok [⟨"/a", .changed (recordedSha (.int 1)) (recordedSha (.int 2))⟩] := by decide +kernel
    refine absurd (h _ _ _ hds [] fun d hd loc hloc hle => ?_) (by decide +kernel)
    obtain rfl := List.mem_singleton.mp hd
    rw [List.prefix_nil.mp hle] at hloc
    exact absurd hloc (by decide +kernel)
  · intro h
    have hreturns : returns (compareReplays recordedSha
        (helperView "one" summaryOne (helperExecution .none))
        (helperView "two" summaryTwo (.list [.str "helper"]))) (fun _ => true) = true := by
      decide +kernel
    obtain ⟨c, hc, -⟩ := exists_of_returns hreturns
    obtain ⟨c', hc', -⟩ := h _ _ (by unfold CollisionFree; decide +kernel) c hc
    have hraises : returns (compareReplays recordedSha
        (helperView "two" summaryTwo (.list [.str "helper"]))
        (helperView "one" summaryOne (helperExecution .none))) (fun _ => true) = false := by
      decide +kernel
    rw [hc'] at hraises
    exact absurd hraises (by simp [returns])

end Replay
end Fragma
