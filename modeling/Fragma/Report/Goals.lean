import Mathlib.Tactic.Linarith
import Fragma.Python.Exn
import Fragma.Python.Text
import Fragma.Python.Value

/-!
# The goals of a WP report

`fragma/report.py`, `_wp_rows`.  A WP report is an array of goal records.  Every record
is checked on its own, and the first one that fails makes the whole report fail.

A `Goal` is a record that passed.  It carries what the checks guarantee: its line is
positive, it has a prover, and an ordinary goal is marked as passed exactly when its
verdict is valid, which needs a prover that succeeded.

* `Host`: what the program asks the interpreter and the file system for.
* `WpVerdict`, `GoalOutcome`, `Prover`, `Goal`.
* `wpRow`, `wpRows`: the checks.
* `wpRows_reads`: the goals are the records of the array, in order.
-/

namespace Fragma
namespace Report

open Python

/-- What the report policy asks its surroundings for: `str(Path(p).resolve())`, the
SHA256 of `json.dumps(v, sort_keys=True, …)`, `str(v)` for a value that is no string,
and `str.isalnum` of one character. -/
structure Host where
  resolve : String → Except Exn String
  digest : Value → String
  display : Value → String
  isAlnum : Char → Bool

/-- `f"{v}"`. -/
def Host.format (host : Host) : Value → String
  | .str s => s
  | v => host.display v

/-- `ReportError(message)`. -/
def reportError (message : String) : Exn := ⟨.reportError, message⟩

/-! ## Goals -/

/-- `WP_VERDICTS`. -/
inductive WpVerdict where
  | valid
  | invalid
  | unknown
  | timeout
  | failed
  | noresult
  | error
  deriving DecidableEq, Repr

/-- The verdict that a text names. -/
def WpVerdict.ofText? : String → Option WpVerdict
  | "valid" => some .valid
  | "invalid" => some .invalid
  | "unknown" => some .unknown
  | "timeout" => some .timeout
  | "failed" => some .failed
  | "noresult" => some .noresult
  | "error" => some .error
  | _ => none

/-- What a goal contributes to the evaluation. -/
inductive GoalOutcome where
  | valid
  | invalid
  | unknown
  | timeout
  | toolError
  | inconsistent
  | inconclusive
  deriving DecidableEq, Repr

/-- The word for an outcome. -/
def GoalOutcome.text : GoalOutcome → String
  | .valid => "valid"
  | .invalid => "invalid"
  | .unknown => "unknown"
  | .timeout => "timeout"
  | .toolError => "tool-error"
  | .inconsistent => "inconsistent"
  | .inconclusive => "inconclusive"

/-- The result of one prover. -/
structure Prover where
  name : String
  success : ℕ
  deriving DecidableEq, Repr

/-- A goal record that passed its checks. -/
structure Goal where
  record : Dict
  goal : String
  property : String
  function : String
  file : String
  line : ℤ
  smoke : Bool
  passed : Bool
  verdict : WpVerdict
  provers : List Prover
  path : String
  line_pos : 1 ≤ line
  provers_ne_nil : provers ≠ []
  passed_iff : smoke = false → (passed = true ↔ verdict = .valid)
  proved : smoke = false → verdict = .valid → ∃ p ∈ provers, 0 < p.success

/-- `row["outcome"]`. -/
def Goal.outcome (g : Goal) : GoalOutcome :=
  if g.smoke then
    -- a smoke goal that is proved shows an inconsistency
    if g.verdict = .failed ∨ g.verdict = .error then .toolError
    else if g.verdict = .valid ∨ g.passed = false then .inconsistent
    else .inconclusive
  else
    match g.verdict with
    | .valid => .valid
    | .invalid => .invalid
    | .unknown => .unknown
    | .timeout => .timeout
    | .failed => .toolError
    | .error => .toolError
    | .noresult => .unknown

theorem Goal.outcome_eq_valid {g : Goal} (h : g.smoke = false) :
    g.outcome = .valid ↔ g.verdict = .valid := by
  unfold Goal.outcome
  rw [if_neg (by simp [h])]
  cases g.verdict <;> simp

theorem Goal.outcome_eq_invalid {g : Goal} (h : g.smoke = false) :
    g.outcome = .invalid ↔ g.verdict = .invalid := by
  unfold Goal.outcome
  rw [if_neg (by simp [h])]
  cases g.verdict <;> simp

/-! ## The checks of one record -/

/-- From here on an integer has no floating-point number next to it:
`math.isfinite` raises. -/
def floatLimit : ℤ := 2 ^ 1024 - 2 ^ 970

/-- The check of the elapsed time of a prover. -/
def checkTime : Value → Except Exn Unit
  | .int n =>
    if floatLimit ≤ n ∨ n ≤ -floatLimit then
      .error ⟨.overflowError, "int too large to convert to float"⟩
    else if n < 0 then .error (reportError "Invalid WP prover elapsed time")
    else .ok ()
  | .float (.finite q) =>
    if q < 0 then .error (reportError "Invalid WP prover elapsed time") else .ok ()
  | _ => .error (reportError "Invalid WP prover elapsed time")

/-- The check of one prover record. -/
def wpProver : Value → Except Exn Prover
  | .dict prover =>
    match Value.get prover "prover" with
    | .str name =>
      match checkTime (Value.get prover "time") with
      | .error e => .error e
      | .ok () =>
        match Value.get prover "success" with
        | .int (.ofNat n) => .ok ⟨name, n⟩
        | _ => .error (reportError "Invalid WP prover success count")
    | _ => .error (reportError "Malformed WP prover record")
  | _ => .error (reportError "Malformed WP prover record")

/-- A text field that is not blank. -/
def wpText (index : ℕ) (row : Dict) (field : String) : Except Exn String :=
  match Value.get row field with
  | .str s =>
    if isBlank s then .error (reportError s!"WP goal {index} has no {field}") else .ok s
  | _ => .error (reportError s!"WP goal {index} has no {field}")

/-- The check of the source line. -/
def wpLine (row : Dict) (goal : String) : Except Exn { n : ℤ // 1 ≤ n } :=
  match Value.get row "line" with
  | .int n =>
    if h : 1 ≤ n then .ok ⟨n, h⟩
    else .error (reportError ("WP goal has no valid source line: " ++ goal))
  | _ => .error (reportError ("WP goal has no valid source line: " ++ goal))

/-- The check of the two Boolean fields. -/
def wpFlags (row : Dict) (goal : String) : Except Exn (Bool × Bool) :=
  match Value.get row "smoke", Value.get row "passed" with
  | .bool smoke, .bool passed => .ok (smoke, passed)
  | _, _ => .error (reportError ("WP goal has no Boolean smoke/passed fields: " ++ goal))

/-- The check of the prover list. -/
def wpProvers (row : Dict) (goal : String) : Except Exn { ps : List Prover // ps ≠ [] } :=
  match Value.get row "provers" with
  | .list (v :: vs) =>
    match wpProver v with
    | .error e => .error e
    | .ok p =>
      match collect (fun v => (wpProver v).map fun p => [p]) vs with
      | .error e => .error e
      | .ok ps => .ok ⟨p :: ps, List.cons_ne_nil p ps⟩
  | _ => .error (reportError ("WP goal has no prover result: " ++ goal))

/-- The check of one goal record, after the goals named in `seen`. -/
def wpRow (host : Host) (index : ℕ) (seen : List String) : Value → Except Exn Goal
  | .dict row => do
    let goal ← wpText index row "goal"
    let property ← wpText index row "property"
    let function ← wpText index row "function"
    let file ← wpText index row "file"
    let verdictText ← wpText index row "verdict"
    raiseIf (goal ∈ seen) (reportError ("Duplicate WP goal: " ++ goal))
    let line ← wpLine row goal
    let flags ← wpFlags row goal
    let verdict ← orRaise (WpVerdict.ofText? verdictText)
      (reportError ("Unknown WP verdict: " ++ verdictText))
    let provers ← wpProvers row goal
    if hpassed : flags.1 = false → (flags.2 = true ↔ verdict = .valid) then
      if hproved : flags.1 = false → verdict = .valid → ∃ p ∈ provers.val, 0 < p.success then
        match host.resolve file with
        | .error e => .error e
        | .ok path =>
          .ok ⟨row, goal, property, function, file, line.val, flags.1, flags.2, verdict,
            provers.val, path, line.property, provers.property, hpassed, hproved⟩
      else .error (reportError ("Valid WP goal has no successful prover result: " ++ goal))
    else .error (reportError ("Contradictory WP verdict/passed fields: " ++ goal))
  | _ => .error (reportError s!"WP goal {index} is not an object")

/-- The loop over the records. -/
def wpRowsFrom (host : Host) : ℕ → List String → List Value → Except Exn (List Goal)
  | _, _, [] => .ok []
  | index, seen, v :: vs =>
    match wpRow host index seen v with
    | .error e => .error e
    | .ok g => (wpRowsFrom host (index + 1) (g.goal :: seen) vs).map (g :: ·)

/-- `_wp_rows(data)`. -/
def wpRows (host : Host) : Value → Except Exn (List Goal)
  | .list (v :: vs) => wpRowsFrom host 0 [] (v :: vs)
  | _ => .error (reportError "WP report must contain a nonempty goal array")

/-! ## The goals are the records -/

/-- A prover is the record it was read from. -/
def Prover.Reads (p : Prover) (v : Value) : Prop :=
  ∃ d, v = .dict d ∧ Value.get d "prover" = .str p.name ∧ Value.get d "success" = .int p.success

/-- A goal is the record it was read from. -/
structure Goal.Reads (host : Host) (g : Goal) (v : Value) : Prop where
  record : v = .dict g.record
  goal : Value.get g.record "goal" = .str g.goal
  property : Value.get g.record "property" = .str g.property
  function : Value.get g.record "function" = .str g.function
  file : Value.get g.record "file" = .str g.file
  line : Value.get g.record "line" = .int g.line
  smoke : Value.get g.record "smoke" = .bool g.smoke
  passed : Value.get g.record "passed" = .bool g.passed
  verdict : ∃ s, Value.get g.record "verdict" = .str s ∧ WpVerdict.ofText? s = some g.verdict
  provers : ∃ vs, Value.get g.record "provers" = .list vs ∧ List.Forall₂ Prover.Reads g.provers vs
  path : host.resolve g.file = .ok g.path

theorem wpText_eq_ok {index : ℕ} {row : Dict} {field s : String}
    (h : wpText index row field = .ok s) : Value.get row field = .str s := by
  unfold wpText at h
  split at h
  · next t heq =>
    split_ifs at h
    rw [heq, Except.ok.inj h]
  · exact absurd h (by simp)

theorem wpLine_eq_ok {row : Dict} {goal : String} {n : { n : ℤ // 1 ≤ n }}
    (h : wpLine row goal = .ok n) : Value.get row "line" = .int n.val := by
  unfold wpLine at h
  split at h
  · next m heq =>
    split_ifs at h
    rw [heq, ← Except.ok.inj h]
  · exact absurd h (by simp)

theorem wpFlags_eq_ok {row : Dict} {goal : String} {flags : Bool × Bool}
    (h : wpFlags row goal = .ok flags) :
    Value.get row "smoke" = .bool flags.1 ∧ Value.get row "passed" = .bool flags.2 := by
  unfold wpFlags at h
  split at h
  · next smoke passed hsmoke hpassed =>
    rw [hsmoke, hpassed, ← Except.ok.inj h]
    exact ⟨rfl, rfl⟩
  · exact absurd h (by simp)

theorem wpProver_reads {v : Value} {p : Prover} (h : wpProver v = .ok p) : p.Reads v := by
  unfold wpProver at h
  split at h
  · next d =>
    split at h
    · next name hname =>
      split at h
      · exact absurd h (by simp)
      · split at h
        · next n hn =>
          rw [← Except.ok.inj h]
          exact ⟨d, rfl, hname, hn⟩
        · exact absurd h (by simp)
    · exact absurd h (by simp)
  · exact absurd h (by simp)

theorem collect_provers_reads {vs : List Value} {ps : List Prover}
    (h : collect (fun v => (wpProver v).map fun p => [p]) vs = .ok ps) :
    List.Forall₂ Prover.Reads ps vs :=
  ((forall₂_of_collect_map h).imp fun _ _ => wpProver_reads).flip

theorem wpProvers_eq_ok {row : Dict} {goal : String} {ps : { ps : List Prover // ps ≠ [] }}
    (h : wpProvers row goal = .ok ps) :
    ∃ vs, Value.get row "provers" = .list vs ∧ List.Forall₂ Prover.Reads ps.val vs := by
  unfold wpProvers at h
  split at h
  · next v vs heq =>
    split at h
    · exact absurd h (by simp)
    · next p hp =>
      split at h
      · exact absurd h (by simp)
      · next qs hqs =>
        rw [← Except.ok.inj h]
        exact ⟨v :: vs, heq, .cons (wpProver_reads hp) (collect_provers_reads hqs)⟩
  · exact absurd h (by simp)

/-- A goal that is read from a record is that record. -/
theorem wpRow_reads {host : Host} {index : ℕ} {seen : List String} {v : Value} {g : Goal}
    (h : wpRow host index seen v = .ok g) : g.Reads host v ∧ g.goal ∉ seen := by
  unfold wpRow at h
  split at h
  · next row =>
    obtain ⟨goal, hgoal, h⟩ := bind_eq_ok_iff.mp h
    obtain ⟨property, hproperty, h⟩ := bind_eq_ok_iff.mp h
    obtain ⟨function, hfunction, h⟩ := bind_eq_ok_iff.mp h
    obtain ⟨file, hfile, h⟩ := bind_eq_ok_iff.mp h
    obtain ⟨text, htext, h⟩ := bind_eq_ok_iff.mp h
    obtain ⟨_, hseen, h⟩ := bind_eq_ok_iff.mp h
    obtain ⟨line, hline, h⟩ := bind_eq_ok_iff.mp h
    obtain ⟨flags, hflags, h⟩ := bind_eq_ok_iff.mp h
    obtain ⟨verdict, hverdict, h⟩ := bind_eq_ok_iff.mp h
    obtain ⟨provers, hprovers, h⟩ := bind_eq_ok_iff.mp h
    split_ifs at h with hpassed hproved
    split at h
    · exact absurd h (by simp)
    · next path hpath =>
      rw [← Except.ok.inj h]
      exact ⟨⟨rfl, wpText_eq_ok hgoal, wpText_eq_ok hproperty, wpText_eq_ok hfunction,
        wpText_eq_ok hfile, wpLine_eq_ok hline, (wpFlags_eq_ok hflags).1, (wpFlags_eq_ok hflags).2,
        ⟨text, wpText_eq_ok htext, orRaise_eq_ok_iff.mp hverdict⟩, wpProvers_eq_ok hprovers, hpath⟩,
        raiseIf_eq_ok_iff.mp hseen⟩
  · exact absurd h (by simp)

theorem wpRowsFrom_reads {host : Host} {index : ℕ} {seen : List String} {vs : List Value}
    {goals : List Goal} (h : wpRowsFrom host index seen vs = .ok goals) :
    List.Forall₂ (Goal.Reads host) goals vs := by
  induction vs generalizing index seen goals with
  | nil =>
    rw [← Except.ok.inj h]
    exact .nil
  | cons v vs ih =>
    rw [wpRowsFrom] at h
    cases hv : wpRow host index seen v with
    | error e =>
      rw [hv] at h
      exact absurd h (by simp)
    | ok g =>
      rw [hv] at h
      dsimp only at h
      cases hvs : wpRowsFrom host (index + 1) (g.goal :: seen) vs with
      | error e =>
        rw [hvs] at h
        exact absurd h (by simp [Except.map])
      | ok gs =>
        rw [hvs] at h
        rw [← Except.ok.inj h]
        exact .cons (wpRow_reads hv).1 (ih hvs)

/-- **The goals of a report are the records of its array**, in order. -/
theorem wpRows_reads {host : Host} {data : Value} {goals : List Goal}
    (h : wpRows host data = .ok goals) :
    ∃ vs, data = .list vs ∧ vs ≠ [] ∧ List.Forall₂ (Goal.Reads host) goals vs := by
  unfold wpRows at h
  split at h
  · next v vs => exact ⟨v :: vs, rfl, List.cons_ne_nil v vs, wpRowsFrom_reads h⟩
  · exact absurd h (by simp)

end Report
end Fragma
