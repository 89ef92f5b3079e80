import Fragma.Report.Reviews

/-!
# Native observations

`fragma/report.py`, `_validated_native`.  A calibration of EVA may come with a receipt
of a native run.  It says, for every required property in order, that the check was
reached and whether it held.  Eva's ambiguous status of an assertion counts as false
only where the run saw it false.

* `NativeAccepted`: an accepted observation, with the row that it is about.
* `nativeObservation`: one observation against the rows.
* `validatedNative`: the envelope.
* `NativeAccepted.Observed`, `validatedNative_observed`: what an accepted observation
  guarantees.
-/

namespace Fragma
namespace Report

open Python Posix

/-- An accepted observation: the check was reached and was false.  Its row has an
invalid or an ambiguous status. -/
structure NativeAccepted where
  name : String
  row : Row
  observation : Dict
  receipt : Dict

/-- `name in row.get("names", [])`. -/
def Row.named (r : Row) (name : Value) : Except Exn Bool :=
  orRaise (Value.contains (r.get "names" (.list [])) name) (typeError "argument is not iterable")

/-- What the observations are checked against. -/
structure NativeScope where
  host : Host
  root : PurePath
  path : String
  entry : String
  negative : List Value
  rows : List Row
  receipt : Dict

/-- The outcome of an observation is the expected one. -/
def nativeExpected (scope : NativeScope) (name : String) (d : Dict) : Bool :=
  match Value.get d "expected", Value.get d "observed" with
  | .bool expected, .bool observed =>
    expected = !Value.member scope.negative (.str name) && observed = expected &&
      Value.get d "reached" = .bool true
  | _, _ => false

/-- The check of the place and the texts of an observation. -/
def nativePlaced (scope : NativeScope) (d : Dict) : Except Exn Bool :=
  if Value.eq (Value.get d "function") (.str scope.entry) && isLineNumber (Value.get d "line") then do
    let path ← reviewPath scope.host scope.root (Value.get d "file")
    .ok (path = scope.path && ["acsl", "native_expression"].all fun field =>
      isText (Value.get d field))
  else .ok false

/-- The row stands where the observation does and has its name. -/
def nativeMatches (scope : NativeScope) (name : String) (d : Dict) (r : Row) : Except Exn Bool :=
  if Value.eq (r.get "path") (.str scope.path) && Value.eq (r.get "line") (Value.get d "line") &&
      Value.eq (r.get "function") (.str scope.entry) &&
      Value.eq (r.get "kind") (.str "user assertion") then r.named (.str name)
  else .ok false

/-- One observation: what it adds to the accepted ones. -/
def nativeObservation (scope : NativeScope) : Value → Except Exn (List NativeAccepted)
  | .dict d =>
    match Value.get d "name" with
    | .str name => do
      raiseIf (¬ nativeExpected scope name d)
        (reportError ("Native observation is not the expected reached Boolean check: " ++ name))
      let placed ← nativePlaced scope d
      raiseIf (¬ placed)
        (reportError ("Native observation lacks exact reviewed assertion identity: " ++ name))
      let matched ← select (nativeMatches scope name d) scope.rows
      match matched with
      | [r] =>
        if Value.member scope.negative (.str name) then
          if r.status = "Invalid" ∨ r.status = "Invalid or unreachable" then
            .ok [⟨name, r, d, scope.receipt⟩]
          else .error (reportError ("Native false observation does not match an EVA " ++
            "invalid/ambiguous assertion: " ++ name))
        else if r.outcome = .valid then .ok []
        else .error (reportError ("Native execution cannot replace a failed positive " ++
          "EVA property: " ++ name))
      | _ => .error (reportError ("Native observation is missing or ambiguous in the analyzer " ++
        "report: " ++ name))
    | _ => .error (typeError "can only concatenate str to str")
  | _ => .error (reportError "Native observations must exactly cover the ordered required properties")

/-- `observation.get("name")`. -/
def observationName : Value → Option Value
  | .dict d => some (Value.get d "name")
  | _ => none

/-- A field of the envelope that names the target. -/
def nativeField (target envelope : Dict) (field targetField : String) : Except Exn String :=
  match Value.get target targetField with
  | .str s =>
    if Value.eq (Value.get envelope field) (.str s) then .ok s
    else .error (reportError ("Native observation has a different " ++ field))
  | _ => .error (reportError ("Native observation has a different " ++ field))

/-- `root`. -/
def nativeRoot (host : Host) (envelope : Dict) : Except Exn PurePath :=
  match Value.get envelope "kernel_revision", Value.get envelope "source_root" with
  | .str revision, .str root =>
    if isHex 40 revision ∧ (PurePath.parse root).IsAbsolute then
      (host.resolve root).map fun path => .parse path
    else .error (reportError "Native observation lacks exact revision/source-root identity")
  | _, _ => .error (reportError "Native observation lacks exact revision/source-root identity")

/-- `receipt`. -/
def nativeReceipt (envelope : Dict) : Except Exn Dict :=
  match Value.get envelope "receipt" with
  | .dict receipt =>
    match Value.get receipt "sha256" with
    | .str digest =>
      if isHex 64 digest then .ok receipt
      else .error (reportError "Native observation lacks a hashed runtime receipt")
    | _ => .error (reportError "Native observation lacks a hashed runtime receipt")
  | _ => .error (reportError "Native observation lacks a hashed runtime receipt")

/-- `observed`, once it covers the required properties. -/
def nativeObserved (target envelope : Dict) (negative : List Value) : Except Exn (List Value) :=
  match Value.get envelope "properties" with
  | .list observed =>
    let names := observed.filterMap observationName
    if negative ≠ [] ∧ names.length = observed.length ∧
        Value.eq (.list names) (Value.get target "required_properties" (.list [])) then .ok observed
    else .error (reportError
      "Native observations must exactly cover the ordered required properties")
  | _ => .error (reportError
      "Native observations must exactly cover the ordered required properties")

/-- `_validated_native`, for an envelope that is there. -/
def envelopeNative (host : Host) (target envelope : Dict) (rows : List Row) :
    Except Exn (List NativeAccepted) := do
  raiseIf (Value.get envelope "status" ≠ .str "passed" ∨
      Value.get envelope "kind" ≠ .str "native-specification-calibration" ∨
      Value.get target "role" ≠ .str "calibration" ∨ Value.get target "analysis" ≠ .str "eva")
    (reportError "Native observations require a passed external gate for an EVA calibration")
  let _ ← nativeField target envelope "target_id" "id"
  let _ ← nativeField target envelope "profile" "profile"
  let _ ← nativeField target envelope "source" "source"
  let entry ← nativeField target envelope "entry" "entry"
  raiseIf (Value.get envelope "target_sha256" ≠ .str (host.digest (.dict target)))
    (reportError "Native observation target declaration changed")
  let root ← nativeRoot host envelope
  let path ← reviewPath host root
    (if Value.has target "driver" then Value.get target "driver" else Value.get target "harness")
  let receipt ← nativeReceipt envelope
  let _ ← reviewPath host root (Value.get receipt "path")
  let negative ← orRaise (Value.toSet (Value.get target "expected_invalid" (.list [])))
    (typeError "unhashable type")
  let observed ← nativeObserved target envelope negative
  collect (nativeObservation ⟨host, root, path, entry, negative, rows, receipt⟩) observed

/-- `_validated_native(target, envelope, properties)`. -/
def validatedNative (host : Host) (target : Dict) (envelope : Value) (rows : List Row) :
    Except Exn (List NativeAccepted) :=
  match envelope with
  | .none => .ok []
  | .dict d => envelopeNative host target d rows
  | _ => .error (reportError
      "Native observations require a passed external gate for an EVA calibration")

/-! ## What an accepted observation guarantees -/

/-- The observation stands in a passed envelope that names this very target, says that
the check was reached and was false, and its row is the only one at its place with its
name. -/
structure NativeAccepted.Observed (a : NativeAccepted) (host : Host) (target : Dict)
    (envelope : Value) (rows : List Row) : Prop where
  envelope : ∃ d observed, envelope = .dict d ∧ Value.get d "status" = .str "passed" ∧
    Value.get d "target_sha256" = .str (host.digest (.dict target)) ∧
    Value.get d "properties" = .list observed ∧ .dict a.observation ∈ observed
  name : Value.get a.observation "name" = .str a.name
  reached : Value.get a.observation "reached" = .bool true
  observed : Value.get a.observation "observed" = .bool false
  row : a.row ∈ rows
  status : a.row.status = "Invalid" ∨ a.row.status = "Invalid or unreachable"

/-- An accepted observation says that its check was reached and was false. -/
theorem nativeObservation_observed {scope : NativeScope} {v : Value}
    {accepted : List NativeAccepted} {a : NativeAccepted}
    (h : nativeObservation scope v = .ok accepted) (ha : a ∈ accepted) :
    v = .dict a.observation ∧ Value.get a.observation "name" = .str a.name ∧
      Value.get a.observation "reached" = .bool true ∧
      Value.get a.observation "observed" = .bool false ∧ a.row ∈ scope.rows ∧
      (a.row.status = "Invalid" ∨ a.row.status = "Invalid or unreachable") := by
  unfold nativeObservation at h
  split at h
  · next d =>
    split at h
    · next name hname =>
      obtain ⟨_, hexpected, h⟩ := bind_eq_ok_iff.mp h
      obtain ⟨placed, -, h⟩ := bind_eq_ok_iff.mp h
      obtain ⟨_, -, h⟩ := bind_eq_ok_iff.mp h
      obtain ⟨matched, hmatched, h⟩ := bind_eq_ok_iff.mp h
      split at h
      · next r =>
        split_ifs at h with hnegative hstatus hvalid
        · rw [← Except.ok.inj h, List.mem_singleton] at ha
          subst ha
          have hr : r ∈ scope.rows := by
            have : r ∈ scope.rows.filter (holds (nativeMatches scope name d)) := by
              rw [← (select_eq_ok_iff.mp hmatched).2]
              exact List.mem_singleton_self r
            exact List.mem_of_mem_filter this
          have hchecked : nativeExpected scope name d = true := by
            simpa using raiseIf_eq_ok_iff.mp hexpected
          unfold nativeExpected at hchecked
          split at hchecked
          · next expected observed heq hobs =>
            simp only [hnegative, Bool.not_true, Bool.and_eq_true, decide_eq_true_eq] at hchecked
            obtain ⟨⟨hfalse, hsame⟩, hreached⟩ := hchecked
            exact ⟨rfl, hname, hreached, by rw [hobs, hsame, hfalse], hr, hstatus⟩
          · exact absurd hchecked (by simp)
        · rw [← Except.ok.inj h] at ha
          exact absurd ha List.not_mem_nil
      · exact absurd h (by simp)
    · exact absurd h (by simp)
  · exact absurd h (by simp)

/-- **What an accepted observation guarantees.** -/
theorem validatedNative_observed {host : Host} {target : Dict} {envelope : Value}
    {rows : List Row} {accepted : List NativeAccepted} {a : NativeAccepted}
    (h : validatedNative host target envelope rows = .ok accepted) (ha : a ∈ accepted) :
    a.Observed host target envelope rows := by
  unfold validatedNative at h
  split at h
  · rw [← Except.ok.inj h] at ha
    exact absurd ha List.not_mem_nil
  · next d =>
    unfold envelopeNative at h
    obtain ⟨_, hgate, h⟩ := bind_eq_ok_iff.mp h
    obtain ⟨_, -, h⟩ := bind_eq_ok_iff.mp h
    obtain ⟨_, -, h⟩ := bind_eq_ok_iff.mp h
    obtain ⟨_, -, h⟩ := bind_eq_ok_iff.mp h
    obtain ⟨entry, -, h⟩ := bind_eq_ok_iff.mp h
    obtain ⟨_, hdigest, h⟩ := bind_eq_ok_iff.mp h
    obtain ⟨root, -, h⟩ := bind_eq_ok_iff.mp h
    obtain ⟨path, -, h⟩ := bind_eq_ok_iff.mp h
    obtain ⟨receipt, -, h⟩ := bind_eq_ok_iff.mp h
    obtain ⟨_, -, h⟩ := bind_eq_ok_iff.mp h
    obtain ⟨negative, -, h⟩ := bind_eq_ok_iff.mp h
    obtain ⟨observed, hobserved, h⟩ := bind_eq_ok_iff.mp h
    obtain ⟨v, hv, cs, hcs, hmem⟩ := (mem_of_collect_eq_ok h).mp ha
    obtain ⟨rfl, hname, hreached, hfalse, hrow, hstatus⟩ := nativeObservation_observed hcs hmem
    have hpassed := raiseIf_eq_ok_iff.mp hgate
    have hsame := raiseIf_eq_ok_iff.mp hdigest
    rw [not_or, not_not] at hpassed
    rw [not_not] at hsame
    unfold nativeObserved at hobserved
    split at hobserved
    · next vs hvs =>
      dsimp only at hobserved
      split_ifs at hobserved
      rw [← Except.ok.inj hobserved] at hv
      exact ⟨⟨d, vs, rfl, hpassed.1, hsame, hvs, hv⟩, hname, hreached, hfalse, hrow, hstatus⟩
    · exact absurd hobserved (by simp)
  · exact absurd h (by simp)

end Report
end Fragma
