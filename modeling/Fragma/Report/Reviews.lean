import Fragma.Posix.PurePath
import Fragma.Report.Rows

/-!
# Reviews

`fragma/report.py`: `_review_path`, `_review_metadata` and `_validated_reviews`.  A
target may declare reviews of smoke goals and of warnings.  They count when an
envelope from outside repeats them exactly, names this target and binds the files.
Every review matches one goal or one warning.

* `reviewPath`, `reviewMetadata`: a file below the root, and the hashes of a review.
* `smokeReview`, `warningReview`: one review against the report.
* `validatedReviews`: the envelope.
* `SmokeApproval`, `WarningApproval`, `validatedReviews_justified`: **every approval
  repeats a record that the target declares**.
-/

namespace Fragma
namespace Report

open Python Posix

/-- `TypeError`. -/
def typeError (message : String) : Exn := ⟨.typeError, message⟩

/-- `v in names`, for a set of names. -/
def inNames (names : List String) (v : Value) : Except Exn Bool :=
  if v.hashable then .ok (Value.member (names.map .str) v) else .error (typeError "unhashable type")

/-! ## Files and hashes -/

/-- `isinstance(v, str) and v.strip()`. -/
def isText : Value → Bool
  | .str s => !isBlank s
  | _ => false

/-- `type(v) is int`. -/
def isInt : Value → Bool
  | .int _ => true
  | _ => false

/-- `type(v) is int and v >= 1`. -/
def isLineNumber : Value → Bool
  | .int n => 1 ≤ n
  | _ => false

/-- `_review_path(root, filename)`. -/
def reviewPath (host : Host) (root : PurePath) : Value → Except Exn String
  | .str filename => do
    raiseIf (isBlank filename) (reportError "Review has no exact file path")
    let path ← host.resolve (root.join (.parse filename)).render
    raiseIf (¬ (PurePath.parse path).IsRelativeTo root)
      (reportError "Review file is outside its validated source root")
    .ok path
  | _ => .error (reportError "Review has no exact file path")

/-- The hashes of a review by the paths of its files. -/
def reviewHashes (host : Host) (root : PurePath) (normalized : List (String × String)) :
    Dict → Except Exn (List (String × String))
  | [] => .ok normalized
  | (filename, digest) :: rest => do
    let path ← reviewPath host root (.str filename)
    match digest with
    | .str text =>
      if (normalized.lookup path).isSome ∨ ¬ isHex 64 text then
        .error (reportError "Review has duplicate paths or malformed SHA256 hashes")
      else reviewHashes host root (normalized ++ [(path, text)]) rest
    | _ => .error (reportError "Review has duplicate paths or malformed SHA256 hashes")

/-- The list of the evidence of a review. -/
def reviewEvidence (host : Host) (root : PurePath) : Value → Except Exn (List Unit)
  | .list evidence => do
    raiseIf (evidence = [] ∨ ¬ evidence.all isText ∨ ¬ Value.allDistinct evidence)
      (reportError "Review requires distinct nonempty review_evidence paths")
    collect (fun v => (reviewPath host root v).map fun _ => []) evidence
  | _ => .error (reportError "Review requires distinct nonempty review_evidence paths")

/-- `_review_metadata(record, root)`. -/
def reviewMetadata (host : Host) (root : PurePath) (record : Value) :
    Except Exn (Dict × List (String × String)) :=
  match record with
  | .dict d =>
    match Value.get d "file_hashes" with
    | .dict (e :: es) => do
      let normalized ← reviewHashes host root [] (e :: es)
      let _ ← reviewEvidence host root (Value.get d "review_evidence")
      .ok (d, normalized)
    | _ => .error (reportError "Review requires nonempty file_hashes")
  | _ => .error (reportError "Review record must be an object")

/-! ## Approvals -/

/-- What the reviews approve: smoke goals by their names, warnings by their indices, and
rows of dead traps. -/
structure Approved where
  context : Value
  smoke : List (String × Dict)
  warnings : List (ℕ × Dict)
  unreachable : List (Row × Dict)

/-- `empty`. -/
def Approved.empty : Approved := ⟨.none, [], [], []⟩

/-- What a review is checked against. -/
structure ReviewScope where
  host : Host
  root : PurePath
  contextHashes : List (String × String)
  goals : List Goal
  rows : List Row
  warnings : List Value
  analysisFunctions : List String

/-- The checks that all reviews share. -/
def reviewRecord (scope : ReviewScope) (record : Value) : Except Exn (Dict × List (String × String)) := do
  let (d, hashes) ← reviewMetadata scope.host scope.root record
  raiseIf (¬ isText (Value.get d "reason")) (reportError "Review has no individual rationale")
  raiseIf (hashes.any fun p => scope.contextHashes.lookup p.1 ≠ some p.2)
    (reportError "Review file hashes are not bound by the validated context")
  .ok (d, hashes)

/-! ## Reviews of smoke goals -/

/-- `re.fullmatch(r".+_wp_smoke_dead_(?:call|code)_s[0-9]+", property)`. -/
def isDeadSmoke (property : String) : Bool :=
  (deadName "_wp_smoke_dead_call_s" property).isSome ||
    (deadName "_wp_smoke_dead_code_s" property).isSome

/-- A field of a record that has to be a text. -/
def smokeText (d : Dict) (field : String) : Except Exn String :=
  match Value.get d field with
  | .str s =>
    if isBlank s then .error (reportError ("Smoke review is missing " ++ field)) else .ok s
  | _ => .error (reportError ("Smoke review is missing " ++ field))

/-- `CSV_STATUSES.get(v) == "unreachable"`, for a text. -/
def isUnreachable : Value → Bool
  | .str s => csvOutcome s = some .unreachable
  | _ => false

/-- The check of the property that a dead call makes unreachable. -/
def reviewTrap (scope : ReviewScope) (path property : String) (line : Value) (d : Dict)
    (approved : Approved) : Value → Except Exn Approved
  | .none => .ok approved
  | .dict trap => do
    raiseIf (¬ ["file", "function", "kind", "status", "property"].all
        (fun field => (Value.get trap field).isName) ∨ ¬ isInt (Value.get trap "line"))
      (reportError "Malformed reviewed unreachable property identity")
    let trapPath ← reviewPath scope.host scope.root (Value.get trap "file")
    let dead := (deadName "_wp_smoke_dead_call_s" property).map Value.str
    raiseIf (trapPath ≠ path ∨ ¬ Value.eq (Value.get trap "line") line ∨
        Value.member (scope.analysisFunctions.map .str) (Value.get trap "function") ∨
        Value.get trap "kind" ≠ .str "user assertion" ∨ Value.get trap "property" ≠ .str "\\false" ∨
        ¬ isUnreachable (Value.get trap "status") ∨
        dead ≠ some (Value.get trap "function"))
      (reportError "Reviewed false property is not the exact unselected dead-call trap")
    let located := scope.rows.filter fun r => Value.eq (r.get "path") (.str trapPath) &&
      ["line", "function", "kind", "status", "property"].all fun field =>
        Value.eq (r.get field) (Value.get trap field)
    match located with
    | [r] =>
      if approved.unreachable.any fun u => u.1.eq r then
        .error (reportError "Reviewed unreachable property is absent, ambiguous, or duplicated")
      else .ok { approved with unreachable := approved.unreachable ++ [(r, d)] }
    | _ => .error (reportError "Reviewed unreachable property is absent, ambiguous, or duplicated")
  | _ => .error (reportError "Malformed reviewed unreachable property identity")

/-- One entry of `reviewed_smoke`. -/
def smokeReview (scope : ReviewScope) (approved : Approved) (record : Value) : Except Exn Approved := do
  let (d, hashes) ← reviewRecord scope record
  let goal ← smokeText d "goal"
  let property ← smokeText d "property"
  let function ← smokeText d "function"
  let file ← smokeText d "file"
  let line := Value.get d "line"
  raiseIf (¬ isLineNumber line) (reportError "Smoke review requires an exact source line")
  let path ← reviewPath scope.host scope.root (.str file)
  raiseIf ((hashes.lookup path).isNone ∨ function ∉ scope.analysisFunctions)
    (reportError "Smoke review is outside its hashed selected-function scope")
  raiseIf (¬ isDeadSmoke property)
    (reportError "Only individually reviewed dead-call/dead-code smoke may be scoped out")
  let matched := scope.goals.filter fun g => g.smoke && g.goal = goal && g.property = property &&
    g.function = function && Value.eq (.int g.line) line && g.path = path
  raiseIf (matched.length ≠ 1 ∨ ¬ matched.all fun g => g.outcome = .inconsistent)
    (reportError ("Smoke review is stale, ambiguous, or not a proved dead path: " ++ goal))
  raiseIf ((approved.smoke.lookup goal).isSome) (reportError ("Duplicate smoke review: " ++ goal))
  reviewTrap scope path property line d { approved with smoke := approved.smoke ++ [(goal, d)] }
    (Value.get d "unreachable_property")

/-! ## Reviews of warnings -/

/-- The texts that a review cannot waive. -/
def skipped : List String := ["goal", "function", "property"]

/-- A text of a record of `reviewed_warnings`. -/
def warningText (d : Dict) (field : String) : Except Exn String :=
  match Value.get d field with
  | .str s =>
    if isBlank s then .error (reportError ("Warning review is missing exact " ++ field)) else .ok s
  | _ => .error (reportError ("Warning review is missing exact " ++ field))

/-- The record names the analysed functions, each once. -/
def bindsFunctions (analysisFunctions : List String) : Value → Bool
  | .list names => names.all Value.isName && Value.allDistinct names &&
      Value.subset names (analysisFunctions.map .str) &&
      Value.subset (analysisFunctions.map .str) names
  | _ => false

/-- The file that a located record names. -/
def warningPath (scope : ReviewScope) (hashes : List (String × String)) (d : Dict) :
    Except Exn (Option String) :=
  if Value.has d "file" then do
    let path ← reviewPath scope.host scope.root (Value.get d "file")
    raiseIf ((hashes.lookup path).isNone ∨ ¬ isLineNumber (Value.get d "line"))
      (reportError "Located warning review is outside its hashed source location")
    .ok (some path)
  else .ok none

/-- The record and the warning stand at the same place. -/
def warningPlaced (scope : ReviewScope) (d : Dict) (path : Option String) (w : Dict) :
    Except Exn Bool :=
  let file := Value.get w "path" (Value.get w "file")
  match path with
  | none => .ok (file = .none && Value.get w "line" = .none)
  | some path =>
    if file = .none ∨ ¬ Value.eq (Value.get w "line") (Value.get d "line") then .ok false
    else (reviewPath scope.host scope.root file).map fun p => p = path

/-- The record is about the warning. -/
def warningMatches (scope : ReviewScope) (d : Dict) (path : Option String) :
    Value → Except Exn Bool
  | .dict w =>
    if ["message", "plugin", "severity"].all fun field =>
        Value.eq (Value.get w field) (Value.get d field) then do
      let placed ← warningPlaced scope d path w
      if placed ∧ Value.has w "function" then
        inNames scope.analysisFunctions (Value.get w "function")
      else .ok placed
    else .ok false
  | _ => .ok false

/-- One entry of `reviewed_warnings`. -/
def warningReview (scope : ReviewScope) (approved : Approved) (record : Value) :
    Except Exn Approved := do
  let (d, hashes) ← reviewRecord scope record
  let message ← warningText d "message"
  let _ ← warningText d "plugin"
  raiseIf (Value.get d "severity" ≠ .str "warning" ∨
      ¬ bindsFunctions scope.analysisFunctions (Value.get d "functions"))
    (reportError "Warning review must bind warning severity and the exact analyzed functions")
  raiseIf (searchSkipped scope.host.isAlnum skipped message)
    (reportError "A review cannot waive skipped proof goals, functions, or properties")
  raiseIf (Value.has d "file" ≠ Value.has d "line")
    (reportError "Located warning review requires both file and line")
  let path ← warningPath scope hashes d
  let matched ← select (fun p => warningMatches scope d path p.1) scope.warnings.zipIdx
  match matched with
  | [(_, index)] =>
    if (approved.warnings.lookup index).isSome then
      .error (reportError ("Warning review is stale, ambiguous, or duplicated: " ++ message))
    else .ok { approved with warnings := approved.warnings ++ [(index, d)] }
  | _ => .error (reportError ("Warning review is stale, ambiguous, or duplicated: " ++ message))

/-- `warning.get("message", "").startswith(…)` for the diagnostics about guards. -/
def isGuardMessage (w : Dict) : Except Exn Bool :=
  match Value.get w "message" (.str "") with
  | .str s => .ok (startsWith "Skipped RTE guards:" s || startsWith "-wp-rte can annotate" s)
  | _ => .error ⟨.attributeError, "startswith"⟩

/-- The warning comes from the plugin and is about guards. -/
def isCompanion (plugin : Value) : Value → Except Exn Bool
  | .dict w => if Value.eq (Value.get w "plugin") plugin then isGuardMessage w else .ok false
  | _ => .ok false

/-- The check of an approval of missing guards. -/
def guardCompanions (warnings : List Value) (approved : List (ℕ × Dict)) (d : Dict) :
    Except Exn (List Unit) :=
  if Value.get d "message" = .str "Missing RTE guards" then do
    let companions ← select (fun p => isCompanion (Value.get d "plugin") p.1) warnings.zipIdx
    raiseIf (companions = [] ∨ companions.any fun p => (approved.lookup p.2).isNone)
      (reportError ("Missing RTE guards cannot be reviewed without every observed " ++
        "companion guard diagnostic"))
    .ok []
  else .ok []

/-! ## The envelope -/

/-- A loop that carries the approvals along. -/
def approveAll (f : Approved → Value → Except Exn Approved) :
    Approved → List Value → Except Exn Approved
  | approved, [] => .ok approved
  | approved, v :: vs => do approveAll f (← f approved v) vs

/-- The records of a category, which the envelope has to repeat. -/
def reviewRecords (target envelope : Dict) (category : String) : Except Exn (List Value) :=
  match Value.get envelope category with
  | .list records =>
    if Value.eq (.list records) (Value.get target category (.list [])) then .ok records
    else .error (reportError ("Validated " ++ category ++ " differ from the declared records"))
  | _ => .error (reportError ("Validated " ++ category ++ " differ from the declared records"))

/-- A field of the envelope that names the target. -/
def envelopeField (target envelope : Dict) (field targetField : String) : Except Exn Unit :=
  match Value.get envelope field with
  | .str s => raiseIf (¬ Value.eq (.str s) (Value.get target targetField))
      (reportError ("Review envelope is for a different " ++ field))
  | _ => .error (reportError ("Review envelope is for a different " ++ field))

/-- `root`. -/
def envelopeRoot (host : Host) (envelope : Dict) : Except Exn PurePath :=
  match Value.get envelope "source_root" with
  | .str root => do
    raiseIf (¬ (PurePath.parse root).IsAbsolute)
      (reportError "Review requires an absolute validated source_root")
    let path ← host.resolve root
    .ok (.parse path)
  | _ => .error (reportError "Review requires an absolute validated source_root")

/-- `context`. -/
def envelopeContext (target envelope : Dict) : Except Exn Dict :=
  match Value.get envelope "review_context" with
  | .dict context => do
    raiseIf (¬ Value.eq (.dict context) (Value.get target "review_context"))
      (reportError "Review context differs from the declared context")
    match Value.get context "kernel_revision" with
    | .str revision => do
      raiseIf (¬ isHex 40 revision) (reportError "Review context requires an exact kernel revision")
      raiseIf (¬ Value.eq (Value.get target "kernel_revision" (.str revision)) (.str revision))
        (reportError "Review context has a different kernel revision")
      .ok context
    | _ => .error (reportError "Review context requires an exact kernel revision")
  | _ => .error (reportError "Review context differs from the declared context")

/-- `_validated_reviews`, for an envelope that is there. -/
def envelopeReviews (host : Host) (target envelope : Dict) (goals : List Goal) (rows : List Row)
    (warnings : List Value) (analysisFunctions : List String) : Except Exn Approved := do
  raiseIf (Value.get envelope "status" ≠ .str "passed")
    (reportError "Review metadata has not passed the external provenance gate")
  envelopeField target envelope "target_id" "id"
  envelopeField target envelope "profile" "profile"
  envelopeField target envelope "analysis" "analysis"
  let root ← envelopeRoot host envelope
  let context ← envelopeContext target envelope
  let (_, contextHashes) ← reviewMetadata host root (.dict context)
  let scope : ReviewScope :=
    ⟨host, root, contextHashes, goals, rows, warnings, analysisFunctions⟩
  let smoke ← reviewRecords target envelope "reviewed_smoke"
  let approved ← approveAll (smokeReview scope) { Approved.empty with context := .dict context } smoke
  let waived ← reviewRecords target envelope "reviewed_warnings"
  let approved ← approveAll (warningReview scope) approved waived
  let _ ← collect (fun p => guardCompanions warnings approved.warnings p.2) approved.warnings
  .ok approved

/-- `_validated_reviews(target, envelope, goals, properties, warnings, analysis_funcs)`. -/
def validatedReviews (host : Host) (target : Dict) (envelope : Value) (goals : List Goal)
    (rows : List Row) (warnings : List Value) (analysisFunctions : List String) :
    Except Exn Approved :=
  match envelope with
  | .none =>
    if (Value.get target "reviewed_smoke").truthy ∨ (Value.get target "reviewed_warnings").truthy then
      .error (reportError "Declared reviews require externally validated review metadata")
    else .ok .empty
  | .dict d => envelopeReviews host target d goals rows warnings analysisFunctions
  | _ => .error (reportError "Review metadata has not passed the external provenance gate")

/-! ## What an approval guarantees -/

/-- Every smoke goal that is approved has a record of its own among `records`: the
record names the goal, its property is a dead path, and it matches one goal, which was
proved. -/
structure SmokeApproval (records : List Value) (goals : List Goal) (name : String) (d : Dict) :
    Prop where
  declared : .dict d ∈ records
  reason : isText (Value.get d "reason") = true
  goal : Value.get d "goal" = .str name
  dead : ∃ property, Value.get d "property" = .str property ∧ isDeadSmoke property = true
  matched : ∃ g ∈ goals, g.smoke = true ∧ g.goal = name ∧
    Value.get d "property" = .str g.property ∧ Value.get d "function" = .str g.function ∧
    g.outcome = .inconsistent

/-- Every warning that is approved has a record of its own among `records`: the record
repeats the warning and does not waive a skipped goal. -/
structure WarningApproval (host : Host) (records warnings : List Value) (index : ℕ) (d : Dict) :
    Prop where
  declared : .dict d ∈ records
  reason : isText (Value.get d "reason") = true
  message : ∃ message, Value.get d "message" = .str message ∧
    searchSkipped host.isAlnum skipped message = false
  matched : ∃ w, warnings[index]? = some (.dict w) ∧
    ∀ field ∈ ["message", "plugin", "severity"],
      Value.eq (Value.get w field) (Value.get d field) = true

/-- What holds before a loop and is preserved by every record holds after it. -/
theorem approveAll_invariant {f : Approved → Value → Except Exn Approved} {P : Approved → Prop}
    {vs : List Value} (hstep : ∀ a v a', v ∈ vs → f a v = .ok a' → P a → P a') {a a' : Approved}
    (h : approveAll f a vs = .ok a') (ha : P a) : P a' := by
  induction vs generalizing a with
  | nil =>
    rw [← Except.ok.inj h]
    exact ha
  | cons v vs ih =>
    rw [approveAll] at h
    obtain ⟨b, hb, h⟩ := bind_eq_ok_iff.mp h
    exact ih (fun a w a' hw => hstep a w a' (List.mem_cons_of_mem _ hw)) h
      (hstep a v b List.mem_cons_self hb ha)

theorem reviewMetadata_eq_ok {host : Host} {root : PurePath} {record : Value} {d : Dict}
    {hashes : List (String × String)} (h : reviewMetadata host root record = .ok (d, hashes)) :
    record = .dict d := by
  unfold reviewMetadata at h
  split at h
  · split at h
    · obtain ⟨normalized, -, h⟩ := bind_eq_ok_iff.mp h
      obtain ⟨_, -, h⟩ := bind_eq_ok_iff.mp h
      rw [(Prod.mk.inj (Except.ok.inj h)).1]
    · exact absurd h (by simp)
  · exact absurd h (by simp)

theorem reviewRecord_eq_ok {scope : ReviewScope} {record : Value} {d : Dict}
    {hashes : List (String × String)} (h : reviewRecord scope record = .ok (d, hashes)) :
    record = .dict d ∧ isText (Value.get d "reason") = true := by
  unfold reviewRecord at h
  obtain ⟨⟨d', hashes'⟩, hmetadata, h⟩ := bind_eq_ok_iff.mp h
  dsimp only at h
  obtain ⟨_, hreason, h⟩ := bind_eq_ok_iff.mp h
  obtain ⟨_, -, h⟩ := bind_eq_ok_iff.mp h
  obtain ⟨rfl, rfl⟩ := Prod.mk.inj (Except.ok.inj h)
  exact ⟨reviewMetadata_eq_ok hmetadata, not_not.mp (raiseIf_eq_ok_iff.mp hreason)⟩

theorem smokeText_eq_ok {d : Dict} {field s : String} (h : smokeText d field = .ok s) :
    Value.get d field = .str s := by
  unfold smokeText at h
  split at h
  · next t heq =>
    split_ifs at h
    rw [heq, Except.ok.inj h]
  · exact absurd h (by simp)

theorem warningText_eq_ok {d : Dict} {field s : String} (h : warningText d field = .ok s) :
    Value.get d field = .str s := by
  unfold warningText at h
  split at h
  · next t heq =>
    split_ifs at h
    rw [heq, Except.ok.inj h]
  · exact absurd h (by simp)

/-- The check of a trap only adds rows. -/
theorem reviewTrap_eq_ok {scope : ReviewScope} {path property : String} {line : Value} {d : Dict}
    {approved approved' : Approved} {trap : Value}
    (h : reviewTrap scope path property line d approved trap = .ok approved') :
    approved'.smoke = approved.smoke ∧ approved'.warnings = approved.warnings := by
  unfold reviewTrap at h
  split at h
  · rw [← Except.ok.inj h]
    exact ⟨rfl, rfl⟩
  · obtain ⟨_, -, h⟩ := bind_eq_ok_iff.mp h
    obtain ⟨trapPath, -, h⟩ := bind_eq_ok_iff.mp h
    obtain ⟨_, -, h⟩ := bind_eq_ok_iff.mp h
    dsimp only at h
    split at h
    · split_ifs at h
      rw [← Except.ok.inj h]
      exact ⟨rfl, rfl⟩
    · exact absurd h (by simp)
  · exact absurd h (by simp)

/-- A review of a smoke goal adds an approval that is justified. -/
theorem smokeReview_eq_ok {scope : ReviewScope} {approved approved' : Approved} {record : Value}
    {records : List Value} (hrecord : record ∈ records)
    (h : smokeReview scope approved record = .ok approved') :
    approved'.warnings = approved.warnings ∧ ∃ name d,
      approved'.smoke = approved.smoke ++ [(name, d)] ∧
        SmokeApproval records scope.goals name d := by
  unfold smokeReview at h
  obtain ⟨⟨d, hashes⟩, hd, h⟩ := bind_eq_ok_iff.mp h
  dsimp only at h
  obtain ⟨goal, hgoal, h⟩ := bind_eq_ok_iff.mp h
  obtain ⟨property, hproperty, h⟩ := bind_eq_ok_iff.mp h
  obtain ⟨function, hfunction, h⟩ := bind_eq_ok_iff.mp h
  obtain ⟨file, -, h⟩ := bind_eq_ok_iff.mp h
  obtain ⟨_, -, h⟩ := bind_eq_ok_iff.mp h
  obtain ⟨path, -, h⟩ := bind_eq_ok_iff.mp h
  obtain ⟨_, -, h⟩ := bind_eq_ok_iff.mp h
  obtain ⟨_, hdead, h⟩ := bind_eq_ok_iff.mp h
  obtain ⟨_, hmatched, h⟩ := bind_eq_ok_iff.mp h
  obtain ⟨_, -, h⟩ := bind_eq_ok_iff.mp h
  obtain ⟨hsmoke, hwarnings⟩ := reviewTrap_eq_ok h
  obtain ⟨rfl, hreason⟩ := reviewRecord_eq_ok hd
  refine ⟨hwarnings, goal, d, hsmoke, ?_⟩
  have hone := raiseIf_eq_ok_iff.mp hmatched
  rw [not_or, not_not, not_not] at hone
  obtain ⟨hlength, houtcome⟩ := hone
  obtain ⟨g, hg⟩ := List.length_eq_one_iff.mp hlength
  have hmem := hg ▸ List.mem_singleton_self g
  rw [hg, List.all_cons, List.all_nil, Bool.and_true, decide_eq_true_eq] at houtcome
  simp only [List.mem_filter, Bool.and_eq_true, decide_eq_true_eq] at hmem
  obtain ⟨hgoals, ⟨⟨⟨⟨hs, hname⟩, hprop⟩, hfun⟩, -⟩, -⟩ := hmem
  exact
    { declared := hrecord
      reason := hreason
      goal := smokeText_eq_ok hgoal
      dead := ⟨property, smokeText_eq_ok hproperty, not_not.mp (raiseIf_eq_ok_iff.mp hdead)⟩
      matched := ⟨g, hgoals, hs, hname, by rw [hprop, smokeText_eq_ok hproperty],
        by rw [hfun, smokeText_eq_ok hfunction], houtcome⟩ }

/-- A record that is about a warning repeats it. -/
theorem warningMatches_eq_true {scope : ReviewScope} {d : Dict} {path : Option String} {v : Value}
    (h : warningMatches scope d path v = .ok true) :
    ∃ w, v = .dict w ∧ ∀ field ∈ ["message", "plugin", "severity"],
      Value.eq (Value.get w field) (Value.get d field) = true := by
  unfold warningMatches at h
  split at h
  · next w =>
    split_ifs at h with hfields
    · exact ⟨w, rfl, List.all_eq_true.mp hfields⟩
    · exact absurd (Except.ok.inj h) (by simp)
  · exact absurd (Except.ok.inj h) (by simp)

/-- A review of a warning adds an approval that is justified. -/
theorem warningReview_eq_ok {scope : ReviewScope} {approved approved' : Approved} {record : Value}
    {records : List Value} (hrecord : record ∈ records)
    (h : warningReview scope approved record = .ok approved') :
    approved'.smoke = approved.smoke ∧ ∃ index d,
      approved'.warnings = approved.warnings ++ [(index, d)] ∧
        WarningApproval scope.host records scope.warnings index d := by
  unfold warningReview at h
  obtain ⟨⟨d, hashes⟩, hd, h⟩ := bind_eq_ok_iff.mp h
  dsimp only at h
  obtain ⟨message, hmessage, h⟩ := bind_eq_ok_iff.mp h
  obtain ⟨_, -, h⟩ := bind_eq_ok_iff.mp h
  obtain ⟨_, -, h⟩ := bind_eq_ok_iff.mp h
  obtain ⟨_, hskipped, h⟩ := bind_eq_ok_iff.mp h
  obtain ⟨_, -, h⟩ := bind_eq_ok_iff.mp h
  obtain ⟨path, -, h⟩ := bind_eq_ok_iff.mp h
  obtain ⟨matched, hmatched, h⟩ := bind_eq_ok_iff.mp h
  obtain ⟨hrec, hreason⟩ := reviewRecord_eq_ok hd
  split at h
  · next w index =>
    split_ifs at h
    rw [← Except.ok.inj h]
    refine ⟨rfl, index, d, rfl, ?_⟩
    have hmem : (w, index) ∈ scope.warnings.zipIdx.filter
        (holds fun p => warningMatches scope d path p.1) := by
      rw [← (select_eq_ok_iff.mp hmatched).2]
      exact List.mem_singleton_self _
    obtain ⟨hzip, hholds⟩ := List.mem_filter.mp hmem
    have hat : scope.warnings[index]? = some w := List.mem_zipIdx_iff_getElem?.mp hzip
    obtain ⟨w, rfl, hfields⟩ := warningMatches_eq_true (holds_iff.mp hholds)
    exact
      { declared := hrec ▸ hrecord
        reason := hreason
        message := ⟨message, warningText_eq_ok hmessage, by
          simpa using raiseIf_eq_ok_iff.mp hskipped⟩
        matched := ⟨w, hat, hfields⟩ }
  · exact absurd h (by simp)

theorem reviewRecords_eq_ok {target envelope : Dict} {category : String} {records : List Value}
    (h : reviewRecords target envelope category = .ok records) :
    Value.get envelope category = .list records ∧
      Value.eq (.list records) (Value.get target category (.list [])) = true := by
  unfold reviewRecords at h
  split at h
  · next vs heq =>
    split_ifs at h with hsame
    rw [← Except.ok.inj h]
    exact ⟨heq, hsame⟩
  · exact absurd h (by simp)

/-- Every approval of an envelope is justified by a record that the target declares. -/
structure Approved.Justified (approved : Approved) (host : Host) (target envelope : Dict)
    (goals : List Goal) (warnings : List Value) : Prop where
  passed : Value.get envelope "status" = .str "passed"
  smoke : ∃ records, Value.get envelope "reviewed_smoke" = .list records ∧
    Value.eq (.list records) (Value.get target "reviewed_smoke" (.list [])) = true ∧
    ∀ name d, (name, d) ∈ approved.smoke → SmokeApproval records goals name d
  warnings : ∃ records, Value.get envelope "reviewed_warnings" = .list records ∧
    Value.eq (.list records) (Value.get target "reviewed_warnings" (.list [])) = true ∧
    ∀ index d, (index, d) ∈ approved.warnings → WarningApproval host records warnings index d

theorem envelopeReviews_justified {host : Host} {target envelope : Dict} {goals : List Goal}
    {rows : List Row} {warnings : List Value} {functions : List String} {approved : Approved}
    (h : envelopeReviews host target envelope goals rows warnings functions = .ok approved) :
    approved.Justified host target envelope goals warnings := by
  unfold envelopeReviews at h
  obtain ⟨_, hpassed, h⟩ := bind_eq_ok_iff.mp h
  obtain ⟨_, -, h⟩ := bind_eq_ok_iff.mp h
  obtain ⟨_, -, h⟩ := bind_eq_ok_iff.mp h
  obtain ⟨_, -, h⟩ := bind_eq_ok_iff.mp h
  obtain ⟨root, -, h⟩ := bind_eq_ok_iff.mp h
  obtain ⟨context, -, h⟩ := bind_eq_ok_iff.mp h
  obtain ⟨⟨_, contextHashes⟩, -, h⟩ := bind_eq_ok_iff.mp h
  dsimp only at h
  obtain ⟨smoke, hsmoke, h⟩ := bind_eq_ok_iff.mp h
  obtain ⟨middle, hmiddle, h⟩ := bind_eq_ok_iff.mp h
  obtain ⟨waived, hwaived, h⟩ := bind_eq_ok_iff.mp h
  obtain ⟨final, hfinal, h⟩ := bind_eq_ok_iff.mp h
  obtain ⟨_, -, h⟩ := bind_eq_ok_iff.mp h
  obtain rfl := Except.ok.inj h
  have hsmoke' := reviewRecords_eq_ok hsmoke
  have hwaived' := reviewRecords_eq_ok hwaived
  have hfirst := approveAll_invariant (P := fun a => a.warnings = [] ∧
      ∀ name d, (name, d) ∈ a.smoke → SmokeApproval smoke goals name d)
    (fun a v a' hv hstep ha => by
      obtain ⟨hw, name, d, hsm, happroval⟩ := smokeReview_eq_ok hv hstep
      refine ⟨hw.trans ha.1, fun name' d' hmem => ?_⟩
      rw [hsm, List.mem_append, List.mem_singleton] at hmem
      rcases hmem with hmem | hmem
      · exact ha.2 name' d' hmem
      · rw [(Prod.mk.inj hmem).1, (Prod.mk.inj hmem).2]
        exact happroval) hmiddle ⟨rfl, fun name d hmem => absurd hmem List.not_mem_nil⟩
  have hsecond := approveAll_invariant (P := fun a => a.smoke = middle.smoke ∧
      ∀ index d, (index, d) ∈ a.warnings → WarningApproval host waived warnings index d)
    (fun a v a' hv hstep ha => by
      obtain ⟨hs, index, d, hwa, happroval⟩ := warningReview_eq_ok hv hstep
      refine ⟨hs.trans ha.1, fun index' d' hmem => ?_⟩
      rw [hwa, List.mem_append, List.mem_singleton] at hmem
      rcases hmem with hmem | hmem
      · exact ha.2 index' d' hmem
      · rw [(Prod.mk.inj hmem).1, (Prod.mk.inj hmem).2]
        exact happroval) hfinal
    ⟨rfl, fun index d hmem => absurd (hfirst.1 ▸ hmem) List.not_mem_nil⟩
  exact
    { passed := not_not.mp (raiseIf_eq_ok_iff.mp hpassed)
      smoke := ⟨smoke, hsmoke'.1, hsmoke'.2, fun name d hmem =>
        hfirst.2 name d (hsecond.1 ▸ hmem)⟩
      warnings := ⟨waived, hwaived'.1, hwaived'.2, hsecond.2⟩ }

/-- **Every approval is justified**: it stands in a passed envelope and repeats a
declared record. -/
theorem validatedReviews_justified {host : Host} {target : Dict} {envelope : Value}
    {goals : List Goal} {rows : List Row} {warnings : List Value} {functions : List String}
    {approved : Approved}
    (h : validatedReviews host target envelope goals rows warnings functions = .ok approved) :
    (approved.smoke = [] ∧ approved.warnings = []) ∨
      ∃ d, envelope = .dict d ∧ approved.Justified host target d goals warnings := by
  unfold validatedReviews at h
  split at h
  · split_ifs at h
    rw [← Except.ok.inj h]
    exact Or.inl ⟨rfl, rfl⟩
  · next d => exact Or.inr ⟨d, rfl, envelopeReviews_justified h⟩
  · exact absurd h (by simp)

end Report
end Fragma
