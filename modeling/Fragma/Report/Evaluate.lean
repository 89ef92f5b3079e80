import Mathlib.Data.List.Sort
import Fragma.Report.Native

/-!
# Evaluating a target

`fragma/report.py`: `_eva_reached_invalid_checks` and `evaluate_target`.  The
declaration of a target is read first, then the reports and the two envelopes.  After
that every gate looks at what was read and reports issues.  A target passes when no
gate reported one.

The gates are functions of an `Evidence`, which is all that the function has read.

* `Declaration`, `Evidence`: what is read.
* `EvaCheck`, `evaChecks`: Eva's located diagnostics about checks.
* `wpAnalysis`, `evaAnalysis`: the gates of the two analyses.
* `judgeRow`, `rowIssues`, `warningIssue`: the gates of the rows and the warnings.
* `Evaluation`, `evaluateTarget`: the result.
-/

namespace Fragma
namespace Report

open Python

/-- `issue(kind, message, **data)`. -/
def issue (kind : IssueKind) (message : String) (data : Dict := []) : Issue := ⟨kind, message, data⟩

/-! ## The declaration -/

/-- What a target declares that passed the structure check. -/
structure Declaration where
  functions : List String
  analysisFunctions : List String
  required : List String

/-- A nonempty list of distinct names. -/
def namesOf : Value → Option (List String)
  | .list vs =>
    if vs ≠ [] ∧ vs.all Value.isName ∧ Value.allDistinct vs then
      some (vs.filterMap fun v => match v with | .str s => some s | _ => none)
    else none
  | _ => none

/-- The three lists of names that a target has to declare. -/
def declaredLists (target : Dict) : List (String × Value) :=
  [("functions", Value.get target "functions"),
    ("analysis_functions",
      Value.get target "analysis_functions" (Value.get target "functions")),
    ("required_properties", Value.get target "required_properties")]

/-- The issues of the structure check. -/
def structureIssues (target : Dict) : List Issue :=
  (declaredLists target).filterMap fun p =>
    if (namesOf p.2).isSome then none
    else some (issue .incomplete ("Target must declare nonempty distinct " ++ p.1))

/-- The declaration of a target that passes the structure check. -/
def declaration (target : Dict) : Option Declaration := do
  let functions ← namesOf (Value.get target "functions")
  let analysisFunctions ←
    namesOf (Value.get target "analysis_functions" (Value.get target "functions"))
  let required ← namesOf (Value.get target "required_properties")
  some ⟨functions, analysisFunctions, required⟩

/-- The issue of a process that failed. -/
def returncodeIssues (returncode : Value) : List Issue :=
  if returncode = .int 0 then []
  else [issue .toolError "Analyzer process did not complete successfully" [("returncode", returncode)]]

/-- The mapping has one nonempty name for every expected unresolved property. -/
def mapsExactly (unresolved : List Value) : Value → Bool
  | .dict mapping =>
    let keys := mapping.map fun p => Value.str p.1
    Value.subset keys unresolved && Value.subset unresolved keys && mapping.all fun p => p.2.isName
  | _ => false

/-- The issues of the declared expectations. -/
def expectationIssues (target : Dict) (d : Declaration) (unresolved invalid : List Value) :
    List Issue :=
  let required := d.required.map Value.str
  (if Value.meet invalid unresolved ≠ [] ∨ ¬ Value.subset (unresolved ++ invalid) required then
    [issue .incomplete "Calibration expectations must be disjoint subsets of required properties"]
  else []) ++
  (if (invalid ≠ [] ∨ unresolved ≠ []) ∧ Value.get target "role" ≠ .str "calibration" then
    [issue .incomplete "Only calibration targets can declare expected failures"]
  else []) ++
  (if unresolved ≠ [] ∧ ¬ (Value.get target "required_companion").truthy then
    [issue .incomplete
      "Expected solver uncertainty requires an independent invalidating companion"]
  else []) ++
  (if mapsExactly unresolved (Value.get target "companion_property_map" (.dict [])) then []
  else [issue .incomplete ("Every expected unresolved property requires an exact companion " ++
    "property mapping")]) ++
  (if d.functions ⊆ d.analysisFunctions then []
  else [issue .incomplete "analysis_functions must include every source function"])

/-! ## The reports -/

/-- The records of the property report, with the issue of a report that has none. -/
def propertyRecords : Value → List Value × List Issue
  | .list (v :: vs) => (v :: vs, [])
  | _ => ([], [issue .incomplete "Missing or empty consolidated property report"])

/-- The warnings, with the issue of a value that is no array. -/
def warningList : Value → List Value × List Issue
  | .list vs => (vs, [])
  | _ => ([], [issue .toolError "Warnings must be a diagnostic array"])

/-- Eva's diagnostic that a check was reached and was invalid, with the row of the
check. -/
structure EvaCheck where
  name : Value
  row : Row
  diagnostic : Dict

/-- The row can be the ambiguous row of the check. -/
def isAmbiguousCheck (name : Value) (r : Row) : Except Exn Bool :=
  if Value.eq (r.get "kind") (.str "user check") && r.status = "Invalid or unreachable" then
    r.named name
  else .ok false

/-- The warning is the diagnostic of the check at the place of the row. -/
def isDiagnostic (host : Host) (name : Value) (r : Row) : Value → Option Dict
  | .dict w =>
    if Value.get w "plugin" = .str "eva:alarm" ∧ Value.get w "severity" = .str "warning" ∧
        Value.eq (Value.get w "path") (r.get "path") ∧
        Value.eq (Value.get w "line") (r.get "line") ∧
        Value.get w "message" = .str ("check '" ++ host.format name ++ "' got status invalid.") then
      some w
    else none
  | _ => none

/-- The check of one expected name. -/
def evaCheck (host : Host) (rows : List Row) (warnings : List Value) (name : Value) :
    Except Exn (List EvaCheck) := do
  let matched ← select (isAmbiguousCheck name) rows
  match matched with
  | [r] =>
    match warnings.filterMap (isDiagnostic host name r) with
    | [w] => .ok [⟨name, r, w⟩]
    | _ => .ok []
  | _ => .ok []

/-- `_eva_reached_invalid_checks(properties, warnings, expected_invalid)`. -/
def evaChecks (host : Host) (rows : List Row) (warnings expectedInvalid : List Value) :
    Except Exn (List EvaCheck) := collect (evaCheck host rows warnings) expectedInvalid

/-- The goals of a WP target.  A report that fails is an issue. -/
def readGoals (host : Host) (target : Dict) (wpGoals : Value) :
    Except Exn (List Goal × List Issue) :=
  if Value.get target "analysis" = .str "wp" then
    match wpRows host wpGoals with
    | .ok goals => .ok (goals, [])
    | .error e =>
      if e.kind = .reportError then
        .ok ([], [issue (if wpGoals.truthy then .toolError else .incomplete) e.message])
      else .error e
  else .ok ([], [])

/-- `except (ReportError, OSError, ValueError)`: the exception is an issue, and the
default is taken. -/
def reviewing {α : Type} (x : Except Exn α) (default : α) : Except Exn (α × List Issue) :=
  match x with
  | .ok a => .ok (a, [])
  | .error e =>
    if e.kind = .reportError ∨ e.kind = .osError ∨ e.kind = .valueError then
      .ok (default, [issue .reviewRequired e.message])
    else .error e

/-- What `evaluate_target` has read when the gates begin. -/
structure Evidence where
  host : Host
  target : Dict
  declared : Declaration
  expectedUnresolved : List Value
  expectedInvalid : List Value
  rows : List Row
  warnings : List Value
  checks : List EvaCheck
  goals : List Goal
  reviews : Approved
  native : List NativeAccepted

/-- The reading, with the issues that it finds. -/
def gather (host : Host) (target : Dict) (declared : Declaration)
    (wpGoals properties warnings review native : Value) : Except Exn (Evidence × List Issue) := do
  let unresolved ← orRaise (Value.toSet (Value.get target "expected_unresolved" (.list [])))
    (typeError "unhashable type")
  let invalid ← orRaise (Value.toSet (Value.get target "expected_invalid" (.list [])))
    (typeError "unhashable type")
  let records := propertyRecords properties
  let readings ← readRows records.1
  let rows := readings.filterMap RowReading.row?
  let diagnostics := warningList warnings
  let checks ← evaChecks host rows diagnostics.1 invalid
  let goals ← readGoals host target wpGoals
  let reviews ← reviewing
    (validatedReviews host target review goals.1 rows diagnostics.1 declared.analysisFunctions) .empty
  let accepted ← reviewing (validatedNative host target native rows) []
  .ok (⟨host, target, declared, unresolved, invalid, rows, diagnostics.1, checks, goals.1,
      reviews.1, accepted.1⟩,
    expectationIssues target declared unresolved invalid ++ records.2 ++
      readings.filterMap RowReading.issue? ++ diagnostics.2 ++ goals.2 ++ reviews.2 ++ accepted.2)

namespace Evidence

/-- `eva_check_confirms(row, name)`. -/
def checkConfirms (e : Evidence) (r : Row) (name : Value) : Bool :=
  match e.checks.find? fun c => Value.Same c.name name with
  | some c => r.eq c.row
  | none => false

/-- `name in native and row == native[name]["property_record"]`. -/
def nativeConfirms (e : Evidence) (r : Row) (name : Value) : Bool :=
  match e.native.find? fun a => Value.Same (.str a.name) name with
  | some a => r.eq a.row
  | none => false

/-- The property is expected to stay unresolved. -/
def unresolvedExpected (e : Evidence) (name : String) : Bool :=
  Value.member e.expectedUnresolved (.str name)

/-- The property is expected to be invalid. -/
def invalidExpected (e : Evidence) (name : String) : Bool :=
  Value.member e.expectedInvalid (.str name)

end Evidence

/-! ## The gates of WP -/

/-- What the gates of an analysis find: the issues, the confirmed properties, and the
functions whose rows count. -/
structure Analysis where
  selected : List Value
  issues : List Issue
  confirmed : List String
  native : List NativeAccepted
  omissions : List String

/-- The kind of the issue of a goal that did not pass. -/
def GoalOutcome.issueKind : GoalOutcome → IssueKind
  | .valid => .unknown
  | .invalid => .invalid
  | .unknown => .unknown
  | .timeout => .timeout
  | .toolError => .toolError
  | .inconsistent => .inconsistent
  | .inconclusive => .unknown

/-- A selected function has an ordinary goal. -/
def functionIssues (e : Evidence) (func : String) : List Issue :=
  if e.goals.any fun g => !g.smoke && g.function = func then []
  else [issue .incomplete "No proof goals for selected function" [("function", .str func)]]

/-- The gate of the outcome of a smoke goal. -/
def smokeIssues (e : Evidence) (g : Goal) : List Issue :=
  match g.outcome with
  | .inconsistent =>
    if (e.reviews.smoke.lookup g.goal).isSome then []
    else [issue .inconsistent ("Smoke test detected inconsistent assumptions or a dead path " ++
      "requiring individual review") [("goal", .str g.goal)]]
  | .toolError => [issue .toolError "Smoke test tool failure" [("goal", .str g.goal)]]
  | _ => []

/-- The gate of the outcome of an ordinary goal. -/
def ordinaryIssues (e : Evidence) (g : Goal) : List Issue :=
  if g.outcome = .valid then []
  else if e.unresolvedExpected g.property ∧ (g.outcome = .unknown ∨ g.outcome = .timeout) then []
  else if e.invalidExpected g.property ∧ g.outcome = .invalid then []
  else [issue g.outcome.issueKind "Required proof goal did not pass"
    [("goal", .str g.goal), ("property", .str g.property)]]

/-- The gate of one goal. -/
def goalIssues (e : Evidence) (g : Goal) : List Issue :=
  (if g.function ∈ e.declared.analysisFunctions then []
  else [issue .incomplete "WP report contains an unexpected function"
    [("function", .str g.function)]]) ++
  if g.smoke then smokeIssues e g else ordinaryIssues e g

/-- The ordinary goals with a property. -/
def goalsOf (e : Evidence) (name : String) : List Goal :=
  e.goals.filter fun g => !g.smoke && g.property = name

/-- The property is confirmed as invalid. -/
def wpConfirms (e : Evidence) (name : String) : Bool :=
  (goalsOf e name ≠ []) &&
    !(e.unresolvedExpected name && (goalsOf e name).all fun g => g.outcome = .valid) &&
    e.invalidExpected name && (goalsOf e name).any fun g => g.outcome = .invalid

/-- The gate of a required property. -/
def requiredIssues (e : Evidence) (name : String) : List Issue :=
  let matched := goalsOf e name
  let valid := matched.all fun g => g.outcome = .valid
  if matched = [] then
    [issue .incomplete "Missing required named property" [("property", .str name)]]
  else if e.unresolvedExpected name ∧ valid then
    [issue .reviewRequired "Expected unresolved property became valid" [("property", .str name)]]
  else if e.invalidExpected name then
    if matched.any fun g => g.outcome = .invalid then []
    else [issue (if valid then .reviewRequired else .incomplete)
      "Expected invalidity was not established" [("property", .str name)]]
  else []

/-- The gate of a named goal. -/
def baselineIssues (e : Evidence) (name : Value) : List Issue :=
  if e.goals.any fun g => Value.eq (.str g.goal) name then []
  else [issue .incomplete "Missing named baseline proof goal" [("goal", name)]]

/-- The row stands where the goal does. -/
def atGoal (g : Goal) (r : Row) : Bool :=
  Value.eq (r.get "path") (.str g.path) && Value.eq (r.get "line") (.int g.line) &&
    Value.eq (r.get "function") (.str g.function)

/-- The property of the goal is a name of a row at its place. -/
def isLinked (e : Evidence) (g : Goal) : List Row → Except Exn Bool
  | [] => .ok false
  | r :: rs => do
    let aliases ← propertyAliases r [g]
    if Value.member aliases (.str g.property) then .ok true else isLinked e g rs

/-- The gate of the row of a goal.  The export leaves out loop variants. -/
def linkIssues (e : Evidence) (g : Goal) : Except Exn (List Issue) :=
  if g.smoke then .ok []
  else do
    let linked ← isLinked e g (e.rows.filter (atGoal g))
    if linked ∨ hasSubstring "_loop_variant" g.property then .ok []
    else .ok [issue .incomplete
      "WP property is missing from the consolidated dependency report"
      [("property", .str g.property), ("goal", .str g.goal)]]

/-- The omission that a goal of a loop variant is recorded as. -/
def omission (e : Evidence) (g : Goal) : Except Exn (List String) :=
  if g.smoke then .ok []
  else do
    let linked ← isLinked e g (e.rows.filter (atGoal g))
    if ¬ linked ∧ hasSubstring "_loop_variant" g.property then .ok [g.goal] else .ok []

/-- The gate of the evidence of smoke tests. -/
def smokeEvidence (e : Evidence) : List Issue :=
  if (Value.get e.target "require_smoke").truthy ∧ ¬ e.goals.any (·.smoke) then
    [issue .incomplete "Required smoke test evidence is missing"]
  else []

/-- The gates of WP. -/
def wpAnalysis (e : Evidence) : Except Exn Analysis := do
  let baseline ← orRaise (Value.get e.target "required_goals" (.list [])).iterate
    (typeError "object is not iterable")
  let links ← collect (linkIssues e) e.goals
  let omissions ← collect (omission e) e.goals
  .ok ⟨e.declared.analysisFunctions.map .str,
    e.declared.analysisFunctions.flatMap (functionIssues e) ++ e.goals.flatMap (goalIssues e) ++
      e.declared.required.flatMap (requiredIssues e) ++ baseline.flatMap (baselineIssues e) ++
      links ++ smokeEvidence e,
    e.declared.required.filter (wpConfirms e), [], omissions⟩

/-! ## The gates of Eva -/

/-- `target.get("entry", "main")`. -/
def entryOf (e : Evidence) : Value := Value.get e.target "entry" (.str "main")

/-- The functions whose rows count for Eva. -/
def evaSelected (e : Evidence) : List Value := e.declared.analysisFunctions.map .str ++ [entryOf e]

/-- A selected function has a row. -/
def evidenceIssues (e : Evidence) (func : Value) : List Issue :=
  if e.rows.any fun r => Value.eq (r.get "function") func then []
  else [issue .incomplete "No property evidence for selected EVA function" [("function", func)]]

/-- `row["function"] in analysis_funcs`. -/
def inSelected (selected : List Value) (r : Row) : Except Exn Bool :=
  if (r.get "function").hashable then .ok (Value.member selected (r.get "function"))
  else .error (typeError "unhashable type")

/-- The row is selected and has the name. -/
def evaNamed (e : Evidence) (name : String) (r : Row) : Except Exn Bool := do
  let selected ← inSelected (evaSelected e) r
  if selected then r.named (.str name) else .ok false

/-- What the gate of a required property finds. -/
structure Required where
  issues : List Issue
  confirmed : List String
  native : List NativeAccepted

/-- The gate of a required property, with the rows that have its name. -/
def evaRequired (e : Evidence) (name : String) (matched : List Row) : Required :=
  let valid := matched.all fun r => r.outcome = .valid
  if matched = [] then
    ⟨[issue .incomplete
      "Missing required named EVA property; provide exact source-location mapping"
      [("property", .str name)]], [], []⟩
  else if e.invalidExpected name then
    if matched.all fun r => r.outcome = .invalid || e.checkConfirms r (.str name) then
      ⟨[], [name], []⟩
    else if matched.length = 1 ∧ matched.all fun r => e.nativeConfirms r (.str name) then
      ⟨[], [name], (e.native.find? fun a => a.name = name).toList⟩
    else
      ⟨[issue (if valid then .reviewRequired else .incomplete)
        "Expected EVA invalidity was not established" [("property", .str name)]], [], []⟩
  else if valid then ⟨[], [], []⟩
  else ⟨[issue .incomplete "Required EVA property is not unconditionally valid"
    [("property", .str name)]], [], []⟩

/-- The gate of a required property. -/
def evaRequire (e : Evidence) (name : String) : Except Exn (List Required) := do
  let matched ← select (evaNamed e name) e.rows
  .ok [evaRequired e name matched]

/-- The gates of Eva. -/
def evaAnalysis (e : Evidence) (wpGoals : Value) : Except Exn Analysis := do
  raiseIf (¬ (entryOf e).hashable) (typeError "unhashable type")
  let required ← collect (evaRequire e) e.declared.required
  .ok ⟨evaSelected e,
    (if wpGoals.truthy then [issue .incomplete "EVA target unexpectedly supplied WP goals"] else []) ++
      (Value.distinct (e.declared.functions.map .str ++ [entryOf e])).flatMap (evidenceIssues e) ++
      required.flatMap Required.issues,
    required.flatMap Required.confirmed, required.flatMap Required.native, []⟩

/-- The gates of the analysis that the target declares. -/
def analyse (e : Evidence) (wpGoals : Value) : Except Exn Analysis :=
  if Value.get e.target "analysis" = .str "wp" then wpAnalysis e
  else if Value.get e.target "analysis" = .str "eva" then evaAnalysis e wpGoals
  else .ok ⟨e.declared.analysisFunctions.map .str,
    [issue .unsupported "Unsupported analysis kind" [("analysis", Value.get e.target "analysis")]],
    [], [], []⟩

/-! ## The gates of the rows -/

/-- The identity of a row. -/
def Row.identity (r : Row) : List Value :=
  ["path", "line", "function", "kind", "property"].map fun field => r.get field

/-- The row has another status than a row like it. -/
def Row.isAmbiguous (r : Row) : Bool := (r.get "exported_identity_ambiguous").truthy

/-- The names can be sorted. -/
def sortable (names : List Value) : Bool :=
  names.length ≤ 1 ||
    (names.all fun v => match v with | .str _ => true | _ => false) ||
    names.all fun v => match v with | .bool _ => true | .int _ => true | .float _ => true | _ => false

/-- `a <= b`, for texts. -/
def nameAtMost : Value → Value → Bool
  | .str s, .str t => decide (s ≤ t)
  | _, _ => true

/-- `sorted(names)`, for texts. -/
def sortedNames (names : List Value) : List Value :=
  names.insertionSort fun a b => nameAtMost a b = true

/-- `v > 1`. -/
def exceedsOne : Value → Except Exn Bool
  | .int n => .ok (1 < n)
  | .bool _ => .ok false
  | .float (.finite q) => .ok (1 < q)
  | .float (.infinite negative) => .ok (!negative)
  | .float .nan => .ok false
  | _ => .error (typeError "'>' not supported between instances")

/-- The row stands for several rows of the export. -/
def Row.isMerged (r : Row) : Except Exn Bool := exceedsOne (r.get "exported_duplicate_count" (.int 1))

/-- The kind of the issue of a row that is not proved. -/
def RowOutcome.issueKind : RowOutcome → IssueKind
  | .valid => .unknown
  | .invalid => .invalid
  | .unknown => .unknown
  | .pending => .incomplete
  | .assumed => .incomplete
  | .inconsistent => .inconsistent
  | .unreachable => .incomplete

/-- The row is trusted: it is assumed, and it is an assumption. -/
def Row.isTrusted (r : Row) : Bool :=
  r.outcome = .assumed && ["precondition", "axiom", "assumption"].any fun kind =>
    r.get "kind" = .str kind

/-- The row needs no proof: an expectation explains its outcome. -/
def excused (e : Evidence) (r : Row) (aliases : List Value) : Bool :=
  let invalid := Value.meet aliases e.expectedInvalid
  (invalid ≠ [] && (r.outcome = .invalid || invalid.any (e.checkConfirms r))) ||
    (r.outcome = .unreachable && invalid.any (e.nativeConfirms r)) ||
    (Value.meet aliases e.expectedUnresolved ≠ [] &&
      (r.outcome = .unknown || r.outcome = .pending))

/-- The gate of the outcome of a row. -/
def judgeRow (e : Evidence) (r : Row) : Except Exn (List Issue) := do
  let aliases ← propertyAliases r e.goals
  raiseIf (r.outcome = .pending ∧ ¬ sortable (Value.distinct aliases))
    (typeError "'<' not supported between instances")
  if r.outcome = .valid ∨ r.isTrusted ∨ excused e r aliases then .ok []
  else .ok [issue r.outcome.issueKind "Consolidated property is not unconditionally proved"
    [("property", r.get "property"), ("function", r.get "function"), ("path", r.get "path"),
      ("line", r.get "line"), ("property_status", .str r.status)]]

/-- The gate of the identity of a row, after rows with the identities `seen`. -/
def identityIssues (seen : List (List Value)) (r : Row) : Except Exn (List Issue) := do
  raiseIf (¬ r.identity.all Value.hashable) (typeError "unhashable type")
  if r.isAmbiguous ∨ seen.any fun i => Value.Same (.list r.identity) (.list i) then
    .ok [issue .incomplete "Selected property has an ambiguous exported identity"
      [("function", r.get "function"), ("path", r.get "path"), ("line", r.get "line"),
        ("property", r.get "property")]]
  else .ok []

/-- The loop over the selected rows. -/
def rowIssues (e : Evidence) (seen : List (List Value)) : List Row → Except Exn (List Issue)
  | [] => .ok []
  | r :: rs => do
    let identity ← identityIssues seen r
    let outcome ← judgeRow e r
    let rest ← rowIssues e (r.identity :: seen) rs
    .ok (identity ++ outcome ++ rest)

/-- The gates of the selected rows. -/
def selectedIssues (e : Evidence) (rows : List Row) : Except Exn (List Issue) := do
  let issues ← rowIssues e [] rows
  .ok ((if rows = [] then
    [issue .incomplete "Consolidated report has no selected-function properties"] else []) ++ issues)

/-! ## The gates of the warnings -/

/-- The message and the severity of a diagnostic. -/
def diagnosticOf : Value → Option (String × Value)
  | .str s => some (s, .none)
  | .dict w =>
    match Value.get w "message" with
    | .str message =>
      if ["warning", "error", "unsupported"].any fun s => Value.get w "severity" = .str s then
        some (message, Value.get w "severity")
      else none
    | _ => none
  | _ => none

/-- The message says that something is unsupported or was skipped. -/
def saysUnsupported (host : Host) (message : String) : Bool :=
  searchWord host.isAlnum "unsupported".toList none message.toList ||
    searchPhrase "not supported" message ||
    searchSkipped host.isAlnum ["goal", "function", "property", "RTE guards"] message

/-- The gate of one warning. -/
def warningIssue (e : Evidence) (p : Value × ℕ) : Except Exn (List Issue) :=
  match diagnosticOf p.1 with
  | none => .ok [issue .toolError "Malformed warning diagnostic" [("warning_index", .int p.2)]]
  | some (message, severity) =>
    if severity = .str "error" then .ok [issue .toolError message]
    else if (e.reviews.warnings.lookup p.2).isSome then .ok []
    else if severity = .str "unsupported" ∨ saysUnsupported e.host message then
      .ok [issue .unsupported message]
    else if hasSubstring "Missing RTE guards" message then do
      let claimed ← orRaise
        (Value.contains (Value.get e.target "claims" (.list [])) (.str "runtime-safety"))
        (typeError "argument is not iterable")
      if claimed then .ok [issue .incomplete "Runtime-safety claim lacks RTE guards"] else .ok []
    else .ok []

/-! ## The result -/

/-- `result["smoke"]`. -/
structure SmokeSummary where
  count : ℕ
  inconsistent : ℕ
  inconclusive : ℕ
  reviewedUnreachable : ℕ
  goals : List Goal

/-- `result`, as `evaluate_target` returns it. -/
structure Evaluation where
  targetId : Value
  profile : Value
  source : Value
  role : Value
  analysis : Value
  status : Status
  functions : Value
  accepted : Bool
  verified : Bool
  localPolicyPassed : Bool
  issues : List Issue
  warnings : Value
  unresolvedDependencies : List (Row × List Value)
  dependencyReportOmissions : List String
  trustedDependencies : List Row
  confirmedInvalidProperties : List String
  nativeInvalidProperties : List NativeAccepted
  evaInvalidChecks : List EvaCheck
  unselectedPropertyAmbiguities : List Row
  selectedPropertyAmbiguities : List Row
  selectedPropertyDuplicateGroups : List Row
  reviewContext : Value
  reviewedSmoke : List (Goal × Dict)
  reviewedWarnings : List (ℕ × Value × Dict)
  reviewedUnreachableProperties : List (Row × Dict)
  requiredCompanion : Value
  expectedUnresolved : Value
  expectedInvalid : Value
  companionPropertyMap : Value
  companionMappingReason : Value
  smoke : SmokeSummary
  goalCounts : GoalOutcome → ℕ
  propertyCounts : RowOutcome → ℕ

/-- The result before anything is read. -/
def Evaluation.start (target : Dict) (warnings : Value) (issues : List Issue) (status : Status) :
    Evaluation where
  targetId := Value.get target "id"
  profile := Value.get target "profile"
  source := Value.get target "source"
  role := Value.get target "role" (.str "proof")
  analysis := Value.get target "analysis"
  status := status
  functions := Value.get target "functions" (.list [])
  accepted := false
  verified := false
  localPolicyPassed := false
  issues := issues
  warnings := warnings
  unresolvedDependencies := []
  dependencyReportOmissions := []
  trustedDependencies := []
  confirmedInvalidProperties := []
  nativeInvalidProperties := []
  evaInvalidChecks := []
  unselectedPropertyAmbiguities := []
  selectedPropertyAmbiguities := []
  selectedPropertyDuplicateGroups := []
  reviewContext := .none
  reviewedSmoke := []
  reviewedWarnings := []
  reviewedUnreachableProperties := []
  requiredCompanion := Value.get target "required_companion"
  expectedUnresolved := Value.get target "expected_unresolved" (.list [])
  expectedInvalid := Value.get target "expected_invalid" (.list [])
  companionPropertyMap := Value.get target "companion_property_map" (.dict [])
  companionMappingReason := Value.get target "companion_mapping_reason"
  smoke := ⟨0, 0, 0, 0, []⟩
  goalCounts := fun _ => 0
  propertyCounts := fun _ => 0

/-- `result["smoke"]` of the goals. -/
def smokeSummary (e : Evidence) : SmokeSummary :=
  let goals := e.goals.filter (·.smoke)
  let dead := goals.filter fun g => g.outcome = .inconsistent
  ⟨goals.length, dead.length, (goals.filter fun g => g.outcome = .inconclusive).length,
    (dead.filter fun g => (e.reviews.smoke.lookup g.goal).isSome).length, goals⟩

/-- The rows whose status is conditional, with their names. -/
def unresolvedRows (e : Evidence) (rows : List Row) : Except Exn (List (Row × List Value)) :=
  collect (fun r => (propertyAliases r e.goals).map fun aliases =>
    if r.outcome = .pending then [(r, sortedNames (Value.distinct aliases))] else []) rows

/-- The warnings that a review approves. -/
def reviewedWarning (e : Evidence) (p : Value × ℕ) : Option (ℕ × Value × Dict) :=
  match diagnosticOf p.1, e.reviews.warnings.lookup p.2 with
  | some (_, severity), some d => if severity = .str "error" then none else some (p.2, p.1, d)
  | _, _ => none

/-- The last step: a target without issues passes. -/
def Evaluation.conclude (result : Evaluation) (role : Value) (expectedUnresolved : List Value) :
    Evaluation :=
  if result.issues ≠ [] then { result with status := statusOf result.issues }
  else if expectedUnresolved ≠ [] then
    { result with localPolicyPassed := true, status := .needsCompanion }
  else if role = .str "proof" then
    { result with localPolicyPassed := true, accepted := true, verified := true, status := .passed }
  else { result with localPolicyPassed := true, accepted := true, status := .calibrationPassed }

/-- The evaluation of a target whose declaration passed the structure check. -/
def evaluateDeclared (host : Host) (target : Dict) (declared : Declaration)
    (wpGoals properties returncode warnings review native : Value) : Except Exn Evaluation := do
  let (e, found) ← gather host target declared wpGoals properties warnings review native
  let analysis ← analyse e wpGoals
  let selected ← select (inSelected analysis.selected) e.rows
  let merged ← select Row.isMerged selected
  let judged ← selectedIssues e selected
  let unresolved ← unresolvedRows e selected
  let warned ← collect (warningIssue e) e.warnings.zipIdx
  let issues := returncodeIssues returncode ++ found ++ analysis.issues ++ judged ++ warned
  let start := Evaluation.start target warnings issues (.issue .incomplete)
  let result : Evaluation := { start with
    unresolvedDependencies := unresolved
    dependencyReportOmissions := analysis.omissions
    trustedDependencies := selected.filter Row.isTrusted
    confirmedInvalidProperties := analysis.confirmed
    nativeInvalidProperties := analysis.native
    evaInvalidChecks := e.checks
    unselectedPropertyAmbiguities :=
      e.rows.filter fun r => r.isAmbiguous && !holds (inSelected analysis.selected) r
    selectedPropertyAmbiguities := selected.filter Row.isAmbiguous
    selectedPropertyDuplicateGroups := merged
    reviewContext := e.reviews.context
    reviewedSmoke := e.goals.filterMap fun g =>
      if g.smoke ∧ g.outcome = .inconsistent then
        (e.reviews.smoke.lookup g.goal).map fun d => (g, d) else none
    reviewedWarnings := e.warnings.zipIdx.filterMap (reviewedWarning e)
    reviewedUnreachableProperties := e.reviews.unreachable
    smoke := smokeSummary e
    goalCounts := fun o => (e.goals.filter fun g => !g.smoke && g.outcome = o).length
    propertyCounts := fun o => (selected.filter fun r => r.outcome = o).length }
  .ok (result.conclude start.role e.expectedUnresolved)

/-- `evaluate_target(target, wp_goals, properties, returncode, warnings,
validated_review, validated_native)`. -/
def evaluateTarget (host : Host) (target : Dict)
    (wpGoals properties returncode warnings review native : Value) : Except Exn Evaluation :=
  match declaration target with
  | some declared =>
    evaluateDeclared host target declared wpGoals properties returncode warnings review native
  | none => .ok (.start target warnings (returncodeIssues returncode ++ structureIssues target)
      (.issue (if Value.eq returncode (.int 0) then .incomplete else .toolError)))

end Report
end Fragma
