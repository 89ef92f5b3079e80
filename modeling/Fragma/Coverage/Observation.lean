import Fragma.Analysis.Actual
import Fragma.Coverage.Registry

/-!
# What a receipt says about a model

`model_policy_observation` of `fragma/replay.py` and `_model_observation` of `fragma/coverage.py`.
A model is a receipt of the calibration of a profile.  The observation looks up the profile that the
model names itself, compares the two, checks the retained audit and the recorded inputs, and reports
a level only where nothing is wrong.

* `modelPolicyObservation`: the analysis policy, read from the retained audit.
* `modelObservation`: the observation.
-/

namespace Fragma
namespace Coverage

open Python Posix Suite Replay Analysis

/-! ## The analysis policy of a model -/

/-- `validate_actual_model_policy(analysis, argv, audit)`. -/
def validateActualModelPolicy (analysis : Value) (argv : List Value) (audit : Value) :
    Except Exn Dict := do
  let _ ← modelIdentity analysis
  let argv ← orRaise (readNames some argv)
    (analysisPolicyError "analysis command is not an argv array")
  let checked ← checkModelCommand analysis argv audit
  .ok [("schema_version", .int 1), ("status", .str "checked"), ("model", .dict checked.1),
    ("actual_pointer_formation", .str "true")]

/-- The rows of a list of a model that have a name. -/
def rowsNamed (name : String) (rows : Value) : Except Exn (List Dict) := do
  let rows ← elements rows
  let rows ← rows.mapM fun row => entries row "get"
  .ok (rows.filter fun row => Value.eq (Value.get row "name") (.str name))

/-- The values of a list that equal a string. -/
def countOf (argv : List Value) (arg : String) : ℕ := (argv.filter fun v => Value.eq v (.str arg)).length

/-- The arguments at the end of the command of a calibration. -/
def calibrationOptions : List Value := [.str "-eva", .str "-eva-slevel", .str "10"]

/-- The command writes the audit and ends with the one phase of a calibration. -/
def isBound (argv : List Value) (path : Value) : Bool :=
  countOf argv "-audit-prepare" = 1 &&
    (argv[argv.findIdx (fun v => Value.eq v (.str "-audit-prepare")) + 1]?.any fun v =>
      Value.eq v path) &&
    countOf argv "-eva" = 1 && argv.drop (argv.length - 3) = calibrationOptions &&
    ["-wp", "-rte", "-then"].all fun arg => countOf argv arg = 0

/-- The list behind an entry of the command. -/
def argvOf (command : Value) : Except Exn (List Value) := do
  let argv ← subscriptOf command "command"
  match argv with
  | .list argv => .ok argv
  | _ => .error ⟨.valueError,
      "model correctness audit is not bound to the recorded calibration command"⟩

/-- `model_policy_observation(model, read)`. -/
def modelPolicyObservation (read : Value → Value → Except Exn Doc) (model : Dict) :
    Except Exn Dict := do
  let declared ← isIn (.str "runtime_checks") (Value.get model "analysis" (.dict []))
  if ¬ declared ∧ ¬ Value.has model "validated_model_policy" ∧
      ¬ Value.has model "analysis_policy_audit" then
    .ok [("status", .str "legacy-observed"), ("current_policy", .bool false)]
  else do
    let audit ← item model "analysis_policy_audit"
    let path ← subscriptOf audit "path"
    let sha ← subscriptOf audit "sha256"
    let doc ← read path sha
    let raw ← doc.strict
    let raw ← entries raw "items"
    let observed ← canonical (.dict (raw.filter fun p => p.1 ≠ "sources"))
    let parameters ← subscriptOf audit "parameters"
    let saved ← canonical parameters
    requireView (observed = saved) "actual model correctness audit differs from saved parameters"
    let checks ← item model "checks"
    let evaRows ← rowsNamed "eva-arithmetic-and-memory-byte-order" checks
    requireView (evaRows.length = 1 ∧
      evaRows.all fun row => Value.eq (Value.get row "status") (.str "passed"))
      "missing or ambiguous model EVA evidence"
    let command ← item (evaRows.headD []) "details"
    let exitCode ← getOf command "exit_code"
    requireView (exitCode = .int 0) "model policy analyzer did not complete"
    let argv ← argvOf command
    requireView (isBound argv path = true)
      "model correctness audit is not bound to the recorded calibration command"
    let analysis ← item model "analysis"
    let actual ← validateActualModelPolicy analysis argv parameters
    let validated ← canonical (Value.get model "validated_model_policy")
    let expected ← canonical (.dict actual)
    requireView (validated = expected) "saved model policy disagrees with actual command/audit"
    let policyRows ← rowsNamed "analysis-runtime-policy" checks
    requireView (policyRows.length = 1 ∧
      policyRows.all fun row => Value.eq (Value.get row "status") (.str "passed"))
      "model policy check is missing, ambiguous or inconsistent"
    let details ← canonical (Value.get (policyRows.headD []) "details")
    requireView (details = expected) "model policy check is missing, ambiguous or inconsistent"
    .ok actual

/-! ## Observations of models -/

/-- What the matrix says about a model. -/
structure ModelObservation where
  origin : Value
  completedAt : Value
  profileId : Value
  reportedStatus : Value
  reportedLevel : Value
  currentModelLevel : Value
  identityIssues : List String
  staleInputs : List Change
  analysisPolicy : Dict
  fingerprint : Value
  scope : Value
  runtimeReported : Value

section Model

variable (h : Host) (registered : Table Dict) (revision : String)

/-- `read_policy(path, expected)`. -/
def readPolicy (path expected : Value) : Except Exn Doc :=
  match path with
  | .str path => do
    let P := PurePath.parse path
    raiseIf (h.isSymlink path = true ∨
      ¬ Value.eq (((h.observe P).map Value.str).getD .none) expected)
      (coverageError "model analysis-policy audit missing or changed")
    let file ← orRaise (h.file (h.absolute P).render) ⟨.osError, path⟩
    orRaise file.document ⟨.valueError, "malformed JSON"⟩
  | _ => .error ⟨.typeError, "Path"⟩

/-- The exceptions that the observation of a policy takes for a missing policy. -/
def isPolicyError (kind : ExnKind) : Bool :=
  kind = .osError || kind = .keyError || kind = .typeError || kind = .valueError

/-- `x`, or a default where it raises an exception that is caught. -/
def catching {α : Type} (caught : ExnKind → Bool) (x : Except Exn α) (default : Exn → α) :
    Except Exn α :=
  match x with
  | .ok a => .ok a
  | .error e => if caught e.kind then .ok (default e) else .error e

/-- The registered policy is the checked one, where a policy is registered. -/
def currentPolicy (current : Option Dict) (policy : Dict) : Except Exn Unit :=
  match current with
  | none => .ok ()
  | some current => do
    let declared ← isIn (.str "runtime_checks") (Value.get current "analysis" (.dict []))
    if declared then do
      raiseIf (¬ Value.eq (Value.get policy "status") (.str "checked"))
        (coverageError "model lacks the currently registered actual analysis policy")
      let observed ← canonical (Value.get policy "model")
      let analysis ← item current "analysis"
      let identity ← modelIdentity analysis
      let identity ← canonical (.dict identity)
      raiseIf (observed ≠ identity)
        (coverageError "model lacks the currently registered actual analysis policy")
    else .ok ()

/-- The policy of a model, checked against the registered one. -/
def checkedPolicy (current : Option Dict) (model : Dict) : Except Exn Dict := do
  let policy ← modelPolicyObservation (readPolicy h) model
  currentPolicy current policy
  .ok policy

/-- The policy of a model with no issue, or a record of what is wrong with it and the issue. -/
def policyOf (current : Option Dict) (model : Dict) : Except Exn (Dict × List String) :=
  catching isPolicyError ((checkedPolicy h current model).map fun policy => (policy, []))
    fun e => ([("status", .str "unavailable-or-mismatched"), ("error", .str e.message)],
      ["model-analysis-policy-unavailable-or-mismatched"])

/-- The inputs that have changed. -/
def checkedInputs (model : Dict) (runInputs : Value) : Except Exn (List Change) := do
  let records ← profileRecords h model
  let inputs ← elements runInputs
  let merged ← mergeValues records inputs
  h.changes ((sortReceipts merged).map entryOf)

/-- The exceptions that the observation of inputs takes for missing evidence. -/
def isInputError (kind : ExnKind) : Bool :=
  kind = .keyError || kind = .typeError || kind = .valueError

/-- The changed inputs with no issue, or the issue. -/
def inputsOf (model : Dict) (runInputs : Value) : Except Exn (List Change × List String) :=
  catching isInputError ((checkedInputs h model runInputs).map fun stale => (stale, []))
    fun _ => ([], ["model-input-evidence-unavailable"])

/-- `model.get("profile_sha256") == _digest(current)`. -/
def matchesDefinition (current : Option Dict) (model : Dict) : Bool :=
  match current with
  | some current => Value.get model "profile_sha256" = .str (h.digest (.dict current))
  | none => false

/-- `model.get("architecture") == current["architecture"]`, where there is a profile. -/
def matchesArchitecture (current : Option Dict) (model : Dict) : Except Exn Bool :=
  match current with
  | some current => do
    let architecture ← item current "architecture"
    .ok (Value.eq (Value.get model "architecture") architecture)
  | none => .ok true

/-- A list of the issue, unless the condition holds. -/
def issueUnless (condition : Prop) [Decidable condition] (issue : String) : List String :=
  if condition then [] else [issue]

/-- The issues of the identity of a model. -/
def identityIssues (current : Option Dict) (model : Dict) : Except Exn (List String) := do
  let architecture ← matchesArchitecture current model
  .ok (issueUnless (matchesDefinition h current model = true) "profile-definition-mismatch" ++
    issueUnless (Value.get model "kernel_revision" = .str revision) "revision-mismatch" ++
    issueUnless (architecture = true) "architecture-mismatch" ++
    issueUnless (Value.get model "schema_version" = .int 1) "model-schema-mismatch")

/-- Every check of a model has passed. -/
def checksPassed (model : Dict) : Except Exn Bool := do
  let checks := Value.get model "checks" (.list [])
  if checks.truthy then do
    let rows ← elements checks
    rows.allM fun row => do
      let row ← entries row "get"
      .ok (Value.eq (Value.get row "status") (.str "passed"))
  else .ok false

/-- The model has passed at a level, and so has every check. -/
def hasPassed (model : Dict) : Except Exn Bool :=
  if Value.get model "status" = .str "passed" ∧
      (Value.get model "level" = .str "L0" ∨ Value.get model "level" = .str "L1") then
    checksPassed model
  else .ok false

/-- `_model_observation(root, model, registered, revision, inputs, origin, date, run_inputs)`. -/
def modelObservation (model : Value) (origin date runInputs : Value) :
    Except Exn ModelObservation := do
  let model ← entries model "get"
  let identifier := Value.get model "profile_id"
  let current ← lookIn registered identifier
  let identity ← identityIssues h revision current model
  let (policy, policyIssues) ← policyOf h current model
  let (stale, inputIssues) ← inputsOf h model runInputs
  let binding := identity ++ policyIssues ++ inputIssues
  let declared := Value.get model "level"
  let passed ← hasPassed model
  let runtime ← getOf (Value.get model "runtime" (.dict [])) "status"
  .ok { origin, completedAt := date, profileId := identifier
        reportedStatus := Value.get model "status", reportedLevel := declared
        currentModelLevel := if passed ∧ binding = [] ∧ stale = [] then declared else .none
        identityIssues := binding, staleInputs := stale, analysisPolicy := policy
        fingerprint := Value.get model "fingerprint"
        scope := (current.map fun current => Value.get current "model_scope").getD .none
        runtimeReported := runtime }

end Model

end Coverage
end Fragma
