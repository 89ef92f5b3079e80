import Fragma.Coverage.Observation

/-!
# What a summary says about a target

`_verdict` and `_target_observation` of `fragma/coverage.py`.  A summary of a run has an item for a
target.  The observation compares the item with the registered target and profile, with the pinned
revision and with the files as they are now; what does not fit is an issue, and an accepted item
with an issue or with a changed input is not current.

* `Run`: a summary that was read.
* `verdict`: the verdict of an item, where its fields agree.
* `TargetObservation`, `targetObservation`: the observation.
-/

namespace Fragma
namespace Coverage

open Python Posix Suite Replay

/-! ## Verdicts -/

/-- The fields of a verdict. -/
def verdictFields : List String := ["accepted", "verified", "local_policy_passed"]

/-- A value is a Boolean. -/
def isBool : Value → Bool
  | .bool _ => true
  | _ => false

/-- The fields of a verdict that are there are Booleans. -/
def checkBooleans (d : Dict) : Except Exn Unit :=
  verdictFields.forM fun field =>
    raiseIf (Value.has d field ∧ isBool (Value.get d field) = false)
      (coverageError ("non-Boolean target verdict: " ++ field))

/-- The status of an accepted item. -/
def acceptedStatus (proof : Bool) : String := if proof then "passed" else "calibration-passed"

/-- The fields of an accepted item that agree with its role. -/
def isConsistent (item evaluation : Dict) (proof : Bool) : Bool :=
  Value.get item "status" = .str (acceptedStatus proof) &&
    Value.get evaluation "status" = .str (acceptedStatus proof) &&
    Value.get evaluation "accepted" = .bool true &&
    Value.get evaluation "verified" = .bool proof &&
    Value.get evaluation "local_policy_passed" = .bool true

/-- An item that is not accepted claims success. -/
def claimsSuccess (item evaluation : Dict) : Bool :=
  Value.get item "status" = .str "passed" || Value.get item "status" = .str "calibration-passed" ||
    Value.get evaluation "verified" = .bool true

/-- `_verdict(item)`. -/
def verdict (item : Dict) : Except Exn Bool :=
  match Value.get item "evaluation" (.dict []) with
  | .dict evaluation => do
    checkBooleans item
    checkBooleans evaluation
    ["accepted", "status"].forM fun field =>
      raiseIf (Value.has evaluation field ∧
        ¬ Value.eq (Value.get evaluation field) (Value.get item field))
        (coverageError ("target/evaluation verdicts disagree: " ++ field))
    let role ← getOf (Value.get item "target" (.dict [])) "role"
    if Value.get item "accepted" = .bool true then do
      raiseIf (isConsistent item evaluation (Value.eq role (.str "proof")) = false)
        (coverageError "inconsistent accepted/status/verified target fields")
      .ok true
    else do
      raiseIf (claimsSuccess item evaluation = true)
        (coverageError "unsuccessful target claims a passing status or verification")
      .ok false
  | _ => .error (coverageError "malformed target evaluation")

/-! ## Observations of targets -/

/-- A summary that was read: its path and hash, its entries, the item of each target, and the moment
at which the run was completed, where it was. -/
structure Run where
  path : String
  sha256 : Option String
  data : Dict
  items : List (String × Dict)
  time : Option ℤ

/-- A run without a moment of completion. -/
def Run.undated (run : Run) : Bool := run.time.isNone

/-- The goals and the properties of a function. -/
structure FunctionEvidence where
  ordinaryGoals : ℕ
  properties : ℕ

/-- What the matrix says about a target in a run. -/
structure TargetObservation where
  summary : String
  summarySha256 : Option String
  completedAt : Value
  reportedStatus : Value
  reportedAccepted : Bool
  reportedVerified : Bool
  currentAccepted : Bool
  currentVerified : Bool
  freshness : String
  identityIssues : List String
  staleInputs : List Change
  retainedEvidence : Dict
  targetSha256 : String
  sourceIdentity : Dict
  profileFingerprint : Value
  sourceContentCheck : Dict
  recordedKernelFunctions : Value
  issues : Value
  error : Value
  assumptions : List Dict
  unresolvedDependencies : Value
  counts : Value
  functionEvidence : Table FunctionEvidence
  preconditions : Table (List Dict)

/-- A hash, or an integer that is written like one. -/
def isHashText : Value → Bool
  | .str s => isHex 64 s
  | .int n => isHex 64 (toString n)
  | _ => false

/-- `{key: row.get(key) for key in keys}`. -/
def project (keys : List String) (row : Dict) : Dict := keys.map fun key => (key, Value.get row key)

/-- An optional hash, as a value. -/
def hashValue (hash : Option String) : Value := (hash.map Value.str).getD .none

section Observation

variable (h : Host) (registered : Table Dict) (revision : String)

/-- The identity of the source of an item is that of the target at the pinned revision. -/
def isSourceIdentity (target provenance source : Dict) : Except Exn Bool := do
  let path ← item target "source"
  .ok (Value.get provenance "passed" = .bool true && Value.get source "revision" = .str revision &&
    Value.eq (Value.get source "path") path && Value.get source "kind" = .str "git-blob" &&
    isHashText (Value.get source "sha256" (.str "")))

/-- The recorded inputs of an item, as a table, with what has changed; or an issue. -/
def recordedInputs (shared own : Value) : Except Exn (List Receipt × List Change × List String) :=
  let merged : Except Exn (List Receipt × List Change × List String) := do
    let shared ← elements shared
    let records ← mergeValues [] shared
    let own ← elements own
    let records ← mergeValues records own
    let stale ← h.changes ((sortReceipts records).map entryOf)
    .ok (sortReceipts records, stale, [])
  catching (fun kind => kind = .typeError || kind = .valueError) merged
    fun e => ([], [], ["invalid-integrity-records: " ++ e.message])

/-- The manifests that the recorded inputs do not bind. -/
def unboundManifests (manifests : List PurePath) (records : List Receipt) : List String :=
  (manifests.filter fun path => !records.any fun r => r.path = path.render).map fun path =>
    "manifest-binding-missing: " ++ (path.relativeTo h.root).render

/-- The declared inputs that the recorded inputs do not bind. -/
def unboundFields (target : Dict) (records : List Receipt) : Except Exn (List String) :=
  collect (fun field =>
    if (Value.get target field).truthy then
      match Value.get target field with
      | .str name =>
        .ok (issueUnless ((records.any fun r => r.path = (h.under name).render) = true)
          ("declared-input-binding-missing: " ++ field))
      | _ => .error ⟨.typeError, "/"⟩
    else .ok [])
    ["harness", "specs", "driver", "kernel_model_check", "wp_strategy_file"]

/-- The record of a source file that was looked at. -/
def contentCheck (path : String) (actual : Option String) (expected : Value) : Dict :=
  [("status", .str (if actual.isSome && hashValue actual = expected then "passed" else "mismatched")),
    ("expected_sha256", expected), ("path", .str path), ("actual_sha256", hashValue actual)]

/-- The record of a source file that was not looked at. -/
def noContent (expected : Value) : Dict :=
  [("status", .str "unavailable"), ("expected_sha256", expected)]

/-- `source_content`: the source in the snapshot of the model, or the one recorded input that has
its name and its hash. -/
def sourceContent (target : Dict) (records : List Receipt) (sourceRoot expected : Value) :
    Except Exn Dict := do
  let source ← item target "source"
  let source ← match source with
    | .str source => .ok source
    | _ => .error ⟨.typeError, "/"⟩
  let matching := records.filter fun r =>
    decide (("/" ++ source).toList <:+ r.path.toList) && decide (Value.str r.sha256 = expected)
  match sourceRoot with
  | .str sourceRoot =>
    if (PurePath.parse sourceRoot).IsAbsolute then
      let path := (PurePath.parse sourceRoot).join (PurePath.parse source)
      if path.IsRelativeTo (PurePath.parse sourceRoot) then
        .ok (contentCheck path.render (h.observe path) expected)
      else .ok (noContent expected)
    else .ok (match matching with
      | [r] => contentCheck r.path (h.hash r.path) (.str r.sha256)
      | _ => noContent expected)
  | _ => .ok (match matching with
      | [r] => contentCheck r.path (h.hash r.path) (.str r.sha256)
      | _ => noContent expected)

/-- The functions of a target that have evidence of their own. -/
def evidenceFunctions (target : Dict) : Except Exn (List Value) := do
  let functions ← item target "functions"
  let functions ← elements functions
  let witnesses ← elements (Value.get target "project_functions" (.list []))
  .ok (functions ++ witnesses)

/-- The rows of a list that are dictionaries and pass a test. -/
def rowsWhere (test : Dict → Bool) (rows : Value) : Except Exn (List Dict) := do
  let rows ← elements rows
  let rows ← rows.mapM fun row => entries row "get"
  .ok (rows.filter test)

/-- The evidence of a function. -/
def functionEvidence (goals properties : Value) (name : Value) :
    Except Exn (Value × FunctionEvidence) := do
  let ordinary ← rowsWhere (fun row => Value.eq (Value.get row "function") name &&
    !(Value.get row "smoke").truthy) goals
  let rows ← rowsWhere (fun row => Value.eq (Value.get row "function") name) properties
  raiseIf (name.hashable = false) ⟨.typeError, "unhashable"⟩
  .ok (name, ⟨ordinary.length, rows.length⟩)

/-- The preconditions of a function. -/
def preconditionsOf (properties : Value) (name : Value) : Except Exn (Value × List Dict) := do
  let rows ← rowsWhere (fun row => Value.eq (Value.get row "function") name &&
    Value.eq (Value.get row "kind") (.str "precondition")) properties
  raiseIf (name.hashable = false) ⟨.typeError, "unhashable"⟩
  .ok (name, rows.map (project ["path", "line", "property", "status"]))

/-- The issues of the model and of the retained evidence of an accepted item. -/
def acceptedIssues (retained : Dict) (modelLevel : Value) : Except Exn (List String) := do
  let status ← item retained "status"
  let policy ← getOf (Value.get retained "analysis_policy" (.dict [])) "status"
  .ok (issueUnless (Value.eq modelLevel (.str "L1") = true)
      "configured-model-input-evidence-unavailable-or-stale" ++
    issueUnless (Value.eq status (.str "passed") = true)
      "retained-evidence-unavailable-or-mismatched" ++
    issueUnless (Value.eq policy (.str "checked") = true)
      "current-analysis-policy-unavailable-or-legacy")

/-- The record of retained evidence that nobody asked for. -/
def notRequired : Dict :=
  [("status", .str "not-required-for-unsuccessful-observation"), ("artifacts", .list [])]

-- `_retained_target` of an item and its run, for the given root and inputs
variable (retainedTarget : Dict → Run → Except Exn Dict)

/-- The retained evidence of an item, and its issues. -/
def retainedIssues (accepted : Bool) (item : Dict) (run : Run) (model : Value) :
    Except Exn (Dict × List String) :=
  if accepted then do
    let check ← modelObservation h registered revision model (.str run.path) .none (.list [])
    let retained ← retainedTarget item run
    let issues ← acceptedIssues retained check.currentModelLevel
    .ok (retained, issues)
  else .ok (notRequired, [])

/-- The model that a run stores under the name of the profile of a target. -/
def storedModel (run : Run) (profile : Value) : Except Exn Value := do
  let models ← entries (Value.get run.data "profiles" (.dict [])) "get"
  match profile with
  | .str name => .ok (Value.get models name (.dict []))
  | profile => if profile.hashable then .ok (.dict []) else .error ⟨.typeError, "unhashable"⟩

/-- The issues of the identity of the model that a run stores for a target. -/
def isProfileIdentity (model : Dict) (profile : Value) (current : Dict) : Bool :=
  Value.eq (Value.get model "profile_id") profile &&
    Value.get model "profile_sha256" = .str (h.digest (.dict current)) &&
    Value.get model "kernel_revision" = .str revision

/-- `_target_observation(root, revision, target, item, run, registered, inputs, manifests)`. -/
def targetObservation (manifests : List PurePath) (target record : Dict) (run : Run) :
    Except Exn TargetObservation := do
  let profile ← item target "profile"
  let model ← storedModel run profile
  let reported ← verdict record
  let evaluation ← entries (Value.get record "evaluation" (.dict [])) "get"
  let proof := reported && Value.eq (Value.get target "role") (.str "proof") &&
    Value.get evaluation "verified" = .bool true
  let current ← lookIn registered profile
  let current ← orRaise current ⟨.keyError, "profile"⟩
  let m ← entries model "get"
  let provenance ← entries (Value.get record "provenance" (.dict [])) "get"
  let source ← entries (Value.get provenance "source" (.dict [])) "get"
  let sourceMatches ← isSourceIdentity revision target provenance source
  let shared := Value.get run.data "integrity_inputs" (.list [])
  let own := Value.get record "integrity_inputs" (.list [])
  let (records, stale, recordIssues) ← recordedInputs h shared own
  let fieldIssues ← unboundFields h target records
  let build ← getOf (Value.get m "build" (.dict [])) "source"
  let content ← sourceContent h target records build (Value.get source "sha256")
  let (retained, acceptedIssues) ←
    retainedIssues h registered revision retainedTarget reported record run model
  let binding :=
    issueUnless (Value.get run.data "revision" = .str revision) "revision-mismatch" ++
    issueUnless (Value.eq (Value.get record "target") (.dict target) = true)
      "target-definition-mismatch" ++
    issueUnless (isProfileIdentity h revision m profile current = true)
      "profile-identity-unavailable-or-mismatched" ++
    issueUnless (sourceMatches = true) "source-identity-unavailable-or-mismatched" ++
    recordIssues ++
    issueUnless (shared.truthy = true ∧ own.truthy = true) "input-integrity-evidence-unavailable" ++
    unboundManifests h manifests records ++ fieldIssues ++
    issueUnless (Value.get content "status" = .str "passed")
      "pinned-source-content-unavailable-or-mismatched" ++
    issueUnless (m ≠ [] ∧ Value.get m "status" = .str "passed" ∧ Value.get m "level" = .str "L1")
      "configured-L1-evidence-unavailable" ++
    acceptedIssues
  let freshness :=
    if run.undated then "unbound"
    else if stale ≠ [] then "stale" else if binding ≠ [] then "unbound" else "current"
  let accepted := reported && freshness = "current"
  let recorded ← getOf (Value.get record "target" (.dict [])) "functions" (.list [])
  let assumptions ← elements (Value.get record "assumptions" (.list []))
  let assumptions ← assumptions.mapM fun row => entries row "get"
  let names ← evidenceFunctions target
  let properties := Value.get record "properties" (.list [])
  let evidence ← names.mapM (functionEvidence (Value.get record "goals" (.list [])) properties)
  let preconditions ← names.mapM (preconditionsOf properties)
  .ok { summary := run.path, summarySha256 := run.sha256
        completedAt := Value.get run.data "completed_at"
        reportedStatus := Value.get record "status" (.str "not-produced")
        reportedAccepted := reported, reportedVerified := proof
        currentAccepted := accepted, currentVerified := proof && accepted
        freshness
        identityIssues := binding ++
          issueUnless (run.undated = false) "undated-failure-order-unknown"
        staleInputs := stale, retainedEvidence := retained
        targetSha256 := h.digest (Value.get record "target"), sourceIdentity := source
        profileFingerprint := Value.get m "fingerprint", sourceContentCheck := content
        recordedKernelFunctions := recorded
        issues := Value.get evaluation "issues" (.list []), error := Value.get record "error"
        assumptions := assumptions.map
          (project ["id", "kind", "review_status", "implementation_proved", "scope"])
        unresolvedDependencies := Value.get evaluation "unresolved_dependencies" (.list [])
        counts := Value.get evaluation "counts" (.dict [])
        functionEvidence := evidence, preconditions }

end Observation

end Coverage
end Fragma
