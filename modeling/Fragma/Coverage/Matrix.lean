import Fragma.Coverage.Target

/-!
# The coverage matrix

`fragma/coverage.py`, `generate_matrix`.  The matrix lists every registered profile with the models
that the supplied receipts have for it, every registered target with what the supplied runs say
about it, and every function of a target.  A model is listed under the name that the receipt stores
it by; a receipt of a single profile is listed under the name that it carries itself.

* `readSummary`, `readSummaries`: the summaries, each checked on its own.
* `ProfileRow`, `addModel`, `finishProfile`: the rows of the profiles.
* `TargetRow`, `targetRow`, `FunctionRow`, `functionRow`: the rows of the targets and functions.
* `Matrix`, `generateMatrix`: the function.
-/

namespace Fragma
namespace Coverage

open Python Posix Suite Replay

/-! ## Summaries -/

/-- `_date(value)`. -/
def dateOf (h : Host) (v : Value) : Except Exn ℤ :=
  match v with
  | .str s => h.instant s
  | _ => .error (coverageError "completed evidence requires an explicit timezone-aware date")

/-- `TERMINAL`. -/
def terminal : List Value :=
  ["passed", "incomplete", "preflight-failed", "error", "cancelled"].map .str

/-- The statuses of a run that need no moment of completion. -/
def undatedStatuses : List Value := ["preflight-failed", "error", "cancelled"].map .str

/-- The strings of a list. -/
def namesOf (v : Value) : Option (List String) :=
  match v with
  | .list names => names.mapM fun
    | .str name => some name
    | _ => none
  | _ => none

/-- The moment at which a run was completed, where it was. -/
def completion (h : Host) (checked : ℤ) (data : Dict) : Except Exn (Option ℤ) :=
  if Value.get data "completed_at" = .none then do
    raiseIf (Value.get data "status" ∉ undatedStatuses)
      (coverageError "completed summary has no completion date")
    .ok none
  else do
    let completed ← dateOf h (Value.get data "completed_at")
    raiseIf (checked < completed)
      (coverageError "supplied evidence completes after coverage check time")
    let started ← dateOf h (Value.get data "started_at")
    raiseIf (completed < started) (coverageError "summary completion precedes start")
    .ok (some completed)

/-- One turn of the loop over the items of a summary. -/
def mapItem (path : String) (selected : List String) (mapped : List (String × Dict))
    (record : Value) : Except Exn (List (String × Dict)) :=
  match record with
  | .dict record =>
    match Value.get record "target" with
    | .dict target =>
      match Value.get target "id" with
      | .str name => do
        raiseIf (name ∉ selected ∨ name ∈ mapped.map Prod.fst)
          (coverageError ("duplicate or unselected target result: " ++ path))
        let _ ← verdict record
        .ok (mapped ++ [(name, record)])
      | _ => .error (coverageError ("duplicate or unselected target result: " ++ path))
    | _ => .error (coverageError ("malformed target result: " ++ path))
  | _ => .error (coverageError ("malformed target result: " ++ path))

/-- Every selected target has an item, and every item is accepted. -/
def allAccepted (selected : List String) (items : List (String × Dict)) : Bool :=
  selected.all (fun name => name ∈ items.map Prod.fst) &&
    items.all fun p => Value.get p.2 "accepted" = .bool true

/-- The verdict of a summary agrees with its items. -/
def checkAcceptance (data : Dict) (selected : List String) (items : List (String × Dict)) :
    Except Exn Unit :=
  match Value.get data "accepted" with
  | .bool accepted => do
    raiseIf (accepted = true ∧ (Value.get data "status" ≠ .str "passed" ∨
      allAccepted selected items = false))
      (coverageError "summary acceptance disagrees with target inventory")
    raiseIf (Value.get data "status" = .str "passed" ∧ accepted = false)
      (coverageError "passing summary is not accepted")
    raiseIf (Value.get data "status" = .str "incomplete" ∧ allAccepted selected items = true)
      (coverageError "incomplete summary contains only accepted targets")
  | _ => .error (coverageError "summary acceptance must be Boolean")

/-- One turn of the loop over the supplied summaries. -/
def readSummary (h : Host) (checked : ℤ) (path : PurePath) : Except Exn Run := do
  let data ← h.json path
  let path := h.absolute path
  let status := Value.get data "status"
  raiseIf (status.hashable = false) ⟨.typeError, "unhashable"⟩
  raiseIf (status ∉ terminal) (coverageError ("supplied summary is not terminal: " ++ path.render))
  let time ← completion h checked data
  let selected ← orRaise (namesOf (Value.get data "selected_targets"))
    (coverageError ("malformed selected-target inventory: " ++ path.render))
  raiseIf (selected = [] ∨ ¬ selected.Nodup)
    (coverageError ("malformed selected-target inventory: " ++ path.render))
  match Value.get data "targets" with
  | .list items => do
    let mapped ← items.foldlM (mapItem path.render selected) []
    checkAcceptance data selected mapped
    .ok ⟨path.render, h.observe path, data, mapped, time⟩
  | _ => .error (coverageError ("malformed selected-target inventory: " ++ path.render))

/-- The loop over the supplied summaries, behind the runs that were read. -/
def readFrom (h : Host) (checked : ℤ) (runs : List Run) : List PurePath → Except Exn (List Run)
  | [] => .ok runs
  | path :: paths => do
    raiseIf ((h.absolute path).render ∈ runs.map Run.path)
      (coverageError ("duplicate supplied summary: " ++ (h.absolute path).render))
    let run ← readSummary h checked path
    readFrom h checked (runs ++ [run]) paths

/-- The supplied summaries, as runs. -/
def readSummaries (h : Host) (checked : ℤ) (paths : List PurePath) : Except Exn (List Run) :=
  readFrom h checked [] paths

/-- `run["data"]["selected_targets"]`. -/
def Run.selected (run : Run) : List String :=
  (namesOf (Value.get run.data "selected_targets")).getD []

/-! ## Rows of profiles -/

/-- A model under the name that a receipt stores it by. -/
structure Filing where
  name : Value
  model : Value
  origin : Value
  date : Value
  inputs : Value

/-- The models of a run, under their names. -/
def runFilings (run : Run) : Except Exn (List Filing) := do
  let models ← entries (Value.get run.data "profiles" (.dict [])) "items"
  .ok (models.map fun p => ⟨.str p.1, p.2, .str run.path, Value.get run.data "completed_at",
    Value.get run.data "integrity_inputs" (.list [])⟩)

/-- The model of a receipt of a single profile, under the name that it carries. -/
def receiptFiling (h : Host) (path : PurePath) : Except Exn Filing := do
  let model ← h.json path
  let path := h.absolute path
  .ok ⟨Value.get model "profile_id", .dict model,
    .dict [("path", .str path.render), ("sha256", hashValue (h.observe path))], .none, .list []⟩

/-- What a row says about the latest dated model. -/
inductive LatestModel where
  | observation (o : ModelObservation)
  | ambiguous (completedAt : Value)

/-- The level of the latest dated model. -/
def LatestModel.level : LatestModel → Value
  | .observation o => o.currentModelLevel
  | .ambiguous _ => .none

/-- A row of the matrix about a profile. -/
structure ProfileRow where
  id : Value
  architecture : Value
  registrationStatus : Value
  abi : Value
  profileSha256 : String
  scope : Value
  modelEvidence : List ModelObservation
  targets : List String
  latestDatedModel : Option LatestModel
  undatedModelObservations : List ModelObservation
  currentDatedModelLevel : Value
  undatedSelectedRuns : List String

/-- The row of a profile, without evidence. -/
def startProfile (h : Host) (p : Value × Dict) : Except Exn ProfileRow := do
  let architecture ← item p.2 "architecture"
  let abi ← item p.2 "abi"
  .ok { id := p.1, architecture, registrationStatus := Value.get p.2 "status", abi
        profileSha256 := h.digest (.dict p.2), scope := Value.get p.2 "model_scope"
        modelEvidence := [], targets := [], latestDatedModel := none
        undatedModelObservations := [], currentDatedModelLevel := .none
        undatedSelectedRuns := [] }

/-- The row is about the profile of this name. -/
def ProfileRow.IsNamed (row : ProfileRow) (name : Value) : Prop := Value.Same row.id name

instance (row : ProfileRow) (name : Value) : Decidable (row.IsNamed name) :=
  inferInstanceAs (Decidable (Value.Same _ _))

/-- The row with one more observation. -/
def ProfileRow.add (row : ProfileRow) (o : ModelObservation) : ProfileRow :=
  { row with modelEvidence := row.modelEvidence ++ [o] }

section Matrix

variable (h : Host) (registered : Table Dict) (revision : String)

/-- The observation of a model that is stored under a name. -/
def Filing.observe (f : Filing) : Except Exn ModelObservation :=
  modelObservation h registered revision f.model f.origin f.date f.inputs

/-- A model is observed for the row of its name, where there is one. -/
def addModel (rows : List ProfileRow) (f : Filing) : Except Exn (List ProfileRow) :=
  if rows.any fun row => row.IsNamed f.name then do
    let o ← f.observe h registered revision
    .ok (rows.map fun row => if row.IsNamed f.name then row.add o else row)
  else .ok rows

/-- The models of a run. -/
def addRun (rows : List ProfileRow) (run : Run) : Except Exn (List ProfileRow) := do
  let filings ← runFilings run
  filings.foldlM (addModel h registered revision) rows

/-- The model of a receipt of a single profile. -/
def addReceipt (rows : List ProfileRow) (path : PurePath) : Except Exn (List ProfileRow) := do
  let f ← receiptFiling h path
  raiseIf (f.name.hashable = false) ⟨.typeError, "unhashable"⟩
  raiseIf (rows.any (fun row => row.IsNamed f.name) = false)
    (coverageError "standalone profile is not currently registered")
  addModel h registered revision rows f

/-- The rows of the profiles with all models. -/
def profileEvidence (runs : List Run) (profilePaths : List PurePath) :
    Except Exn (List ProfileRow) := do
  let rows ← registered.mapM (startProfile h)
  let rows ← runs.foldlM (addRun h registered revision) rows
  profilePaths.foldlM (addReceipt h registered revision) rows

/-- The observations that have a date, in order. -/
def datedModels (evidence : List ModelObservation) : Except Exn (List (ℤ × ModelObservation)) := do
  let dated ← (evidence.filter fun o => o.completedAt.truthy).mapM fun o => do
    let time ← dateOf h o.completedAt
    .ok (time, o)
  .ok (dated.insertionSort fun a b => a.1 ≤ b.1)

/-- The latest of the observations in order, unless another one has the same date. -/
def latestModel (dated : List (ℤ × ModelObservation)) : Option LatestModel :=
  match dated.reverse with
  | [] => none
  | [last] => some (.observation last.2)
  | last :: before :: _ =>
    if last.1 = before.1 then some (.ambiguous last.2.completedAt) else some (.observation last.2)

/-- The runs without a date that select a target of a profile. -/
def undatedRuns (targets : List (String × Dict)) (runs : List Run) (name : Value) : List String :=
  (runs.filter fun run => run.undated && run.selected.any fun id =>
    Value.eq (Value.get ((targets.lookup id).getD []) "profile") name).map Run.path

/-- The row of a profile, after all models were added. -/
def finishProfile (targets : List (String × Dict)) (runs : List Run) (row : ProfileRow) :
    Except Exn ProfileRow := do
  let dated ← datedModels h row.modelEvidence
  let latest := latestModel dated
  let undated := undatedRuns targets runs row.id
  .ok { row with
        latestDatedModel := latest
        undatedModelObservations := row.modelEvidence.filter fun o => !o.completedAt.truthy
        currentDatedModelLevel :=
          if undated ≠ [] then .none else (latest.map LatestModel.level).getD .none
        undatedSelectedRuns := undated }

/-! ## Rows of targets -/

/-- A row of the matrix about a target. -/
structure TargetRow where
  id : String
  profile : Value
  architecture : Value
  source : String
  harness : Value
  role : Value
  analysis : Value
  targetSha256 : String
  claims : Value
  callerCoverageDeclared : Value
  state : Value
  latest : Option TargetObservation
  history : List TargetObservation

/-- The source of a target: a path within the tree of the kernel. -/
def sourceOf (target : Dict) : Except Exn String := do
  let source ← item target "source"
  match source with
  | .str source => do
    let P := PurePath.parse source
    raiseIf (P.IsAbsolute ∨ hasParent P ∨ P.tail = [])
      (coverageError "target source must be a confined relative kernel path")
    .ok source
  | _ => .error ⟨.typeError, "Path"⟩

/-- The order of the runs of a target: the runs without a date come last. -/
def runKey (checked : ℤ) (run : Run) : Bool ×ₗ ℤ ×ₗ String :=
  toLex (run.undated, toLex (run.time.getD checked, run.path))

/-- The item of a target in a run that selects it. -/
def itemIn (run : Run) (name : String) (target : Dict) : Dict :=
  (run.items.lookup name).getD [("target", .dict target), ("status", .str "not-produced"),
    ("accepted", .bool false),
    ("error", .str "selected target has no result in supplied terminal run")]

/-- The last two runs stand at the same moment. -/
def isAmbiguous (relevant : List Run) : Bool :=
  match relevant.reverse with
  | last :: before :: _ => last.time = before.time
  | _ => false

/-- The latest observation, where the last two runs stand at the same moment. -/
def TargetObservation.blur (o : TargetObservation) : TargetObservation :=
  { o with currentAccepted := false, currentVerified := false, freshness := "ambiguous"
           reportedStatus := .str "ambiguous-latest"
           identityIssues := o.identityIssues ++ ["equal-time-observations"] }

/-- The state of a target. -/
def stateOf (ambiguous : Bool) (latest : Option TargetObservation) : Value :=
  if ambiguous then .str "ambiguous-latest"
  else
    match latest with
    | none => .str "not-run"
    | some o =>
      if o.currentAccepted then .str "accepted-current"
      else if o.reportedAccepted then .str ("accepted-" ++ o.freshness) else o.reportedStatus

/-- A row of the matrix about a function of a target. -/
structure FunctionRow where
  target : String
  profile : Value
  architecture : Value
  source : String
  function : Value
  kind : String
  dimensions : List (String × String)
  claims : Value
  callerCoverageDeclared : Value
  preconditions : List Dict
  currentVerified : Bool
  latestReportedVerified : Bool
  completedAt : Value
  evidence : Option FunctionEvidence

/-- `DIMENSIONS`. -/
def dimensions : List String :=
  ["runtime-safety", "functional", "termination", "caller-preconditions"]

/-- What a target is for, as its functions see it. -/
def kindOf (row : TargetRow) (project : List Value) (function : Value) : String :=
  if ¬ Value.eq row.role (.str "proof") then "calibration"
  else if Value.member project function then "project-witness" else "kernel"

/-- The latest observation verified the function in the registered source. -/
def reportsFunction (ambiguous : Bool) (row : TargetRow) (function : Value) : Except Exn Bool :=
  match row.latest with
  | none => .ok false
  | some o =>
    if o.reportedVerified ∧ ¬ ambiguous then do
      let recorded ← isIn function o.recordedKernelFunctions
      .ok (recorded && Value.eq (Value.get o.sourceIdentity "path") (.str row.source))
    else .ok false

/-- The value of a dimension of a function. -/
def dimensionOf (ambiguous : Bool) (row : TargetRow) (kind : String) (function : Value)
    (dimension : String) : Except Exn (String × String) :=
  if kind = "calibration" then .ok (dimension, "not-applicable")
  else if dimension = "caller-preconditions" then .ok (dimension, "unverified")
  else do
    let claimed ← isIn (.str dimension) row.claims
    if ¬ claimed then .ok (dimension, "not-claimed")
    else
      match row.latest with
      | none => .ok (dimension, "not-run")
      | some o =>
        if o.currentVerified then .ok (dimension, "accepted-current")
        else do
          let reported ← reportsFunction ambiguous row function
          .ok (dimension, if reported then "accepted-historical-" ++ o.freshness else "unresolved")

/-- A function of the kernel that the latest observation verified. -/
def kernelReported (ambiguous : Bool) (row : TargetRow) (kind : String) (function : Value) :
    Except Exn Bool :=
  if kind = "kernel" then reportsFunction ambiguous row function else .ok false

/-- The row of a function. -/
def functionRow (ambiguous : Bool) (row : TargetRow) (project : List Value) (function : Value) :
    Except Exn FunctionRow := do
  let kind := kindOf row project function
  let values ← dimensions.mapM (dimensionOf ambiguous row kind function)
  let reported ← kernelReported ambiguous row kind function
  .ok { target := row.id, profile := row.profile, architecture := row.architecture
        source := row.source, function, kind, dimensions := values, claims := row.claims
        callerCoverageDeclared := row.callerCoverageDeclared
        preconditions := (row.latest.bind fun o => Table.get? o.preconditions function).getD []
        currentVerified := kind = "kernel" && row.latest.any TargetObservation.currentVerified
        latestReportedVerified := reported
        completedAt := (row.latest.map TargetObservation.completedAt).getD .none
        evidence := row.latest.bind fun o => Table.get? o.functionEvidence function }

-- `_retained_target` of an item and its run, for the given root and inputs
variable (retainedTarget : Dict → Run → Except Exn Dict)

/-- The row of a target with the rows of its functions. -/
def targetRow (checked : ℤ) (manifests : List PurePath) (runs : List Run) (name : String)
    (target : Dict) : Except Exn (TargetRow × List FunctionRow) := do
  let source ← sourceOf target
  let relevant := (runs.filter fun run => name ∈ run.selected).insertionSort fun a b =>
    runKey checked a ≤ runKey checked b
  let history ← relevant.mapM fun run =>
    targetObservation h registered revision retainedTarget manifests target
      (itemIn run name target) run
  let ambiguous := isAmbiguous relevant
  let latest := if ambiguous then history.getLast?.map TargetObservation.blur else history.getLast?
  let profile ← item target "profile"
  let current ← lookIn registered profile
  let current ← orRaise current ⟨.keyError, "profile"⟩
  let architecture ← item current "architecture"
  let harness ← item target "harness"
  let role ← item target "role"
  let analysis ← item target "analysis"
  let row : TargetRow :=
    { id := name, profile, architecture, source, harness, role, analysis
      targetSha256 := h.digest (.dict target), claims := Value.get target "claims" (.list [])
      callerCoverageDeclared := Value.get target "caller_coverage" (.str "unverified")
      state := stateOf ambiguous latest, latest, history }
  let project ← setOf (Value.get target "project_functions" (.list []))
  let functions ← evidenceFunctions target
  raiseIf (¬ functions.all Value.hashable) ⟨.typeError, "unhashable"⟩
  let functionRows ← (Value.distinct functions).mapM (functionRow ambiguous row project)
  .ok (row, functionRows)

/-! ## Architectures and counts -/

/-- A row of the matrix about an architecture. -/
structure ArchitectureRow where
  architecture : Dict
  registeredProfiles : List Value
  state : String

/-- A finite number, as a rational one. -/
def numberOf : Value → Option ℚ
  | .bool b => some (if b then 1 else 0)
  | .int n => some n
  | .float (.finite q) => some q
  | _ => none

/-- The text of a string. -/
def textOf : Value → Option String
  | .str s => some s
  | _ => none

/-- `sorted(names)`: strings among each other, or numbers among each other. -/
def sortNames (names : List Value) : Except Exn (List Value) :=
  if names.length ≤ 1 then .ok names
  else if names.all fun v => (textOf v).isSome then
    .ok (names.insertionSort fun a b => (textOf a).getD "" ≤ (textOf b).getD "")
  else if names.all fun v => (numberOf v).isSome then
    .ok (names.insertionSort fun a b => (numberOf a).getD 0 ≤ (numberOf b).getD 0)
  else .error ⟨.typeError, "'<' not supported"⟩

/-- The row of an architecture of the roster. -/
def architectureRowOf (rows : List ProfileRow) (arch : Value) : Except Exn ArchitectureRow := do
  let id ← subscriptOf arch "id"
  let d ← entries arch "keys"
  let matching := (rows.filter fun row => Value.eq row.architecture id).map ProfileRow.id
  let profiles ← sortNames matching
  .ok ⟨d, profiles, if matching = [] then "planned" else "registered"⟩

/-- The source and the function of a row. -/
def FunctionRow.key (row : FunctionRow) : Value := .list [.str row.source, row.function]

/-- The counts of the matrix. -/
structure Counts where
  architectures : ℕ
  registeredProfiles : ℕ
  registeredTargets : ℕ
  targetStates : Table ℕ
  uniqueKernelFunctions : ℕ
  uniqueWithCurrentAcceptedVariant : ℕ
  uniqueWithLatestReportedAcceptedVariant : ℕ
  latestReportedAcceptedTargets : ℕ
  uniqueWithoutCurrentAcceptedVariant : ℕ
  calibrationRowsExcluded : ℕ
  projectWitnessRowsExcluded : ℕ

/-- `dict(Counter(states))`. -/
def countStates (states : List Value) : Except Exn (Table ℕ) := do
  raiseIf (¬ states.all Value.hashable) ⟨.typeError, "unhashable"⟩
  .ok ((Value.distinct states).map fun state =>
    (state, (states.filter fun s => decide (Value.Same s state)).length))

/-- The counts of the rows. -/
def countsOf (architectures : ℕ) (profiles : ℕ) (targets : List TargetRow)
    (functions : List FunctionRow) : Except Exn Counts := do
  let kernel := functions.filter fun row => row.kind = "kernel"
  let inventory := Value.distinct (kernel.map FunctionRow.key)
  let accepted := Value.distinct ((kernel.filter FunctionRow.currentVerified).map FunctionRow.key)
  let historical :=
    Value.distinct ((kernel.filter FunctionRow.latestReportedVerified).map FunctionRow.key)
  let states ← countStates (targets.map TargetRow.state)
  .ok { architectures, registeredProfiles := profiles, registeredTargets := targets.length
        targetStates := states, uniqueKernelFunctions := inventory.length
        uniqueWithCurrentAcceptedVariant := accepted.length
        uniqueWithLatestReportedAcceptedVariant := historical.length
        latestReportedAcceptedTargets := (targets.filter fun row =>
          row.latest.any TargetObservation.reportedAccepted &&
            !Value.eq row.state (.str "ambiguous-latest")).length
        uniqueWithoutCurrentAcceptedVariant :=
          (inventory.filter fun key => !Value.member accepted key).length
        calibrationRowsExcluded := (functions.filter fun row => row.kind = "calibration").length
        projectWitnessRowsExcluded :=
          (functions.filter fun row => row.kind = "project-witness").length }

/-! ## The matrix -/

/-- A row of the matrix about a supplied run. -/
structure RunRow where
  path : String
  sha256 : Option String
  status : Value
  startedAt : Value
  completedAt : Value
  unregisteredTargets : List String

/-- The row of a run. -/
def runRow (targets : List (String × Dict)) (run : Run) : RunRow :=
  { path := run.path, sha256 := run.sha256, status := Value.get run.data "status"
    startedAt := Value.get run.data "started_at"
    completedAt := Value.get run.data "completed_at"
    unregisteredTargets :=
      (run.selected.filter fun name => name ∉ targets.map Prod.fst).insertionSort (· ≤ ·) }

/-- The matrix. -/
structure Matrix where
  checkedAt : ℤ
  revision : String
  manifests : List (String × Option String)
  suppliedRuns : List RunRow
  architectures : List ArchitectureRow
  profiles : List ProfileRow
  targets : List TargetRow
  functions : List FunctionRow
  counts : Counts

/-- The targets of a profile, in the order of the matrix. -/
def ProfileRow.withTargets (targets : List TargetRow) (row : ProfileRow) : ProfileRow :=
  { row with targets := (targets.filter fun t => row.IsNamed t.profile).map TargetRow.id }

/-- The manifests that are read before anything else. -/
def manifestPaths : List PurePath :=
  (h.configs.dedup.insertionSort (· ≤ ·)).map (fun name => h.under ("config/" ++ name)) ++
    [h.under "toolchain/assumptions.json", h.under "toolchain/lock.json"]

end Matrix

/-- The moment at which the coverage is checked. -/
def checkTime (h : Host) (checkedAt : Option String) : Except Exn ℤ :=
  match checkedAt with
  | some text => if text = "" then .ok h.now else dateOf h (.str text)
  | none => .ok h.now

/-- A manifest is strict JSON of schema version 1. -/
def checkManifest (h : Host) (path : PurePath) : Except Exn Unit := do
  let _ ← h.json path
  .ok ()

/-- `generate_matrix(root, summary_paths, profile_paths=…, checked_at=…)`. -/
def generateMatrix (h : Host) (routes : Routes) (retainedTarget : Dict → Run → Except Exn Dict)
    (summaryPaths profilePaths : List PurePath) (checkedAt : Option String) :
    Except Exn Matrix := do
  let checked ← checkTime h checkedAt
  let manifests := manifestPaths h
  manifests.forM (checkManifest h)
  let (revision, targets, _) ← loadRegistry h routes
  let registered ← loadProfiles h routes
  let roster ← h.json (h.under "config/architectures.json")
  raiseIf (Value.get roster "kernel_revision" ≠ .str revision)
    (coverageError "architecture roster and target revisions disagree")
  let runs ← readSummaries h checked summaryPaths
  let rows ← profileEvidence h registered revision runs profilePaths
  let rows ← rows.mapM (finishProfile h targets runs)
  let pairs ← (targets.insertionSort fun a b => a.1 ≤ b.1).mapM fun p =>
    targetRow h registered revision retainedTarget checked manifests runs p.1 p.2
  let targetRows := pairs.map Prod.fst
  let functionRows := (pairs.map Prod.snd).flatten
  let architectures ← item roster "architectures"
  let architectures ← elements architectures
  let architectureRows ← architectures.mapM (architectureRowOf rows)
  let counts ← countsOf architectureRows.length registered.length targetRows functionRows
  .ok { checkedAt := checked, revision
        manifests := manifests.map fun path =>
          ((path.relativeTo h.root).render, h.observe path)
        suppliedRuns := runs.map (runRow targets), architectures := architectureRows
        profiles := rows.map (ProfileRow.withTargets targetRows)
        targets := targetRows, functions := functionRows, counts }

end Coverage
end Fragma
