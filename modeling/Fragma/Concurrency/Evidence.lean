import Mathlib
import Fragma.Keyed.Sweep
import Fragma.Python.Loops
import Fragma.Python.Value

/-!
# The scope of concurrency evidence

`identity_drift`, `acceptance_decision`, `_dependency_paths` and `audit_c1` of
`fragma/concurrency_evidence.py`.  The audit compares the files of today with those that were recorded
when the analyzer ran.  A target of the registry loses its evidence when one of its own files changed,
and no target loses it for a file of another one.

* `Registries`: what `load_registries` accepts.
* `identityDrift`, `acceptanceDecision`, `auditC1`: the functions.
* `IsDependency`, `Stale`: the files of a target, and what counts as a change of one.
* `auditC1_scoped`: **the decisions depend on the files of the target and on no others.**
-/

namespace Fragma
namespace Concurrency

open Python Value

/-- `ConcurrencyEvidenceError(message)`. -/
def evidenceError (message : String) : Exn := ⟨.valueError, message⟩

/-! ## The registries -/

/-- A model of the registry: the files of each group, and the status of each dimension and of each
primitive. -/
structure ModelEntry where
  id : String
  providerVersion : String
  providerBinarySha256 : String
  fileGroups : List (String × List String)
  dimensions : List (String × String)
  primitiveModels : List (String × String)

/-- A target of the registry, as far as the audit decides by it. -/
structure TargetEntry where
  id : String
  modelId : String
  source : String
  evidenceKind : String
  kernelScope : Bool
  modelDependencyGroups : List String
  requiredDimensions : List String
  requiredPrimitives : List String

/-- What `load_registries` accepts: one model, targets with different identifiers, and no name of a
target that the model does not have. -/
structure Registries where
  model : ModelEntry
  targets : List TargetEntry
  manifest : Dict
  nodup : (targets.map TargetEntry.id).Nodup
  modelId : ∀ t ∈ targets, t.modelId = model.id
  groups : ∀ t ∈ targets, ∀ g ∈ t.modelDependencyGroups, (model.fileGroups.lookup g).isSome
  dimensions : ∀ t ∈ targets, ∀ d ∈ t.requiredDimensions, (model.dimensions.lookup d).isSome
  primitives : ∀ t ∈ targets, ∀ p ∈ t.requiredPrimitives, (model.primitiveModels.lookup p).isSome

/-! ## Files -/

/-- A file of today. -/
structure Identity where
  sha256 : String
  size : ℕ
  deriving DecidableEq

/-- The entry of a file in `current_identities`. -/
def Identity.value (i : Identity) : Value := .dict [("sha256", .str i.sha256), ("size", .int i.size)]

/-- A recorded entry and one of today that differ. -/
def isDrift (before after : Value) : Bool :=
  match before, after with
  | .dict before, .dict after =>
    !eq (get before "sha256") (get after "sha256") || !eq (get before "size") (get after "size")
  | _, _ => true

/-- `identity_drift(expected, current, paths)`. -/
def identityDrift (expected current : Dict) (paths : List String) : List String :=
  paths.filter fun path => isDrift (get expected path) (get current path)

/-- `sorted(set(names))`. -/
def sortedNames (names : List String) : List String :=
  names.dedup.insertionSort fun a b => a ≤ b

/-- `_dependency_paths(target, model)`. -/
def dependencyPaths (target : TargetEntry) (model : ModelEntry) : List String :=
  sortedNames (target.source ::
    target.modelDependencyGroups.flatMap fun g => (model.fileGroups.lookup g).getD [])

/-! ## The decision -/

/-- An entry of `blocking_support`. -/
structure Blocker where
  kind : String
  name : String
  status : String
  deriving DecidableEq

/-- The names that are not supported. -/
def blockersOf (kind : String) (statuses : List (String × String)) (names : List String) :
    List Blocker :=
  (names.map fun name => ⟨kind, name, (statuses.lookup name).getD ""⟩).filter fun b =>
    b.status ≠ "supported"

/-- What a target is accepted for. -/
structure Decision where
  evidenceAccepted : Bool
  calibrationAccepted : Bool
  verificationAccepted : Bool
  blockingSupport : List Blocker
  deriving DecidableEq

/-- `acceptance_decision(target, model, evidence_ok)`. -/
def acceptanceDecision (target : TargetEntry) (model : ModelEntry) (evidenceOk : Bool) : Decision :=
  let blockers := blockersOf "dimension" model.dimensions target.requiredDimensions ++
    blockersOf "primitive" model.primitiveModels target.requiredPrimitives
  { evidenceAccepted := evidenceOk
    calibrationAccepted := evidenceOk && target.evidenceKind = "calibration"
    verificationAccepted := evidenceOk && target.evidenceKind = "verification" && blockers = []
    blockingSupport := blockers }

/-! ## The evidence -/

/-- The artifacts of a case, as they were kept. -/
structure Artifacts where
  retainedCase : Dict
  command : Dict
  /-- the parsed report, or `None` -/
  report : Value
  reportPath : String
  stdout : String
  stderr : String

/-- What the C0 run left: its manifest, the identities of its inputs, its summary, and the artifacts
of each case, where they can be read. -/
structure Evidence where
  c0Output : String
  retainedManifest : Value
  identities : Dict
  summary : Dict
  artifacts : String → Except Exn Artifacts
  /-- the path and the hash of the provider -/
  providerBinary : String
  providerDigest : String

/-- A check of the audit. -/
structure Check where
  name : String
  expected : Value
  actual : Value

/-- `check["passed"]`. -/
def Check.passed (c : Check) : Bool := eq c.expected c.actual

/-- `v is True`. -/
def isTrue (v : Value) : Bool := v = .bool true

/-- `d[key]`. -/
def entry (d : Dict) (key : String) : Except Exn Value := orRaise (d.lookup key) ⟨.keyError, key⟩

/-- `*d[key]`, as elements of a list. -/
def unpacked (d : Dict) (key : String) : Except Exn (List Value) := do
  let v ← entry d key
  orRaise v.iterate ⟨.typeError, key⟩

/-- The cases of a summary. -/
def summaryCases (summary : Dict) : Except Exn (List (String × Dict)) :=
  match get summary "cases" with
  | .list cases => cases.mapM fun case =>
    match case with
    | .dict d =>
      match get d "id" with
      | .str id => .ok (id, d)
      | _ => .error (evidenceError "C0 summary contains a malformed case")
    | _ => .error (evidenceError "C0 summary contains a malformed case")
  | _ => .error (evidenceError "C0 summary lacks cases")

/-- `{case["id"]: case for case in cases}`: a later case replaces an earlier one. -/
def caseMap (cases : List (String × Dict)) : List (String × Dict) :=
  cases.foldl (fun m c => if (m.lookup c.1).isSome
    then m.map fun p => if p.1 = c.1 then c else p else m ++ [c]) []

/-- `c0_summary.get("provider", {}).get(key)`. -/
def recordedProvider (summary : Dict) (key : String) : Except Exn Value :=
  match get summary "provider" (.dict []) with
  | .dict d => .ok (get d key)
  | _ => .error ⟨.attributeError, "get"⟩

/-- The inventory checks of a summary all passed. -/
def inventoryAccepted (summary : Dict) : Bool :=
  match get summary "inventory_checks" with
  | .list items => items ≠ [] && items.all fun item =>
    match item with
    | .dict d => isTrue (get d "passed")
    | _ => false
  | _ => false

/-- `_regular` and the identity of each recorded input. -/
def currentIdentities (file : String → Option Identity) (identities : Dict) : Except Exn Dict :=
  identities.mapM fun p => do
    let i ← orRaise (file p.1) (evidenceError ("C0 identity input is missing or not regular: " ++ p.1))
    .ok (p.1, i.value)

/-- The paths that every target depends on, where they were recorded. -/
def semanticGlobals (identities : Dict) : List String :=
  ["config/concurrency-c0.json", "toolchain/lock.json", "fragma/__main__.py",
    "fragma/concurrency.py"].filter fun path => has identities path

section Audit

-- `parse_diagnostics`, and `evaluate_case` with its checks, of `fragma/concurrency.py`
variable (parseDiagnostics : String → Dict)
variable (evaluateCase : Dict → Value → Value → Value → Dict → String → Except Exn (List Dict))

/-- What is kept of a target in the result. -/
structure TargetResult where
  id : String
  kernelScope : Bool
  dependencyPaths : List String
  staleDependencies : List String
  decision : Decision

/-- One turn of the loop over the targets. -/
def auditTarget (R : Registries) (E : Evidence) (cases : List (String × Dict)) (current : Dict)
    (base : Bool) (target : TargetEntry) : Except Exn (TargetResult × List Check) := do
  let case ← orRaise (cases.lookup target.id) (evidenceError ("missing C0 case: " ++ target.id))
  let a ← E.artifacts target.id
  let manifestCases ← unpacked R.manifest "cases"
  let c0Case ← orRaise ((manifestCases.filterMap fun v =>
      match v with
      | .dict d => some d
      | _ => none).find? fun d => decide (get d "id" = .str target.id)) ⟨.runtimeError, "StopIteration"⟩
  let combined := a.stdout ++ "\n" ++ a.stderr
  let diagnostics := parseDiagnostics combined
  let recomputed ← evaluateCase c0Case (get a.command "returncode") (get a.command "timed_out")
    a.report diagnostics combined
  let caseConsistent := eq (.dict case) (.dict a.retainedCase)
  let reportConsistent := eq (get a.retainedCase "report") a.report
  let diagnosticsConsistent := eq (get a.retainedCase "diagnostics") (.dict diagnostics)
  let checksConsistent := eq (get a.retainedCase "checks") (.list (recomputed.map Value.dict))
  let terminalPass := isTrue (get a.retainedCase "passed")
  let common ← unpacked R.manifest "common_options"
  let library ← entry c0Case "thread_library"
  let options ← unpacked c0Case "options"
  let source ← entry c0Case "source"
  let expectedArgv := [.str E.providerBinary] ++ common ++ [.str "-mt-threads-lib", library] ++
    options ++ [source, .str "-then", .str "-report", .str "-report-csv", .str a.reportPath]
  let argvCurrent := eq (get a.command "argv") (.list expectedArgv)
  let cwdCurrent := eq (get a.command "cwd") (.str ".")
  let environmentCurrent := eq (get a.command "environment")
    (.dict [("LC_ALL", .str "C"), ("LANG", .str "C"), ("TZ", .str "UTC")])
  let dependencies :=
    sortedNames (dependencyPaths target R.model ++ semanticGlobals E.identities)
  let drift := identityDrift E.identities current dependencies
  let evidenceOk := base && caseConsistent && reportConsistent && diagnosticsConsistent &&
    checksConsistent && terminalPass && argvCurrent && cwdCurrent && environmentCurrent &&
    drift = [] && recomputed.all fun item => isTrue (get item "passed")
  .ok (⟨target.id, target.kernelScope, dependencies, drift,
      acceptanceDecision target R.model evidenceOk⟩,
    [⟨target.id ++ " retained case", .bool true, .bool caseConsistent⟩,
      ⟨target.id ++ " parsed report", .bool true, .bool reportConsistent⟩,
      ⟨target.id ++ " parsed diagnostics", .bool true, .bool diagnosticsConsistent⟩,
      ⟨target.id ++ " recomputed checks", .bool true, .bool checksConsistent⟩,
      ⟨target.id ++ " terminal pass", .bool true, get a.retainedCase "passed"⟩,
      ⟨target.id ++ " command argv", .bool true, .bool argvCurrent⟩,
      ⟨target.id ++ " command cwd", .bool true, .bool cwdCurrent⟩,
      ⟨target.id ++ " command environment", .bool true, .bool environmentCurrent⟩])

/-- The result of the audit, as far as it is decided. -/
structure Audit where
  accepted : Bool
  targets : List TargetResult
  checks : List Check
  staleInputs : List String
  kernelVerificationCount : ℕ

/-- `sorted` of identifiers, as a value. -/
def sortedIds (ids : List String) : Value :=
  .list ((ids.insertionSort fun a b => a ≤ b).map Value.str)

/-- `audit_c1`, for the registries that were loaded, the evidence that was kept, and the files of
today. -/
def auditC1 (R : Registries) (E : Evidence) (file : String → Option Identity) : Except Exn Audit := do
  let manifestCurrent := eq (.dict R.manifest) E.retainedManifest
  let summaryAccepted := isTrue (get E.summary "accepted")
  let outputCurrent := eq (get E.summary "output") (.str E.c0Output)
  let cases ← summaryCases E.summary
  let byId := caseMap cases
  let unique := byId.length = cases.length
  let sameCases := eq (sortedIds (R.targets.map TargetEntry.id)) (sortedIds (byId.map Prod.fst))
  let current ← currentIdentities file E.identities
  let globalDrift := identityDrift E.identities current (sortedNames (E.identities.map Prod.fst))
  let recordedVersion ← recordedProvider E.summary "version"
  let recordedDigest ← recordedProvider E.summary "binary_sha256"
  let providerCurrent := eq recordedVersion (.str R.model.providerVersion) &&
    eq recordedDigest (.str R.model.providerBinarySha256) &&
    decide (E.providerDigest = R.model.providerBinarySha256)
  let base := manifestCurrent && summaryAccepted && outputCurrent && inventoryAccepted E.summary &&
    decide unique && providerCurrent && sameCases
  let results ← R.targets.mapM (auditTarget parseDiagnostics evaluateCase R E byId current base)
  let checks := [⟨"C0 manifest is current", .bool true, .bool manifestCurrent⟩,
      ⟨"C0 summary accepted", .bool true, .bool summaryAccepted⟩,
      ⟨"C0 output identity", .str E.c0Output, get E.summary "output"⟩,
      ⟨"C0 inventory checks", .bool true, .bool (inventoryAccepted E.summary)⟩,
      ⟨"C0 case inventory", sortedIds (R.targets.map TargetEntry.id), sortedIds (byId.map Prod.fst)⟩,
      ⟨"C0 case identities unique", .bool true, .bool unique⟩,
      ⟨"C0 input freshness", .list [], .list (globalDrift.map Value.str)⟩,
      ⟨"C0 provider version", .str R.model.providerVersion, recordedVersion⟩,
      ⟨"C0 provider recorded digest", .str R.model.providerBinarySha256, recordedDigest⟩,
      ⟨"C0 provider current digest", .str R.model.providerBinarySha256, .str E.providerDigest⟩] ++
    results.flatMap Prod.snd
  .ok
    { accepted := checks.all Check.passed && results.all fun r => r.1.decision.evidenceAccepted
      targets := results.map Prod.fst
      checks := checks
      staleInputs := globalDrift
      kernelVerificationCount := results.countP fun r =>
        r.1.kernelScope && r.1.decision.verificationAccepted }

end Audit

/-! ## The files of a target -/

/-- The file is one that the target depends on: its source, a file of one of its groups, or one of the
paths that all targets share, where it was recorded. -/
def IsDependency (R : Registries) (E : Evidence) (target : TargetEntry) (path : String) : Prop :=
  path = target.source ∨
    (∃ g ∈ target.modelDependencyGroups, ∃ files, R.model.fileGroups.lookup g = some files ∧
      path ∈ files) ∨
    path ∈ semanticGlobals E.identities

/-- The file is as it was recorded. -/
def Fresh (E : Evidence) (file : String → Option Identity) (path : String) : Prop :=
  ∃ before i, get E.identities path = .dict before ∧ file path = some i ∧
    eq (get before "sha256") (.str i.sha256) = true ∧ eq (get before "size") (.int i.size) = true

/-- The hash or the size that was recorded is missing, or is not the one of today. -/
def Stale (E : Evidence) (file : String → Option Identity) (path : String) : Prop :=
  ¬ Fresh E file path

/-- The files of a target, as the audit lists them. -/
def dependenciesOf (R : Registries) (E : Evidence) (target : TargetEntry) : List String :=
  sortedNames (dependencyPaths target R.model ++ semanticGlobals E.identities)

theorem mem_sortedNames {names : List String} {name : String} :
    name ∈ sortedNames names ↔ name ∈ names := by
  rw [sortedNames, List.mem_insertionSort, List.mem_dedup]

theorem mem_dependenciesOf {R : Registries} {E : Evidence} {target : TargetEntry} {path : String} :
    path ∈ dependenciesOf R E target ↔ IsDependency R E target path := by
  have hgroups : (∃ g ∈ target.modelDependencyGroups,
      path ∈ (R.model.fileGroups.lookup g).getD []) ↔
      ∃ g ∈ target.modelDependencyGroups, ∃ files, R.model.fileGroups.lookup g = some files ∧
        path ∈ files := by
    refine exists_congr fun g => and_congr_right' ?_
    cases R.model.fileGroups.lookup g with
    | none => simp
    | some files => simp
  rw [dependenciesOf, mem_sortedNames, List.mem_append, dependencyPaths, mem_sortedNames, List.mem_cons,
    List.mem_flatMap, hgroups, or_assoc, IsDependency]

theorem get_currentIdentities {file : String → Option Identity} {identities current : Dict}
    (h : currentIdentities file identities = .ok current) (path : String) :
    get current path = if has identities path then ((file path).map Identity.value).getD .none
      else .none := by
  rw [currentIdentities, mapM_eq_ok_iff] at h
  induction h with
  | nil => rfl
  | @cons p q identities current hp _ ih =>
    obtain ⟨i, hi, hq⟩ := bind_eq_ok_iff.mp hp
    rw [orRaise_eq_ok_iff] at hi
    obtain rfl := Except.ok.inj hq
    by_cases hpath : path = p.1
    · subst hpath
      simp [Value.get, has, List.lookup, hi]
    · have hne : (path == p.1) = false := by simpa using hpath
      have hget : Value.get ((p.1, i.value) :: current) path = Value.get current path := by
        simp [Value.get, List.lookup, hne]
      have hhas : has (p :: identities) path = has identities path := by
        simp [has, List.lookup, hne]
      rw [hget, hhas, ih]

/-- A file of a target drifts exactly when it is stale. -/
theorem identityDrift_eq_nil_iff {E : Evidence} {file : String → Option Identity} {current : Dict}
    (h : currentIdentities file E.identities = .ok current) {paths : List String} :
    identityDrift E.identities current paths = [] ↔ ∀ path ∈ paths, Fresh E file path := by
  rw [identityDrift, List.filter_eq_nil_iff]
  refine forall₂_congr fun path _ => ?_
  rw [get_currentIdentities h, Bool.not_eq_true]
  by_cases hhas : has E.identities path = true
  · rw [if_pos hhas, Fresh]
    cases hbefore : get E.identities path with
    | dict before =>
      cases hfile : file path with
      | none => simp [isDrift]
      | some i => simp [isDrift, Identity.value, Value.get, List.lookup]
    | _ => simp [isDrift]
  · have hnone : get E.identities path = .none := by
      simp only [has, Option.isSome_iff_exists, not_exists] at hhas
      rw [Value.get, Option.eq_none_iff_forall_not_mem.mpr hhas]
      rfl
    simp [hhas, hnone, isDrift, Fresh]

/-! ## What the decision of a target depends on -/

section Scope

variable {parseDiagnostics : String → Dict}
variable {evaluateCase : Dict → Value → Value → Value → Dict → String → Except Exn (List Dict)}
variable {R : Registries} {E : Evidence}

/-- The result of a target, where `settled` is what the kept evidence says. -/
def resultOf (R : Registries) (E : Evidence) (current : Dict) (target : TargetEntry)
    (settled : Bool) : TargetResult :=
  let drift := identityDrift E.identities current (dependenciesOf R E target)
  ⟨target.id, target.kernelScope, dependenciesOf R E target, drift,
    acceptanceDecision target R.model (settled && drift = [])⟩

/-- The files of today reach the result of a target through its drift only. -/
theorem auditTarget_current {cases : List (String × Dict)} {current : Dict} {base : Bool}
    {target : TargetEntry} {out : TargetResult × List Check}
    (h : auditTarget parseDiagnostics evaluateCase R E cases current base target = .ok out) :
    ∃ settled, ∀ current', auditTarget parseDiagnostics evaluateCase R E cases current' base target =
      .ok (resultOf R E current' target settled, out.2) := by
  obtain ⟨case, hcase, h⟩ := bind_eq_ok_iff.mp h
  obtain ⟨a, ha, h⟩ := bind_eq_ok_iff.mp h
  obtain ⟨manifestCases, hmanifest, h⟩ := bind_eq_ok_iff.mp h
  obtain ⟨c0Case, hc0, h⟩ := bind_eq_ok_iff.mp h
  obtain ⟨recomputed, hrecomputed, h⟩ := bind_eq_ok_iff.mp h
  obtain ⟨common, hcommon, h⟩ := bind_eq_ok_iff.mp h
  obtain ⟨library, hlibrary, h⟩ := bind_eq_ok_iff.mp h
  obtain ⟨options, hoptions, h⟩ := bind_eq_ok_iff.mp h
  obtain ⟨source, hsource, hlast⟩ := bind_eq_ok_iff.mp h
  have hout := Except.ok.inj hlast
  apply Exists.intro
  intro current'
  refine bind_eq_ok_iff.mpr ⟨case, hcase, bind_eq_ok_iff.mpr ⟨a, ha, bind_eq_ok_iff.mpr
    ⟨manifestCases, hmanifest, bind_eq_ok_iff.mpr ⟨c0Case, hc0, bind_eq_ok_iff.mpr
    ⟨recomputed, hrecomputed, bind_eq_ok_iff.mpr ⟨common, hcommon, bind_eq_ok_iff.mpr
    ⟨library, hlibrary, bind_eq_ok_iff.mpr ⟨options, hoptions, bind_eq_ok_iff.mpr
    ⟨source, hsource, ?_⟩⟩⟩⟩⟩⟩⟩⟩⟩
  rw [← hout]
  refine congrArg Except.ok (Prod.ext ?_ rfl)
  exact congrArg (fun ok => (⟨target.id, target.kernelScope, dependenciesOf R E target,
    identityDrift E.identities current' (dependenciesOf R E target),
    acceptanceDecision target R.model ok⟩ : TargetResult)) (Bool.and_right_comm _ _ _)

theorem exists_currentIdentities {file : String → Option Identity} {identities : Dict} :
    (∃ current, currentIdentities file identities = .ok current) ↔
      ∀ path ∈ identities.map Prod.fst, (file path).isSome := by
  constructor
  · rintro ⟨current, h⟩ path hpath
    obtain ⟨p, hp, rfl⟩ := List.mem_map.mp hpath
    obtain ⟨q, -, hq⟩ := forall_of_mapM_eq_ok h p hp
    obtain ⟨i, hi, -⟩ := bind_eq_ok_iff.mp hq
    rw [orRaise_eq_ok_iff] at hi
    rw [hi]
    rfl
  · intro h
    refine exists_ok_mapM fun p hp => ?_
    obtain ⟨i, hi⟩ := Option.isSome_iff_exists.mp (h p.1 (List.mem_map_of_mem hp))
    exact ⟨(p.1, i.value), bind_eq_ok_iff.mpr ⟨i, orRaise_eq_ok_iff.mpr hi, rfl⟩⟩

theorem mapM_auditTarget_current {cases : List (String × Dict)} {current : Dict} {base : Bool}
    {results : List (TargetResult × List Check)}
    (h : R.targets.mapM (auditTarget parseDiagnostics evaluateCase R E cases current base) =
      .ok results) :
    ∃ (settled : TargetEntry → Bool) (checks : TargetEntry → List Check), ∀ current',
      R.targets.mapM (auditTarget parseDiagnostics evaluateCase R E cases current' base) =
        .ok (R.targets.map fun t => (resultOf R E current' t (settled t), checks t)) := by
  have hsettled : ∀ t ∈ R.targets, ∃ settled, ∃ checks, ∀ current',
      auditTarget parseDiagnostics evaluateCase R E cases current' base t =
        .ok (resultOf R E current' t settled, checks) := by
    intro t ht
    obtain ⟨out, -, hout⟩ := forall_of_mapM_eq_ok h t ht
    obtain ⟨settled, hsame⟩ := auditTarget_current hout
    exact ⟨settled, out.2, hsame⟩
  choose! settled checks hsame using hsettled
  refine ⟨settled, checks, fun current' => mapM_eq_ok_iff.mpr ?_⟩
  exact List.forall₂_map_right_iff.mpr (List.forall₂_same.mpr fun t ht => hsame t ht current')

/-- An audit that returns for some files returns for all files that are there, and the kept evidence
says the same of each target. -/
theorem auditC1_current {file : String → Option Identity} {result : Audit}
    (h : auditC1 parseDiagnostics evaluateCase R E file = .ok result) :
    ∃ settled : TargetEntry → Bool, ∀ file' current',
      currentIdentities file' E.identities = .ok current' →
      ∃ result', auditC1 parseDiagnostics evaluateCase R E file' = .ok result' ∧
        result'.targets = R.targets.map fun t => resultOf R E current' t (settled t) := by
  obtain ⟨cases, hcases, h⟩ := bind_eq_ok_iff.mp h
  obtain ⟨current, hcurrent, h⟩ := bind_eq_ok_iff.mp h
  obtain ⟨version, hversion, h⟩ := bind_eq_ok_iff.mp h
  obtain ⟨digest, hdigest, h⟩ := bind_eq_ok_iff.mp h
  obtain ⟨results, hresults, hlast⟩ := bind_eq_ok_iff.mp h
  obtain ⟨settled, checks, hsame⟩ := mapM_auditTarget_current hresults
  refine ⟨settled, fun file' current' hcurrent' => ?_⟩
  refine ⟨_, bind_eq_ok_iff.mpr ⟨cases, hcases, bind_eq_ok_iff.mpr ⟨current', hcurrent',
    bind_eq_ok_iff.mpr ⟨version, hversion, bind_eq_ok_iff.mpr ⟨digest, hdigest,
    bind_eq_ok_iff.mpr ⟨_, hsame current', rfl⟩⟩⟩⟩⟩, ?_⟩
  rw [List.map_map]
  rfl

end Scope

/-! ## The scope of the evidence -/

/-- What a target is accepted for in a result. -/
def decisionOf (a : Audit) (id : String) : Option Decision :=
  (Keyed.findKey TargetResult.id id a.targets).map TargetResult.decision

/-- The two audits decide alike. -/
def Decision.Alike (d d' : Decision) : Prop :=
  d.evidenceAccepted = d'.evidenceAccepted ∧ d.calibrationAccepted = d'.calibrationAccepted ∧
    d.verificationAccepted = d'.verificationAccepted

theorem decisionOf_eq {R : Registries} {E : Evidence} {current : Dict}
    {settled : TargetEntry → Bool} {result : Audit} {t : TargetEntry}
    (h : result.targets = R.targets.map fun t => resultOf R E current t (settled t))
    (ht : t ∈ R.targets) :
    decisionOf result t.id = some (resultOf R E current t (settled t)).decision := by
  have hnodup : (result.targets.map TargetResult.id).Nodup := by
    rw [h, List.map_map]
    exact R.nodup
  have hmem : resultOf R E current t (settled t) ∈ result.targets := by
    rw [h]
    exact List.mem_map_of_mem ht
  have hfind : Keyed.findKey TargetResult.id t.id result.targets =
      some (resultOf R E current t (settled t)) :=
    (Keyed.findKey_eq_some_iff hnodup).mpr ⟨hmem, rfl⟩
  rw [decisionOf, hfind]
  rfl

theorem blockersOf_eq_nil {kind : String} {statuses : List (String × String)} {names : List String}
    (hknown : ∀ name ∈ names, (statuses.lookup name).isSome) (h : blockersOf kind statuses names = [])
    {name : String} (hname : name ∈ names) : statuses.lookup name = some "supported" := by
  rw [blockersOf, List.filter_eq_nil_iff] at h
  obtain ⟨status, hstatus⟩ := Option.isSome_iff_exists.mp (hknown name hname)
  have hsupported := h _ (List.mem_map_of_mem hname)
  rw [hstatus] at hsupported ⊢
  simpa using hsupported

/-- **The evidence of a target depends on its own files and on no others.**  Take an audit that
returns.  For other files of today that are all there it returns too, and a target whose own files
are the same is decided alike.  A target with a file that is stale is accepted for nothing.  A target
that is accepted as verified is one of verification, and all that it requires is supported. -/
theorem auditC1_scoped {parseDiagnostics : String → Dict}
    {evaluateCase : Dict → Value → Value → Value → Dict → String → Except Exn (List Dict)}
    {R : Registries} {E : Evidence} {file : String → Option Identity} {result : Audit}
    (h : auditC1 parseDiagnostics evaluateCase R E file = .ok result) :
    (∀ file' : String → Option Identity,
      (∀ path ∈ E.identities.map Prod.fst, (file' path).isSome) →
      ∃ result', auditC1 parseDiagnostics evaluateCase R E file' = .ok result' ∧
        ∀ t ∈ R.targets, (∀ path, IsDependency R E t path → file path = file' path) →
          ∃ d d', decisionOf result t.id = some d ∧ decisionOf result' t.id = some d' ∧ d.Alike d') ∧
    ∀ t ∈ R.targets, ∃ d, decisionOf result t.id = some d ∧
      ((∃ path, IsDependency R E t path ∧ Stale E file path) →
        d.evidenceAccepted = false ∧ d.calibrationAccepted = false ∧
          d.verificationAccepted = false) ∧
      (d.verificationAccepted = true → t.evidenceKind = "verification" ∧
        (∀ name ∈ t.requiredDimensions, R.model.dimensions.lookup name = some "supported") ∧
        ∀ name ∈ t.requiredPrimitives, R.model.primitiveModels.lookup name = some "supported") := by
  obtain ⟨settled, hsettled⟩ := auditC1_current h
  obtain ⟨current, hcurrent⟩ : ∃ current, currentIdentities file E.identities = .ok current := by
    obtain ⟨cases, -, hrest⟩ := bind_eq_ok_iff.mp h
    obtain ⟨current, hcurrent, -⟩ := bind_eq_ok_iff.mp hrest
    exact ⟨current, hcurrent⟩
  obtain ⟨result₀, hresult₀, htargets⟩ := hsettled file current hcurrent
  obtain rfl : result₀ = result := by
    rw [h] at hresult₀
    exact (Except.ok.inj hresult₀).symm
  constructor
  · intro file' hthere
    obtain ⟨current', hcurrent'⟩ := exists_currentIdentities.mpr hthere
    obtain ⟨result', hresult', htargets'⟩ := hsettled file' current' hcurrent'
    refine ⟨result', hresult', fun t ht hagree => ⟨_, _, decisionOf_eq htargets ht,
      decisionOf_eq htargets' ht, ?_⟩⟩
    have hdrift : identityDrift E.identities current (dependenciesOf R E t) = [] ↔
        identityDrift E.identities current' (dependenciesOf R E t) = [] := by
      rw [identityDrift_eq_nil_iff hcurrent, identityDrift_eq_nil_iff hcurrent']
      refine forall₂_congr fun path hpath => ?_
      rw [Fresh, Fresh, hagree path (mem_dependenciesOf.mp hpath)]
    have hok : (settled t && decide (identityDrift E.identities current (dependenciesOf R E t) = [])) =
        (settled t && decide (identityDrift E.identities current' (dependenciesOf R E t) = [])) := by
      rw [decide_eq_decide.mpr hdrift]
    simp only [resultOf, hok]
    exact ⟨rfl, rfl, rfl⟩
  · intro t ht
    refine ⟨_, decisionOf_eq htargets ht, ?_, fun hverified => ?_⟩
    · rintro ⟨path, hpath, hstale⟩
      have hdrift : identityDrift E.identities current (dependenciesOf R E t) ≠ [] := by
        rw [Ne, identityDrift_eq_nil_iff hcurrent]
        exact fun hfresh => hstale (hfresh path (mem_dependenciesOf.mpr hpath))
      simp [resultOf, acceptanceDecision, hdrift]
    · simp only [resultOf, acceptanceDecision, Bool.and_eq_true, decide_eq_true_eq,
        List.append_eq_nil_iff] at hverified
      exact ⟨hverified.1.2, fun name => blockersOf_eq_nil (R.dimensions t ht) hverified.2.1,
        fun name => blockersOf_eq_nil (R.primitives t ht) hverified.2.2⟩

/-! ## An audit -/

/-- Two calibrations with one group of model files each. -/
def pilotRegistries : Registries where
  model :=
    { id := "mthread"
      providerVersion := "32.0"
      providerBinarySha256 := "p"
      fileGroups := [("core", ["model/core.ml"]), ("interrupt", ["model/irq.ml"])]
      dimensions := [("sequential", "supported"), ("interrupts", "calibrated")]
      primitiveModels := [("mutex", "supported")] }
  targets :=
    [⟨"plain", "mthread", "c0/plain.c", "calibration", false, ["core"], ["sequential"], ["mutex"]⟩,
      ⟨"irq", "mthread", "c0/irq.c", "calibration", false, ["interrupt"], ["interrupts"], ["mutex"]⟩]
  manifest := [("common_options", .list []), ("cases", .list
    [.dict [("id", .str "plain"), ("thread_library", .str "pthreads"), ("options", .list []),
        ("source", .str "c0/plain.c")],
      .dict [("id", .str "irq"), ("thread_library", .str "pthreads"), ("options", .list []),
        ("source", .str "c0/irq.c")]])]
  nodup := by decide
  modelId := by simp
  groups := by simp [List.lookup]
  dimensions := by simp [List.lookup]
  primitives := by simp [List.lookup]

/-- Every file as it was recorded. -/
def pilotFile (path : String) : Option Identity := some ⟨path, 1⟩

/-- What was kept of a case. -/
def pilotCase (id : String) : Dict :=
  [("id", .str id), ("diagnostics", .dict []), ("checks", .list []), ("passed", .bool true)]

/-- The evidence of both, where the files are recorded by their paths. -/
def pilotEvidence : Evidence where
  c0Output := "/c0"
  retainedManifest := .dict pilotRegistries.manifest
  identities := ["c0/plain.c", "c0/irq.c", "model/core.ml", "model/irq.ml"].map fun path =>
    (path, (⟨path, 1⟩ : Identity).value)
  summary := [("accepted", .bool true), ("output", .str "/c0"),
    ("inventory_checks", .list [.dict [("passed", .bool true)]]),
    ("provider", .dict [("version", .str "32.0"), ("binary_sha256", .str "p")]),
    ("cases", .list [.dict (pilotCase "plain"), .dict (pilotCase "irq")])]
  artifacts id := .ok
    { retainedCase := pilotCase id
      command := [("argv", .list (["/bin/frama-c", "-mt-threads-lib", "pthreads",
          "c0/" ++ id ++ ".c", "-then", "-report", "-report-csv", "/c0/report.csv"].map .str)),
        ("cwd", .str "."),
        ("environment", .dict [("LC_ALL", .str "C"), ("LANG", .str "C"), ("TZ", .str "UTC")])]
      report := .none
      reportPath := "/c0/report.csv"
      stdout := ""
      stderr := "" }
  providerBinary := "/bin/frama-c"
  providerDigest := "p"

/-- Both calibrations are accepted.  A change of the interrupt group takes the evidence of the other
one away and leaves the plain one as it is. -/
theorem auditC1_scoped_example :
    ∃ result result', auditC1 (fun _ => []) (fun _ _ _ _ _ _ => .ok []) pilotRegistries pilotEvidence
        pilotFile = .ok result ∧
      auditC1 (fun _ => []) (fun _ _ _ _ _ _ => .ok []) pilotRegistries pilotEvidence
        (fun path => if path = "model/irq.ml" then some ⟨"changed", 1⟩ else pilotFile path) =
          .ok result' ∧
      ∃ d d', decisionOf result "plain" = some d ∧ decisionOf result' "plain" = some d' ∧
        d.calibrationAccepted = true ∧ d.Alike d' := by
  obtain ⟨result, hresult, hplain⟩ := exists_of_returns (x := auditC1 (fun _ => [])
    (fun _ _ _ _ _ _ => .ok []) pilotRegistries pilotEvidence pilotFile)
    (f := fun result => (decisionOf result "plain").map Decision.calibrationAccepted = some true)
    (by decide +kernel)
  rw [decide_eq_true_eq] at hplain
  obtain ⟨result', hresult', hscope⟩ := (auditC1_scoped hresult).1
    (fun path => if path = "model/irq.ml" then some ⟨"changed", 1⟩ else pilotFile path)
    (by decide +kernel)
  have hown : ∀ path ∈ dependenciesOf pilotRegistries pilotEvidence pilotRegistries.targets[0],
      path ≠ "model/irq.ml" := by decide +kernel
  obtain ⟨d, d', hd, hd', halike⟩ := hscope pilotRegistries.targets[0] List.mem_cons_self
    fun path hpath => (if_neg (hown path (mem_dependenciesOf.mpr hpath))).symm
  refine ⟨result, result', hresult, hresult', d, d', hd, hd', ?_, halike⟩
  rw [show decisionOf result "plain" = some d from hd] at hplain
  exact Option.some.inj hplain

end Concurrency
end Fragma
