import Fragma.Analysis.Policy
import Fragma.Python.Json
import Fragma.Suite.Integrity

/-!
# Review approvals

`fragma/integrity.py`, `validate_review`, with the identities of
`fragma/frontend_policy.py` and `fragma/common24_calibration.py` that it compares.  A
target may carry reviews.  They count in an environment only when the context of the
review names that environment: the revision, the lock, the model, the pipeline, the
preprocessing, the machine description, and the hash of every file that it binds.

* `frontendIdentity`, `calibrationIdentity`: the two optional settings of a target.
* `Environment`: what a target is analysed in.
* `checkContext`, `checkHashes`, `sectionRecords`, `validateReview`: the gate.
* `Binds`, `validateReview_binds`: **what an envelope says about its environment**.
-/

namespace Fragma
namespace Suite

open Python Posix Analysis

/-- `KeyError(key)`. -/
def keyError (key : String) : Exn := ⟨.keyError, key⟩

/-- `target[key]`. -/
def subscript (target : Dict) (key : String) : Except Exn Value :=
  orRaise (target.lookup key) (keyError key)

/-! ## The frontend policy -/

/-- `HARNESS` of the frontend policy. -/
def common24Harness : String := "common/annotated/unaligned24.verified.c"

/-- `FIXTURE` of the frontend policy. -/
def common24Fixture : String := "common/annotated/kernel-model-check.c"

/-- `require(condition, message)` of the frontend policy. -/
def requireFrontend (condition : Prop) [Decidable condition] (message : String) :
    Except Exn Unit :=
  raiseIf (¬ condition) (sourceError ("frontend policy: " ++ message))

/-- `controlled_path(field, expected)`, without a root. -/
def isControlledPath (target : Dict) (field expected : String) : Bool :=
  match Value.get target field with
  | .str name => normpath name = expected
  | _ => false

/-- `set(d) == keys`. -/
def hasExactly (d : Dict) (keys : List String) : Bool :=
  (d.all fun p => p.1 ∈ keys) && keys.all fun k => Value.has d k

/-- `frontend_policy.identity(target)`. -/
def frontendIdentity (target : Dict) : Except Exn (Option Dict) :=
  match target.lookup "frontend_policy" with
  | none => do
    requireFrontend (¬ (isControlledPath target "harness" common24Harness ∨
      isControlledPath target "kernel_model_check" common24Fixture))
      "common24 inputs require an explicit policy"
    .ok none
  | some (.dict value) => do
    requireFrontend (hasExactly value ["schema_version", "kind", "variant"])
      "expected exactly schema_version, kind and variant"
    requireFrontend (Value.get value "schema_version" = .int 1) "unsupported schema version"
    requireFrontend (Value.get value "kind" = .str "common24-inline" ∧
      Value.get value "variant" ∈ [Value.str "no-instrument", .str "patchable-entry-0"])
      "unknown policy kind or variant"
    requireFrontend (Value.get target "input_mode" = .str "standalone" ∧
      Value.get target "harness" = .str common24Harness ∧
      Value.get target "kernel_model_check" = .str common24Fixture ∧
      Value.get target "source" = .str "include/linux/unaligned.h")
      "common24 policy requires its standalone harness and genuine-header fixture"
    requireFrontend (¬ ["cpp_definitions", "cpp_extra_args", "cpp_flags"].any (Value.has target))
      "arbitrary target preprocessor overrides are not supported"
    .ok (some value)
  | some _ =>
    .error (sourceError "frontend policy: expected exactly schema_version, kind and variant")

/-- `frontend_policy.required_files(target)`. -/
def frontendFiles (frontend : Option Dict) : List String :=
  if frontend.isSome then
    ["common/annotated/inline-policy.h", "fragma/frontend_policy.py", "fragma/elf.py"]
  else []

/-! ## The compiler calibration -/

/-- `SOURCE` of the calibration. -/
def calibrationSource : String := "common/annotated/compiler-calibration.c"

/-- `CASES`. -/
def calibrationCases : List String :=
  ["decode_be", "decode_le", "store_be_0", "store_be_1", "store_be_2",
    "store_le_0", "store_le_1", "store_le_2", "roundtrip_be", "roundtrip_le",
    "maximum_be_0", "maximum_be_1", "maximum_be_2", "maximum_roundtrip",
    "discarded_le_0", "discarded_le_1", "discarded_le_2", "discarded_roundtrip",
    "memory_0", "memory_1", "memory_2", "memory_3"]

/-- `HELPERS`. -/
def common24Helpers : List String :=
  ["__get_unaligned_be24", "__get_unaligned_le24", "__put_unaligned_be24",
    "__put_unaligned_le24"]

/-- `require(condition, message)` of the calibration. -/
def requireCalibration (condition : Prop) [Decidable condition] (message : String) :
    Except Exn Unit :=
  raiseIf (¬ condition) ⟨.valueError, message⟩

/-- `common24_calibration.identity(target)`. -/
def calibrationIdentity (target : Dict) : Except Exn (Option Dict) :=
  match target.lookup "compiler_calibration" with
  | none => .ok none
  | some (.dict setting) => do
    requireCalibration (hasExactly setting ["kind", "source"] ∧
      Value.get setting "kind" = .str "common24-fixed22" ∧
      Value.get setting "source" = .str calibrationSource)
      "missing or unknown compiler-calibration setting/source"
    let frontend ← frontendIdentity target
    requireCalibration (frontend.isSome ∧ Value.get target "role" = .str "proof" ∧
      Value.get target "analysis" = .str "wp" ∧
      Value.get target "functions" = .list (common24Helpers.map .str))
      "compiler calibration requires the common24 WP scope"
    .ok (some setting)
  | some _ =>
    .error ⟨.valueError, "missing or unknown compiler-calibration setting/source"⟩

/-- `common24_calibration.required_files(target)`. -/
def calibrationFiles (setting : Option Dict) : List String :=
  if setting.isSome then
    [calibrationSource, "fragma/common24_calibration.py", "fragma/common24_controls.py",
      "fragma/elf.py"]
  else []

/-- `common24_calibration.review_identity(target)`. -/
def calibrationReview (setting : Option Dict) : Value :=
  match setting with
  | none => .none
  | some setting =>
    .dict [("kind", .str "fragma-common24-compiler-sensitivity"), ("setting", .dict setting),
      ("environment_policy", .str "common24-compiler-clean-v1"),
      ("cases", .list (calibrationCases.map .str)),
      ("fixture_controls", .list [.str "wrong-type", .str "wrong-inline"])]

/-! ## What a review is compared with -/

/-- What a target is analysed in: the revision of the kernel, the model, the build, the
lock of the tools, the prepared input, and the files. -/
structure Environment where
  revision : String
  /-- `model["analysis"]` -/
  analysis : Value
  /-- `model["machdep"]["sha256"]` -/
  machdep : String
  /-- `build["source"]` -/
  buildSource : String
  /-- `build["path"]` -/
  buildPath : String
  /-- `tools["lock_sha256"]` -/
  lock : String
  /-- `prepared["frama_cpp_command"]` -/
  cppCommand : String
  /-- `prepared["annotations"]` -/
  annotations : String
  /-- `path.resolve()` -/
  resolve : PurePath → Except Exn PurePath
  /-- the hash of a file, where there is one -/
  hash : String → Option String

/-- The dictionary of the preprocessing. -/
def preprocessing (E : Environment) (inputMode : Value) (frontend : Option Dict) : Dict :=
  [("cpp_command", .str E.cppCommand), ("annotations", .str E.annotations),
    ("input_mode", inputMode), ("extra_args", .list [.str "-std=gnu11"])] ++
  match frontend with
  | none => []
  | some policy => [("frontend_policy", .dict policy)]

/-- The settings of a proof search. -/
def searchKeys : List String :=
  ["wp_strategy", "wp_strategy_file", "wp_strategy_provers", "wp_auto_depth",
    "wp_smoke_timeout"]

/-- The settings of the proof search that the target has. -/
def proofSearch (target : Dict) : Dict :=
  searchKeys.filterMap fun k => (target.lookup k).map fun v => (k, v)

/-- `if not _same_json(left, right): raise SourceError(message)`. -/
def requireSame (left right : Value) (message : String) : Except Exn Unit :=
  raiseIf (¬ Value.sameJson left right) (sourceError message)

/-- An error of the analysis policy, as the review reports it. -/
def policyError (e : Exn) : Exn :=
  sourceError ("unsupported arithmetic/memory/runtime analysis policy: " ++ e.message)

/-- The comparisons of the context with the environment and with the target, up to the
hashes.  The optional settings of the target are returned. -/
def checkContext (target context : Dict) (E : Environment) :
    Except Exn (Option Dict × Option Dict) := do
  raiseIf (¬ Value.eq (Value.get context "kernel_revision") (.str E.revision))
    (sourceError "review context source revision/profile mismatch")
  let profile ← subscript target "profile"
  raiseIf (¬ Value.eq (Value.get context "profile") profile)
    (sourceError "review context source revision/profile mismatch")
  raiseIf (¬ Value.eq (Value.get context "toolchain_lock_sha256") (.str E.lock))
    (sourceError "review context toolchain lock mismatch")
  let analysis ← (modelIdentity E.analysis).mapError policyError
  let pipeline ← (pipelineIdentity target).mapError policyError
  requireSame (Value.get context "analysis") (.dict analysis)
    "review context arithmetic/memory/runtime model mismatch"
  requireSame (Value.get context "analysis_pipeline") (.dict pipeline.value)
    "review context analysis pipeline mismatch"
  let inputMode ← subscript target "input_mode"
  let frontend ← frontendIdentity target
  requireSame (Value.get context "preprocessing") (.dict (preprocessing E inputMode frontend))
    "review context preprocessing policy mismatch"
  let calibration ← calibrationIdentity target
  requireSame (Value.get context "compiler_calibration") (calibrationReview calibration)
    "review context compiler-calibration policy mismatch"
  requireSame (Value.get context "proof_search" (.dict [])) (.dict (proofSearch target))
    "review context proof-search policy mismatch"
  .ok (frontend, calibration)

/-! ## The files of a review -/

/-- `str(path.relative_to(root))`. -/
def relativeTo (root path : PurePath) : Except Exn String :=
  if path.IsRelativeTo root then .ok (path.relativeTo root).render
  else .error ⟨.valueError, "not in the subpath"⟩

/-- The source of the target in a build, below the root. -/
def kernelSource (root : PurePath) (target : Dict) (E : Environment) : Except Exn String := do
  match ← subscript target "source" with
  | .str source => relativeTo root ((PurePath.parse E.buildSource).join (.parse source))
  | _ => .error ⟨.typeError, "unsupported operand type(s) for /"⟩

/-- The receipt of a build, below the root. -/
def buildReceipt (root : PurePath) (E : Environment) : Except Exn String :=
  relativeTo root ((PurePath.parse E.buildPath).join (.parse "fragma-build.json"))

/-- The files of a target that a review has to bind: the harness, the specifications,
the driver, the check of the kernel model and the strategy. -/
def fileKeys : List String :=
  ["harness", "specs", "driver", "kernel_model_check", "wp_strategy_file"]

/-- The files that a review has to bind. -/
def requiredFiles (root : PurePath) (target : Dict) (E : Environment)
    (settings : Option Dict × Option Dict) : Except Exn (List Value) := do
  let declared := (fileKeys.map (Value.get target)).filter Value.truthy
  let source ← kernelSource root target E
  let receipt ← buildReceipt root E
  .ok (declared ++ (["fragma/analysis_policy.py"] ++ frontendFiles settings.1 ++
    calibrationFiles settings.2 ++ (if settings.1.isSome then ["fragma/common24.py"] else []) ++
    [source, receipt]).map .str)

/-- The hashes of the machine descriptions. -/
def machineHashes (hashes : Dict) : List Value :=
  (hashes.filter fun p => ".yaml".toList <:+ p.1.toList).map Prod.snd

/-- The hashes of the context: they name every file that is needed, and one machine
description. -/
def checkHashes (root : PurePath) (target context : Dict) (E : Environment)
    (settings : Option Dict × Option Dict) : Except Exn Unit :=
  match Value.get context "file_hashes" with
  | .dict hashes => do
    raiseIf (hashes = []) (sourceError "review context must bind its input hashes")
    let required ← requiredFiles root target E settings
    raiseIf (¬ required.all Value.hashable) ⟨.typeError, "unhashable type"⟩
    raiseIf (¬ required.all fun v => hashes.any fun p => v = .str p.1)
      (sourceError "review context omits harness/specification/source/build identity")
    raiseIf (machineHashes hashes ≠ [.str E.machdep])
      (sourceError "review context does not match the fresh machine description")
  | _ => .error (sourceError "review context must bind its input hashes")

/-- `local_path(filename)`. -/
def localPath (root : PurePath) (E : Environment) : Value → Except Exn PurePath
  | .str filename => do
    raiseIf (PurePath.parse filename).IsAbsolute
      (sourceError "review paths must be relative project files")
    let path ← E.resolve (root.join (.parse filename))
    raiseIf (¬ path.IsRelativeTo root ∨ E.hash path.render = none)
      (sourceError ("missing or out-of-project review input: " ++ filename))
    .ok path
  | _ => .error (sourceError "review paths must be relative project files")

/-- The record of a bound file: its path and the hash that the review gives. -/
def boundRecord (root : PurePath) (E : Environment) (entry : String × Value) :
    Except Exn (List InputRecord) :=
  match entry.2 with
  | .str expected => do
    raiseIf (¬ isHex 64 expected) (sourceError "invalid reviewed input digest")
    let path ← localPath root E (.str entry.1)
    .ok [⟨.str path.render, .str expected⟩]
  | _ => .error (sourceError "invalid reviewed input digest")

/-- The record of an evidence file: its path and the hash that it has now. -/
def evidenceRecord (root : PurePath) (E : Environment) (filename : Value) :
    Except Exn (List InputRecord) := do
  let path ← localPath root E filename
  let present ← orRaise (E.hash path.render) ⟨.osError, "no such file"⟩
  .ok [⟨.str path.render, .str present⟩]

/-- The records of one section: of the context, or of a review. -/
def sectionRecords (root : PurePath) (E : Environment) : Value → Except Exn (List InputRecord)
  | .dict entries =>
    match Value.get entries "file_hashes" with
    | .dict hashes => do
      raiseIf (hashes = []) (sourceError "every review must bind explicit file hashes")
      let bound ← collect (boundRecord root E) hashes
      match Value.get entries "review_evidence" with
      | .list evidence => do
        raiseIf (evidence = []) (sourceError "every review must identify inspectable evidence")
        let seen ← collect (evidenceRecord root E) evidence
        .ok (bound ++ seen)
      | _ => .error (sourceError "every review must identify inspectable evidence")
    | _ => .error (sourceError "every review must bind explicit file hashes")
  | _ => .error (sourceError "every review must bind explicit file hashes")

/-- `*target.get(key, [])`. -/
def starred (target : Dict) (key : String) : Except Exn (List Value) :=
  orRaise (Value.get target key (.list [])).iterate ⟨.typeError, "must be an iterable"⟩

/-- `[context, *target.get("reviewed_smoke", []), *target.get("reviewed_warnings", [])]`. -/
def sections (target context : Dict) : Except Exn (List Value) := do
  let smoke ← starred target "reviewed_smoke"
  let warnings ← starred target "reviewed_warnings"
  .ok (.dict context :: smoke ++ warnings)

/-! ## The gate -/

/-- The envelope of a review that counts. -/
structure Envelope where
  status : String
  targetId : Value
  profile : Value
  analysis : Value
  sourceRoot : String
  reviewContext : Dict
  reviewedSmoke : Value
  reviewedWarnings : Value
  trackedFiles : List Receipt

/-- The files of all sections, none of which has another hash now. -/
def reviewedFiles (root : PurePath) (target context : Dict) (E : Environment) :
    Except Exn (List Receipt) := do
  let records ← collect (sectionRecords root E) (← sections target context)
  let merged ← mergeRecords records
  let changes ← changedFiles E.hash (merged.map Receipt.record)
  raiseIf (changes ≠ [])
    (sourceError ("reviewed inputs changed: " ++
      ", ".intercalate (changes.map fun c => c.receipt.path)))
  .ok merged

/-- `validate_review(root, target, …)`. -/
def validateReview (root : PurePath) (target : Dict) (E : Environment) :
    Except Exn (Option Envelope) :=
  if ¬ (Value.get target "reviewed_smoke").truthy ∧ ¬ (Value.get target "reviewed_warnings").truthy
  then .ok none
  else
    match Value.get target "review_context" with
    | .dict context => do
      let settings ← checkContext target context E
      checkHashes root target context E settings
      let tracked ← reviewedFiles root target context E
      let id ← subscript target "id"
      let profile ← subscript target "profile"
      let analysis ← subscript target "analysis"
      .ok (some
        { status := "passed"
          targetId := id
          profile := profile
          analysis := analysis
          sourceRoot := root.render
          reviewContext := context
          reviewedSmoke := Value.get target "reviewed_smoke" (.list [])
          reviewedWarnings := Value.get target "reviewed_warnings" (.list [])
          trackedFiles := tracked })
    | _ => .error (sourceError "scoped reviews require a review context")

/-! ## What an envelope says -/

/-- The hash that a file below the root has in an environment. -/
def contentHash (root : PurePath) (E : Environment) (filename : String) : Option String :=
  match E.resolve (root.join (.parse filename)) with
  | .ok path => E.hash path.render
  | .error _ => none

/-- A file of an environment, with its present hash, is tracked. -/
def Tracks (root : PurePath) (E : Environment) (R : Envelope) (filename : String) : Prop :=
  ∃ path hash, E.resolve (root.join (.parse filename)) = .ok path ∧
    E.hash path.render = some hash ∧ (⟨path.render, hash⟩ : Receipt) ∈ R.trackedFiles

/-- A section of a review lists the file under its `file_hashes`, with this hash. -/
def ListsHash (part : Value) (filename : String) (expected : Value) : Prop :=
  ∃ entries hashes, part = .dict entries ∧ Value.get entries "file_hashes" = .dict hashes ∧
    (filename, expected) ∈ hashes

/-- A section of a review lists the file under its `review_evidence`. -/
def ListsEvidence (part : Value) (filename : String) : Prop :=
  ∃ entries evidence, part = .dict entries ∧ Value.get entries "review_evidence" = .list evidence ∧
    Value.str filename ∈ evidence

/-- What an envelope for a target says about the environment that it was given in. -/
structure Binds (root : PurePath) (target : Dict) (E : Environment) (R : Envelope) : Prop where
  context : Value.get target "review_context" = .dict R.reviewContext
  revision : Value.get R.reviewContext "kernel_revision" = .str E.revision
  profile : target.lookup "profile" = some R.profile ∧
    Value.eq (Value.get R.reviewContext "profile") R.profile = true
  lock : Value.get R.reviewContext "toolchain_lock_sha256" = .str E.lock
  model : ∃ identity, modelIdentity E.analysis = .ok identity ∧
    Value.sameJson (Value.get R.reviewContext "analysis") (.dict identity) = true
  pipeline : ∃ plan, pipelineIdentity target = .ok plan ∧
    Value.sameJson (Value.get R.reviewContext "analysis_pipeline") (.dict plan.value) = true
  preprocessing : ∃ mode frontend, target.lookup "input_mode" = some mode ∧
    frontendIdentity target = .ok frontend ∧
    Value.sameJson (Value.get R.reviewContext "preprocessing")
      (.dict (preprocessing E mode frontend)) = true
  calibration : ∃ setting, calibrationIdentity target = .ok setting ∧
    Value.sameJson (Value.get R.reviewContext "compiler_calibration")
      (calibrationReview setting) = true
  search : Value.sameJson (Value.get R.reviewContext "proof_search" (.dict []))
    (.dict (proofSearch target)) = true
  machdep : ∃ hashes, Value.get R.reviewContext "file_hashes" = .dict hashes ∧
    machineHashes hashes = [.str E.machdep]
  required : ∃ frontend setting required, frontendIdentity target = .ok frontend ∧
    calibrationIdentity target = .ok setting ∧
    requiredFiles root target E (frontend, setting) = .ok required ∧
    ∀ v ∈ required, ∃ filename expected, v = .str filename ∧
      ListsHash (.dict R.reviewContext) filename expected
  files : ∃ parts, sections target R.reviewContext = .ok parts ∧ ∀ part ∈ parts,
    (∀ filename expected, ListsHash part filename expected →
      ∃ hash, expected = .str hash ∧ contentHash root E filename = some hash ∧
        Tracks root E R filename) ∧
    ∀ filename, ListsEvidence part filename → Tracks root E R filename

theorem mapError_eq_ok_iff {ε δ : Type*} {α : Type*} {f : ε → δ} {x : Except ε α} {a : α} :
    x.mapError f = .ok a ↔ x = .ok a := by
  cases x with
  | error e => simp [Except.mapError]
  | ok b => simp [Except.mapError]

theorem requireSame_eq_ok_iff {left right : Value} {message : String} {u : Unit} :
    requireSame left right message = .ok u ↔ Value.sameJson left right = true := by
  rw [requireSame, raiseIf_eq_ok_iff, not_not]

theorem subscript_eq_ok_iff {target : Dict} {key : String} {v : Value} :
    subscript target key = .ok v ↔ target.lookup key = some v := by
  rw [subscript, orRaise_eq_ok_iff]

/-- The part of the bindings that does not look at files. -/
theorem checkContext_eq_ok {target context : Dict} {E : Environment}
    {settings : Option Dict × Option Dict} (h : checkContext target context E = .ok settings) :
    Value.get context "kernel_revision" = .str E.revision ∧
    (∃ profile, target.lookup "profile" = some profile ∧
      Value.eq (Value.get context "profile") profile = true) ∧
    Value.get context "toolchain_lock_sha256" = .str E.lock ∧
    (∃ identity, modelIdentity E.analysis = .ok identity ∧
      Value.sameJson (Value.get context "analysis") (.dict identity) = true) ∧
    (∃ plan, pipelineIdentity target = .ok plan ∧
      Value.sameJson (Value.get context "analysis_pipeline") (.dict plan.value) = true) ∧
    (∃ mode, target.lookup "input_mode" = some mode ∧ frontendIdentity target = .ok settings.1 ∧
      Value.sameJson (Value.get context "preprocessing")
        (.dict (preprocessing E mode settings.1)) = true) ∧
    (calibrationIdentity target = .ok settings.2 ∧
      Value.sameJson (Value.get context "compiler_calibration")
        (calibrationReview settings.2) = true) ∧
    Value.sameJson (Value.get context "proof_search" (.dict []))
      (.dict (proofSearch target)) = true := by
  unfold checkContext at h
  obtain ⟨_, hrevision, h⟩ := bind_eq_ok_iff.mp h
  obtain ⟨profile, hprofile, h⟩ := bind_eq_ok_iff.mp h
  obtain ⟨_, hsame, h⟩ := bind_eq_ok_iff.mp h
  obtain ⟨_, hlock, h⟩ := bind_eq_ok_iff.mp h
  obtain ⟨identity, hidentity, h⟩ := bind_eq_ok_iff.mp h
  obtain ⟨plan, hplan, h⟩ := bind_eq_ok_iff.mp h
  obtain ⟨_, hmodel, h⟩ := bind_eq_ok_iff.mp h
  obtain ⟨_, hpipeline, h⟩ := bind_eq_ok_iff.mp h
  obtain ⟨mode, hmode, h⟩ := bind_eq_ok_iff.mp h
  obtain ⟨frontend, hfrontend, h⟩ := bind_eq_ok_iff.mp h
  obtain ⟨_, hpreprocessing, h⟩ := bind_eq_ok_iff.mp h
  obtain ⟨setting, hsetting, h⟩ := bind_eq_ok_iff.mp h
  obtain ⟨_, hcalibration, h⟩ := bind_eq_ok_iff.mp h
  obtain ⟨_, hsearch, h⟩ := bind_eq_ok_iff.mp h
  rw [raiseIf_eq_ok_iff, not_not] at hrevision hsame hlock
  rw [requireSame_eq_ok_iff] at hmodel hpipeline hpreprocessing hcalibration hsearch
  rw [mapError_eq_ok_iff] at hidentity hplan
  rw [subscript_eq_ok_iff] at hprofile hmode
  obtain rfl := Except.ok.inj h
  exact ⟨Value.eq_str_iff.mp hrevision, ⟨profile, hprofile, hsame⟩, Value.eq_str_iff.mp hlock,
    ⟨identity, hidentity, hmodel⟩, ⟨plan, hplan, hpipeline⟩,
    ⟨mode, hmode, hfrontend, hpreprocessing⟩, ⟨hsetting, hcalibration⟩, hsearch⟩

theorem checkHashes_eq_ok {root : PurePath} {target context : Dict} {E : Environment}
    {settings : Option Dict × Option Dict} {u : Unit}
    (h : checkHashes root target context E settings = .ok u) :
    (∃ hashes, Value.get context "file_hashes" = .dict hashes ∧
      machineHashes hashes = [.str E.machdep]) ∧
    ∃ required, requiredFiles root target E settings = .ok required ∧
      ∀ v ∈ required, ∃ filename expected, v = .str filename ∧
        ListsHash (.dict context) filename expected := by
  unfold checkHashes at h
  split at h
  · next hashes hhashes =>
    obtain ⟨_, -, h⟩ := bind_eq_ok_iff.mp h
    obtain ⟨required, hrequired, h⟩ := bind_eq_ok_iff.mp h
    obtain ⟨_, -, h⟩ := bind_eq_ok_iff.mp h
    obtain ⟨_, hlisted, h⟩ := bind_eq_ok_iff.mp h
    rw [raiseIf_eq_ok_iff, not_not] at hlisted h
    refine ⟨⟨hashes, hhashes, h⟩, required, hrequired, fun v hv => ?_⟩
    obtain ⟨p, hp, hvp⟩ := List.any_eq_true.mp (List.all_eq_true.mp hlisted v hv)
    exact ⟨p.1, p.2, of_decide_eq_true hvp, context, hashes, rfl, hhashes, hp⟩
  · exact absurd h (by simp)

theorem localPath_eq_ok {root : PurePath} {E : Environment} {filename : String} {path : PurePath}
    (h : localPath root E (.str filename) = .ok path) :
    E.resolve (root.join (.parse filename)) = .ok path ∧ E.hash path.render ≠ none := by
  unfold localPath at h
  obtain ⟨_, -, h⟩ := bind_eq_ok_iff.mp h
  obtain ⟨path', hresolve, h⟩ := bind_eq_ok_iff.mp h
  obtain ⟨_, hfile, h⟩ := bind_eq_ok_iff.mp h
  rw [raiseIf_eq_ok_iff, not_or] at hfile
  obtain rfl := Except.ok.inj h
  exact ⟨hresolve, hfile.2⟩

/-- The record of a bound file has the path of the file and the hash that is given. -/
theorem boundRecord_eq_ok {root : PurePath} {E : Environment} {entry : String × Value}
    {records : List InputRecord} (h : boundRecord root E entry = .ok records) :
    ∃ expected path, entry.2 = .str expected ∧
      E.resolve (root.join (.parse entry.1)) = .ok path ∧
      records = [⟨.str path.render, .str expected⟩] := by
  unfold boundRecord at h
  split at h
  · next expected hexpected =>
    obtain ⟨_, -, h⟩ := bind_eq_ok_iff.mp h
    obtain ⟨path, hpath, h⟩ := bind_eq_ok_iff.mp h
    exact ⟨expected, path, hexpected, (localPath_eq_ok hpath).1, (Except.ok.inj h).symm⟩
  · exact absurd h (by simp)

/-- The record of an evidence file has the path of the file and its present hash. -/
theorem evidenceRecord_eq_ok {root : PurePath} {E : Environment} {filename : String}
    {records : List InputRecord} (h : evidenceRecord root E (.str filename) = .ok records) :
    ∃ present path, E.resolve (root.join (.parse filename)) = .ok path ∧
      E.hash path.render = some present ∧ records = [⟨.str path.render, .str present⟩] := by
  unfold evidenceRecord at h
  obtain ⟨path, hpath, h⟩ := bind_eq_ok_iff.mp h
  obtain ⟨present, hpresent, h⟩ := bind_eq_ok_iff.mp h
  rw [orRaise_eq_ok_iff] at hpresent
  exact ⟨present, path, (localPath_eq_ok hpath).1, hpresent, (Except.ok.inj h).symm⟩

/-- The records of a section are those of its files. -/
theorem mem_sectionRecords {root : PurePath} {E : Environment} {part : Value}
    {records : List InputRecord} (h : sectionRecords root E part = .ok records) :
    (∀ filename expected, ListsHash part filename expected →
      ∃ hash path, expected = .str hash ∧ E.resolve (root.join (.parse filename)) = .ok path ∧
        (⟨.str path.render, .str hash⟩ : InputRecord) ∈ records) ∧
    ∀ filename, ListsEvidence part filename →
      ∃ hash path, E.resolve (root.join (.parse filename)) = .ok path ∧
        E.hash path.render = some hash ∧
        (⟨.str path.render, .str hash⟩ : InputRecord) ∈ records := by
  unfold sectionRecords at h
  split at h
  case h_2 => exact absurd h (by simp)
  case h_1 entries =>
    split at h
    case h_2 => exact absurd h (by simp)
    case h_1 hashes hhashes =>
      obtain ⟨_, -, h⟩ := bind_eq_ok_iff.mp h
      obtain ⟨bound, hbound, h⟩ := bind_eq_ok_iff.mp h
      split at h
      case h_2 => exact absurd h (by simp)
      case h_1 evidence hevidence =>
        obtain ⟨_, -, h⟩ := bind_eq_ok_iff.mp h
        obtain ⟨seen, hseen, h⟩ := bind_eq_ok_iff.mp h
        obtain rfl := Except.ok.inj h
        constructor
        · rintro filename expected ⟨entries', hashes', hpart, hhashes', hmem⟩
          obtain rfl := Value.dict.inj hpart
          obtain rfl := Value.dict.inj (hhashes.symm.trans hhashes')
          obtain ⟨records, hrecords⟩ := forall_of_collect_eq_ok hbound _ hmem
          obtain ⟨hash, path, rfl, hpath, rfl⟩ := boundRecord_eq_ok hrecords
          refine ⟨hash, path, rfl, hpath, List.mem_append_left _ ?_⟩
          exact (mem_of_collect_eq_ok hbound).mpr ⟨_, hmem, _, hrecords, List.mem_cons_self⟩
        · rintro filename ⟨entries', evidence', hpart, hevidence', hmem⟩
          obtain rfl := Value.dict.inj hpart
          obtain rfl := Value.list.inj (hevidence.symm.trans hevidence')
          obtain ⟨records, hrecords⟩ := forall_of_collect_eq_ok hseen _ hmem
          obtain ⟨hash, path, hpath, hhash, rfl⟩ := evidenceRecord_eq_ok hrecords
          refine ⟨hash, path, hpath, hhash, List.mem_append_right _ ?_⟩
          exact (mem_of_collect_eq_ok hseen).mpr ⟨_, hmem, _, hrecords, List.mem_cons_self⟩

theorem read_record_of_path {path : PurePath} {hash : String} {r : Receipt}
    (h : (⟨.str path.render, .str hash⟩ : InputRecord).read = .ok r) : r = ⟨path.render, hash⟩ := by
  unfold InputRecord.read at h
  simp only [PurePath.parse_render] at h
  split_ifs at h
  exact (Except.ok.inj h).symm

/-- **No file of the review has another hash.** -/
theorem reviewedFiles_eq_ok {root : PurePath} {target context : Dict} {E : Environment}
    {tracked : List Receipt} (h : reviewedFiles root target context E = .ok tracked) :
    ∃ parts records, sections target context = .ok parts ∧
      collect (sectionRecords root E) parts = .ok records ∧
      ∀ {path : PurePath} {hash : String},
        (⟨.str path.render, .str hash⟩ : InputRecord) ∈ records →
          E.hash path.render = some hash ∧ (⟨path.render, hash⟩ : Receipt) ∈ tracked := by
  unfold reviewedFiles at h
  obtain ⟨parts, hparts, h⟩ := bind_eq_ok_iff.mp h
  obtain ⟨records, hrecords, h⟩ := bind_eq_ok_iff.mp h
  obtain ⟨merged, hmerged, h⟩ := bind_eq_ok_iff.mp h
  obtain ⟨changes, hchanges, h⟩ := bind_eq_ok_iff.mp h
  obtain ⟨_, hnone, h⟩ := bind_eq_ok_iff.mp h
  rw [raiseIf_eq_ok_iff, not_not] at hnone
  obtain rfl := Except.ok.inj h
  refine ⟨parts, records, hparts, hrecords, fun {path hash} hmem => ?_⟩
  obtain ⟨r, hr⟩ := forall_read_of_mergeRecords hmerged _ hmem
  obtain rfl := read_record_of_path hr
  have htracked := (mem_mergeRecords hmerged ⟨path.render, hash⟩).mpr ⟨_, hmem, hr⟩
  refine ⟨?_, htracked⟩
  by_contra hne
  refine (changedFiles_eq_nil_iff hchanges).mp hnone _ (List.mem_map_of_mem htracked) ?_
  exact ⟨⟨path.render, hash⟩, hr, hne⟩

/-- **An envelope says what the context binds.** -/
theorem validateReview_binds {root : PurePath} {target : Dict} {E : Environment} {R : Envelope}
    (h : validateReview root target E = .ok (some R)) : Binds root target E R := by
  unfold validateReview at h
  split_ifs at h
  · exact absurd h (by simp)
  split at h
  case h_2 => exact absurd h (by simp)
  case h_1 context hcontext =>
    obtain ⟨settings, hcheck, h⟩ := bind_eq_ok_iff.mp h
    obtain ⟨_, hhashes, h⟩ := bind_eq_ok_iff.mp h
    obtain ⟨tracked, htracked, h⟩ := bind_eq_ok_iff.mp h
    obtain ⟨id, -, h⟩ := bind_eq_ok_iff.mp h
    obtain ⟨profile, hprofile, h⟩ := bind_eq_ok_iff.mp h
    obtain ⟨analysis, -, h⟩ := bind_eq_ok_iff.mp h
    obtain rfl := Option.some.inj (Except.ok.inj h)
    rw [subscript_eq_ok_iff] at hprofile
    obtain ⟨hrevision, ⟨profile', hprofile', hsame⟩, hlock, hmodel, hpipeline,
      ⟨mode, hmode, hfrontend, hpreprocessing⟩, ⟨hsetting, hcalibration⟩, hsearch⟩ :=
      checkContext_eq_ok hcheck
    obtain rfl := Option.some.inj (hprofile.symm.trans hprofile')
    obtain ⟨hmachdep, required, hrequired, hlisted⟩ := checkHashes_eq_ok hhashes
    obtain ⟨parts, records, hparts, hrecords, hfiles⟩ := reviewedFiles_eq_ok htracked
    exact
      { context := hcontext
        revision := hrevision
        profile := ⟨hprofile, hsame⟩
        lock := hlock
        model := hmodel
        pipeline := hpipeline
        preprocessing := ⟨mode, settings.1, hmode, hfrontend, hpreprocessing⟩
        calibration := ⟨settings.2, hsetting, hcalibration⟩
        search := hsearch
        machdep := hmachdep
        required := ⟨settings.1, settings.2, required, hfrontend, hsetting, hrequired, hlisted⟩
        files := by
          refine ⟨parts, hparts, fun part hpart => ?_⟩
          obtain ⟨own, hown⟩ := forall_of_collect_eq_ok hrecords part hpart
          obtain ⟨hbound, hevidence⟩ := mem_sectionRecords hown
          have hmem : ∀ r ∈ own, r ∈ records := fun r hr =>
            (mem_of_collect_eq_ok hrecords).mpr ⟨part, hpart, own, hown, hr⟩
          constructor
          · intro filename expected hlists
            obtain ⟨hash, path, rfl, hpath, hrecord⟩ := hbound filename expected hlists
            obtain ⟨hhash, hreceipt⟩ := hfiles (hmem _ hrecord)
            refine ⟨hash, rfl, ?_, path, hash, hpath, hhash, hreceipt⟩
            rw [contentHash, hpath]
            exact hhash
          · intro filename hlists
            obtain ⟨hash, path, hpath, hhash, hrecord⟩ := hevidence filename hlists
            exact ⟨path, hash, hpath, hhash, (hfiles (hmem _ hrecord)).2⟩ }

end Suite
end Fragma
