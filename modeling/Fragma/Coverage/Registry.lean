import Fragma.Coverage.Inputs
import Fragma.Python.Tsv
import Fragma.Suite.Command

/-!
# The manifests of a project

`fragma/profiles.py`, `load_architectures`, `validate_registration` and `load_profiles`, and
`fragma/suite.py`, `read_json` and `load_registry`: what the runner takes from the files under
`config/` and `toolchain/`.  A profile is registered by the profile manifest, or planned as the
baseline of an architecture; a target is registered by a target manifest.  The two functions that
compare a profile with the reviewed compiler routes, and the check of the frontend policy of a
target, are parameters.

* `loadArchitectures`, `loadProfiles`: the architectures and the profiles.
* `checkTarget`, `loadRegistry`: the targets.
-/

namespace Fragma
namespace Coverage

open Python Posix Suite Replay Analysis

/-- What the loaders call and this development does not look into: `_header_architecture` and
`_compiler_target_args` of `fragma/profiles.py`, and the block of `load_registry` that compares a
target with its frontend policy and its compiler calibration. -/
structure Routes where
  headerArchitecture : Dict → Except Exn Unit
  compilerTargetArgs : Dict → Except Exn Unit
  frontend : Dict → Except Exn Unit

/-! ## Tables -/

/-- A dictionary whose keys are values of any kind. -/
abbrev Table (α : Type) := List (Value × α)

/-- `table.get(key)`, for a key that can be looked up. -/
def Table.get? {α : Type} (table : Table α) (key : Value) : Option α :=
  (table.find? fun p => decide (Value.Same p.1 key)).map Prod.snd

/-- `table.get(key)`. -/
def lookIn {α : Type} (table : Table α) (key : Value) : Except Exn (Option α) :=
  if key.hashable then .ok (table.get? key) else .error ⟨.typeError, "unhashable"⟩

/-! ## Architectures -/

/-- `ProfileError(message)`. -/
def profileError (message : String) : Exn := ⟨.valueError, message⟩

/-- `load_architectures(root)`. -/
def loadArchitectures (h : Host) : Except Exn Dict := do
  let data ← h.loads (h.under "config/architectures.json")
  let data ← entries data "get"
  raiseIf (¬ Value.eq (Value.get data "schema_version") (.int 1))
    (profileError "Unsupported architecture schema")
  let rows ← item data "architectures"
  let rows ← elements rows
  let ids ← rows.mapM fun row => subscriptOf row "id"
  raiseIf (¬ ids.all Value.hashable) ⟨.typeError, "unhashable"⟩
  raiseIf (¬ Value.allDistinct ids) (profileError "Duplicate architecture")
  .ok data

/-! ## Profiles -/

/-- A name of the pattern `[a-z0-9][a-z0-9_-]*`. -/
def isProfileName (s : String) : Bool :=
  match s.toList with
  | c :: cs => (isDigit c || c.isLower) &&
      cs.all fun c => isDigit c || c.isLower || c = '_' || c = '-'
  | [] => false

/-- A list of nonempty strings. -/
def isFlags : Value → Bool
  | .list flags => flags.all Value.isName
  | _ => false

/-- An integer above zero. -/
def isPositive : Value → Bool
  | .int n => decide (0 < n)
  | _ => false

/-- The settings of a layout. -/
def layoutKeys : List String :=
  ["short_bytes", "int_bytes", "long_bytes", "long_long_bytes", "pointer_bytes", "wchar_bytes",
    "long_alignment", "pointer_alignment", "long_long_alignment"]

/-- The checks of `validate_registration` on an ABI. -/
def validateAbi (abi : Value) : Except Exn Unit :=
  match abi with
  | .dict abi => do
    let bits := Value.get abi "bits"
    raiseIf (¬ (Value.eq bits (.int 32) ∨ Value.eq bits (.int 64)))
      (profileError "Unknown kernel ABI width")
    let order := Value.get abi "byte_order"
    raiseIf (¬ (Value.eq order (.str "little") ∨ Value.eq order (.str "big")) ∨
      ¬ (Value.get abi "char_unsigned" = .bool true ∨ Value.get abi "char_unsigned" = .bool false))
      (profileError "Unknown byte order or plain-char signedness")
    layoutKeys.forM fun key =>
      raiseIf (isPositive (Value.get abi key) = false) (profileError ("Unknown profile layout: " ++ key))
    match Value.get abi "pointer_bytes" with
    | .int n =>
      raiseIf (¬ Value.eq (.int (n * 8)) bits)
        (profileError "Profile pointer and kernel ABI widths disagree")
    | _ => .ok ()
  | _ => .error (profileError "Unknown kernel ABI width")

/-- The path has a component `..`. -/
def hasParent (P : PurePath) : Prop := ∃ c ∈ P.tail, c.IsParent

instance (P : PurePath) : Decidable (hasParent P) := inferInstanceAs (Decidable (∃ c ∈ P.tail, _))

/-- A seed configuration is a relative path, and its hash is a hash. -/
def isSeed (seed hash : Value) : Bool :=
  match seed with
  | .str seed => seed ≠ "" && decide (¬ (PurePath.parse seed).IsAbsolute) &&
      decide (¬ hasParent (PurePath.parse seed)) && isHash hash
  | _ => false

/-- The check of `validate_registration` on the configuration of a kernel. -/
def validateSeed (kernel : Value) : Except Exn Unit := do
  let pinned ← isIn (.str "seed_config_sha256") kernel
  if pinned then do
    let seed ← getOf kernel "seed_config"
    let hash ← getOf kernel "seed_config_sha256"
    raiseIf (isSeed seed hash = false) (profileError "Invalid pinned kernel seed configuration")
  else .ok ()

/-- A name that has to be a profile name. -/
def checkName (name : Value) (e : Exn) : Except Exn Unit :=
  match name with
  | .str name => raiseIf (isProfileName name = false) e
  | _ => .error e

/-- The check of an analysis, with another exception. -/
def validateAnalysis (analysis : Value) : Except Exn Unit :=
  match modelIdentity analysis with
  | .ok _ => .ok ()
  | .error e => .error (profileError ("Unsupported analysis policy: " ++ e.message))

/-- `validate_registration(profile)`. -/
def validateRegistration (routes : Routes) (profile : Dict) : Except Exn Unit := do
  checkName (Value.get profile "id") (profileError "Invalid profile ID")
  if Value.eq (Value.get profile "status") (.str "planned") then .ok ()
  else do
    raiseIf (¬ Value.eq (Value.get profile "status") (.str "experimental"))
      (profileError "Unsupported profile registration status")
    routes.headerArchitecture profile
    ["compiler", "compiler_target", "compiler_version", "frama_c_version"].forM fun key =>
      raiseIf ((Value.get profile key).isName = false) (profileError ("Unknown profile setting: " ++ key))
    ["flags", "common_flags"].forM fun key =>
      raiseIf (isFlags (Value.get profile key) = false) (profileError ("Unknown profile flags: " ++ key))
    routes.compilerTargetArgs profile
    validateAbi (Value.get profile "abi")
    validateSeed (Value.get profile "kernel" (.dict []))
    validateAnalysis (Value.get profile "analysis")

/-- A pair that a dictionary can be updated with. -/
def pairOf (v : Value) : Except Exn (String × Value) :=
  match v.iterate with
  | some [.str key, value] => .ok (key, value)
  | some _ => .error ⟨.valueError, "dictionary update sequence element"⟩
  | none => .error ⟨.typeError, "dictionary update sequence element"⟩

/-- The entries that a dictionary can be updated with. -/
def pairsOf (v : Value) : Except Exn Dict :=
  match v with
  | .dict pairs => .ok pairs
  | v => do
    let xs ← elements v
    xs.mapM pairOf

/-- `d.update(v)`. -/
def update (d : Dict) (v : Value) : Except Exn Dict := do
  let pairs ← pairsOf v
  .ok (pairs.foldl (fun d p => Value.set d p.1 p.2) d)

/-- One turn of the loop of `load_profiles` over the profiles. -/
def registerProfile (routes : Routes) (data : Dict) (architectures : Table Value)
    (result : Table Dict) (entry : Value) : Except Exn (Table Dict) := do
  let defaults ← item data "defaults"
  let profile ← entries defaults "update"
  let profile ← update profile entry
  let revision ← item data "kernel_revision"
  let profile := Value.set profile "kernel_revision" revision
  let id ← item profile "id"
  let seen ← lookIn result id
  raiseIf (seen ≠ none) (profileError "Duplicate profile")
  let architecture ← item profile "architecture"
  let row ← lookIn architectures architecture
  let row ← orRaise row (profileError "Unregistered architecture")
  let kernel ← item profile "kernel"
  let arch ← subscriptOf kernel "arch"
  let kernelArch ← subscriptOf row "kernel_arch"
  raiseIf (¬ Value.eq arch kernelArch) (profileError "Kernel ARCH disagrees with architecture registry")
  validateRegistration routes profile
  .ok (result ++ [(id, profile)])

/-- The compiler that an architecture without a profile would need. -/
def candidateOf (id compilerTarget : Value) : Except Exn String :=
  if Value.eq id (.str "hexagon") then .ok "clang"
  else if Value.eq id (.str "um") then .ok "gcc"
  else
    match compilerTarget with
    | .str name => .ok (name ++ "-gcc")
    | _ => .error ⟨.typeError, "+"⟩

/-- The row of a profile that is planned for an architecture. -/
def plannedProfile (revision baseline : Value) (arch : Value) : Except Exn Dict := do
  let id ← subscriptOf arch "id"
  let compilerTarget ← subscriptOf arch "compiler_target"
  let candidate ← candidateOf id compilerTarget
  let kernelArch ← subscriptOf arch "kernel_arch"
  let subarch ← subscriptOf arch "subarch"
  let variants ← subscriptOf arch "variants"
  .ok [("id", baseline), ("architecture", id), ("status", .str "planned"),
    ("kernel_revision", revision), ("compiler", .none), ("compiler_target", compilerTarget),
    ("compiler_candidate", .str candidate),
    ("kernel", .dict [("arch", kernelArch), ("subarch", subarch), ("config_recipe", .none),
      ("build_path", .none)]),
    ("abi", .none), ("variants", variants),
    ("gaps", .list [.str ("Candidate compiler " ++ candidate ++
        " must be provisioned and its target/version locked."),
      .str "Kernel configuration and supported machine variants need explicit selection.",
      .str "No compiler-derived machine description or calibration.",
      .str "No source-gated proof baseline."])]

/-- One turn of the loop of `load_profiles` over the architectures. -/
def planProfile (revision : Value) (result : Table Dict) (arch : Value) :
    Except Exn (Table Dict) := do
  let baseline ← subscriptOf arch "baseline_profile"
  let seen ← lookIn result baseline
  match seen with
  | some _ => .ok result
  | none => do
    let profile ← plannedProfile revision baseline arch
    .ok (result ++ [(baseline, profile)])

/-- `load_profiles(root)`. -/
def loadProfiles (h : Host) (routes : Routes) : Except Exn (Table Dict) := do
  let data ← h.loads (h.under "config/profiles.json")
  let data ← entries data "get"
  raiseIf (¬ Value.eq (Value.get data "schema_version") (.int 1))
    (profileError "Unsupported profile schema")
  let registry ← loadArchitectures h
  let revision ← item data "kernel_revision"
  let registryRevision ← item registry "kernel_revision"
  raiseIf (¬ Value.eq revision registryRevision)
    (profileError "Profile and architecture revisions disagree")
  let rows ← item registry "architectures"
  let rows ← elements rows
  let ids ← rows.mapM fun row => subscriptOf row "id"
  let profiles ← item data "profiles"
  let profiles ← elements profiles
  let result ← profiles.foldlM (registerProfile routes data (ids.zip rows)) []
  rows.foldlM (planProfile revision) result

/-! ## Targets -/

/-- `read_json(path)`. -/
def readJson (h : Host) (path : PurePath) : Except Exn Dict :=
  match h.loads path with
  | .ok (.dict data) => do
    raiseIf (¬ Value.eq (Value.get data "schema_version") (.int 1))
      (suiteError ("unsupported schema: " ++ path.render))
    .ok data
  | .ok _ => .error (suiteError ("unsupported schema: " ++ path.render))
  | .error e => .error (suiteError ("cannot load " ++ path.render ++ ": " ++ e.message))

/-- An identifier of the pattern `[a-zA-Z0-9_.-]+`. -/
def isRegistryName (s : String) : Bool :=
  s ≠ "" && s.toList.all fun c => c.isAlphanum || c = '_' || c = '.' || c = '-'

/-- What was registered so far. -/
structure Registry where
  revision : Value
  targets : List (String × Dict)
  assumptions : List (String × Dict)

/-- One item of a manifest, put into a collection. -/
def registerItem (path : PurePath) (field : String) (collection : List (String × Dict))
    (entry : Value) : Except Exn (List (String × Dict)) := do
  let d ← entries entry "get"
  match Value.get d "id" with
  | .str id => do
    raiseIf (isRegistryName id = false)
      (suiteError ("invalid " ++ field ++ " ID in " ++ path.render))
    raiseIf (id ∈ collection.map Prod.fst) (suiteError ("duplicate " ++ field ++ " ID: " ++ id))
    .ok (collection ++ [(id, d)])
  | _ => .error (suiteError ("invalid " ++ field ++ " ID in " ++ path.render))

/-- The items of a field of a manifest. -/
def registerItems (path : PurePath) (data : Dict) (field : String)
    (collection : List (String × Dict)) : Except Exn (List (String × Dict)) := do
  let items ← elements (Value.get data field (.list []))
  items.foldlM (registerItem path field) collection

/-- The revision after a manifest. -/
def pinRevision (path : PurePath) (data : Dict) (revision : Value) : Except Exn Value :=
  match data.lookup "kernel_revision" with
  | some pinned => do
    raiseIf (revision.truthy ∧ ¬ Value.eq pinned revision)
      (suiteError ("target manifests disagree on pinned revision: " ++ path.render))
    .ok pinned
  | none => .ok revision

/-- One turn of the loop of `load_registry` over the manifests. -/
def registerManifest (h : Host) (r : Registry) (path : PurePath) : Except Exn Registry := do
  let data ← readJson h path
  let revision ← pinRevision path data r.revision
  let targets ← registerItems path data "targets" r.targets
  let assumptions ← registerItems path data "assumptions" r.assumptions
  .ok ⟨revision, targets, assumptions⟩

/-- `if target.get(field)`: the file of a field lies in the project. -/
def checkFile (h : Host) (target : Dict) (field : String) : Except Exn Unit :=
  if (Value.get target field).truthy then
    match Value.get target field with
    | .str name =>
      let path := h.resolve (h.under name)
      raiseIf (¬ path.IsRelativeTo h.root ∨ h.isFile path.render = false)
        (suiteError ("invalid or missing " ++ field ++ ": " ++ path.render))
    | _ => .error ⟨.typeError, "/"⟩
  else .ok ()

/-- `"alt-ergo,z3"`. -/
def defaultProvers : Provers := ⟨"alt-ergo,z3", by decide +kernel⟩

/-- The message about a companion mapping. -/
def companionError : Exn := suiteError "invalid or unexplained calibration companion mapping"

/-- The conditions on a companion that is registered. -/
def checkMapping (target companion : Dict) (mapping : Dict) (expected : List Value) :
    Except Exn Unit := do
  raiseIf (expected = []) companionError
  let names ← setOf (.list expected)
  raiseIf (¬ sameSet (mapping.map fun p => .str p.1) names) companionError
  raiseIf (¬ mapping.all fun p => p.2.isName) companionError
  let invalid ← setOf (Value.get companion "expected_invalid" (.list []))
  raiseIf (¬ Value.subset (mapping.map Prod.snd) invalid ∨
    ¬ Value.eq (Value.get companion "role") (.str "calibration")) companionError
  let analysis ← item target "analysis"
  raiseIf (Value.eq (Value.get companion "analysis") analysis) companionError
  let profile ← item target "profile"
  raiseIf (¬ Value.eq (Value.get companion "profile") profile) companionError
  let source ← item target "source"
  raiseIf (¬ Value.eq (Value.get companion "source") source) companionError
  let theirs ← setOf (Value.get companion "functions" (.list []))
  let ours ← setOf (Value.get target "functions" (.list []))
  raiseIf (¬ sameSet theirs ours) companionError
  match Value.get target "companion_mapping_reason" with
  | .str reason => raiseIf (isBlank reason = true) companionError
  | _ => .error companionError

/-- The check of the companion of a target. -/
def checkCompanion (targets : List (String × Dict)) (target : Dict) : Except Exn Unit :=
  let companionId := Value.get target "required_companion"
  let mapping := Value.get target "companion_property_map" (.dict [])
  let expected := Value.get target "expected_unresolved" (.list [])
  if companionId.truthy ∨ mapping.truthy ∨ expected.truthy then
    match companionId with
    | .str companionId =>
      match targets.lookup companionId with
      | some companion => do
        raiseIf (¬ Value.eq (Value.get target "role") (.str "calibration")) companionError
        match expected, mapping with
        | .list expected, .dict mapping => checkMapping target companion mapping expected
        | _, _ => .error companionError
      | none => .error companionError
    | _ => .error companionError
  else .ok ()

/-- The input of a target: its harness, unless a translation unit is pinned. -/
def checkInput (target : Dict) : Except Exn Unit := do
  let mode ← getOf (Value.get target "provenance" (.dict [])) "mode"
  if Value.eq mode (.str "pinned-translation-unit") then
    raiseIf (Value.get target "harness" ≠ .none ∨
      ¬ Value.eq (Value.get target "input_mode") (.str "kernel-tu"))
      (suiteError "invalid pinned source input")
  else raiseIf (¬ (Value.get target "harness").truthy) (suiteError "missing harness")

/-- An assumption of a target is registered. -/
def checkAssumption (assumptions : List (String × Dict)) (name : Value) : Except Exn Unit := do
  raiseIf (name.hashable = false) ⟨.typeError, "unhashable"⟩
  raiseIf (¬ assumptions.any fun p => name = .str p.1) (suiteError "undeclared assumption")

/-- The check of a pipeline, with another exception. -/
def checkPipeline (target : Dict) : Except Exn Unit :=
  match pipelineIdentity target with
  | .ok _ => .ok ()
  | .error e => .error (suiteError ("invalid analysis pipeline: " ++ e.message))

/-- One turn of the loop of `load_registry` over the targets. -/
def checkTarget (h : Host) (routes : Routes) (registered : Table Dict)
    (targets assumptions : List (String × Dict)) (target : Dict) : Except Exn Unit := do
  let known ← lookIn registered (Value.get target "profile")
  raiseIf (known = none) (suiteError "unknown profile")
  raiseIf (¬ (Value.eq (Value.get target "analysis") (.str "wp") ∨
    Value.eq (Value.get target "analysis") (.str "eva"))) (suiteError "unsupported analysis")
  let profile ← item target "profile"
  checkName (Value.get target "build_id" profile) (suiteError "invalid build ID")
  let names ← elements (Value.get target "assumptions" (.list []))
  names.forM (checkAssumption assumptions)
  checkInput target
  ["harness", "driver", "specs", "kernel_model_check", "wp_strategy_file"].forM (checkFile h target)
  let _ ← strategyOptions target defaultProvers
  routes.frontend target
  checkPipeline target
  checkCompanion targets target

/-- The names of `config/*-targets.json`. -/
def targetManifests (h : Host) : List String :=
  (h.configs.filter fun name => "-targets.json".toList <:+ name.toList).insertionSort (· ≤ ·)

/-- The manifests that `load_registry` reads. -/
def registryPaths (h : Host) : List PurePath :=
  h.under "config/targets.json" :: (targetManifests h).map (fun name => h.under ("config/" ++ name)) ++
    [h.under "config/assumptions.json", h.under "toolchain/assumptions.json"]

/-- The pinned revision, as a commit. -/
def pinnedRevision (revision : Value) : Except Exn String :=
  match revision with
  | .str revision =>
    if isHex 40 revision then .ok revision
    else .error (suiteError "targets must pin a full git commit ID")
  | v =>
    if v.truthy then .error ⟨.typeError, "expected string"⟩
    else .error (suiteError "targets must pin a full git commit ID")

/-- `load_registry(root)`.  The pinned revision is a commit. -/
def loadRegistry (h : Host) (routes : Routes) :
    Except Exn (String × List (String × Dict) × List (String × Dict)) := do
  let r ← (registryPaths h).foldlM (registerManifest h) ⟨.none, [], []⟩
  let revision ← pinnedRevision r.revision
  let registered ← loadProfiles h routes
  r.targets.forM fun p => checkTarget h routes registered r.targets r.assumptions p.2
  .ok (revision, r.targets, r.assumptions)

end Coverage
end Fragma
