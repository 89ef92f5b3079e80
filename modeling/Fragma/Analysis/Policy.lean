import Fragma.Provenance.Functions
import Fragma.Python.Exn
import Fragma.Python.Value

/-!
# What an analysis may be

`fragma/analysis_policy.py`: `model_identity`, `pipeline_identity` and what they use.
One arithmetic policy and one pointer policy are supported, and three pipelines: WP with
RTE, EVA, and EVA behind RTE.  The plan of a target names its functions, its entry and
its builtins, and nothing in it can be taken for an option.

* `modelIdentity`, `analyzerFlags`: the arithmetic and the pointer policy.
* `Identifier`, `Builtin`: names as the patterns of the module accept them.
* `Pipeline`, `pipelineIdentity`: the plan of a target.
* `modelIdentity_eq_ok`, `pipelineIdentity_eq_wpRte`, `pipelineIdentity_eq_eva`: what an
  accepted record and an accepted target look like.
-/

namespace Fragma
namespace Analysis

open Python

/-- `AnalysisPolicyError(message)`. -/
def analysisPolicyError (message : String) : Exn := ⟨.valueError, message⟩

/-! ## The arithmetic and the pointer policy -/

/-- `ARITHMETIC_FLAGS`. -/
def arithmeticFlags : List String :=
  ["-no-warn-signed-overflow", "-no-warn-unsigned-overflow", "-no-warn-signed-downcast",
    "-no-warn-unsigned-downcast", "-no-warn-right-shift-negative"]

/-- `RUNTIME_CHECKS`. -/
def runtimeChecks : Dict := [("pointer_formation", .str "object-or-null")]

/-- `SEMANTIC_KEYS | DOCUMENTARY_KEYS | GENERATED_KEYS`. -/
def analysisKeys : List String :=
  ["wp_model", "arithmetic_flags", "runtime_checks", "shift_count_validity",
    "signed_arithmetic", "pointer_arithmetic", "machdep", "cpp_command", "cpp_extra_args",
    "calibration_cpp_extra_args", "compiler_flags"]

/-- `POINTER_FLAG`. -/
def pointerFlag : String := "-warn-invalid-pointer"

/-- `isinstance(runtime, dict) and runtime == RUNTIME_CHECKS`. -/
def isRuntimeChecks : Value → Bool
  | .dict runtime => Value.eq (.dict runtime) (.dict runtimeChecks)
  | _ => false

/-- `model_identity(analysis)`. -/
def modelIdentity : Value → Except Exn Dict
  | .dict analysis => do
    raiseIf (¬ analysis.all fun p => p.1 ∈ analysisKeys)
      (analysisPolicyError "unknown analysis-policy setting")
    raiseIf (¬ Value.eq (Value.get analysis "wp_model") (.str "Typed"))
      (analysisPolicyError "unsupported WP memory model")
    raiseIf (¬ Value.eq (Value.get analysis "arithmetic_flags") (.list (arithmeticFlags.map .str)))
      (analysisPolicyError "unsupported or incomplete arithmetic policy")
    raiseIf (¬ isRuntimeChecks (Value.get analysis "runtime_checks"))
      (analysisPolicyError "missing or unsupported runtime-check policy")
    .ok (["wp_model", "arithmetic_flags", "runtime_checks"].map fun k =>
      (k, Value.get analysis k))
  | _ => .error (analysisPolicyError "unknown analysis-policy setting")

/-- The arithmetic flags of an identity that is accepted, and the pointer flag. -/
def analyzerFlags (analysis : Value) : Except Exn (List String) :=
  (modelIdentity analysis).map fun _ => arithmeticFlags ++ [pointerFlag]

theorem map_norm_eq_map_str {xs : List Value} {ss : List String}
    (h : xs.map Value.norm = ss.map .str) : xs = ss.map .str := by
  induction xs generalizing ss with
  | nil => exact h
  | cons x xs ih =>
    cases ss with
    | nil => exact absurd h (by simp)
    | cons s ss =>
      rw [List.map_cons, List.map_cons, List.cons.injEq] at h
      rw [List.map_cons, Value.norm_eq_str_iff.mp h.1, ih h.2]

/-- A list that equals a list of strings is that list. -/
theorem eq_list_str_iff {v : Value} {ss : List String} :
    Value.eq v (.list (ss.map .str)) = true ↔ v = .list (ss.map .str) := by
  rw [Value.eq_iff]
  constructor
  · rintro ⟨-, hsame⟩
    have hnorm : (Value.list (ss.map .str)).norm = .list (ss.map .str) := by
      simp only [Value.norm, Value.normList_eq_map, List.map_map]
      rfl
    obtain ⟨xs, rfl, hmap⟩ := Value.norm_eq_list_iff.mp (Eq.trans hsame hnorm)
    rw [map_norm_eq_map_str hmap]
  · rintro rfl
    exact ⟨by simp, rfl⟩

/-- **An accepted identity has the one memory model and the one arithmetic policy.** -/
theorem modelIdentity_eq_ok {analysis : Value} {identity : Dict}
    (h : modelIdentity analysis = .ok identity) :
    identity = [("wp_model", .str "Typed"),
      ("arithmetic_flags", .list (arithmeticFlags.map .str)),
      ("runtime_checks", Value.get identity "runtime_checks")] := by
  cases analysis with
  | dict analysis =>
    unfold modelIdentity at h
    obtain ⟨_, _, h⟩ := bind_eq_ok_iff.mp h
    obtain ⟨_, hmodel, h⟩ := bind_eq_ok_iff.mp h
    obtain ⟨_, hflags, h⟩ := bind_eq_ok_iff.mp h
    obtain ⟨_, _, h⟩ := bind_eq_ok_iff.mp h
    rw [raiseIf_eq_ok_iff, not_not] at hmodel hflags
    rw [← Except.ok.inj h]
    simp only [List.map_cons, List.map_nil, Value.eq_str_iff.mp hmodel, eq_list_str_iff.mp hflags]
    rfl
  | _ => exact absurd h (by simp [modelIdentity])

/-- An accepted record is a dictionary with the one memory model. -/
theorem exists_dict_of_modelIdentity {analysis : Value} {identity : Dict}
    (h : modelIdentity analysis = .ok identity) :
    ∃ entries, analysis = .dict entries ∧ Value.get entries "wp_model" = .str "Typed" := by
  cases analysis with
  | dict analysis =>
    unfold modelIdentity at h
    obtain ⟨_, _, h⟩ := bind_eq_ok_iff.mp h
    obtain ⟨_, hmodel, h⟩ := bind_eq_ok_iff.mp h
    rw [raiseIf_eq_ok_iff, not_not] at hmodel
    exact ⟨analysis, rfl, Value.eq_str_iff.mp hmodel⟩
  | _ => exact absurd h (by simp [modelIdentity])

/-! ## Names -/

/-- A name of C: `[A-Za-z_][A-Za-z0-9_]*`. -/
structure Identifier where
  text : String
  isIdentifier : Provenance.isIdentifier text.toList = true
  deriving DecidableEq

/-- A string that matches the pattern in full. -/
def Identifier.parse? (s : String) : Option Identifier :=
  if h : Provenance.isIdentifier s.toList = true then some ⟨s, h⟩ else none

/-- An explicit builtin of EVA: a function and the builtin that stands for it. -/
structure Builtin where
  function : Identifier
  builtin : Identifier
  deriving DecidableEq

/-- How a builtin is written: the two names with a colon between them. -/
def Builtin.text (b : Builtin) : String := b.function.text ++ ":" ++ b.builtin.text

/-- A string that matches the pattern of a builtin in full. -/
def Builtin.parse? (s : String) : Option Builtin :=
  match s.toList.dropWhile (· ≠ ':') with
  | ':' :: tail =>
    match Identifier.parse? (String.ofList (s.toList.takeWhile (· ≠ ':'))),
      Identifier.parse? (String.ofList tail) with
    | some function, some builtin => some ⟨function, builtin⟩
    | _, _ => none
  | _ => none

/-- The strings of a list, each as the pattern reads it. -/
def readNames {α : Type} (parse? : String → Option α) : List Value → Option (List α)
  | [] => some []
  | .str s :: values =>
    match parse? s, readNames parse? values with
    | some a, some as => some (a :: as)
    | _, _ => none
  | _ :: _ => none

theorem Identifier.text_of_parse? {s : String} {a : Identifier}
    (h : Identifier.parse? s = some a) : a.text = s := by
  unfold Identifier.parse? at h
  split_ifs at h
  rw [← Option.some.inj h]

theorem Builtin.text_of_parse? {s : String} {b : Builtin} (h : Builtin.parse? s = some b) :
    b.text = s := by
  unfold Builtin.parse? at h
  split at h
  · next tail htail =>
    split at h
    · next f g hf hg =>
      rw [← Option.some.inj h, Builtin.text, Identifier.text_of_parse? hf,
        Identifier.text_of_parse? hg]
      apply String.toList_injective
      simp only [String.toList_append, String.toList_ofList]
      have hsplit := List.takeWhile_append_dropWhile (p := (· ≠ ':')) (l := s.toList)
      rw [htail] at hsplit
      rw [List.append_assoc]
      exact hsplit
    · exact absurd h (by simp)
  · exact absurd h (by simp)

/-- A list that is read is the list of what was read. -/
theorem eq_map_of_readNames {α : Type} {parse? : String → Option α} {text : α → String}
    (htext : ∀ {s a}, parse? s = some a → text a = s) {values : List Value} {as : List α}
    (h : readNames parse? values = some as) : values = as.map fun a => .str (text a) := by
  induction values generalizing as with
  | nil => rw [← Option.some.inj h]; rfl
  | cons v values ih =>
    cases v with
    | str s =>
      rw [readNames] at h
      split at h
      · next a as' ha has =>
        rw [← Option.some.inj h, List.map_cons, htext ha, ← ih has]
      · exact absurd h (by simp)
    | _ => exact absurd h (by simp [readNames])

theorem readNames_map {α : Type} (text : α → String) (as : List α) :
    readNames some (as.map fun a => .str (text a)) = some (as.map text) := by
  induction as with
  | nil => rfl
  | cons a as ih => rw [List.map_cons, readNames, ih, List.map_cons]

/-! ## The plan of a target -/

/-- The two engines. -/
inductive Engine where
  | wp
  | eva
  deriving DecidableEq, Repr

/-- How a target names its engine. -/
def Engine.text : Engine → String
  | .wp => "wp"
  | .eva => "eva"

/-- The pipelines of an engine.  The first one is the default. -/
def Engine.kinds : Engine → List String
  | .wp => ["wp-rte"]
  | .eva => ["eva", "rte-eva"]

/-- The plan of an EVA target.  `rteFunctions` are the functions that RTE annotates
first, where it does. -/
structure EvaPlan where
  entry : Identifier
  builtins : List Builtin
  autoBuiltins : Bool
  rteFunctions : Option (List Identifier)
  deriving DecidableEq

/-- The plan of a target. -/
inductive Pipeline where
  | wpRte (functions : List Identifier)
  | eva (plan : EvaPlan)
  deriving DecidableEq

/-- A list of names, as a value. -/
def namesValue (names : List Identifier) : Value := .list (names.map fun a => .str a.text)

/-- `eva_slevel`. -/
def evaSlevel : ℕ := 100

/-- The dictionary that `pipeline_identity` returns. -/
def Pipeline.value : Pipeline → Dict
  | .wpRte functions => [("kind", .str "wp-rte"), ("functions", namesValue functions)]
  | .eva plan =>
    [("kind", .str (if plan.rteFunctions.isSome then "rte-eva" else "eva")),
      ("entry", .str plan.entry.text), ("eva_slevel", .int evaSlevel),
      ("eva_builtins", .list (plan.builtins.map fun b => .str b.text)),
      ("eva_auto_builtins", .bool plan.autoBuiltins)] ++
    match plan.rteFunctions with
    | some functions =>
      [("rte_functions", namesValue functions), ("rte_use_eva_results", .bool false)]
    | none => []

/-- `_functions(value, field)`. -/
def functions (value : Value) (field : String) : Except Exn (List Identifier) :=
  match value with
  | .list values =>
    match readNames Identifier.parse? values with
    | some names =>
      if names ≠ [] ∧ names.Nodup then .ok names
      else .error (analysisPolicyError ("invalid or empty " ++ field))
    | none => .error (analysisPolicyError ("invalid or empty " ++ field))
  | _ => .error (analysisPolicyError ("invalid or empty " ++ field))

/-- `target.get("analysis")`. -/
def declaredEngine (target : Dict) : Except Exn Engine :=
  match Value.get target "analysis" with
  | .str "wp" => .ok .wp
  | .str "eva" => .ok .eva
  | _ => .error (analysisPolicyError "unsupported target analysis")

/-- The kind of the declared pipeline. -/
def declaredKind (target : Dict) (engine : Engine) : Except Exn String :=
  match Value.get target "analysis_pipeline" (.dict [("kind", .str (engine.kinds.headD ""))]) with
  | .dict declaration =>
    match Value.get declaration "kind" with
    | .str kind =>
      if (declaration.all fun p => p.1 = "kind") ∧ kind ∈ engine.kinds then .ok kind
      else .error (analysisPolicyError "unsupported analysis pipeline")
    | _ => .error (analysisPolicyError "unsupported analysis pipeline")
  | _ => .error (analysisPolicyError "unsupported analysis pipeline")

/-- The functions that are analysed.  The functions of the kernel are among them. -/
def selectedFunctions (target : Dict) : Except Exn (List Identifier) := do
  let kernelFunctions ← functions (Value.get target "functions") "kernel function inventory"
  let selected ← functions (Value.get target "analysis_functions" (namesValue kernelFunctions))
    "analysis function inventory"
  raiseIf (¬ kernelFunctions ⊆ selected)
    (analysisPolicyError "analysis inventory omits a selected kernel function")
  .ok selected

/-- `target.get("entry")`. -/
def declaredEntry (target : Dict) : Except Exn Identifier :=
  match Value.get target "entry" with
  | .str s => orRaise (Identifier.parse? s) (analysisPolicyError "invalid EVA entry")
  | _ => .error (analysisPolicyError "invalid EVA entry")

/-- `target.get("eva_builtins", [])`, at most one for each function. -/
def declaredBuiltins (target : Dict) : Except Exn (List Builtin) :=
  match Value.get target "eva_builtins" (.list []) with
  | .list values =>
    match readNames Builtin.parse? values with
    | some builtins =>
      if (builtins.map Builtin.function).Nodup then .ok builtins
      else .error (analysisPolicyError "invalid explicit EVA builtin inventory")
    | none => .error (analysisPolicyError "invalid explicit EVA builtin inventory")
  | _ => .error (analysisPolicyError "invalid explicit EVA builtin inventory")

/-- `target.get("eva_auto_builtins", True)`. -/
def declaredAutoBuiltins (target : Dict) : Except Exn Bool :=
  match Value.get target "eva_auto_builtins" (.bool true) with
  | .bool b => .ok b
  | _ => .error (analysisPolicyError "EVA auto-builtins setting must be Boolean")

/-- The functions that RTE annotates: the selected ones, and the entry. -/
def rteFunctions (selected : List Identifier) (entry : Identifier) : List Identifier :=
  selected ++ if entry ∈ selected then [] else [entry]

/-- `pipeline_identity(target)`. -/
def pipelineIdentity (target : Dict) : Except Exn Pipeline := do
  let engine ← declaredEngine target
  let kind ← declaredKind target engine
  let selected ← selectedFunctions target
  match engine with
  | .wp =>
    raiseIf (Value.has target "eva_builtins" ∨ Value.has target "eva_auto_builtins")
      (analysisPolicyError "EVA-specific settings on a WP target")
    .ok (.wpRte selected)
  | .eva =>
    let entry ← declaredEntry target
    let builtins ← declaredBuiltins target
    let autoBuiltins ← declaredAutoBuiltins target
    .ok (.eva ⟨entry, builtins, autoBuiltins,
      if kind = "rte-eva" then some (rteFunctions selected entry) else none⟩)

/-- `",".join(names)`. -/
def commaJoin (names : List String) : String := ",".intercalate names

/-- What `before_eva_options` returns for a plan. -/
def Pipeline.beforeEva : Pipeline → List String
  | .wpRte _ => []
  | .eva plan =>
    match plan.rteFunctions with
    | some functions =>
      ["-rte", "-rte-select", commaJoin (functions.map Identifier.text),
        "-rte-no-use-eva-results", "-then"]
    | none => []

/-- `before_eva_options(target)`. -/
def beforeEvaOptions (target : Dict) : Except Exn (List String) :=
  (pipelineIdentity target).map Pipeline.beforeEva

/-! ## What an accepted target looks like -/

/-- An entry that is not `None` is there. -/
theorem lookup_of_get {d : Dict} {k : String} {v : Value} (h : Value.get d k = v)
    (hv : v ≠ .none) : d.lookup k = some v := by
  unfold Value.get at h
  cases hk : d.lookup k with
  | none => exact absurd (by rw [← h, hk]; rfl) hv
  | some w =>
    rw [hk] at h
    rw [← h]
    rfl

theorem functions_eq_ok {value : Value} {field : String} {names : List Identifier}
    (h : functions value field = .ok names) : value = namesValue names := by
  unfold functions at h
  split at h
  · split at h
    · next hread =>
      split_ifs at h
      rw [← Except.ok.inj h, eq_map_of_readNames Identifier.text_of_parse? hread]
      rfl
    · exact absurd h (by simp)
  · exact absurd h (by simp)

theorem selectedFunctions_eq_ok {target : Dict} {selected : List Identifier}
    (h : selectedFunctions target = .ok selected) :
    ∃ kernelFunctions, Value.get target "functions" = namesValue kernelFunctions ∧
      Value.get target "analysis_functions" (namesValue kernelFunctions) = namesValue selected ∧
      kernelFunctions ⊆ selected := by
  unfold selectedFunctions at h
  obtain ⟨kernelFunctions, hkernel, h⟩ := bind_eq_ok_iff.mp h
  obtain ⟨selected', hselected, h⟩ := bind_eq_ok_iff.mp h
  obtain ⟨_, hsubset, h⟩ := bind_eq_ok_iff.mp h
  rw [raiseIf_eq_ok_iff, not_not] at hsubset
  obtain rfl := Except.ok.inj h
  exact ⟨kernelFunctions, functions_eq_ok hkernel, functions_eq_ok hselected, hsubset⟩

theorem declaredEntry_eq_ok {target : Dict} {entry : Identifier}
    (h : declaredEntry target = .ok entry) : Value.get target "entry" = .str entry.text := by
  unfold declaredEntry at h
  split at h
  · next s hs =>
    rw [orRaise_eq_ok_iff] at h
    rw [hs, Identifier.text_of_parse? h]
  · exact absurd h (by simp)

theorem declaredBuiltins_eq_ok {target : Dict} {builtins : List Builtin}
    (h : declaredBuiltins target = .ok builtins) :
    Value.get target "eva_builtins" (.list []) =
      .list (builtins.map fun b => .str b.text) := by
  unfold declaredBuiltins at h
  split at h
  · next values hvalues =>
    split at h
    · next hread =>
      split_ifs at h
      rw [← Except.ok.inj h, hvalues, eq_map_of_readNames Builtin.text_of_parse? hread]
    · exact absurd h (by simp)
  · exact absurd h (by simp)

theorem declaredAutoBuiltins_eq_ok {target : Dict} {b : Bool}
    (h : declaredAutoBuiltins target = .ok b) :
    Value.get target "eva_auto_builtins" (.bool true) = .bool b := by
  unfold declaredAutoBuiltins at h
  split at h
  · next heq => rw [heq, Except.ok.inj h]
  · exact absurd h (by simp)

theorem declaredEngine_eq_ok {target : Dict} {engine : Engine}
    (h : declaredEngine target = .ok engine) : Value.get target "analysis" = .str engine.text := by
  unfold declaredEngine at h
  split at h
  · next heq => rw [heq, ← Except.ok.inj h]; rfl
  · next heq => rw [heq, ← Except.ok.inj h]; rfl
  · exact absurd h (by simp)

/-- **An accepted WP target.** -/
theorem pipelineIdentity_eq_wpRte {target : Dict} {selected : List Identifier}
    (h : pipelineIdentity target = .ok (.wpRte selected)) :
    Value.get target "analysis" = .str "wp" ∧ selectedFunctions target = .ok selected := by
  unfold pipelineIdentity at h
  obtain ⟨engine, hengine, h⟩ := bind_eq_ok_iff.mp h
  obtain ⟨kind, -, h⟩ := bind_eq_ok_iff.mp h
  obtain ⟨selected', hselected, h⟩ := bind_eq_ok_iff.mp h
  cases engine with
  | wp =>
    obtain ⟨_, -, h⟩ := bind_eq_ok_iff.mp h
    obtain rfl := Pipeline.wpRte.inj (Except.ok.inj h)
    exact ⟨declaredEngine_eq_ok hengine, hselected⟩
  | eva =>
    obtain ⟨entry, -, h⟩ := bind_eq_ok_iff.mp h
    obtain ⟨builtins, -, h⟩ := bind_eq_ok_iff.mp h
    obtain ⟨autoBuiltins, -, h⟩ := bind_eq_ok_iff.mp h
    exact absurd (Except.ok.inj h) (by simp)

/-- **An accepted EVA target.** -/
theorem pipelineIdentity_eq_eva {target : Dict} {plan : EvaPlan}
    (h : pipelineIdentity target = .ok (.eva plan)) :
    Value.get target "analysis" = .str "eva" ∧
      Value.get target "entry" = .str plan.entry.text ∧
      Value.get target "eva_builtins" (.list []) =
        .list (plan.builtins.map fun b => .str b.text) ∧
      Value.get target "eva_auto_builtins" (.bool true) = .bool plan.autoBuiltins := by
  unfold pipelineIdentity at h
  obtain ⟨engine, hengine, h⟩ := bind_eq_ok_iff.mp h
  obtain ⟨kind, -, h⟩ := bind_eq_ok_iff.mp h
  obtain ⟨selected', -, h⟩ := bind_eq_ok_iff.mp h
  cases engine with
  | wp =>
    obtain ⟨_, -, h⟩ := bind_eq_ok_iff.mp h
    exact absurd (Except.ok.inj h) (by simp)
  | eva =>
    obtain ⟨entry, hentry, h⟩ := bind_eq_ok_iff.mp h
    obtain ⟨builtins, hbuiltins, h⟩ := bind_eq_ok_iff.mp h
    obtain ⟨autoBuiltins, hauto, h⟩ := bind_eq_ok_iff.mp h
    obtain rfl := Pipeline.eva.inj (Except.ok.inj h)
    exact ⟨declaredEngine_eq_ok hengine, declaredEntry_eq_ok hentry,
      declaredBuiltins_eq_ok hbuiltins, declaredAutoBuiltins_eq_ok hauto⟩

end Analysis
end Fragma
