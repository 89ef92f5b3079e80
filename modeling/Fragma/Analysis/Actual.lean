import Mathlib.Data.List.Nodup
import Mathlib.Data.List.Perm.Subperm
import Fragma.Analysis.Policy
import Fragma.Posix.PurePath
import Fragma.Python.Text

/-!
# The command that was run

`fragma/analysis_policy.py`: `_check_model_command` and `validate_actual_policy`.  The
command of an analysis is read back and compared with the plan of its target, and the
audit of the analyzer with the policy.  The command has to name the arithmetic flags and
the pointer flag once, in front of every phase, and nothing that works against them; it
has to end with one report; and between the two stands the engine as the plan has it.

* `namesSemantic`, `isBuiltinControl`, `isRteOption`: what an argument is taken for.
* `checkModelCommand`, `validateActualPolicy`: the checks.
* `Accepted`, `AcceptedPlan`, `validateActualPolicy_accepted`: **what an accepted command
  looks like**.
-/

namespace Fragma
namespace Analysis

open Python Posix

/-! ## What an argument is taken for -/

/-- `SEMANTIC_OPTIONS`. -/
def semanticOptions : List String :=
  ["warn-signed-overflow", "warn-unsigned-overflow", "warn-signed-downcast",
    "warn-unsigned-downcast", "warn-right-shift-negative", "warn-invalid-pointer"]

/-- `STAGE_OPTIONS`. -/
def stageOptions : List String :=
  ["-wp", "-no-wp", "-eva", "-no-eva", "-rte", "-no-rte", "-wp-model",
    "-wp-fct", "-wp-rte", "-wp-no-rte", "-main", "-eva-slevel", "-rte-select",
    "-rte-use-eva-results", "-rte-no-use-eva-results", "-then"]

/-- The options that switch a stage off or reuse its results. -/
def opposingOptions : List String :=
  ["-no-wp", "-no-eva", "-no-rte", "-wp-no-rte", "-rte-use-eva-results"]

/-- The options that start a phase. -/
def phaseOptions : List String := ["-wp", "-rte", "-eva"]

/-- How a control of the builtins of EVA starts, behind its dashes. -/
def builtinControls : List String :=
  ["eva-builtin", "eva-no-builtin", "no-eva-builtin", "val-builtin", "val-no-builtin",
    "no-val-builtin"]

/-- `arg.split("=", 1)[0]`. -/
def beforeEquals (cs : List Char) : List Char := cs.takeWhile (· ≠ '=')

/-- `arg.lstrip("-")`. -/
def stripDashes (cs : List Char) : List Char := cs.dropWhile (· = '-')

/-- `arg.removeprefix("no-")`. -/
def removeNo : List Char → List Char
  | 'n' :: 'o' :: '-' :: cs => cs
  | cs => cs

/-- The argument names a semantic option, with or without dashes, negation and value. -/
def namesSemantic (arg : String) : Bool :=
  semanticOptions.any fun o => o.toList = beforeEquals (removeNo (stripDashes arg.toList))

/-- The argument is an option of a stage with its value behind an equals sign. -/
def isNoncanonical (arg : String) : Bool :=
  '=' ∈ arg.toList && stageOptions.any fun o => o.toList = beforeEquals arg.toList

/-- The argument selects a project or a phase in another way than `-then`. -/
def isPhaseSelector (arg : String) : Bool := startsWith "-then" arg && arg ≠ "-then"

/-- The argument controls the builtins of EVA. -/
def isBuiltinControl (arg : String) : Bool :=
  builtinControls.any fun o => o.toList <+: stripDashes (beforeEquals arg.toList)

/-- The argument is an option of RTE. -/
def isRteOption (arg : String) : Bool := arg = "-rte" || startsWith "-rte-" arg

/-! ## The semantic settings -/

/-- The flags that the command has to name. -/
def expectedFlags : List String := arithmeticFlags ++ [pointerFlag]

/-- What the audit has to say about each flag: `-no-warn-…` is audited as `-warn-…`. -/
def auditedFlags : List (String × String) :=
  [("-warn-signed-overflow", "false"), ("-warn-unsigned-overflow", "false"),
    ("-warn-signed-downcast", "false"), ("-warn-unsigned-downcast", "false"),
    ("-warn-right-shift-negative", "false"), (pointerFlag, "true")]

/-- `audit_parameters["eva"]["correctness-parameters"]`. -/
def correctnessAudit : Value → Except Exn Dict
  | .dict audit =>
    match audit.lookup "eva" with
    | some (.dict eva) =>
      match eva.lookup "correctness-parameters" with
      | some (.dict correctness) => .ok correctness
      | _ => .error (analysisPolicyError "missing actual correctness audit")
    | _ => .error (analysisPolicyError "missing actual correctness audit")
  | _ => .error (analysisPolicyError "missing actual correctness audit")

/-- `correctness.get(key) == value`. -/
def audits (correctness : Dict) (key value : String) : Bool :=
  Value.eq (Value.get correctness key) (.str value)

/-- `_check_model_command(analysis, argv, audit_parameters)`. -/
def checkModelCommand (analysis : Value) (argv : List String) (audit : Value) :
    Except Exn (Dict × Dict) := do
  let identity ← modelIdentity analysis
  raiseIf (argv.any isNoncanonical) (analysisPolicyError "noncanonical analysis option spelling")
  raiseIf (argv.any isPhaseSelector) (analysisPolicyError "unregistered project or phase selector")
  raiseIf (argv.any fun arg => arg ∈ opposingOptions)
    (analysisPolicyError "opposing analysis stage control")
  raiseIf (argv.filter namesSemantic ≠ expectedFlags)
    (analysisPolicyError "actual semantic flags are missing, duplicated or contradictory")
  let firstAnalysis := argv.findIdx fun arg => arg ∈ phaseOptions
  raiseIf (firstAnalysis = argv.length ∨ expectedFlags.any fun flag => firstAnalysis ≤ argv.idxOf flag)
    (analysisPolicyError "semantic flags must precede every analysis phase")
  let correctness ← correctnessAudit audit
  raiseIf (¬ auditedFlags.all fun p => audits correctness p.1 p.2)
    (analysisPolicyError "actual audited semantic settings differ")
  .ok (identity, correctness)

/-! ## The pipeline -/

/-- The option that starts the engine of a plan. -/
def Pipeline.engineOption : Pipeline → String
  | .wpRte _ => "-wp"
  | .eva _ => "-eva"

/-- The end of every command, up to the path of the report. -/
def reportOptions : List String := ["-then", "-report", "-report-absolute-path", "-report-csv"]

/-- `argument(option)`. -/
def argument (argv : List String) (option : String) : Except Exn String :=
  if argv.count option ≠ 1 then
    .error (analysisPolicyError ("missing or duplicated analysis selector: " ++ option))
  else
    orRaise argv[argv.idxOf option + 1]?
      (analysisPolicyError ("missing or duplicated analysis selector: " ++ option))

/-- The options of the EVA phase of a plan. -/
def EvaPlan.options (plan : EvaPlan) : List String :=
  ["-eva", "-main", plan.entry.text, "-eva-slevel", toString evaSlevel] ++
    (if plan.autoBuiltins then [] else ["-eva-no-builtins-auto"]) ++
    if plan.builtins = [] then []
    else ["-eva-builtin", commaJoin (plan.builtins.map Builtin.text)]

/-- What the audit has to say about the builtins that are named explicitly. -/
def EvaPlan.auditedBuiltins (plan : EvaPlan) : String :=
  if plan.builtins = [] then "" else "@default," ++ commaJoin (plan.builtins.map Builtin.text)

/-- The checks of the end of the command. -/
def checkReport (argv : List String) : Except Exn Unit :=
  raiseIf (argv.length < 5 ∨ (argv.drop (argv.length - 5)).take 4 ≠ reportOptions ∨
    ¬ (PurePath.parse (argv.getLastD "")).IsAbsolute ∨
    reportOptions.tail.any fun option => argv.count option ≠ 1)
    (analysisPolicyError "analysis must end with exactly one unchanged report phase")

/-- The audit of an EVA target. -/
def checkEvaAudit (plan : EvaPlan) (correctness : Dict) : Except Exn Unit := do
  raiseIf (¬ audits correctness "-main" plan.entry.text)
    (analysisPolicyError "actual audited EVA entry differs")
  raiseIf (¬ audits correctness "-eva-builtins-auto" (if plan.autoBuiltins then "true" else "false") ∨
    ¬ audits correctness "-eva-builtin" plan.auditedBuiltins)
    (analysisPolicyError "actual audited EVA builtin semantics differ")

/-- The command of a WP target. -/
def checkWp (identity : Dict) (functions : List Identifier) (argv : List String) :
    Except Exn Unit := do
  raiseIf (argv.count "-wp" ≠ 1 ∨ "-eva" ∈ argv ∨ argv.count "-wp-rte" ≠ 1)
    (analysisPolicyError "actual WP/RTE function selection differs")
  let model ← argument argv "-wp-model"
  raiseIf (¬ Value.eq (.str model) (Value.get identity "wp_model"))
    (analysisPolicyError "actual WP/RTE function selection differs")
  let selected ← argument argv "-wp-fct"
  raiseIf (selected ≠ commaJoin (functions.map Identifier.text))
    (analysisPolicyError "actual WP/RTE function selection differs")
  raiseIf (argv.any isBuiltinControl) (analysisPolicyError "EVA builtin controls on a WP command")

/-- The command of an EVA target. -/
def checkEva (plan : EvaPlan) (argv : List String) : Except Exn Unit := do
  raiseIf (argv.count "-eva" ≠ 1 ∨ "-wp" ∈ argv ∨
    ["-wp-model", "-wp-fct", "-wp-rte"].any fun arg => arg ∈ argv)
    (analysisPolicyError "actual EVA selection or precision differs")
  let entry ← argument argv "-main"
  raiseIf (entry ≠ plan.entry.text) (analysisPolicyError "actual EVA selection or precision differs")
  let slevel ← argument argv "-eva-slevel"
  raiseIf (slevel ≠ toString evaSlevel)
    (analysisPolicyError "actual EVA selection or precision differs")
  let evaIndex := argv.idxOf "-eva"
  raiseIf ((argv.take (argv.length - 5)).drop evaIndex ≠ plan.options ∨
    (argv.take evaIndex).any isBuiltinControl)
    (analysisPolicyError "actual EVA phase or builtin controls differ")

/-- The phases of the command. -/
def checkPhases (pipeline : Pipeline) (argv : List String) : Except Exn Unit :=
  if pipeline.beforeEva ≠ [] then
    raiseIf (argv.count "-rte" ≠ 1 ∨ argv.count "-eva" ≠ 1 ∨
      argv.filter isRteOption ≠ ["-rte", "-rte-select", "-rte-no-use-eva-results"] ∨
      (argv.take (argv.idxOf "-eva")).drop (argv.idxOf "-rte") ≠ pipeline.beforeEva ∨
      argv.count "-then" ≠ 2)
      (analysisPolicyError "RTE must precede EVA exactly once without result reuse")
  else
    raiseIf (argv.filter isRteOption ≠ [] ∨ argv.count "-then" ≠ 1)
      (analysisPolicyError "unregistered analysis stage")

/-- What a successful check returns. -/
structure CheckedPolicy where
  model : Dict
  pipeline : Pipeline

/-- `validate_actual_policy(analysis, target, argv, audit_parameters)`. -/
def validateActualPolicy (analysis : Value) (target : Dict) (argv : List String) (audit : Value) :
    Except Exn CheckedPolicy := do
  let (identity, correctness) ← checkModelCommand analysis argv audit
  let pipeline ← pipelineIdentity target
  checkReport argv
  raiseIf (pipeline.engineOption ∉ argv ∨ argv.length - 5 ≤ argv.idxOf pipeline.engineOption)
    (analysisPolicyError "analysis engine must precede the final report phase")
  match pipeline with
  | .wpRte functions => checkWp identity functions argv
  | .eva plan => do
    checkEvaAudit plan correctness
    checkEva plan argv
  checkPhases pipeline argv
  .ok ⟨identity, pipeline⟩

/-! ## What an accepted command looks like -/

/-- The option stands in the command once, with its value behind it. -/
def Selects (argv : List String) (option value : String) : Prop :=
  ∃ front back, argv = front ++ option :: value :: back ∧ option ∉ front ∧
    option ∉ value :: back

/-- An accepted command of a WP target. -/
structure AcceptedWp (functions : List Identifier) (argv : List String) : Prop where
  wp : argv.count "-wp" = 1
  wpRte : argv.count "-wp-rte" = 1
  eva : "-eva" ∉ argv
  model : Selects argv "-wp-model" "Typed"
  selected : Selects argv "-wp-fct" (commaJoin (functions.map Identifier.text))
  builtins : ∀ arg ∈ argv, isBuiltinControl arg = false
  rte : ∀ arg ∈ argv, isRteOption arg = false
  phases : argv.count "-then" = 1

/-- An argument in front of the phases of an EVA target: it starts no phase, is no option
of RTE and controls no builtin. -/
structure IsPreamble (arg : String) : Prop where
  phase : arg ∉ phaseOptions
  selector : arg ≠ "-then"
  rte : isRteOption arg = false
  builtins : isBuiltinControl arg = false

/-- An accepted command of an EVA target.  All but what stands in front of the first
phase and the path of the report comes from the plan. -/
structure AcceptedEva (plan : EvaPlan) (argv : List String) : Prop where
  shape : ∃ front path, argv = front ++ ((Pipeline.eva plan).beforeEva ++ plan.options ++
    reportOptions ++ [path]) ∧ ∀ arg ∈ front, IsPreamble arg
  noWp : ∀ arg ∈ ["-wp", "-wp-model", "-wp-fct", "-wp-rte"], arg ∉ argv

/-- An accepted command, whatever its engine. -/
structure Accepted (argv : List String) : Prop where
  canonical : ∀ arg ∈ argv, isNoncanonical arg = false ∧ isPhaseSelector arg = false ∧
    arg ∉ opposingOptions
  flags : argv.filter namesSemantic = expectedFlags
  once : ∀ flag ∈ expectedFlags, argv.count flag = 1
  first : ∃ front phase back, argv = front ++ phase :: back ∧ phase ∈ phaseOptions ∧
    (∀ arg ∈ front, arg ∉ phaseOptions) ∧ front.filter namesSemantic = expectedFlags
  report : ∃ front path, argv = front ++ reportOptions ++ [path] ∧
    (PurePath.parse path).IsAbsolute ∧ ∀ option ∈ reportOptions.tail, argv.count option = 1

theorem namesSemantic_of_mem_expectedFlags {flag : String} (h : flag ∈ expectedFlags) :
    namesSemantic flag = true := by
  have hall : expectedFlags.all namesSemantic = true := by decide +kernel
  exact List.all_eq_true.mp hall flag h

theorem nodup_expectedFlags : expectedFlags.Nodup := by decide +kernel

/-- The flags stand in front of the first phase. -/
theorem exists_first_phase {argv : List String} (hflags : argv.filter namesSemantic = expectedFlags)
    (hphase : argv.findIdx (fun arg => arg ∈ phaseOptions) ≠ argv.length)
    (hbefore : ∀ flag ∈ expectedFlags,
      argv.idxOf flag < argv.findIdx fun arg => arg ∈ phaseOptions) :
    ∃ front phase back, argv = front ++ phase :: back ∧ phase ∈ phaseOptions ∧
      (∀ arg ∈ front, arg ∉ phaseOptions) ∧ front.filter namesSemantic = expectedFlags := by
  generalize hi : argv.findIdx (fun arg => arg ∈ phaseOptions) = i at hphase hbefore
  have hlt : i < argv.length := lt_of_le_of_ne (hi ▸ List.findIdx_le_length) hphase
  have hsplit : argv = argv.take i ++ argv[i] :: argv.drop (i + 1) := by
    rw [List.getElem_cons_drop, List.take_append_drop]
  refine ⟨argv.take i, argv[i], argv.drop (i + 1), hsplit, ?_, ?_, ?_⟩
  · subst hi
    simpa using List.findIdx_getElem (w := hlt)
  · intro arg harg
    obtain ⟨j, hj, rfl⟩ := List.mem_take_iff_getElem.mp harg
    have hjlt : j < argv.findIdx (fun arg => arg ∈ phaseOptions) := by omega
    simpa using List.not_of_lt_findIdx hjlt
  · -- a prefix of the flags that has all of them is all of them
    rw [hsplit, List.filter_append] at hflags
    have hprefix : (argv.take i).filter namesSemantic <+: expectedFlags := ⟨_, hflags⟩
    refine hprefix.eq_of_length_le (List.Nodup.subperm nodup_expectedFlags fun flag hflag => ?_).length_le
    refine List.mem_filter.mpr ⟨?_, namesSemantic_of_mem_expectedFlags hflag⟩
    have hlt' := hbefore flag hflag
    have hmem : argv.idxOf flag < argv.length := by omega
    rw [← List.getElem_idxOf hmem]
    exact List.mem_take_iff_getElem.mpr ⟨_, by omega, rfl⟩

/-- What the check of the model says about the command. -/
theorem checkModelCommand_eq_ok {analysis audit : Value} {argv : List String}
    {checked : Dict × Dict} (h : checkModelCommand analysis argv audit = .ok checked) :
    modelIdentity analysis = .ok checked.1 ∧
    (∀ arg ∈ argv, isNoncanonical arg = false ∧ isPhaseSelector arg = false ∧
      arg ∉ opposingOptions) ∧
    argv.filter namesSemantic = expectedFlags ∧
    ∃ front phase back, argv = front ++ phase :: back ∧ phase ∈ phaseOptions ∧
      (∀ arg ∈ front, arg ∉ phaseOptions) ∧ front.filter namesSemantic = expectedFlags := by
  unfold checkModelCommand at h
  obtain ⟨identity, hidentity, h⟩ := bind_eq_ok_iff.mp h
  obtain ⟨_, hcanonical, h⟩ := bind_eq_ok_iff.mp h
  obtain ⟨_, hselector, h⟩ := bind_eq_ok_iff.mp h
  obtain ⟨_, hopposing, h⟩ := bind_eq_ok_iff.mp h
  obtain ⟨_, hflags, h⟩ := bind_eq_ok_iff.mp h
  obtain ⟨_, hfirst, h⟩ := bind_eq_ok_iff.mp h
  obtain ⟨correctness, -, h⟩ := bind_eq_ok_iff.mp h
  obtain ⟨_, -, h⟩ := bind_eq_ok_iff.mp h
  rw [raiseIf_eq_ok_iff] at hcanonical hselector hopposing hflags hfirst
  rw [not_not] at hflags
  rw [not_or] at hfirst
  obtain rfl := Except.ok.inj h
  refine ⟨hidentity, fun arg harg => ⟨?_, ?_, ?_⟩, hflags, exists_first_phase hflags hfirst.1 ?_⟩
  · by_contra hno
    exact hcanonical (List.any_eq_true.mpr ⟨arg, harg, Bool.eq_true_of_not_eq_false hno⟩)
  · by_contra hno
    exact hselector (List.any_eq_true.mpr ⟨arg, harg, Bool.eq_true_of_not_eq_false hno⟩)
  · intro hno
    exact hopposing (List.any_eq_true.mpr ⟨arg, harg, decide_eq_true hno⟩)
  · intro flag hflag
    by_contra hno
    exact hfirst.2 (List.any_eq_true.mpr ⟨flag, hflag, decide_eq_true (not_lt.mp hno)⟩)

/-- The command ends with the report. -/
theorem checkReport_eq_ok {argv : List String} {u : Unit} (h : checkReport argv = .ok u) :
    ∃ front path, argv = front ++ reportOptions ++ [path] ∧ front.length = argv.length - 5 ∧
      (PurePath.parse path).IsAbsolute ∧ ∀ option ∈ reportOptions.tail, argv.count option = 1 := by
  unfold checkReport at h
  rw [raiseIf_eq_ok_iff, not_or, not_or, not_or, not_not, not_not] at h
  obtain ⟨hlength, hoptions, habsolute, hcounts⟩ := h
  have hlen5 : (argv.drop (argv.length - 5)).length = 5 := by
    rw [List.length_drop]
    omega
  have hlast : (argv.drop (argv.length - 5)).drop 4 = [argv.getLastD ""] := by
    rw [List.drop_drop]
    have hne : argv ≠ [] := by
      rintro rfl
      simp at hlength
    rw [show argv.length - 5 + 4 = argv.length - 1 by omega, List.drop_length_sub_one hne,
      List.getLastD_eq_getLast?, List.getLast?_eq_some_getLast hne]
    rfl
  refine ⟨argv.take (argv.length - 5), argv.getLastD "", ?_, ?_, habsolute, fun option hoption => ?_⟩
  · rw [List.append_assoc, ← hlast, ← hoptions, List.take_append_drop, List.take_append_drop]
  · rw [List.length_take]
    omega
  · by_contra hno
    exact hcounts (List.any_eq_true.mpr ⟨option, hoption, decide_eq_true hno⟩)

/-- An argument that stands in a command once splits it. -/
theorem exists_split_of_count {argv : List String} {arg : String} (h : argv.count arg = 1) :
    ∃ front back, argv = front ++ arg :: back ∧ arg ∉ front ∧ arg ∉ back ∧
      argv.idxOf arg = front.length := by
  have hmem : arg ∈ argv := List.count_pos_iff.mp (by omega)
  obtain ⟨front, back, rfl, hfront⟩ := List.eq_append_cons_of_mem hmem
  refine ⟨front, back, rfl, hfront, ?_, ?_⟩
  · rw [List.count_append, List.count_cons_self] at h
    exact List.count_eq_zero.mp (by omega)
  · rw [List.idxOf_append_of_notMem hfront, List.idxOf_cons_self, Nat.add_zero]

/-- A selector that is found has its value behind it. -/
theorem argument_eq_ok {argv : List String} {option value : String}
    (h : argument argv option = .ok value) : Selects argv option value := by
  unfold argument at h
  split_ifs at h with hcount
  rw [orRaise_eq_ok_iff] at h
  obtain ⟨front, back, rfl, hfront, hback, hidx⟩ := exists_split_of_count (not_not.mp hcount)
  rw [hidx, List.getElem?_append_right (by omega), Nat.add_sub_cancel_left,
    List.getElem?_cons_succ] at h
  cases back with
  | nil => exact absurd h (by simp)
  | cons v back =>
    obtain rfl := Option.some.inj h
    exact ⟨front, back, rfl, hfront, hback⟩

theorem checkWp_eq_ok {identity : Dict} {functions : List Identifier} {argv : List String} {u : Unit}
    (hidentity : Value.get identity "wp_model" = .str "Typed")
    (h : checkWp identity functions argv = .ok u) :
    argv.count "-wp" = 1 ∧ argv.count "-wp-rte" = 1 ∧ "-eva" ∉ argv ∧
    Selects argv "-wp-model" "Typed" ∧
    Selects argv "-wp-fct" (commaJoin (functions.map Identifier.text)) ∧
    ∀ arg ∈ argv, isBuiltinControl arg = false := by
  unfold checkWp at h
  obtain ⟨_, hcounts, h⟩ := bind_eq_ok_iff.mp h
  obtain ⟨model, hmodel, h⟩ := bind_eq_ok_iff.mp h
  obtain ⟨_, htyped, h⟩ := bind_eq_ok_iff.mp h
  obtain ⟨selected, hselected, h⟩ := bind_eq_ok_iff.mp h
  obtain ⟨_, hfunctions, h⟩ := bind_eq_ok_iff.mp h
  rw [raiseIf_eq_ok_iff] at hcounts htyped hfunctions h
  rw [not_or, not_or, not_not, not_not] at hcounts
  rw [not_not] at hfunctions
  rw [not_not, hidentity, Value.eq_str_iff, Value.str.injEq] at htyped
  rw [htyped] at hmodel
  rw [hfunctions] at hselected
  refine ⟨hcounts.1, hcounts.2.2, hcounts.2.1, argument_eq_ok hmodel, argument_eq_ok hselected,
    fun arg harg => ?_⟩
  by_contra hno
  exact h (List.any_eq_true.mpr ⟨arg, harg, Bool.eq_true_of_not_eq_false hno⟩)

/-- The command of an EVA target goes on from `-eva` as the plan has it. -/
theorem checkEva_eq_ok {plan : EvaPlan} {argv front : List String} {path : String} {u : Unit}
    (hargv : argv = front ++ reportOptions ++ [path]) (h : checkEva plan argv = .ok u)
    (hengine : argv.idxOf "-eva" < front.length) :
    (∀ arg ∈ ["-wp", "-wp-model", "-wp-fct", "-wp-rte"], arg ∉ argv) ∧
    ∃ before, argv = before ++ (plan.options ++ reportOptions ++ [path]) ∧ "-eva" ∉ before ∧
      argv.idxOf "-eva" = before.length ∧ ∀ arg ∈ before, isBuiltinControl arg = false := by
  unfold checkEva at h
  obtain ⟨_, hcounts, h⟩ := bind_eq_ok_iff.mp h
  obtain ⟨entry, -, h⟩ := bind_eq_ok_iff.mp h
  obtain ⟨_, -, h⟩ := bind_eq_ok_iff.mp h
  obtain ⟨slevel, -, h⟩ := bind_eq_ok_iff.mp h
  obtain ⟨_, -, h⟩ := bind_eq_ok_iff.mp h
  rw [raiseIf_eq_ok_iff, not_or, not_or, not_not] at hcounts
  rw [raiseIf_eq_ok_iff, not_or, not_not] at h
  obtain ⟨hcount, hwp, hothers⟩ := hcounts
  obtain ⟨hslice, hcontrols⟩ := h
  have hlength : argv.length - 5 = front.length := by
    rw [hargv, List.length_append, List.length_append]
    simp [reportOptions]
  rw [hlength, hargv, List.append_assoc, List.take_left] at hslice
  rw [← List.append_assoc, ← hargv] at hslice
  constructor
  · intro arg harg hmem
    rcases List.mem_cons.mp harg with rfl | harg
    · exact hwp hmem
    · refine hothers (List.any_eq_true.mpr ⟨arg, ?_, decide_eq_true hmem⟩)
      simp only [List.mem_cons, List.not_mem_nil, or_false] at harg ⊢
      tauto
  · refine ⟨argv.take (argv.idxOf "-eva"), ?_, ?_, ?_, fun arg harg => ?_⟩
    · rw [← hslice, ← List.append_assoc, ← List.append_assoc]
      conv_lhs => rw [hargv]
      congr 2
      rw [hargv, List.append_assoc, List.take_append_of_le_length (by
        rw [← List.append_assoc, ← hargv]; omega)]
      exact (List.take_append_drop _ _).symm
    · obtain ⟨before, after, hsplit, hbefore, -, hidx⟩ := exists_split_of_count hcount
      rw [hidx, hsplit, List.take_left]
      exact hbefore
    · rw [List.length_take]
      have htotal : argv.length = front.length + 5 := by
        rw [hargv, List.length_append, List.length_append]
        rfl
      omega
    · by_contra hno
      exact hcontrols (List.any_eq_true.mpr ⟨arg, harg, Bool.eq_true_of_not_eq_false hno⟩)

theorem count_then_reportOptions (path : String) :
    1 ≤ (reportOptions ++ [path]).count "-then" :=
  List.count_pos_iff.mpr (List.mem_append_left _ List.mem_cons_self)

/-- In front of the first phase of an EVA command stands nothing that belongs to a
phase. -/
theorem isPreamble_of_counts {front : List String} (hwp : "-wp" ∉ front) (heva : "-eva" ∉ front)
    (hrte : front.filter isRteOption = []) (hthen : front.count "-then" = 0)
    (hbuiltins : ∀ arg ∈ front, isBuiltinControl arg = false) :
    ∀ arg ∈ front, IsPreamble arg := by
  intro arg harg
  have hnot : isRteOption arg = false := by
    simpa using List.filter_eq_nil_iff.mp hrte arg harg
  refine ⟨?_, ?_, hnot, hbuiltins arg harg⟩
  · intro hphase
    simp only [phaseOptions, List.mem_cons, List.not_mem_nil, or_false] at hphase
    rcases hphase with rfl | rfl | rfl
    · exact hwp harg
    · exact absurd hnot (by decide +kernel)
    · exact heva harg
  · rintro rfl
    exact List.count_eq_zero.mp hthen harg

/-- **The phases of an accepted EVA command.** -/
theorem acceptedEva_of_checks {plan : EvaPlan} {argv before : List String} {path : String} {u : Unit}
    (hwp : ∀ arg ∈ ["-wp", "-wp-model", "-wp-fct", "-wp-rte"], arg ∉ argv)
    (hargv : argv = before ++ (plan.options ++ reportOptions ++ [path])) (heva : "-eva" ∉ before)
    (hidx : argv.idxOf "-eva" = before.length)
    (hbuiltins : ∀ arg ∈ before, isBuiltinControl arg = false)
    (h : checkPhases (.eva plan) argv = .ok u) : AcceptedEva plan argv := by
  have hbefore : ∀ arg ∈ before, arg ∈ argv := fun arg harg =>
    hargv ▸ List.mem_append_left _ harg
  have hnowp : "-wp" ∉ before := fun hmem => hwp _ List.mem_cons_self (hbefore _ hmem)
  have hthen : 1 ≤ (plan.options ++ reportOptions ++ [path]).count "-then" := by
    rw [List.append_assoc, List.count_append]
    have := count_then_reportOptions path
    omega
  unfold checkPhases at h
  split_ifs at h with hrte
  · -- RTE comes first: the slice up to `-eva` is what the plan has in front of it
    rw [raiseIf_eq_ok_iff, not_or, not_or, not_or, not_or, not_not, not_not, not_not, not_not,
      not_not] at h
    obtain ⟨-, -, hfilter, hslice, hcount⟩ := h
    have htake : argv.take (argv.idxOf "-eva") = before := by
      rw [hidx, hargv, List.take_left]
    rw [htake] at hslice
    have hsplit : before = before.take (argv.idxOf "-rte") ++ (Pipeline.eva plan).beforeEva := by
      rw [← hslice, List.take_append_drop]
    generalize before.take (argv.idxOf "-rte") = front at hsplit
    have hfull : argv = front ++ ((Pipeline.eva plan).beforeEva ++ plan.options ++ reportOptions ++
        [path]) := by
      rw [hargv, hsplit]
      simp only [List.append_assoc]
    have hmem : ∀ arg ∈ front, arg ∈ before := fun arg harg =>
      hsplit ▸ List.mem_append_left _ harg
    cases hfunctions : plan.rteFunctions with
    | none => exact absurd (by simp [Pipeline.beforeEva, hfunctions]) hrte
    | some functions =>
      have hbeforeEva : (Pipeline.eva plan).beforeEva =
          ["-rte", "-rte-select", commaJoin (functions.map Identifier.text),
            "-rte-no-use-eva-results", "-then"] := by
        simp [Pipeline.beforeEva, hfunctions]
      refine ⟨⟨front, path, hfull, isPreamble_of_counts (fun h => hnowp (hmem _ h))
        (fun h => heva (hmem _ h)) ?_ ?_ fun arg harg => hbuiltins arg (hmem arg harg)⟩, hwp⟩
      · -- three options of RTE are there already
        have hthree : 3 ≤ ((Pipeline.eva plan).beforeEva.filter isRteOption).length := by
          have hsub : ["-rte", "-rte-select", "-rte-no-use-eva-results"].Sublist
              ((Pipeline.eva plan).beforeEva.filter isRteOption) := by
            rw [hbeforeEva]
            have hlist : ["-rte", "-rte-select", "-rte-no-use-eva-results"].filter isRteOption =
                ["-rte", "-rte-select", "-rte-no-use-eva-results"] := by decide +kernel
            conv_lhs => rw [← hlist]
            exact List.Sublist.filter _ (by simp)
          exact hsub.length_le
        have hlength := congrArg List.length hfilter
        rw [hfull, List.filter_append, List.filter_append, List.filter_append, List.filter_append]
          at hlength
        simp only [List.length_append, List.length_cons, List.length_nil] at hlength
        exact List.length_eq_zero_iff.mp (by omega)
      · have hone : 1 ≤ (Pipeline.eva plan).beforeEva.count "-then" := by
          rw [hbeforeEva]
          exact List.count_pos_iff.mpr (by simp)
        rw [hargv, hsplit, List.count_append, List.count_append] at hcount
        omega
  · rw [raiseIf_eq_ok_iff, not_or, not_not, not_not] at h
    obtain ⟨hfilter, hcount⟩ := h
    refine ⟨⟨before, path, ?_, isPreamble_of_counts hnowp heva ?_ ?_ hbuiltins⟩, hwp⟩
    · rw [not_not.mp hrte, List.nil_append]
      exact hargv
    · rw [hargv, List.filter_append, List.append_eq_nil_iff] at hfilter
      exact hfilter.1
    · rw [hargv, List.count_append] at hcount
      omega

/-- What the plan says about an accepted command. -/
def AcceptedPlan (argv : List String) : Pipeline → Prop
  | .wpRte functions => AcceptedWp functions argv
  | .eva plan => AcceptedEva plan argv

/-- **An accepted command is what the plan says.** -/
theorem validateActualPolicy_accepted {analysis audit : Value} {target : Dict} {argv : List String}
    {checked : CheckedPolicy} (h : validateActualPolicy analysis target argv audit = .ok checked) :
    pipelineIdentity target = .ok checked.pipeline ∧ Accepted argv ∧
      AcceptedPlan argv checked.pipeline := by
  unfold validateActualPolicy at h
  obtain ⟨⟨identity, correctness⟩, hmodel, h⟩ := bind_eq_ok_iff.mp h
  obtain ⟨pipeline, hpipeline, h⟩ := bind_eq_ok_iff.mp h
  obtain ⟨_, hreport, h⟩ := bind_eq_ok_iff.mp h
  obtain ⟨_, hengine, h⟩ := bind_eq_ok_iff.mp h
  obtain ⟨hidentity, hcanonical, hflags, hfirst⟩ := checkModelCommand_eq_ok hmodel
  obtain ⟨front, path, hargv, hfront, habsolute, hcounts⟩ := checkReport_eq_ok hreport
  have haccepted : Accepted argv :=
    { canonical := hcanonical
      flags := hflags
      once := fun flag hflag => by
        have hcount : argv.count flag = (argv.filter namesSemantic).count flag := by
          rw [List.count_filter (namesSemantic_of_mem_expectedFlags hflag)]
        rw [hcount, hflags]
        exact List.count_eq_one_of_mem nodup_expectedFlags hflag
      first := hfirst
      report := ⟨front, path, hargv, habsolute, hcounts⟩ }
  cases pipeline with
  | wpRte functions =>
    obtain ⟨_, hwp, h⟩ := bind_eq_ok_iff.mp h
    obtain ⟨_, hphases, h⟩ := bind_eq_ok_iff.mp h
    obtain rfl := Except.ok.inj h
    refine ⟨hpipeline, haccepted, ?_⟩
    have htyped : Value.get identity "wp_model" = .str "Typed" := by
      have hfields : identity = _ := modelIdentity_eq_ok hidentity
      rw [hfields]
      rfl
    obtain ⟨hone, hrte, heva, hselects, hfunctions, hbuiltins⟩ := checkWp_eq_ok htyped hwp
    unfold checkPhases at hphases
    rw [if_neg (by simp [Pipeline.beforeEva]), raiseIf_eq_ok_iff, not_or, not_not, not_not] at hphases
    exact
      { wp := hone
        wpRte := hrte
        eva := heva
        model := hselects
        selected := hfunctions
        builtins := hbuiltins
        rte := fun arg harg => by simpa using List.filter_eq_nil_iff.mp hphases.1 arg harg
        phases := hphases.2 }
  | eva plan =>
    obtain ⟨_, -, h⟩ := bind_eq_ok_iff.mp h
    obtain ⟨_, heva, h⟩ := bind_eq_ok_iff.mp h
    obtain ⟨_, hphases, h⟩ := bind_eq_ok_iff.mp h
    obtain rfl := Except.ok.inj h
    refine ⟨hpipeline, haccepted, ?_⟩
    rw [raiseIf_eq_ok_iff, not_or, not_le] at hengine
    obtain ⟨hnowp, before, hshape, hnot, hidx, hbuiltins⟩ :=
      checkEva_eq_ok hargv heva (hfront ▸ hengine.2)
    exact acceptedEva_of_checks hnowp hshape hnot hidx hbuiltins hphases

end Analysis
end Fragma
