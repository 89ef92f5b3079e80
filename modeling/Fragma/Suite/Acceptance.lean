import Fragma.Suite.Skeleton

/-!
# The command that is built is the command that is accepted

`execute_target` builds the command of a target, and `validate_actual_policy` reads it
back.  The two were written apart.  Each check of the validator looks at the skeleton of
the command, at a selector with its value, or at the phases, and these are known for
every shape of a target.

* `checkModelCommand_of_skeleton`, `checkReport_of_skeleton`, `argument_of_split`: the
  checks, one by one.
* `Reports`: the audit says what the plan says.
* `validateActualPolicy_wp`, `validateActualPolicy_eva`: the command passes.
* `analysisCommand_agrees`: **what is built is accepted, and what is accepted is fixed by
  the plan**.
-/

namespace Fragma
namespace Suite

open Python Posix Analysis

/-! ## The checks, one by one -/

/-- A list of options that may follow the flags: it starts a phase and works against
nothing. -/
def isSoundSkeleton (options : List String) : Bool :=
  !(expectedFlags ++ options).any isNoncanonical && !(expectedFlags ++ options).any isPhaseSelector &&
    !((expectedFlags ++ options).any fun arg => arg ∈ opposingOptions) &&
    (expectedFlags ++ options).filter namesSemantic = expectedFlags &&
    (options.any fun arg => arg ∈ phaseOptions) && !expectedFlags.any fun arg => arg ∈ phaseOptions

theorem mem_watchedOptions_of_mem {arg : String} (h : arg ∈ opposingOptions ∨ arg ∈ phaseOptions) :
    isNeutral arg = false := by
  have hall : (opposingOptions ++ phaseOptions).all (fun o => !isNeutral o) = true := by
    decide +kernel
  simpa using List.all_eq_true.mp hall arg (List.mem_append.mpr h)

/-- The model check passes on a command whose skeleton is sound. -/
theorem checkModelCommand_of_skeleton {analysis audit : Value} {identity correctness : Dict}
    {front back options : List String} (hidentity : modelIdentity analysis = .ok identity)
    (hfront : skeleton front = expectedFlags) (hback : skeleton back = options)
    (hsound : isSoundSkeleton options = true) (hcorrectness : correctnessAudit audit = .ok correctness)
    (haudits : auditedFlags.all fun p => audits correctness p.1 p.2) :
    checkModelCommand analysis (front ++ back) audit = .ok (identity, correctness) := by
  simp only [isSoundSkeleton, Bool.and_eq_true, Bool.not_eq_true', decide_eq_true_eq] at hsound
  obtain ⟨⟨⟨⟨⟨hcanonical, hselector⟩, hopposing⟩, hflags⟩, hphase⟩, hnophase⟩ := hsound
  have hskeleton : skeleton (front ++ back) = expectedFlags ++ options := by
    rw [skeleton_append, hfront, hback]
  have h1 : (front ++ back).any isNoncanonical = false := by
    rw [← any_skeleton (fun arg h => (isNeutral_iff.mp h).2.1), hskeleton, hcanonical]
  have h2 : (front ++ back).any isPhaseSelector = false := by
    rw [← any_skeleton (fun arg h => (isNeutral_iff.mp h).2.2.1), hskeleton, hselector]
  have h3 : ((front ++ back).any fun arg => arg ∈ opposingOptions) = false := by
    rw [← any_skeleton, hskeleton, hopposing]
    intro arg h
    by_contra hno
    have := mem_watchedOptions_of_mem (Or.inl (of_decide_eq_true (Bool.eq_true_of_not_eq_false hno)))
    exact absurd (h.symm.trans this) (by simp)
  have h4 : (front ++ back).filter namesSemantic = expectedFlags := by
    rw [← filter_skeleton (fun arg h => (isNeutral_iff.mp h).1), hskeleton, hflags]
  -- every flag is in front of the first phase
  have hbefore : ∀ arg ∈ front, ¬ arg ∈ phaseOptions := by
    intro arg harg hmem
    rw [← mem_skeleton (mem_watchedOptions_of_mem (Or.inr hmem)), hfront] at harg
    exact List.any_eq_false.mp hnophase arg harg (decide_eq_true hmem)
  obtain ⟨phase, hphase, hmem⟩ := List.any_eq_true.mp hphase
  rw [← hback] at hphase
  have hphaseBack : phase ∈ back := (List.mem_filter.mp hphase).1
  have hfirst : front.length ≤ (front ++ back).findIdx fun arg => arg ∈ phaseOptions := by
    rw [List.findIdx_append]
    have hnone : front.findIdx (fun arg => arg ∈ phaseOptions) = front.length := by
      rw [List.findIdx_eq_length]
      intro arg harg
      simpa using hbefore arg harg
    rw [hnone, if_neg (lt_irrefl _)]
    omega
  have hlt : (front ++ back).findIdx (fun arg => arg ∈ phaseOptions) < (front ++ back).length :=
    List.findIdx_lt_length_of_exists ⟨phase, List.mem_append_right _ hphaseBack, hmem⟩
  have h5 : ¬ ((front ++ back).findIdx (fun arg => arg ∈ phaseOptions) = (front ++ back).length ∨
      (expectedFlags.any fun flag => (front ++ back).findIdx (fun arg => arg ∈ phaseOptions) ≤
        (front ++ back).idxOf flag) = true) := by
    rw [not_or, Bool.not_eq_true, List.any_eq_false]
    refine ⟨hlt.ne, fun flag hflag hle => ?_⟩
    have hflagFront : flag ∈ front := by
      rw [← hfront] at hflag
      exact (List.mem_filter.mp hflag).1
    have hidx := List.idxOf_lt_length_iff.mpr hflagFront
    rw [decide_eq_true_eq, List.idxOf_append_of_mem hflagFront] at hle
    omega
  unfold checkModelCommand
  refine bind_eq_ok_iff.mpr ⟨identity, hidentity, ?_⟩
  refine bind_eq_ok_iff.mpr ⟨(), raiseIf_eq_ok_iff.mpr (by rw [h1]; simp), ?_⟩
  refine bind_eq_ok_iff.mpr ⟨(), raiseIf_eq_ok_iff.mpr (by rw [h2]; simp), ?_⟩
  refine bind_eq_ok_iff.mpr ⟨(), raiseIf_eq_ok_iff.mpr (by rw [h3]; simp), ?_⟩
  refine bind_eq_ok_iff.mpr ⟨(), raiseIf_eq_ok_iff.mpr (not_not.mpr h4), ?_⟩
  refine bind_eq_ok_iff.mpr ⟨(), raiseIf_eq_ok_iff.mpr h5, ?_⟩
  refine bind_eq_ok_iff.mpr ⟨correctness, hcorrectness, ?_⟩
  exact bind_eq_ok_iff.mpr ⟨(), raiseIf_eq_ok_iff.mpr (not_not.mpr haudits), rfl⟩

/-- The end of the command passes. -/
theorem checkReport_of_skeleton (front options : List String) {path : String}
    (hpath : (PurePath.parse path).IsAbsolute) (hneutral : isNeutral path = true)
    (hfront : skeleton front = options)
    (hcounts : (reportOptions.tail.all fun option => (options ++ reportOptions).count option = 1)) :
    checkReport (front ++ reportOptions ++ [path]) = .ok () := by
  have hlength : (front ++ reportOptions ++ [path]).length = front.length + 5 := by
    rw [List.length_append, List.length_append]
    rfl
  unfold checkReport
  rw [raiseIf_eq_ok_iff, not_or, not_or, not_or, not_not, not_not, hlength]
  refine ⟨by omega, ?_, ?_, ?_⟩
  · rw [Nat.add_sub_cancel, List.append_assoc, List.drop_left]
    rfl
  · rw [List.getLastD_concat]
    exact hpath
  · rw [Bool.not_eq_true, List.any_eq_false]
    intro option hoption
    have hwatched : isNeutral option = false := by
      simp only [reportOptions, List.tail_cons, List.mem_cons, List.not_mem_nil, or_false] at hoption
      rcases hoption with rfl | rfl | rfl <;> simp only [isNeutral_watched]
    have hcount := of_decide_eq_true (List.all_eq_true.mp hcounts option hoption)
    rw [← count_skeleton hwatched, skeleton_append, skeleton_append, hfront,
      @skeleton_eq_nil [path] (by simpa using hneutral), List.append_nil,
      show skeleton reportOptions = reportOptions by decide +kernel, hcount]
    simp

/-- A selector that stands in the command once is found with its value. -/
theorem argument_of_split {argv : List String} (front : List String) (option value : String)
    (back : List String) (hargv : argv = front ++ option :: value :: back) (hcount : argv.count option = 1) :
    argument argv option = .ok value := by
  have hfront : option ∉ front := by
    intro hmem
    rw [hargv, List.count_append, List.count_cons_self] at hcount
    have := List.count_pos_iff.mpr hmem
    omega
  unfold argument
  rw [if_neg (not_not.mpr hcount), orRaise_eq_ok_iff, hargv, List.idxOf_append_of_notMem hfront,
    List.idxOf_cons_self, Nat.add_zero, List.getElem?_append_right (by omega),
    Nat.add_sub_cancel_left]
  rfl

/-! ## The command is accepted -/

/-- The audit reports the settings of a plan. -/
structure Reports (pipeline : Pipeline) (audit : Value) (correctness : Dict) : Prop where
  audited : correctnessAudit audit = .ok correctness
  flags : (auditedFlags.all fun p => audits correctness p.1 p.2) = true
  eva : ∀ plan, pipeline = .eva plan → checkEvaAudit plan correctness = .ok ()

theorem joinNames_namesValue (names : List Identifier) :
    joinNames (namesValue names) = .ok (commaJoin (names.map Identifier.text)) := by
  rw [joinNames, namesValue, Value.iterate]
  simp only [readNames_map, orRaise, Except.map]

/-- The explicit builtins of an accepted target. -/
theorem builtinArguments_of_get {target : Dict} {builtins : List Builtin}
    (h : Value.get target "eva_builtins" (.list []) = .list (builtins.map fun b => .str b.text)) :
    builtinArguments target = .ok (if builtins = [] then []
      else ["-eva-builtin", commaJoin (builtins.map Builtin.text)]) := by
  unfold Value.get at h
  unfold builtinArguments Value.get
  cases hlookup : target.lookup "eva_builtins" with
  | none =>
    rw [hlookup] at h
    have hnil : builtins = [] := by simpa using h
    rw [hnil]
    rfl
  | some v =>
    rw [hlookup] at h
    simp only [Option.getD_some] at h ⊢
    rw [h]
    cases builtins with
    | nil => rfl
    | cons b bs =>
      rw [if_pos (by simp [Value.truthy]), if_neg (by simp), joinNames, Value.iterate]
      simp only [readNames_map, orRaise, Except.map]

/-- A switch that is on by default is off exactly when it is set to `False`. -/
theorem get_eq_false_iff {target : Dict} {key : String} {b : Bool}
    (h : Value.get target key (.bool true) = .bool b) :
    Value.get target key = .bool false ↔ b = false := by
  unfold Value.get at h ⊢
  cases hlookup : target.lookup key with
  | none =>
    rw [hlookup] at h
    simpa using h.symm
  | some v =>
    rw [hlookup] at h
    simp only [Option.getD_some] at h ⊢
    rw [h, Value.bool.injEq]

section Accepted

variable {L : Launch} {analysis audit : Value} {target : Dict} {drivers : List AbsolutePath}
  {machdep : AbsolutePath} {identity correctness : Dict} {search : SearchOptions}

/-- The command of a WP target. -/
theorem analysisCommand_wp {functions : List Identifier} (drivers : List AbsolutePath)
    (hidentity : modelIdentity analysis = .ok identity)
    (hmachdep : analysisSetting analysis "machdep" = .ok machdep.text)
    (hplan : pipelineIdentity target = .ok (.wpRte functions))
    (hsearch : strategyOptions target L.provers = .ok search) :
    analysisCommand L analysis target drivers = .ok
      (inputArguments L machdep.text expectedFlags (drivers.map AbsolutePath.text) ++
        wpArguments L (commaJoin (functions.map Identifier.text)) "Typed" search ++
        reportOptions ++ [L.under "properties.tsv"]) := by
  obtain ⟨hanalysis, hselected⟩ := pipelineIdentity_eq_wpRte hplan
  obtain ⟨kernelFunctions, hkernel, hfunctions, -⟩ := selectedFunctions_eq_ok hselected
  obtain ⟨entries, rfl, hmodel⟩ := exists_dict_of_modelIdentity hidentity
  have hwp : subscript target "analysis" = .ok (.str "wp") :=
    subscript_eq_ok_iff.mpr (lookup_of_get hanalysis (by simp))
  have hdefault : subscript target "functions" = .ok (namesValue kernelFunctions) :=
    subscript_eq_ok_iff.mpr (lookup_of_get hkernel (by simp [namesValue]))
  have htyped : analysisSetting (.dict entries) "wp_model" = .ok "Typed" := by
    have hlookup := subscript_eq_ok_iff.mpr (lookup_of_get hmodel (by simp))
    exact bind_eq_ok_iff.mpr ⟨_, hlookup, rfl⟩
  have harguments : engineArguments L (.dict entries) target search = .ok
      (wpArguments L (commaJoin (functions.map Identifier.text)) "Typed" search) := by
    refine bind_eq_ok_iff.mpr ⟨.str "wp", hwp, ?_⟩
    rw [if_pos (by decide +kernel)]
    refine bind_eq_ok_iff.mpr ⟨_, hdefault, ?_⟩
    rw [hfunctions]
    exact bind_eq_ok_iff.mpr ⟨_, joinNames_namesValue functions,
      bind_eq_ok_iff.mpr ⟨_, htyped, rfl⟩⟩
  refine bind_eq_ok_iff.mpr ⟨search, hsearch, ?_⟩
  refine bind_eq_ok_iff.mpr ⟨machdep.text, hmachdep, ?_⟩
  refine bind_eq_ok_iff.mpr ⟨expectedFlags, by rw [analyzerFlags, hidentity]; rfl, ?_⟩
  refine bind_eq_ok_iff.mpr ⟨_, harguments, ?_⟩
  rw [List.append_assoc _ reportOptions]
  rfl

/-- The command of an EVA target. -/
theorem analysisCommand_eva {plan : EvaPlan} (drivers : List AbsolutePath)
    (hidentity : modelIdentity analysis = .ok identity)
    (hmachdep : analysisSetting analysis "machdep" = .ok machdep.text)
    (hplan : pipelineIdentity target = .ok (.eva plan))
    (hsearch : strategyOptions target L.provers = .ok search) :
    analysisCommand L analysis target drivers = .ok
      (inputArguments L machdep.text expectedFlags (drivers.map AbsolutePath.text) ++
        ((Pipeline.eva plan).beforeEva ++ plan.options) ++
        reportOptions ++ [L.under "properties.tsv"]) := by
  obtain ⟨hanalysis, hentry, hbuiltins, hauto⟩ := pipelineIdentity_eq_eva hplan
  have heva : subscript target "analysis" = .ok (.str "eva") :=
    subscript_eq_ok_iff.mpr (lookup_of_get hanalysis (by simp))
  have hargument : asArgument (.str plan.entry.text) = .ok plan.entry.text := rfl
  have hnames : builtinArguments target = .ok (if plan.builtins = [] then []
      else ["-eva-builtin", commaJoin (plan.builtins.map Builtin.text)]) :=
    builtinArguments_of_get hbuiltins
  have hdefault : (if Value.get target "eva_auto_builtins" = .bool false
      then ["-eva-no-builtins-auto"] else []) =
      if plan.autoBuiltins then [] else ["-eva-no-builtins-auto"] := by
    simp only [get_eq_false_iff hauto]
    cases plan.autoBuiltins with
    | false => rfl
    | true => rfl
  have harguments : engineArguments L analysis target search =
      .ok ((Pipeline.eva plan).beforeEva ++ plan.options) := by
    refine bind_eq_ok_iff.mpr ⟨.str "eva", heva, ?_⟩
    rw [if_neg (by decide +kernel)]
    refine bind_eq_ok_iff.mpr ⟨(Pipeline.eva plan).beforeEva,
      by rw [beforeEvaOptions, hplan]; rfl, ?_⟩
    refine bind_eq_ok_iff.mpr ⟨.str plan.entry.text,
      subscript_eq_ok_iff.mpr (lookup_of_get hentry (by simp)), ?_⟩
    refine bind_eq_ok_iff.mpr ⟨plan.entry.text, hargument, ?_⟩
    refine bind_eq_ok_iff.mpr ⟨_, hnames, ?_⟩
    rw [hdefault, EvaPlan.options, show toString evaSlevel = "100" by decide +kernel]
    simp only [List.append_assoc]
  refine bind_eq_ok_iff.mpr ⟨search, hsearch, ?_⟩
  refine bind_eq_ok_iff.mpr ⟨machdep.text, hmachdep, ?_⟩
  refine bind_eq_ok_iff.mpr ⟨expectedFlags, by rw [analyzerFlags, hidentity]; rfl, ?_⟩
  refine bind_eq_ok_iff.mpr ⟨_, harguments, ?_⟩
  rw [List.append_assoc _ reportOptions]
  rfl

/-- An option in front of the report is in front of the last five arguments. -/
theorem engine_before_report {front : List String} {path option : String} (h : option ∈ front) :
    ¬ (option ∉ front ++ reportOptions ++ [path] ∨
      (front ++ reportOptions ++ [path]).length - 5 ≤
        (front ++ reportOptions ++ [path]).idxOf option) := by
  have hlength : (front ++ reportOptions ++ [path]).length = front.length + 5 := by
    rw [List.length_append, List.length_append]
    rfl
  rw [not_or, not_not, not_le, hlength, Nat.add_sub_cancel, List.append_assoc,
    List.idxOf_append_of_mem h]
  exact ⟨List.mem_append_left _ h, List.idxOf_lt_length_iff.mpr h⟩

/-- How the arguments of a WP target start. -/
theorem exists_wpArguments (L : Launch) (search : SearchOptions) (functions model : String) : ∃ back, wpArguments L functions model search =
    "-wp" :: "-wp-fct" :: functions :: "-wp-model" :: model :: back := ⟨_, rfl⟩

/-- The command of a WP target passes the checks. -/
theorem validateActualPolicy_wp {functions : List Identifier}
    (hidentity : modelIdentity analysis = .ok identity)
    (hplan : pipelineIdentity target = .ok (.wpRte functions)) (hsearch : search.IsNeutral)
    (hreports : Reports (.wpRte functions) audit correctness) :
    validateActualPolicy analysis target
      (inputArguments L machdep.text expectedFlags (drivers.map AbsolutePath.text) ++
        wpArguments L (commaJoin (functions.map Identifier.text)) "Typed" search ++
        reportOptions ++ [L.under "properties.tsv"]) audit = .ok ⟨identity, .wpRte functions⟩ := by
  have hinputs := skeleton_inputArguments L drivers machdep.inert
  have hwp := skeleton_wpArguments L (inert_functions functions)
    (@inert_of_notMem "Typed" (by decide +kernel)) hsearch
  have hpath : isNeutral (L.under "properties.tsv") = true :=
    (L.output.child "properties.tsv").inert.isNeutral
  have habsolute : (PurePath.parse (L.under "properties.tsv")).IsAbsolute := by
    rw [Launch.under, AbsolutePath.text, PurePath.parse_render]
    exact (L.output.child "properties.tsv").isAbsolute
  generalize hin : inputArguments L machdep.text expectedFlags (drivers.map AbsolutePath.text) =
    inputs at hinputs ⊢
  generalize hargs : wpArguments L (commaJoin (functions.map Identifier.text)) "Typed" search =
    arguments at hwp ⊢
  have hmodel : checkModelCommand analysis (inputs ++ (arguments ++ reportOptions ++
      [L.under "properties.tsv"])) audit = .ok (identity, correctness) := by
    have hback : skeleton (arguments ++ reportOptions ++ [L.under "properties.tsv"]) =
        ["-wp", "-wp-fct", "-wp-model", "-wp-rte"] ++ reportOptions := by
      rw [List.append_assoc, skeleton_append, hwp, skeleton_report]
    exact checkModelCommand_of_skeleton hidentity hinputs hback (by decide +kernel)
      hreports.audited hreports.flags
  have hreport := checkReport_of_skeleton (inputs ++ arguments)
    (expectedFlags ++ ["-wp", "-wp-fct", "-wp-model", "-wp-rte"]) habsolute hpath
    (by rw [skeleton_append, hinputs, hwp]) (by decide +kernel)
  have hskeleton : skeleton (inputs ++ arguments ++ reportOptions ++ [L.under "properties.tsv"]) =
      expectedFlags ++ ["-wp", "-wp-fct", "-wp-model", "-wp-rte"] ++ reportOptions := by
    rw [List.append_assoc, skeleton_append, skeleton_append, hinputs, hwp, skeleton_report]
  have hcount : ∀ option ∈ ["-wp", "-wp-rte", "-wp-model", "-wp-fct", "-then"],
      (inputs ++ arguments ++ reportOptions ++ [L.under "properties.tsv"]).count option = 1 := by
    intro option hoption
    have hall : ["-wp", "-wp-rte", "-wp-model", "-wp-fct", "-then"].all (fun o =>
        !isNeutral o && (expectedFlags ++ ["-wp", "-wp-fct", "-wp-model", "-wp-rte"] ++
          reportOptions).count o = 1) = true := by
      decide +kernel
    have h := List.all_eq_true.mp hall option hoption
    rw [Bool.and_eq_true, Bool.not_eq_true', decide_eq_true_eq] at h
    rw [← count_skeleton h.1, hskeleton, h.2]
  have hchecks : checkWp identity functions
      (inputs ++ arguments ++ reportOptions ++ [L.under "properties.tsv"]) = .ok () := by
    have heva : "-eva" ∉ inputs ++ arguments ++ reportOptions ++ [L.under "properties.tsv"] := by
      rw [← mem_skeleton (by simp only [isNeutral_watched]), hskeleton]
      decide +kernel
    have hbuiltins : (inputs ++ arguments ++ reportOptions ++
        [L.under "properties.tsv"]).any isBuiltinControl = false := by
      rw [← any_skeleton (fun arg h => (isNeutral_iff.mp h).2.2.2.1), hskeleton]
      decide +kernel
    have htyped : Value.get identity "wp_model" = .str "Typed" := by
      have hfields : identity = _ := modelIdentity_eq_ok hidentity
      rw [hfields]
      rfl
    obtain ⟨back, hback⟩ := exists_wpArguments L search
      (commaJoin (functions.map Identifier.text)) "Typed"
    rw [hargs] at hback
    have hmodel' := argument_of_split
      (inputs ++ ["-wp", "-wp-fct", commaJoin (functions.map Identifier.text)]) "-wp-model" "Typed"
      (back ++ reportOptions ++ [L.under "properties.tsv"])
      (by rw [hback]; simp) (hcount "-wp-model" (by simp))
    have hfunctions' := argument_of_split (inputs ++ ["-wp"]) "-wp-fct"
      (commaJoin (functions.map Identifier.text))
      ("-wp-model" :: "Typed" :: back ++ reportOptions ++ [L.under "properties.tsv"])
      (by rw [hback]; simp) (hcount "-wp-fct" (by simp))
    have hone := hcount "-wp" (by simp)
    have hrte := hcount "-wp-rte" (by simp)
    refine bind_eq_ok_iff.mpr ⟨(), raiseIf_eq_ok_iff.mpr (by tauto), ?_⟩
    refine bind_eq_ok_iff.mpr ⟨"Typed", hmodel', ?_⟩
    refine bind_eq_ok_iff.mpr ⟨(), raiseIf_eq_ok_iff.mpr ?_, ?_⟩
    · rw [not_not, htyped]
      exact Value.eq_str_iff.mpr rfl
    · refine bind_eq_ok_iff.mpr ⟨_, hfunctions', ?_⟩
      refine bind_eq_ok_iff.mpr ⟨(), raiseIf_eq_ok_iff.mpr (not_not.mpr rfl), ?_⟩
      exact raiseIf_eq_ok_iff.mpr (by rw [hbuiltins]; simp)
  have hphases : checkPhases (.wpRte functions)
      (inputs ++ arguments ++ reportOptions ++ [L.under "properties.tsv"]) = .ok () := by
    unfold checkPhases
    rw [if_neg (by simp [Pipeline.beforeEva]), raiseIf_eq_ok_iff, not_or, not_not, not_not]
    refine ⟨?_, hcount "-then" (by simp)⟩
    rw [← filter_skeleton (fun arg h => (isNeutral_iff.mp h).2.2.2.2.1), hskeleton]
    decide +kernel
  have hmem : "-wp" ∈ inputs ++ arguments := by
    rw [← mem_skeleton (by simp only [isNeutral_watched]), skeleton_append, hwp]
    simp
  rw [← List.append_assoc, ← List.append_assoc] at hmodel
  refine bind_eq_ok_iff.mpr ⟨(identity, correctness), hmodel, ?_⟩
  refine bind_eq_ok_iff.mpr ⟨.wpRte functions, hplan, ?_⟩
  refine bind_eq_ok_iff.mpr ⟨(), hreport, ?_⟩
  refine bind_eq_ok_iff.mpr ⟨(), raiseIf_eq_ok_iff.mpr (engine_before_report hmem), ?_⟩
  refine bind_eq_ok_iff.mpr ⟨(), hchecks, ?_⟩
  exact bind_eq_ok_iff.mpr ⟨(), hphases, rfl⟩

/-- The skeleton of the command of an EVA target. -/
def evaSkeleton (rte autoBuiltins explicit : Bool) : List String :=
  expectedFlags ++ (beforeSkeleton rte ++ optionsSkeleton autoBuiltins explicit) ++ reportOptions

/-- What the checks ask of the skeleton of an EVA target. -/
theorem evaSkeleton_checks : ∀ rte autoBuiltins explicit : Bool,
    isSoundSkeleton (beforeSkeleton rte ++ optionsSkeleton autoBuiltins explicit ++ reportOptions) =
      true ∧
    (reportOptions.tail.all fun option =>
      (evaSkeleton rte autoBuiltins explicit).count option = 1) = true ∧
    (["-eva", "-main", "-eva-slevel"].all fun option =>
      (evaSkeleton rte autoBuiltins explicit).count option = 1) = true ∧
    (["-wp", "-wp-model", "-wp-fct", "-wp-rte"].all fun option =>
      option ∉ evaSkeleton rte autoBuiltins explicit) = true ∧
    (expectedFlags ++ beforeSkeleton rte).any isBuiltinControl = false ∧
    "-eva" ∉ expectedFlags ++ beforeSkeleton rte ∧
    (evaSkeleton rte autoBuiltins explicit).filter isRteOption =
      (if rte then ["-rte", "-rte-select", "-rte-no-use-eva-results"] else []) ∧
    (evaSkeleton rte autoBuiltins explicit).count "-then" = (if rte then 2 else 1) ∧
    (evaSkeleton rte autoBuiltins explicit).count "-rte" = (if rte then 1 else 0) := by
  decide +kernel

/-- The options of an EVA phase, one by one. -/
theorem exists_evaOptions (plan : EvaPlan) : ∃ back, plan.options =
    "-eva" :: "-main" :: plan.entry.text :: "-eva-slevel" :: toString evaSlevel :: back :=
  ⟨_, rfl⟩

/-- The command of an EVA target passes the checks. -/
theorem validateActualPolicy_eva {plan : EvaPlan}
    (hidentity : modelIdentity analysis = .ok identity)
    (hplan : pipelineIdentity target = .ok (.eva plan))
    (hreports : Reports (.eva plan) audit correctness) :
    validateActualPolicy analysis target
      (inputArguments L machdep.text expectedFlags (drivers.map AbsolutePath.text) ++
        ((Pipeline.eva plan).beforeEva ++ plan.options) ++
        reportOptions ++ [L.under "properties.tsv"]) audit = .ok ⟨identity, .eva plan⟩ := by
  have hinputs := skeleton_inputArguments L drivers machdep.inert
  have hpath : isNeutral (L.under "properties.tsv") = true :=
    (L.output.child "properties.tsv").inert.isNeutral
  have hbefore := skeleton_beforeEva plan
  have hoptions := skeleton_evaOptions plan
  obtain ⟨back, hback⟩ := exists_evaOptions plan
  obtain ⟨hsound, hreportCounts, hcounts, hwp, hcontrols, hnoEva, hrteOptions, hthen, hrte⟩ :=
    evaSkeleton_checks plan.rteFunctions.isSome plan.autoBuiltins (plan.builtins ≠ [])
  generalize hin : inputArguments L machdep.text expectedFlags (drivers.map AbsolutePath.text) =
    inputs at hinputs ⊢
  generalize hbe : (Pipeline.eva plan).beforeEva = before at hbefore ⊢
  generalize hp : L.under "properties.tsv" = path at hpath ⊢
  have habsolute : (PurePath.parse path).IsAbsolute := by
    rw [← hp, Launch.under, AbsolutePath.text, PurePath.parse_render]
    exact (L.output.child "properties.tsv").isAbsolute
  have hreportSkeleton : skeleton (reportOptions ++ [path]) = reportOptions := hp ▸ skeleton_report L
  have hskeleton : skeleton (inputs ++ (before ++ plan.options) ++ reportOptions ++ [path]) =
      evaSkeleton plan.rteFunctions.isSome plan.autoBuiltins (plan.builtins ≠ []) := by
    rw [List.append_assoc, skeleton_append, skeleton_append, skeleton_append, hinputs, hbefore,
      hoptions, hreportSkeleton]
    rfl
  have hmodel : checkModelCommand analysis (inputs ++ (before ++ plan.options ++ reportOptions ++
      [path])) audit = .ok (identity, correctness) := by
    refine checkModelCommand_of_skeleton hidentity hinputs ?_ hsound hreports.audited hreports.flags
    rw [List.append_assoc, skeleton_append, skeleton_append, hbefore, hoptions, hreportSkeleton]
  have hreport := checkReport_of_skeleton (inputs ++ (before ++ plan.options)) _ habsolute hpath
    (by rw [skeleton_append, skeleton_append, hinputs, hbefore, hoptions]) hreportCounts
  have hcount : ∀ option ∈ ["-eva", "-main", "-eva-slevel"],
      (inputs ++ (before ++ plan.options) ++ reportOptions ++ [path]).count option = 1 := by
    intro option hoption
    have hneutral : isNeutral option = false := by
      simp only [List.mem_cons, List.not_mem_nil, or_false] at hoption
      rcases hoption with rfl | rfl | rfl <;> simp only [isNeutral_watched]
    rw [← count_skeleton hneutral, hskeleton]
    exact of_decide_eq_true (List.all_eq_true.mp hcounts option hoption)
  have hnoWp : ∀ option ∈ ["-wp", "-wp-model", "-wp-fct", "-wp-rte"],
      option ∉ inputs ++ (before ++ plan.options) ++ reportOptions ++ [path] := by
    intro option hoption
    have hneutral : isNeutral option = false := by
      simp only [List.mem_cons, List.not_mem_nil, or_false] at hoption
      rcases hoption with rfl | rfl | rfl | rfl <;> simp only [isNeutral_watched]
    rw [← mem_skeleton hneutral, hskeleton]
    simpa using List.all_eq_true.mp hwp option hoption
  -- `-eva` comes right behind the inputs and what RTE does
  have hsplit : inputs ++ (before ++ plan.options) ++ reportOptions ++ [path] =
      (inputs ++ before) ++ (plan.options ++ (reportOptions ++ [path])) := by
    simp only [List.append_assoc]
  have hevaNot : "-eva" ∉ inputs ++ before := by
    rw [← mem_skeleton (by simp only [isNeutral_watched]), skeleton_append, hinputs, hbefore]
    exact hnoEva
  have hidx : (inputs ++ (before ++ plan.options) ++ reportOptions ++ [path]).idxOf "-eva" =
      (inputs ++ before).length := by
    rw [hsplit, List.idxOf_append_of_notMem hevaNot, hback, List.cons_append, List.idxOf_cons_self,
      Nat.add_zero]
  have hchecks : checkEva plan (inputs ++ (before ++ plan.options) ++ reportOptions ++ [path]) =
      .ok () := by
    have hentry := argument_of_split (inputs ++ (before ++ ["-eva"])) "-main" plan.entry.text
      ("-eva-slevel" :: toString evaSlevel :: back ++ reportOptions ++ [path])
      (by rw [hback]; simp) (hcount "-main" (by simp))
    have hslevel := argument_of_split
      (inputs ++ (before ++ ["-eva", "-main", plan.entry.text])) "-eva-slevel" (toString evaSlevel)
      (back ++ reportOptions ++ [path])
      (by rw [hback]; simp) (hcount "-eva-slevel" (by simp))
    have hlength : (inputs ++ (before ++ plan.options) ++ reportOptions ++ [path]).length - 5 =
        (inputs ++ before ++ plan.options).length := by
      rw [List.length_append, List.length_append, ← List.append_assoc]
      show (inputs ++ before ++ plan.options).length + 4 + 1 - 5 = _
      omega
    have hone := hcount "-eva" (by simp)
    have hothers : (["-wp-model", "-wp-fct", "-wp-rte"].any fun arg =>
        arg ∈ inputs ++ (before ++ plan.options) ++ reportOptions ++ [path]) = false := by
      rw [List.any_eq_false]
      exact fun arg harg hmem => hnoWp arg (List.mem_cons_of_mem _ harg) (of_decide_eq_true hmem)
    have hnone := hnoWp "-wp" (by simp)
    refine bind_eq_ok_iff.mpr ⟨(), raiseIf_eq_ok_iff.mpr (by rw [hothers]; tauto), ?_⟩
    refine bind_eq_ok_iff.mpr ⟨plan.entry.text, hentry, ?_⟩
    refine bind_eq_ok_iff.mpr ⟨(), raiseIf_eq_ok_iff.mpr (not_not.mpr rfl), ?_⟩
    refine bind_eq_ok_iff.mpr ⟨toString evaSlevel, hslevel, ?_⟩
    refine bind_eq_ok_iff.mpr ⟨(), raiseIf_eq_ok_iff.mpr (not_not.mpr rfl), ?_⟩
    rw [raiseIf_eq_ok_iff, not_or, not_not, hidx, hlength]
    constructor
    · rw [hsplit, ← List.append_assoc, List.take_left, List.drop_left]
    · rw [hsplit, List.take_left, ← any_skeleton (fun arg h => (isNeutral_iff.mp h).2.2.2.1),
        skeleton_append, hinputs, hbefore, hcontrols]
      simp
  have hphases : checkPhases (.eva plan)
      (inputs ++ (before ++ plan.options) ++ reportOptions ++ [path]) = .ok () := by
    have hrteFilter := filter_skeleton (fun arg h => (isNeutral_iff.mp h).2.2.2.2.1)
      (inputs ++ (before ++ plan.options) ++ reportOptions ++ [path])
    have hthenCount := @count_skeleton "-then" (by simp only [isNeutral_watched])
      (inputs ++ (before ++ plan.options) ++ reportOptions ++ [path])
    have hrteCount := @count_skeleton "-rte" (by simp only [isNeutral_watched])
      (inputs ++ (before ++ plan.options) ++ reportOptions ++ [path])
    rw [hskeleton, hrteOptions] at hrteFilter
    rw [hskeleton, hthen] at hthenCount
    rw [hskeleton, hrte] at hrteCount
    unfold checkPhases
    cases hfunctions : plan.rteFunctions with
    | none =>
      rw [hfunctions] at hrteFilter hthenCount
      have hnil : (Pipeline.eva plan).beforeEva = [] := by simp [Pipeline.beforeEva, hfunctions]
      rw [if_neg (not_not.mpr hnil), raiseIf_eq_ok_iff, not_or, not_not, not_not]
      exact ⟨hrteFilter.symm, hthenCount.symm⟩
    | some functions =>
      rw [hfunctions] at hrteFilter hthenCount hrteCount
      have hlist : before = "-rte" :: ["-rte-select", commaJoin (functions.map Identifier.text),
          "-rte-no-use-eva-results", "-then"] := by
        rw [← hbe]
        simp [Pipeline.beforeEva, hfunctions]
      have hrteNot : "-rte" ∉ inputs := by
        rw [← mem_skeleton (by simp only [isNeutral_watched]), hinputs]
        decide +kernel
      have hrteIdx : (inputs ++ (before ++ plan.options) ++ reportOptions ++ [path]).idxOf "-rte" =
          inputs.length := by
        rw [hsplit, List.append_assoc, List.idxOf_append_of_notMem hrteNot, hlist,
          List.cons_append, List.idxOf_cons_self, Nat.add_zero]
      rw [hbe, if_pos (by rw [hlist]; simp), raiseIf_eq_ok_iff, not_or, not_or, not_or, not_or,
        not_not, not_not, not_not, not_not, not_not]
      refine ⟨hrteCount.symm, hcount "-eva" (by simp), hrteFilter.symm, ?_, hthenCount.symm⟩
      rw [hidx, hrteIdx, hsplit, List.take_left, List.drop_left]
  have hmem : "-eva" ∈ inputs ++ (before ++ plan.options) := by
    rw [hback]
    simp
  rw [← List.append_assoc, ← List.append_assoc] at hmodel
  refine bind_eq_ok_iff.mpr ⟨(identity, correctness), hmodel, ?_⟩
  refine bind_eq_ok_iff.mpr ⟨.eva plan, hplan, ?_⟩
  refine bind_eq_ok_iff.mpr ⟨(), hreport, ?_⟩
  refine bind_eq_ok_iff.mpr ⟨(), raiseIf_eq_ok_iff.mpr (engine_before_report hmem), ?_⟩
  refine bind_eq_ok_iff.mpr ⟨(), hreports.eva plan rfl, ?_⟩
  refine bind_eq_ok_iff.mpr ⟨(), hchecks, ?_⟩
  exact bind_eq_ok_iff.mpr ⟨(), hphases, rfl⟩

end Accepted

/-- **The command that is built is accepted, and an accepted command is fixed by the
plan.**  For an accepted record, an accepted target and an audit that reports its
settings, the command exists and passes, with any drivers, also with those of the target.
Conversely an accepted command names the flags once and in front of every phase, ends
with the report, and is in between what the plan of the target says. -/
theorem analysisCommand_agrees :
    (∀ (L : Launch) (analysis audit : Value) (target identity correctness : Dict)
      (plan : Pipeline) (search : SearchOptions) (machdep : AbsolutePath),
      modelIdentity analysis = .ok identity →
      analysisSetting analysis "machdep" = .ok machdep.text →
      pipelineIdentity target = .ok plan →
      strategyOptions target L.provers = .ok search →
      Reports plan audit correctness →
      ∀ drivers : List AbsolutePath, ∃ argv,
        analysisCommand L analysis target drivers = .ok argv ∧
        (driverPaths L target = .ok drivers → targetCommand L analysis target = .ok argv) ∧
        validateActualPolicy analysis target argv audit = .ok ⟨identity, plan⟩) ∧
    ∀ (analysis audit : Value) (target : Dict) (argv : List String) (checked : CheckedPolicy),
      validateActualPolicy analysis target argv audit = .ok checked →
      pipelineIdentity target = .ok checked.pipeline ∧ Accepted argv ∧
        AcceptedPlan argv checked.pipeline := by
  constructor
  · intro L analysis audit target identity correctness plan search machdep hidentity hmachdep hplan
      hsearch hreports drivers
    cases plan with
    | wpRte functions =>
      have hcommand := analysisCommand_wp drivers hidentity hmachdep hplan hsearch
      exact ⟨_, hcommand, fun hdrivers => bind_eq_ok_iff.mpr ⟨drivers, hdrivers, hcommand⟩,
        validateActualPolicy_wp hidentity hplan (strategyOptions_isNeutral hsearch) hreports⟩
    | eva plan =>
      have hcommand := analysisCommand_eva drivers hidentity hmachdep hplan hsearch
      exact ⟨_, hcommand, fun hdrivers => bind_eq_ok_iff.mpr ⟨drivers, hdrivers, hcommand⟩,
        validateActualPolicy_eva hidentity hplan hreports⟩
  · intro analysis audit target argv checked h
    exact validateActualPolicy_accepted h

/-! ## An EVA target behind RTE -/

/-- An absolute path. -/
def absolutePath (s : String) (h : (PurePath.parse s).IsAbsolute) : AbsolutePath :=
  ⟨.parse s, h⟩

/-- A launch of the example. -/
def exampleLaunch : Launch where
  root := absolutePath "/r" (by decide +kernel)
  output := absolutePath "/o" (by decide +kernel)
  framaC := absolutePath "/f" (by decide +kernel)
  framaInput := absolutePath "/i.c" (by decide +kernel)
  compiler := absolutePath "/gcc" (by decide +kernel)
  compilerArguments := ["-DX=1"]
  provers := ⟨"z3", by
    have hall : ("z3".toList.splitOn ',').all (fun n => String.ofList n ∈ externalProvers) = true := by
      decide +kernel
    exact fun n hn => of_decide_eq_true (List.all_eq_true.mp hall n hn)⟩
  timeout := 20
  jobs := 4

/-- The record of the example. -/
def exampleAnalysis : Value :=
  .dict [("wp_model", .str "Typed"), ("arithmetic_flags", .list (arithmeticFlags.map .str)),
    ("runtime_checks", .dict runtimeChecks), ("machdep", .str "/m.yaml")]

/-- The target of the example: RTE annotates `f` and the entry, then EVA runs. -/
def exampleEvaTarget : Dict :=
  [("analysis", .str "eva"), ("analysis_pipeline", .dict [("kind", .str "rte-eva")]),
    ("functions", .list [.str "f"]), ("entry", .str "main"), ("driver", .str "d.c"),
    ("eva_builtins", .list [.str "f:g"]), ("eva_auto_builtins", .bool false)]

/-- The audit of the example. -/
def exampleAudit : Value :=
  .dict [("eva", .dict [("correctness-parameters", .dict
    (auditedFlags.map (fun p => (p.1, .str p.2)) ++
      [("-main", .str "main"), ("-eva-builtins-auto", .str "false"),
        ("-eva-builtin", .str "@default,f:g")]))])]

/-- The audit reports what a value analysis was told. -/
def evaAudited : Pipeline → Dict → Bool
  | .wpRte _, _ => false
  | .eva plan, correctness => returns (checkEvaAudit plan correctness) fun _ => true

/-- The command of the example is built and accepted. -/
theorem analysisCommand_agrees_example : ∃ argv checked,
    targetCommand exampleLaunch exampleAnalysis exampleEvaTarget = .ok argv ∧
    validateActualPolicy exampleAnalysis exampleEvaTarget argv exampleAudit = .ok checked ∧
    Accepted argv ∧ AcceptedPlan argv checked.pipeline := by
  obtain ⟨identity, hidentity, -⟩ := exists_of_returns (f := fun _ => true)
    (x := modelIdentity exampleAnalysis) (by decide +kernel)
  obtain ⟨plan, hplan, heva⟩ := exists_of_returns (x := pipelineIdentity exampleEvaTarget)
    (f := fun plan => returns (correctnessAudit exampleAudit) fun c =>
      (auditedFlags.all fun p => audits c p.1 p.2) &&
      evaAudited plan c) (by decide +kernel)
  obtain ⟨search, hsearch, -⟩ := exists_of_returns (f := fun _ => true)
    (x := strategyOptions exampleEvaTarget exampleLaunch.provers) (by decide +kernel)
  obtain ⟨drivers, hdrivers, -⟩ := exists_of_returns (f := fun _ => true)
    (x := driverPaths exampleLaunch exampleEvaTarget) (by decide +kernel)
  obtain ⟨correctness, haudit, heva⟩ := exists_of_returns heva
  rw [Bool.and_eq_true] at heva
  have hreports : Reports plan exampleAudit correctness := by
    refine ⟨haudit, heva.1, ?_⟩
    rintro plan rfl
    obtain ⟨_, h, -⟩ := exists_of_returns heva.2
    exact h
  obtain ⟨argv, -, htarget, haccepts⟩ := analysisCommand_agrees.1 exampleLaunch exampleAnalysis
    exampleAudit exampleEvaTarget identity correctness plan search
    (absolutePath "/m.yaml" (by decide +kernel)) hidentity (by decide +kernel) hplan hsearch hreports drivers
  exact ⟨argv, _, htarget hdrivers, haccepts, (analysisCommand_agrees.2 _ _ _ _ _ haccepts).2⟩

end Suite
end Fragma
