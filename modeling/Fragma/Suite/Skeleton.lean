import Fragma.Analysis.Neutral
import Fragma.Suite.Command

/-!
# The skeleton of the command

Everything in the command of a target that comes from outside, a path, a name or a
number, is inert, and most of the options are neutral.  What is left is a fixed list for
each shape of a target.

* `inert_*`: what stands between the options.
* `isNeutral_options`, `isNeutral_watched`: the options.
* `skeleton_inputArguments`, `skeleton_wpArguments`, `skeleton_evaOptions`,
  `skeleton_report`: **the skeletons of the parts of the command**.
-/

namespace Fragma
namespace Suite

open Python Posix Analysis

/-! ## What stands between the options -/

theorem AbsolutePath.inert (P : AbsolutePath) : Inert P.text := by
  refine inert_of_head (c := '/') ?_ (by decide)
  rw [← PurePath.isAbsolute_parse_iff, AbsolutePath.text, PurePath.parse_render]
  exact P.isAbsolute

theorem Provers.inert (provers : Provers) : Inert provers.text := by
  have hheads : ∀ name ∈ externalProvers, ∃ c, name.toList.head? = some c ∧
      c ∉ ['-', 'w', 'n', 'e', 'v'] := by
    intro name hname
    simp only [externalProvers, List.mem_cons, List.not_mem_nil, or_false] at hname
    rcases hname with rfl | rfl | rfl
    · exact ⟨'a', by decide +kernel, by decide⟩
    · exact ⟨'z', by decide +kernel, by decide⟩
    · exact ⟨'c', by decide +kernel, by decide⟩
  have hsplit : [','].intercalate (provers.text.toList.splitOn ',') = provers.text.toList :=
    List.intercalate_splitOn ','
  have hall := provers.supported
  cases hpieces : provers.text.toList.splitOn ',' with
  | nil => exact absurd hpieces (List.splitOn_ne_nil _ _)
  | cons piece pieces =>
    rw [hpieces] at hall hsplit
    obtain ⟨c, hc, hno⟩ := hheads _ (hall piece List.mem_cons_self)
    rw [String.toList_ofList] at hc
    refine inert_of_head (c := c) ?_ hno
    rw [← hsplit]
    cases pieces with
    | nil => rwa [List.intercalate_singleton]
    | cons p ps =>
      rw [List.intercalate_cons_cons, List.append_assoc, List.head?_append, hc]
      rfl

theorem inert_tip (portfolio : List String) : Inert (commaJoin ("tip" :: portfolio)) :=
  inert_of_head (c := 't') (head?_commaJoin (by decide +kernel)) (by decide)

/-- A quoted path starts with a slash or with a quote. -/
theorem Launch.inert_cppCommand (L : Launch) : Inert L.cppCommand := by
  have hhead : ∃ c, (shlexQuote L.compiler.text).toList.head? = some c ∧
      c ∉ ['-', 'w', 'n', 'e', 'v'] := by
    have hslash : L.compiler.text.toList.head? = some '/' := by
      rw [← PurePath.isAbsolute_parse_iff, AbsolutePath.text, PurePath.parse_render]
      exact L.compiler.isAbsolute
    unfold shlexQuote
    split_ifs with hempty hsafe
    · rw [hempty] at hslash
      exact absurd hslash (by decide)
    · exact ⟨'/', hslash, by decide⟩
    · exact ⟨'\'', by rw [String.toList_ofList]; rfl, by decide⟩
  obtain ⟨c, hc, hno⟩ := hhead
  refine inert_of_head (c := c) ?_ hno
  rw [Launch.cppCommand, shlexJoin, List.cons_append, List.map_cons,
    String.intercalate_cons_of_ne_nil (by simp), String.toList_append, String.toList_append,
    List.append_assoc, List.head?_append, hc]
  rfl

/-! ## The skeleton of the command -/

/-- The options of a command that no check looks at. -/
theorem isNeutral_options :
    isNeutral "-machdep" = true ∧ isNeutral "-cpp-frama-c-compliant" = true ∧
    isNeutral "-cpp-command" = true ∧ isNeutral "-cpp-extra-args=-std=gnu11" = true ∧
    isNeutral "-pp-annot" = true ∧ isNeutral "-keep-temp-files" = true ∧
    isNeutral "-audit-prepare" = true ∧ isNeutral "-wp-split" = true ∧
    isNeutral "-wp-smoke-tests" = true ∧ isNeutral "-wp-prover" = true ∧
    isNeutral "-wp-timeout" = true ∧ isNeutral "-wp-par" = true ∧ isNeutral "-wp-cache" = true ∧
    isNeutral "none" = true ∧ isNeutral "-wp-out" = true ∧ isNeutral "-wp-why3-config" = true ∧
    isNeutral "-wp-no-why3-detect" = true ∧ isNeutral "-wp-report-json" = true ∧
    isNeutral "-wp-strategy" = true ∧ isNeutral "-wp-auto-depth" = true ∧
    isNeutral "-wp-smoke-timeout" = true ∧ isNeutral "-wp-session" = true ∧
    isNeutral "100" = true := by
  decide +kernel

/-- The options of a command that the checks look at. -/
theorem isNeutral_watched :
    isNeutral "-wp" = false ∧ isNeutral "-wp-fct" = false ∧ isNeutral "-wp-model" = false ∧
    isNeutral "-wp-rte" = false ∧ isNeutral "-rte" = false ∧ isNeutral "-rte-select" = false ∧
    isNeutral "-rte-no-use-eva-results" = false ∧ isNeutral "-then" = false ∧
    isNeutral "-eva" = false ∧ isNeutral "-main" = false ∧ isNeutral "-eva-slevel" = false ∧
    isNeutral "-eva-no-builtins-auto" = false ∧ isNeutral "-eva-builtin" = false ∧
    isNeutral "-report" = false ∧ isNeutral "-report-absolute-path" = false ∧
    isNeutral "-report-csv" = false := by
  decide +kernel

theorem skeleton_expectedFlags : skeleton expectedFlags = expectedFlags := by decide +kernel

/-- The options of a proof search are neutral. -/
structure SearchOptions.IsNeutral (search : SearchOptions) : Prop where
  options : ∀ arg ∈ search.options, Analysis.isNeutral arg = true
  engineProvers : Inert search.engineProvers

theorem strategyOptions_isNeutral {target : Dict} {provers : Provers} {search : SearchOptions}
    (h : strategyOptions target provers = .ok search) : search.IsNeutral := by
  unfold strategyOptions at h
  split_ifs at h
  rotate_left
  · obtain ⟨_, -, h⟩ := bind_eq_ok_iff.mp h
    obtain rfl := Except.ok.inj h
    exact ⟨by simp, provers.inert⟩
  · obtain ⟨strategy, -, h⟩ := bind_eq_ok_iff.mp h
    obtain ⟨_, -, h⟩ := bind_eq_ok_iff.mp h
    obtain ⟨portfolio, -, h⟩ := bind_eq_ok_iff.mp h
    obtain ⟨depth, -, h⟩ := bind_eq_ok_iff.mp h
    obtain ⟨smokeTimeout, -, h⟩ := bind_eq_ok_iff.mp h
    obtain rfl := Except.ok.inj h
    refine ⟨?_, inert_tip portfolio⟩
    simp only [List.mem_cons, List.not_mem_nil, or_false, forall_eq_or_imp, forall_eq]
    simp only [isNeutral_options, (inert_identifier strategy).isNeutral,
      (inert_toString depth).isNeutral, (inert_toString smokeTimeout).isNeutral, and_self]

section Skeletons

variable {machdep functions model : String}

/-- The skeleton of the inputs is the list of the flags. -/
theorem skeleton_inputArguments (L : Launch) (drivers : List AbsolutePath) (hmachdep : Inert machdep) :
    skeleton (inputArguments L machdep expectedFlags (drivers.map AbsolutePath.text)) =
      expectedFlags := by
  have hdrivers : skeleton (drivers.map AbsolutePath.text) = [] := by
    refine skeleton_eq_nil fun arg harg => ?_
    obtain ⟨P, -, rfl⟩ := List.mem_map.mp harg
    exact P.inert.isNeutral
  have hfront : skeleton [L.framaC.text, "-machdep", machdep] = [] := by
    refine skeleton_eq_nil ?_
    simp [isNeutral_options, L.framaC.inert.isNeutral, hmachdep.isNeutral]
  have hback : skeleton ["-cpp-frama-c-compliant", "-cpp-command", L.cppCommand,
      "-cpp-extra-args=-std=gnu11", "-pp-annot", "-keep-temp-files", "-audit-prepare",
      L.under "audit.json", L.framaInput.text] = [] := by
    refine skeleton_eq_nil ?_
    simp [isNeutral_options, L.inert_cppCommand.isNeutral, L.framaInput.inert.isNeutral,
      Launch.under, (L.output.child "audit.json").inert.isNeutral]
  rw [inputArguments, skeleton_append, skeleton_append, skeleton_append, hfront, hback, hdrivers,
    skeleton_expectedFlags]
  simp

/-- The skeleton of the arguments of a WP target. -/
theorem skeleton_wpArguments (L : Launch) {search : SearchOptions} (hfunctions : Inert functions)
    (hmodel : Inert model) (hsearch : search.IsNeutral) :
    skeleton (wpArguments L functions model search) = ["-wp", "-wp-fct", "-wp-model", "-wp-rte"] := by
  have hsession : skeleton (if search.options = [] then []
      else ["-wp-session", L.under "proof-session"]) = [] := by
    split_ifs
    · rfl
    · refine skeleton_eq_nil ?_
      simp [isNeutral_options, Launch.under, (L.output.child "proof-session").inert.isNeutral]
  have htimeout : isNeutral L.timeout.repr = true := (inert_toString L.timeout).isNeutral
  have hjobs : isNeutral L.jobs.repr = true := (inert_toString L.jobs).isNeutral
  rw [wpArguments, skeleton_append, skeleton_append, skeleton_eq_nil hsearch.options, hsession]
  simp [skeleton, isNeutral_options, isNeutral_watched, hfunctions.isNeutral,
    hmodel.isNeutral, hsearch.engineProvers.isNeutral, htimeout, hjobs, Launch.under,
    (L.output.child "wp").inert.isNeutral,
    (L.output.child "wp.json").inert.isNeutral,
    (L.root.child "toolchain/why3.conf").inert.isNeutral]

/-- The skeleton of the end of the command. -/
theorem skeleton_report (L : Launch) : skeleton (reportOptions ++ [L.under "properties.tsv"]) = reportOptions := by
  simp [skeleton, reportOptions, isNeutral_watched, Launch.under,
    (L.output.child "properties.tsv").inert.isNeutral]

/-- The skeleton of what RTE does, where it does something. -/
def beforeSkeleton (rte : Bool) : List String :=
  if rte then ["-rte", "-rte-select", "-rte-no-use-eva-results", "-then"] else []

/-- The skeleton of an EVA phase. -/
def optionsSkeleton (autoBuiltins explicit : Bool) : List String :=
  ["-eva", "-main", "-eva-slevel"] ++
    (if autoBuiltins then [] else ["-eva-no-builtins-auto"]) ++
    if explicit then ["-eva-builtin"] else []

theorem skeleton_beforeEva (plan : EvaPlan) :
    skeleton (Pipeline.eva plan).beforeEva = beforeSkeleton plan.rteFunctions.isSome := by
  unfold beforeSkeleton Pipeline.beforeEva
  cases hfunctions : plan.rteFunctions with
  | none => simp [hfunctions, skeleton]
  | some functions =>
    simp [hfunctions, skeleton, isNeutral_watched, (inert_functions functions).isNeutral]

theorem skeleton_evaOptions (plan : EvaPlan) :
    skeleton plan.options = optionsSkeleton plan.autoBuiltins (plan.builtins ≠ []) := by
  have hslevel : toString evaSlevel = "100" := by decide +kernel
  unfold optionsSkeleton EvaPlan.options
  rw [skeleton_append, skeleton_append, hslevel]
  congr 1
  · congr 1
    · simp [skeleton, isNeutral_watched, isNeutral_options,
        (inert_identifier plan.entry).isNeutral]
    · split_ifs
      · rfl
      · simp [skeleton, isNeutral_watched]
  · by_cases hbuiltins : plan.builtins = []
    · simp [hbuiltins, skeleton]
    · simp [hbuiltins, skeleton, isNeutral_watched, (inert_builtins plan.builtins).isNeutral]

end Skeletons

end Suite
end Fragma
