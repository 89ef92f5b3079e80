import Fragma.Analysis.Actual

/-!
# Arguments that no check looks at

Most arguments of a command are paths, names and options of the analyzer that the checks
of `validate_actual_policy` never look at.  Such an argument is neutral.  Dropping the
neutral arguments leaves the skeleton of a command, on which every check that counts or
filters gives the same answer.

* `isNeutral`, `skeleton`: the arguments that matter.
* `Inert`, `Inert.isNeutral`: paths, names and numbers are neutral.
* `any_skeleton`, `filter_skeleton`, `count_skeleton`: the checks on a skeleton.
-/

namespace Fragma
namespace Analysis

open Python Posix

/-- The options that the checks look for by name. -/
def watchedOptions : List String := stageOptions ++ reportOptions.tail

/-- No check looks at the argument. -/
def isNeutral (arg : String) : Bool :=
  !namesSemantic arg && !isNoncanonical arg && !isPhaseSelector arg && !isBuiltinControl arg &&
    !isRteOption arg && arg ∉ watchedOptions

/-- The arguments of a command that the checks look at. -/
def skeleton (argv : List String) : List String := argv.filter fun arg => !isNeutral arg

theorem isNeutral_iff {arg : String} : isNeutral arg = true ↔ namesSemantic arg = false ∧
    isNoncanonical arg = false ∧ isPhaseSelector arg = false ∧ isBuiltinControl arg = false ∧
      isRteOption arg = false ∧ arg ∉ watchedOptions := by
  simp [isNeutral, and_assoc]

/-! ## The checks on a skeleton -/

theorem skeleton_append (argv argv' : List String) :
    skeleton (argv ++ argv') = skeleton argv ++ skeleton argv' := List.filter_append ..

theorem skeleton_eq_nil {argv : List String} (h : ∀ arg ∈ argv, isNeutral arg = true) :
    skeleton argv = [] := by
  rw [skeleton, List.filter_eq_nil_iff]
  intro arg harg
  simp [h arg harg]

theorem filter_skeleton {p : String → Bool} (hp : ∀ arg, isNeutral arg = true → p arg = false)
    (argv : List String) : (skeleton argv).filter p = argv.filter p := by
  rw [skeleton, List.filter_filter]
  congr 1
  funext arg
  cases hn : isNeutral arg with
  | true => simp [hp arg hn]
  | false => simp

theorem any_skeleton {p : String → Bool} (hp : ∀ arg, isNeutral arg = true → p arg = false)
    (argv : List String) : (skeleton argv).any p = argv.any p := by
  rw [Bool.eq_iff_iff, List.any_eq_true, List.any_eq_true]
  constructor
  · rintro ⟨arg, harg, hparg⟩
    exact ⟨arg, (List.mem_filter.mp harg).1, hparg⟩
  · rintro ⟨arg, harg, hparg⟩
    refine ⟨arg, List.mem_filter.mpr ⟨harg, ?_⟩, hparg⟩
    cases hn : isNeutral arg with
    | true => exact absurd hparg (by simp [hp arg hn])
    | false => rfl

theorem count_skeleton {arg : String} (h : isNeutral arg = false) (argv : List String) :
    (skeleton argv).count arg = argv.count arg := by
  rw [skeleton, List.count_filter]
  simp [h]

theorem mem_skeleton {arg : String} (h : isNeutral arg = false) (argv : List String) :
    arg ∈ skeleton argv ↔ arg ∈ argv := by
  rw [skeleton, List.mem_filter]
  simp [h]

/-! ## Paths, names and numbers -/

/-- The argument is no option, and either has no dash or does not start like the name of
an option. -/
structure Inert (arg : String) : Prop where
  head : arg.toList.head? ≠ some '-'
  plain : '-' ∉ arg.toList ∨ ∀ c ∈ arg.toList.head?, c ∉ ['w', 'n', 'e', 'v']

theorem head?_eq_some_of_le {α : Type*} {xs ys : List α} {x : α} (h : xs <+: ys)
    (hx : xs.head? = some x) : ys.head? = some x := by
  obtain ⟨zs, rfl⟩ := h
  cases xs with
  | nil => exact absurd hx (by simp)
  | cons a as => exact hx

theorem stripDashes_eq_self {cs : List Char} (h : cs.head? ≠ some '-') : stripDashes cs = cs := by
  cases cs with
  | nil => rfl
  | cons c cs =>
    have hc : c ≠ '-' := by simpa using h
    simp [stripDashes, hc]

/-- An option starts with a dash, so an inert argument is no option. -/
theorem Inert.ne_of_dash {arg option : String} (h : Inert arg)
    (hoption : option.toList.head? = some '-') : arg ≠ option := by
  rintro rfl
  exact h.head hoption

/-- A name with a dash that starts like the name of an option is not at the start of an
inert argument. -/
theorem Inert.not_prefix {arg : String} (h : Inert arg) {name : List Char}
    (hdash : '-' ∈ name) (hhead : ∃ c ∈ ['w', 'n', 'e', 'v'], name.head? = some c) :
    ¬ name <+: arg.toList := by
  intro hname
  obtain ⟨c, hc, hname'⟩ := hhead
  rcases h.plain with hplain | hplain
  · exact hplain (hname.subset hdash)
  · exact hplain c (head?_eq_some_of_le hname hname') hc

theorem Inert.removeNo {arg : String} (h : Inert arg) : removeNo arg.toList = arg.toList := by
  unfold Analysis.removeNo
  split
  · next cs heq =>
    have hno : ¬ ['n', 'o', '-'] <+: arg.toList := h.not_prefix (by simp) ⟨'n', by simp, rfl⟩
    rw [heq] at hno
    exact absurd ⟨cs, rfl⟩ hno
  · rfl

theorem Inert.namesSemantic {arg : String} (h : Inert arg) : namesSemantic arg = false := by
  have hall : semanticOptions.all (fun o => '-' ∈ o.toList && o.toList.head? = some 'w') = true := by
    decide +kernel
  rw [Analysis.namesSemantic, stripDashes_eq_self h.head, h.removeNo, List.any_eq_false]
  intro o ho heq
  have hwatch := List.all_eq_true.mp hall o ho
  rw [Bool.and_eq_true, decide_eq_true_eq, decide_eq_true_eq] at hwatch
  refine h.not_prefix hwatch.1 ⟨'w', by simp, hwatch.2⟩ ?_
  rw [of_decide_eq_true heq]
  exact List.takeWhile_prefix _

theorem Inert.isBuiltinControl {arg : String} (h : Inert arg) : isBuiltinControl arg = false := by
  have hall : builtinControls.all (fun o => '-' ∈ o.toList &&
      ['w', 'n', 'e', 'v'].any fun c => o.toList.head? = some c) = true := by
    decide +kernel
  rw [Analysis.isBuiltinControl, List.any_eq_false]
  intro o ho hprefix'
  have hwatch := List.all_eq_true.mp hall o ho
  rw [Bool.and_eq_true, decide_eq_true_eq, List.any_eq_true] at hwatch
  obtain ⟨hdash, c, hc, hhead⟩ := hwatch
  refine h.not_prefix hdash ⟨c, hc, of_decide_eq_true hhead⟩ ?_
  have hbefore : (beforeEquals arg.toList).head? ≠ some '-' := fun hno =>
    h.head (head?_eq_some_of_le (List.takeWhile_prefix _) hno)
  rw [stripDashes_eq_self hbefore] at hprefix'
  exact (of_decide_eq_true hprefix').trans (List.takeWhile_prefix _)

/-- **An inert argument is neutral.** -/
theorem Inert.isNeutral {arg : String} (h : Inert arg) : isNeutral arg = true := by
  have hstages : stageOptions.all (fun o => o.toList.head? = some '-') = true := by decide +kernel
  have hwatched : watchedOptions.all (fun o => o.toList.head? = some '-') = true := by
    decide +kernel
  have hstart : ∀ {start : String}, start.toList.head? = some '-' → startsWith start arg = false := by
    intro start hdash
    rw [startsWith, decide_eq_false_iff_not]
    exact fun hno => h.head (head?_eq_some_of_le hno hdash)
  refine isNeutral_iff.mpr ⟨h.namesSemantic, ?_, ?_, h.isBuiltinControl, ?_, ?_⟩
  · rw [isNoncanonical, Bool.and_eq_false_iff, List.any_eq_false]
    refine Or.inr fun o ho heq => h.head ?_
    have hdash := of_decide_eq_true (List.all_eq_true.mp hstages o ho)
    rw [of_decide_eq_true heq] at hdash
    exact head?_eq_some_of_le (List.takeWhile_prefix _) hdash
  · rw [isPhaseSelector, hstart (by decide +kernel), Bool.false_and]
  · rw [isRteOption, hstart (by decide +kernel), Bool.or_false, decide_eq_false_iff_not]
    exact h.ne_of_dash (by decide +kernel)
  · intro hmem
    exact h.ne_of_dash (of_decide_eq_true (List.all_eq_true.mp hwatched arg hmem)) rfl

theorem inert_of_notMem {arg : String} (h : '-' ∉ arg.toList) : Inert arg where
  head hno := h (List.mem_of_mem_head? hno)
  plain := Or.inl h

theorem inert_of_head {arg : String} {c : Char} (h : arg.toList.head? = some c)
    (hc : c ∉ ['-', 'w', 'n', 'e', 'v']) : Inert arg where
  head hno := by
    rw [h, Option.some.injEq] at hno
    exact hc (hno ▸ List.mem_cons_self)
  plain := by
    refine Or.inr fun d hd hmem => hc ?_
    rw [h, Option.mem_some_iff] at hd
    exact List.mem_cons_of_mem _ (hd ▸ hmem)

/-- A property of the characters of a joined list. -/
theorem forall_mem_commaJoin {p : Char → Prop} {names : List String} (hcomma : p ',')
    (h : ∀ name ∈ names, ∀ c ∈ name.toList, p c) : ∀ c ∈ (commaJoin names).toList, p c := by
  unfold commaJoin
  induction names with
  | nil => simp
  | cons name names ih =>
    cases names with
    | nil =>
      rw [String.intercalate_singleton]
      exact h name List.mem_cons_self
    | cons name' names =>
      have htail := ih fun n hn => h n (List.mem_cons_of_mem _ hn)
      rw [String.intercalate_cons_of_ne_nil (by simp)]
      intro c hc
      rw [String.toList_append, String.toList_append, List.mem_append, List.mem_append] at hc
      rcases hc with (hc | hc) | hc
      · exact h name List.mem_cons_self c hc
      · have : c = ',' := by simpa using hc
        exact this ▸ hcomma
      · exact htail c hc

/-- A joined list starts like its first name. -/
theorem head?_commaJoin {name : String} {names : List String} {c : Char}
    (h : name.toList.head? = some c) : (commaJoin (name :: names)).toList.head? = some c := by
  unfold commaJoin
  cases names with
  | nil => rwa [String.intercalate_singleton]
  | cons name' names =>
    rw [String.intercalate_cons_of_ne_nil (by simp), String.toList_append, String.toList_append,
      List.append_assoc, List.head?_append, h]
    rfl

theorem Identifier.notMem_dash (a : Identifier) : '-' ∉ a.text.toList := by
  intro hmem
  have h := a.isIdentifier
  cases htext : a.text.toList with
  | nil => rw [htext] at hmem; exact absurd hmem List.not_mem_nil
  | cons c cs =>
    rw [htext, Provenance.isIdentifier, Bool.and_eq_true, List.all_eq_true] at h
    rw [htext, List.mem_cons] at hmem
    rcases hmem with rfl | hmem
    · exact absurd h.1 (by decide)
    · exact absurd (h.2 _ hmem) (by decide)

theorem Builtin.notMem_dash (b : Builtin) : '-' ∉ b.text.toList := by
  rw [Builtin.text, String.toList_append, String.toList_append, List.mem_append, List.mem_append,
    not_or, not_or]
  exact ⟨⟨Identifier.notMem_dash b.function, by decide⟩, Identifier.notMem_dash b.builtin⟩

theorem inert_identifier (a : Identifier) : Inert a.text := inert_of_notMem (Identifier.notMem_dash a)

theorem inert_functions (names : List Identifier) :
    Inert (commaJoin (names.map Identifier.text)) := by
  refine inert_of_notMem fun hmem => ?_
  refine forall_mem_commaJoin (p := fun c => c ≠ '-') (by decide) ?_ '-' hmem rfl
  intro name hname c hc
  obtain ⟨a, -, rfl⟩ := List.mem_map.mp hname
  rintro rfl
  exact Identifier.notMem_dash a hc

theorem inert_builtins (builtins : List Builtin) :
    Inert (commaJoin (builtins.map Builtin.text)) := by
  refine inert_of_notMem fun hmem => ?_
  refine forall_mem_commaJoin (p := fun c => c ≠ '-') (by decide) ?_ '-' hmem rfl
  intro name hname c hc
  obtain ⟨b, -, rfl⟩ := List.mem_map.mp hname
  rintro rfl
  exact Builtin.notMem_dash b hc

theorem inert_toString (n : ℕ) : Inert (toString n) := by
  refine inert_of_notMem fun hmem => ?_
  have hdigit : ('-').isDigit = true := by
    refine Nat.isDigit_of_mem_toDigits (b := 10) (n := n) (by decide) (by decide) ?_
    rwa [show toString n = Nat.repr n from rfl, Nat.repr_eq_ofList_toDigits, String.toList_ofList]
      at hmem
  exact absurd hdigit (by decide)

end Analysis
end Fragma
