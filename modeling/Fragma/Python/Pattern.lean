import Mathlib.Data.List.Infix
import Mathlib.Data.List.TakeWhile
import Mathlib.Data.String.Basic

/-!
# Patterns with backtracking

A regular expression as the list of its ways to match the start of a text, in the order in which a
backtracking matcher tries them.  A greedy repetition comes with its longest match first, a reluctant
one with its shortest.  The first way is what `match` finds, the first one without a rest what
`fullmatch` finds, and the first one at the first place what `search` finds.

* `Pattern`, `lit`, `one`, `greedy`, `reluctant`, `orElse`, `optional`: the patterns.
* `mem_bind_iff`, `mem_greedy_iff`, `mem_reluctant_iff`: which ways there are.
* `fullmatch`, `searchLine`, `findAll`: matching a whole text, and finding a pattern at the start of a
  line.
-/

namespace Fragma
namespace Python


/-- The ways to match the start of a text, each with what it captures and what follows. -/
def Pattern (α : Type) : Type := List Char → List (α × List Char)

namespace Pattern

variable {α β : Type}

instance : Monad Pattern where
  pure a := fun cs => [(a, cs)]
  bind p f := fun cs => (p cs).flatMap fun r => f r.1 r.2

/-- A fixed text. -/
def lit (s : String) : Pattern Unit := fun cs =>
  if s.toList <+: cs then [((), cs.drop s.toList.length)] else []

/-- A character of a class. -/
def one (p : Char → Bool) : Pattern Char
  | [] => []
  | c :: cs => if p c then [(c, cs)] else []

/-- `p|q`. -/
def orElse (p q : Pattern α) : Pattern α := fun cs => p cs ++ q cs

/-- `(?:p)?`. -/
def optional (p : Pattern α) : Pattern (Option α) :=
  orElse (some <$> p) (pure none)

/-- `[…]*`. -/
def greedy (p : Char → Bool) : Pattern (List Char)
  | [] => [([], [])]
  | c :: cs =>
    if p c then (greedy p cs).map (fun r => (c :: r.1, r.2)) ++ [([], c :: cs)]
    else [([], c :: cs)]

/-- `[…]*?`. -/
def reluctant (p : Char → Bool) : Pattern (List Char)
  | [] => [([], [])]
  | c :: cs =>
    ([], c :: cs) :: if p c then (reluctant p cs).map (fun r => (c :: r.1, r.2)) else []

/-- `[…]+`. -/
def greedy1 (p : Char → Bool) : Pattern (List Char) := do
  let c ← one p
  let cs ← greedy p
  pure (c :: cs)

/-- `[…]+?`. -/
def reluctant1 (p : Char → Bool) : Pattern (List Char) := do
  let c ← one p
  let cs ← reluctant p
  pure (c :: cs)

/-- `$` of a pattern for several lines. -/
def lineEnd : Pattern Unit := fun cs =>
  if cs = [] ∨ cs.head? = some '\n' then [((), cs)] else []

/-! ## The ways there are -/

variable {p q : Pattern α} {f : α → Pattern β} {cs rest : List Char} {a : α} {b : β}

@[simp] theorem mem_pure_iff {a' : α} :
    (a', rest) ∈ (pure a : Pattern α) cs ↔ a' = a ∧ rest = cs := by
  change _ ∈ [(a, cs)] ↔ _
  simp

@[simp] theorem mem_bind_iff :
    (b, rest) ∈ (p >>= f) cs ↔ ∃ a middle, (a, middle) ∈ p cs ∧ (b, rest) ∈ f a middle := by
  change _ ∈ (p cs).flatMap _ ↔ _
  simp only [List.mem_flatMap, Prod.exists]

@[simp] theorem mem_map_iff {g : α → β} :
    (b, rest) ∈ (g <$> p) cs ↔ ∃ a, (a, rest) ∈ p cs ∧ g a = b := by
  change _ ∈ (p >>= fun a => pure (g a)) cs ↔ _
  simp only [mem_bind_iff, mem_pure_iff]
  constructor
  · rintro ⟨a, middle, hmem, rfl, rfl⟩
    exact ⟨a, hmem, rfl⟩
  · rintro ⟨a, hmem, rfl⟩
    exact ⟨a, rest, hmem, rfl, rfl⟩

@[simp] theorem mem_lit_iff {s : String} {u : Unit} :
    (u, rest) ∈ lit s cs ↔ cs = s.toList ++ rest := by
  unfold lit
  constructor
  · intro h
    split_ifs at h with hpre
    · obtain ⟨tail, rfl⟩ := hpre
      simp only [List.drop_left, List.mem_singleton, Prod.mk.injEq, true_and] at h
      rw [h]
    · exact absurd h List.not_mem_nil
  · rintro rfl
    rw [if_pos (List.prefix_append _ _), List.drop_left]
    exact List.mem_singleton.mpr rfl

@[simp] theorem mem_one_iff {k : Char → Bool} {c : Char} :
    (c, rest) ∈ one k cs ↔ cs = c :: rest ∧ k c = true := by
  cases cs with
  | nil => simp [one]
  | cons d cs =>
    rw [one]
    by_cases hd : k d = true
    · rw [if_pos hd]
      simp only [List.mem_singleton, Prod.mk.injEq, List.cons.injEq]
      constructor
      · rintro ⟨rfl, rfl⟩
        exact ⟨⟨rfl, rfl⟩, hd⟩
      · rintro ⟨⟨rfl, rfl⟩, -⟩
        exact ⟨rfl, rfl⟩
    · rw [if_neg hd]
      simp only [List.not_mem_nil, List.cons.injEq, false_iff, not_and]
      rintro ⟨rfl, -⟩
      exact hd

@[simp] theorem mem_orElse_iff {w : α × List Char} : w ∈ orElse p q cs ↔ w ∈ p cs ∨ w ∈ q cs :=
  List.mem_append

@[simp] theorem mem_optional_iff {o : Option α} :
    (o, rest) ∈ optional p cs ↔ (∃ a, (a, rest) ∈ p cs ∧ o = some a) ∨ o = none ∧ rest = cs := by
  rw [optional, mem_orElse_iff, mem_map_iff, mem_pure_iff]
  simp only [eq_comm (a := o)]

@[simp] theorem mem_greedy_iff {k : Char → Bool} {taken : List Char} :
    (taken, rest) ∈ greedy k cs ↔ cs = taken ++ rest ∧ ∀ c ∈ taken, k c = true := by
  induction cs generalizing taken with
  | nil =>
    simp only [greedy, List.mem_singleton, Prod.mk.injEq, List.nil_eq, List.append_eq_nil_iff]
    constructor
    · rintro ⟨rfl, rfl⟩
      simp
    · exact fun h => h.1
  | cons d cs ih =>
    rw [greedy]
    cases taken with
    | nil =>
      have hmap : ([], rest) ∉ (greedy k cs).map fun r => (d :: r.1, r.2) := by simp
      have hhere : ([], rest) ∈ [(([] : List Char), d :: cs)] ↔ d :: cs = rest := by
        simp only [List.mem_singleton, Prod.mk.injEq, true_and]
        exact eq_comm
      simp only [List.nil_append, List.not_mem_nil, false_implies, implies_true, and_true]
      split_ifs with hd
      · rw [List.mem_append, or_iff_right hmap, hhere]
      · exact hhere
    | cons c taken =>
      by_cases hd : k d = true
      · rw [if_pos hd]
        simp only [List.mem_append, List.mem_map, Prod.mk.injEq, List.cons.injEq, Prod.exists,
          List.mem_singleton, reduceCtorEq, false_and, or_false, List.cons_append,
          List.forall_mem_cons]
        constructor
        · rintro ⟨t, r, hmem, ⟨rfl, rfl⟩, rfl⟩
          obtain ⟨hcs, hall⟩ := ih.mp hmem
          exact ⟨⟨rfl, hcs⟩, hd, hall⟩
        · rintro ⟨⟨rfl, hcs⟩, -, hall⟩
          exact ⟨taken, rest, ih.mpr ⟨hcs, hall⟩, ⟨rfl, rfl⟩, rfl⟩
      · rw [if_neg hd]
        simp only [List.mem_singleton, Prod.mk.injEq, reduceCtorEq, false_and, List.cons_append,
          List.cons.injEq, List.forall_mem_cons, false_iff, not_and]
        rintro ⟨rfl, -⟩ hc
        exact absurd hc hd

@[simp] theorem mem_reluctant_iff {k : Char → Bool} {taken : List Char} :
    (taken, rest) ∈ reluctant k cs ↔ (taken, rest) ∈ greedy k cs := by
  have h : ∀ r, r ∈ reluctant k cs ↔ r ∈ greedy k cs := by
    induction cs with
    | nil => exact fun r => Iff.rfl
    | cons d cs ih =>
      intro r
      rw [reluctant, greedy]
      by_cases hd : k d = true
      · rw [if_pos hd, if_pos hd]
        simp only [List.mem_cons, List.mem_append, List.mem_map, ih, List.not_mem_nil, or_false]
        exact or_comm
      · rw [if_neg hd, if_neg hd]
  exact h _

@[simp] theorem mem_greedy1_iff {k : Char → Bool} {taken : List Char} :
    (taken, rest) ∈ greedy1 k cs ↔ cs = taken ++ rest ∧ taken ≠ [] ∧ ∀ c ∈ taken, k c = true := by
  simp only [greedy1, mem_bind_iff, mem_one_iff, mem_greedy_iff, mem_pure_iff]
  constructor
  · rintro ⟨c, middle, ⟨rfl, hc⟩, t, r, ⟨rfl, hall⟩, rfl, rfl⟩
    exact ⟨rfl, List.cons_ne_nil _ _, List.forall_mem_cons.mpr ⟨hc, hall⟩⟩
  · rintro ⟨rfl, hne, hall⟩
    obtain ⟨c, t, rfl⟩ := List.exists_cons_of_ne_nil hne
    obtain ⟨hc, hall⟩ := List.forall_mem_cons.mp hall
    exact ⟨c, t ++ rest, ⟨rfl, hc⟩, t, rest, ⟨rfl, hall⟩, rfl, rfl⟩

@[simp] theorem mem_reluctant1_iff {k : Char → Bool} {taken : List Char} :
    (taken, rest) ∈ reluctant1 k cs ↔ (taken, rest) ∈ greedy1 k cs := by
  simp only [reluctant1, greedy1, mem_bind_iff, mem_reluctant_iff]

@[simp] theorem mem_lineEnd_iff {u : Unit} :
    (u, rest) ∈ lineEnd cs ↔ rest = cs ∧ (cs = [] ∨ cs.head? = some '\n') := by
  unfold lineEnd
  split_ifs with h
  · simp [h]
  · simp [h]

/-! ## Matching -/

/-- `re.fullmatch(p, text)`. -/
def fullmatch (p : Pattern α) (text : List Char) : Option α :=
  ((p text).find? fun r => r.2.isEmpty).map Prod.fst

theorem mem_of_fullmatch {text : List Char} (h : fullmatch p text = some a) : (a, []) ∈ p text := by
  obtain ⟨⟨a', rest⟩, hfind, rfl⟩ := Option.map_eq_some_iff.mp h
  have hrest := List.find?_some hfind
  rw [List.isEmpty_iff] at hrest
  exact hrest ▸ List.mem_of_find?_eq_some hfind

theorem fullmatch_eq_none_iff {text : List Char} :
    fullmatch p text = none ↔ ∀ a, (a, []) ∉ p text := by
  rw [fullmatch, Option.map_eq_none_iff, List.find?_eq_none]
  simp only [List.isEmpty_iff, Prod.forall]
  exact ⟨fun h a hmem => h a [] hmem rfl, fun h a rest hmem hrest => h a (hrest ▸ hmem)⟩

theorem fullmatch_isSome_iff {text : List Char} :
    (fullmatch p text).isSome ↔ ∃ a, (a, []) ∈ p text := by
  rw [← Option.ne_none_iff_isSome, Ne, fullmatch_eq_none_iff]
  simp only [not_forall, not_not]

/-- Where there is one way only, `fullmatch` takes it. -/
theorem fullmatch_eq_some {text : List Char} (hmem : (a, []) ∈ p text)
    (hunique : ∀ b, (b, []) ∈ p text → b = a) : fullmatch p text = some a := by
  cases h : fullmatch p text with
  | none => exact absurd hmem (fullmatch_eq_none_iff.mp h a)
  | some b => rw [hunique b (mem_of_fullmatch h)]

/-- `re.search(p, text, re.MULTILINE)` for a pattern that begins with `^`: what stands in front, what
the first match captures, and what follows it.  `fresh` says that a line begins here. -/
def searchLine (p : Pattern α) : Bool → List Char → Option (List Char × α × List Char)
  | true, [] => (p []).head?.map fun r => ([], r)
  | false, [] => none
  | fresh, c :: cs =>
    match (if fresh then (p (c :: cs)).head? else none) with
    | some r => some ([], r)
    | none => (searchLine p (c = '\n') cs).map fun r => (c :: r.1, r.2)

/-- `re.finditer(p, text, re.MULTILINE)` for such a pattern: what each match captures, and what follows
it.  A match is searched behind the one before; `fuel` bounds how many there are. -/
def findLines (p : Pattern α) : ℕ → Bool → List Char → List (α × List Char)
  | 0, _, _ => []
  | fuel + 1, fresh, cs =>
    match searchLine p fresh cs with
    | none => []
    | some (_, a, rest) =>
      (a, rest) :: findLines p fuel ((cs.take (cs.length - rest.length)).getLast? = some '\n') rest

/-- All matches in a text.  Each takes at least one character of it. -/
def findAll (p : Pattern α) (text : List Char) : List (α × List Char) :=
  findLines p (text.length + 1) true text

end Pattern
end Python
end Fragma
