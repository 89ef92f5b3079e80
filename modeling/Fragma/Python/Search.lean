import Mathlib.Data.List.Forall2
import Mathlib.Data.List.Infix

/-!
# Occurrences of a text in another

`str.find` and `str.rfind`, and the ways to place several words in a text one after another.

* `find_eq_some_iff`, `rfind_eq_some_iff`: the first occurrence from a place on, and the last one.
* `Spread`: the words occur in their order, each at a given distance from the one before.
* `inTurn_iff_spread`: taking the first occurrence of each word in turn finds such places whenever
  there are any.
-/

namespace Fragma
namespace Python
namespace Search

variable {α : Type*} [DecidableEq α] {word text : List α} {i start : ℕ}

/-- The word stands in the text at a place. -/
def OccursAt (word text : List α) (i : ℕ) : Prop :=
  i ≤ text.length ∧ word <+: text.drop i

instance : Decidable (OccursAt word text i) :=
  inferInstanceAs (Decidable (_ ∧ _))

/-- The first occurrence in a text whose first character has the place `n`. -/
def findFrom (word : List α) (n : ℕ) : List α → Option ℕ
  | [] => if word = [] then some n else none
  | c :: cs => if word <+: c :: cs then some n else findFrom word (n + 1) cs

/-- The last occurrence in a text whose first character has the place `n`. -/
def rfindFrom (word : List α) (n : ℕ) : List α → Option ℕ
  | [] => if word = [] then some n else none
  | c :: cs =>
    match rfindFrom word (n + 1) cs with
    | some i => some i
    | none => if word <+: c :: cs then some n else none

/-- `text.find(word, start)`. -/
def find (word text : List α) (start : ℕ) : Option ℕ :=
  if start ≤ text.length then findFrom word start (text.drop start) else none

/-- `text.rfind(word)`. -/
def rfind (word text : List α) : Option ℕ := rfindFrom word 0 text

omit [DecidableEq α] in
theorem OccursAt.length_le (h : OccursAt word text i) : i + word.length ≤ text.length := by
  have hlen := h.2.length_le
  rw [List.length_drop] at hlen
  have hi := h.1
  omega

omit [DecidableEq α] in
theorem occursAt_append (before word after : List α) :
    OccursAt word (before ++ (word ++ after)) before.length :=
  ⟨by simp, by simp⟩

omit [DecidableEq α] in
theorem OccursAt.shift {before : List α} (h : OccursAt word text i) :
    OccursAt word (before ++ text) (before.length + i) := by
  refine ⟨by simp [h.1], ?_⟩
  rw [List.drop_append, List.drop_eq_nil_of_le (Nat.le_add_right _ _), List.nil_append,
    Nat.add_sub_cancel_left]
  exact h.2

omit [DecidableEq α] in
theorem OccursAt.append {after : List α} (h : OccursAt word text i) :
    OccursAt word (text ++ after) i := by
  refine ⟨h.1.trans (by simp), ?_⟩
  rw [List.drop_append_of_le_length h.1]
  exact h.2.trans (List.prefix_append _ _)

omit [DecidableEq α] in
theorem occursAt_zero : OccursAt word text 0 ↔ word <+: text := by
  simp [OccursAt]

omit [DecidableEq α] in
theorem occursAt_nil : OccursAt word [] i ↔ i = 0 ∧ word = [] := by
  simp [OccursAt]

omit [DecidableEq α] in
theorem occursAt_cons_succ {c : α} : OccursAt word (c :: text) (i + 1) ↔ OccursAt word text i := by
  simp [OccursAt]

omit [DecidableEq α] in
theorem occursAt_drop (h : start ≤ text.length) :
    OccursAt word (text.drop start) i ↔ OccursAt word text (start + i) := by
  rw [OccursAt, OccursAt, List.drop_drop, List.length_drop]
  refine and_congr_left' ?_
  omega

theorem findFrom_eq_some_iff {n : ℕ} :
    findFrom word n text = some i ↔
      ∃ k, i = n + k ∧ OccursAt word text k ∧ ∀ j, j < k → ¬ OccursAt word text j := by
  induction text generalizing n with
  | nil =>
    rw [findFrom]
    simp only [occursAt_nil]
    constructor
    · intro h
      split_ifs at h with hword
      exact ⟨0, (Option.some.inj h).symm, ⟨rfl, hword⟩, by simp⟩
    · rintro ⟨k, rfl, ⟨rfl, hword⟩, -⟩
      exact if_pos hword
  | cons c cs ih =>
    rw [findFrom]
    by_cases hhere : word <+: c :: cs
    · rw [if_pos hhere]
      constructor
      · intro h
        exact ⟨0, (Option.some.inj h).symm, occursAt_zero.mpr hhere, by simp⟩
      · rintro ⟨k, rfl, -, hleast⟩
        have hk : k = 0 := by
          by_contra hne
          exact hleast 0 (Nat.pos_of_ne_zero hne) (occursAt_zero.mpr hhere)
        rw [hk, Nat.add_zero]
    · rw [if_neg hhere, ih]
      constructor
      · rintro ⟨k, rfl, hocc, hleast⟩
        refine ⟨k + 1, by omega, occursAt_cons_succ.mpr hocc, fun j hj hocc' => ?_⟩
        cases j with
        | zero => exact hhere (occursAt_zero.mp hocc')
        | succ j => exact hleast j (by omega) (occursAt_cons_succ.mp hocc')
      · rintro ⟨k, rfl, hocc, hleast⟩
        cases k with
        | zero => exact absurd (occursAt_zero.mp hocc) hhere
        | succ k =>
          refine ⟨k, by omega, occursAt_cons_succ.mp hocc, fun j hj hocc' => ?_⟩
          exact hleast (j + 1) (by omega) (occursAt_cons_succ.mpr hocc')

theorem findFrom_eq_none_iff {n : ℕ} :
    findFrom word n text = none ↔ ∀ j, ¬ OccursAt word text j := by
  induction text generalizing n with
  | nil =>
    rw [findFrom]
    simp [occursAt_nil]
  | cons c cs ih =>
    rw [findFrom]
    by_cases hhere : word <+: c :: cs
    · rw [if_pos hhere]
      exact iff_of_false (by simp) fun h => h 0 (occursAt_zero.mpr hhere)
    · rw [if_neg hhere, ih]
      constructor
      · intro h j hocc
        cases j with
        | zero => exact hhere (occursAt_zero.mp hocc)
        | succ j => exact h j (occursAt_cons_succ.mp hocc)
      · exact fun h j hocc => h (j + 1) (occursAt_cons_succ.mpr hocc)

theorem find_eq_some_iff :
    find word text start = some i ↔
      start ≤ i ∧ OccursAt word text i ∧ ∀ j, start ≤ j → j < i → ¬ OccursAt word text j := by
  rw [find]
  split_ifs with hstart
  · simp only [findFrom_eq_some_iff, occursAt_drop hstart]
    constructor
    · rintro ⟨k, rfl, hocc, hleast⟩
      refine ⟨Nat.le_add_right _ _, hocc, fun j hj hlt hocc' => ?_⟩
      obtain ⟨d, rfl⟩ := Nat.exists_eq_add_of_le hj
      exact hleast d (by omega) hocc'
    · rintro ⟨hi, hocc, hleast⟩
      obtain ⟨k, rfl⟩ := Nat.exists_eq_add_of_le hi
      exact ⟨k, rfl, hocc, fun j hj => hleast _ (Nat.le_add_right _ _) (by omega)⟩
  · refine iff_of_false (by simp) ?_
    rintro ⟨hi, hocc, -⟩
    exact hstart (hi.trans hocc.1)

theorem find_eq_none_iff :
    find word text start = none ↔ ∀ j, start ≤ j → ¬ OccursAt word text j := by
  rw [find]
  split_ifs with hstart
  · simp only [findFrom_eq_none_iff, occursAt_drop hstart]
    constructor
    · intro h j hj hocc
      obtain ⟨d, rfl⟩ := Nat.exists_eq_add_of_le hj
      exact h d hocc
    · exact fun h j => h _ (Nat.le_add_right _ _)
  · exact iff_of_true rfl fun j hj hocc => hstart (hj.trans hocc.1)

theorem rfindFrom_eq_none_iff {n : ℕ} :
    rfindFrom word n text = none ↔ ∀ j, ¬ OccursAt word text j := by
  induction text generalizing n with
  | nil =>
    rw [rfindFrom]
    simp [occursAt_nil]
  | cons c cs ih =>
    rw [rfindFrom]
    cases hrest : rfindFrom word (n + 1) cs with
    | some m =>
      refine iff_of_false (by simp) fun h => ?_
      have hnone : rfindFrom word (n + 1) cs = none :=
        ih.mpr fun j hocc => h (j + 1) (occursAt_cons_succ.mpr hocc)
      rw [hrest] at hnone
      exact absurd hnone (by simp)
    | none =>
      simp only [ite_eq_right_iff, reduceCtorEq, imp_false]
      constructor
      · intro h j hocc
        cases j with
        | zero => exact h (occursAt_zero.mp hocc)
        | succ j => exact ih.mp hrest j (occursAt_cons_succ.mp hocc)
      · exact fun h hhere => h 0 (occursAt_zero.mpr hhere)

theorem rfindFrom_eq_some {n : ℕ} (h : rfindFrom word n text = some i) :
    ∃ k, i = n + k ∧ OccursAt word text k ∧ ∀ j, k < j → ¬ OccursAt word text j := by
  induction text generalizing n with
  | nil =>
    rw [rfindFrom] at h
    split_ifs at h with hword
    refine ⟨0, (Option.some.inj h).symm, occursAt_nil.mpr ⟨rfl, hword⟩, fun j hj hocc => ?_⟩
    exact absurd (occursAt_nil.mp hocc).1 (by omega)
  | cons c cs ih =>
    rw [rfindFrom] at h
    cases hrest : rfindFrom word (n + 1) cs with
    | some m =>
      rw [hrest] at h
      obtain ⟨k, rfl, hocc, hlast⟩ := ih (hrest.trans h)
      refine ⟨k + 1, by omega, occursAt_cons_succ.mpr hocc, fun j hj hocc' => ?_⟩
      cases j with
      | zero => exact absurd hj (Nat.not_lt_zero _)
      | succ j => exact hlast j (by omega) (occursAt_cons_succ.mp hocc')
    | none =>
      rw [hrest] at h
      dsimp only at h
      split_ifs at h with hhere
      refine ⟨0, (Option.some.inj h).symm, occursAt_zero.mpr hhere, fun j hj hocc => ?_⟩
      cases j with
      | zero => exact absurd hj (Nat.not_lt_zero _)
      | succ j => exact rfindFrom_eq_none_iff.mp hrest j (occursAt_cons_succ.mp hocc)

theorem rfind_eq_some_iff :
    rfind word text = some i ↔ OccursAt word text i ∧ ∀ j, i < j → ¬ OccursAt word text j := by
  have hsome : ∀ m, rfind word text = some m →
      OccursAt word text m ∧ ∀ j, m < j → ¬ OccursAt word text j := by
    intro m hm
    obtain ⟨k, rfl, h⟩ := rfindFrom_eq_some hm
    rwa [Nat.zero_add]
  refine ⟨hsome i, fun h => ?_⟩
  cases hfind : rfind word text with
  | none => exact absurd h.1 (rfindFrom_eq_none_iff.mp hfind i)
  | some m =>
    obtain ⟨hocc, hlast⟩ := hsome m hfind
    rcases lt_trichotomy m i with hlt | rfl | hlt
    · exact absurd h.1 (hlast i hlt)
    · rfl
    · exact absurd hocc (h.2 m hlt)

/-! ## Several words -/

/-- The words stand in the text in their order, at places of which each is at least `gap` of its
word before all later ones. -/
def Spread (gap : List α → ℕ) (text : List α) (words : List (List α)) : Prop :=
  ∃ marks : List (ℕ × List α), marks.map Prod.snd = words ∧
    (∀ m ∈ marks, OccursAt m.2 text m.1) ∧
    marks.Pairwise fun m n => m.1 + gap m.2 ≤ n.1

/-- The words can be placed one after another, from `start` on. -/
def Placed (gap : List α → ℕ) (text : List α) : ℕ → List (List α) → Prop
  | _, [] => True
  | start, word :: words =>
    ∃ i, start ≤ i ∧ OccursAt word text i ∧ Placed gap text (i + gap word) words

/-- The first occurrence of each word in turn. -/
def inTurn (gap : List α → ℕ) (text : List α) : ℕ → List (List α) → Bool
  | _, [] => true
  | start, word :: words =>
    match find word text start with
    | some i => inTurn gap text (i + gap word) words
    | none => false

variable {gap : List α → ℕ} {words : List (List α)}

omit [DecidableEq α] in
theorem Placed.earlier {start' : ℕ} (h : Placed gap text start words) (hle : start' ≤ start) :
    Placed gap text start' words := by
  cases words with
  | nil => trivial
  | cons word words =>
    obtain ⟨i, hi, hocc, hrest⟩ := h
    exact ⟨i, hle.trans hi, hocc, hrest⟩

omit [DecidableEq α] in
theorem placed_iff_marks :
    Placed gap text start words ↔ ∃ marks : List (ℕ × List α), marks.map Prod.snd = words ∧
      (∀ m ∈ marks, start ≤ m.1 ∧ OccursAt m.2 text m.1) ∧
      marks.Pairwise fun m n => m.1 + gap m.2 ≤ n.1 := by
  induction words generalizing start with
  | nil => exact ⟨fun _ => ⟨[], rfl, by simp, .nil⟩, fun _ => trivial⟩
  | cons word words ih =>
    constructor
    · rintro ⟨i, hi, hocc, hrest⟩
      obtain ⟨marks, rfl, hmarks, hpair⟩ := ih.mp hrest
      refine ⟨(i, word) :: marks, rfl, List.forall_mem_cons.mpr ⟨⟨hi, hocc⟩, fun m hm => ?_⟩,
        List.pairwise_cons.mpr ⟨fun m hm => (hmarks m hm).1, hpair⟩⟩
      have hle := (hmarks m hm).1
      exact ⟨by omega, (hmarks m hm).2⟩
    · rintro ⟨marks, hwords, hmarks, hpair⟩
      obtain ⟨⟨i, w⟩, marks, rfl, rfl, hrest⟩ := List.map_eq_cons_iff.mp hwords
      rw [List.pairwise_cons] at hpair
      obtain ⟨⟨hi, hocc⟩, hmarks⟩ := List.forall_mem_cons.mp hmarks
      exact ⟨i, hi, hocc, ih.mpr ⟨marks, hrest,
        fun m hm => ⟨hpair.1 m hm, (hmarks m hm).2⟩, hpair.2⟩⟩

omit [DecidableEq α] in
theorem spread_iff_placed : Spread gap text words ↔ Placed gap text 0 words := by
  rw [placed_iff_marks]
  simp only [Nat.zero_le, true_and, Spread]

/-- Taking the first occurrence loses nothing, since it leaves the most room. -/
theorem inTurn_iff_placed : inTurn gap text start words = true ↔ Placed gap text start words := by
  induction words generalizing start with
  | nil => simp [inTurn, Placed]
  | cons word words ih =>
    rw [inTurn, Placed]
    cases hfind : find word text start with
    | none =>
      rw [find_eq_none_iff] at hfind
      simp only [Bool.false_eq_true, false_iff]
      rintro ⟨i, hi, hocc, -⟩
      exact hfind i hi hocc
    | some i =>
      obtain ⟨hi, hocc, hleast⟩ := find_eq_some_iff.mp hfind
      rw [ih]
      constructor
      · exact fun h => ⟨i, hi, hocc, h⟩
      · rintro ⟨j, hj, hocc', h⟩
        have hij : i ≤ j := Nat.not_lt.mp fun hlt => hleast j hj hlt hocc'
        exact h.earlier (by omega)

theorem inTurn_iff_spread : inTurn gap text 0 words = true ↔ Spread gap text words := by
  rw [inTurn_iff_placed, spread_iff_placed]

end Search
end Python
end Fragma
