import Mathlib.Data.List.Basic
import Mathlib.Algebra.BigOperators.Group.List.Basic
import Mathlib.Tactic.Ring

/-!
# Products with repetition

`itertools.product(values, repeat=n)`: the lists of a length over a list of values, the
last place moving fastest.

* `mem_product`: which lists these are.
* `countP_product`: how many of them have all their places in a part of the values.
-/

namespace Fragma
namespace Python

universe u

variable {α : Type u}

/-- `itertools.product(values, repeat=n)`. -/
def product (values : List α) : ℕ → List (List α)
  | 0 => [[]]
  | n + 1 => values.flatMap fun v => (product values n).map (v :: ·)

theorem mem_product {values : List α} {n : ℕ} {l : List α} :
    l ∈ product values n ↔ l.length = n ∧ ∀ x ∈ l, x ∈ values := by
  induction n generalizing l with
  | zero =>
    rw [product, List.mem_singleton, List.length_eq_zero_iff]
    constructor
    · rintro rfl
      exact ⟨rfl, fun x hx => absurd hx List.not_mem_nil⟩
    · exact And.left
  | succ n ih =>
    rw [product, List.mem_flatMap]
    constructor
    · rintro ⟨v, hv, hl⟩
      obtain ⟨rest, hrest, rfl⟩ := List.mem_map.mp hl
      obtain ⟨hlength, hmem⟩ := ih.mp hrest
      exact ⟨by rw [List.length_cons, hlength], List.forall_mem_cons.mpr ⟨hv, hmem⟩⟩
    · rintro ⟨hlength, hmem⟩
      cases l with
      | nil => exact absurd hlength (by simp)
      | cons v rest =>
        obtain ⟨hv, hrest⟩ := List.forall_mem_cons.mp hmem
        exact ⟨v, hv, List.mem_map.mpr ⟨rest, ih.mpr ⟨Nat.succ.inj hlength, hrest⟩, rfl⟩⟩

theorem sum_map_ite (p : α → Bool) (c : ℕ) (values : List α) :
    (values.map fun v => if p v then c else 0).sum = values.countP p * c := by
  induction values with
  | nil => simp
  | cons v values ih =>
    rw [List.map_cons, List.sum_cons, ih, List.countP_cons]
    cases p v with
    | true => simp only [if_true]; ring
    | false => simp

/-- **The lists with all places in a part of the values are counted by a power.** -/
theorem countP_product (p : α → Bool) (values : List α) (n : ℕ) :
    (product values n).countP (fun l => l.all p) = values.countP p ^ n := by
  induction n with
  | zero => rfl
  | succ n ih =>
    have hplace : ∀ v, ((product values n).map (v :: ·)).countP (fun l => l.all p) =
        if p v then values.countP p ^ n else 0 := by
      intro v
      rw [List.countP_map, ← ih]
      cases hv : p v with
      | true => simp [Function.comp_def, hv]
      | false => simp [Function.comp_def, hv]
    rw [product, List.countP_flatMap, pow_succ']
    simp only [Function.comp_def, hplace]
    exact sum_map_ite p _ values

end Python
end Fragma
