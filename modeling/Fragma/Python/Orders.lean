import Fragma.Python.Loops
import Mathlib.Data.List.Perm.Basic
import Mathlib.Logic.Relation

/-!
# Loops in other orders

What a loop over a list has done says what a loop over the same elements in another order does, and what
the last turn of a loop has done.

* `exists_mapM_of_perm`, `exists_mapM_of_forall₂`: another order, and related elements.
* `map_eq_map_of_mapM`, `getLast?_of_mapM`: turns that agree, and the last turn.
-/

namespace Fragma
namespace Python

universe u v

variable {ε : Type*} {α : Type u} {β : Type v} {f : α → Except ε β}

theorem ok_bind {α β : Type u} (a : α) (f : α → Except ε β) : ((.ok a : Except ε α) >>= f) = f a := rfl

/-- A loop over another order does the same in another order. -/
theorem exists_mapM_of_perm {as as' : List α} {bs : List β} (h : as.Perm as') (hbs : as.mapM f = .ok bs) :
    ∃ bs', as'.mapM f = .ok bs' ∧ bs.Perm bs' := by
  obtain ⟨bs', hbs', hperm⟩ := List.perm_comp_forall₂ h.symm (mapM_eq_ok_iff.mp hbs)
  exact ⟨bs', mapM_eq_ok_iff.mpr hbs', hperm.symm⟩

/-- A loop over related elements has related results, where every turn has. -/
theorem exists_mapM_of_forall₂ {α' : Type u} {β' : Type v} {R : α → α' → Prop} {S : β → β' → Prop}
    {f' : α' → Except ε β'} (hstep : ∀ a a' b, R a a' → f a = .ok b → ∃ b', f' a' = .ok b' ∧ S b b')
    {as : List α} {as' : List α'} {bs : List β} (has : List.Forall₂ R as as') (hbs : as.mapM f = .ok bs) :
    ∃ bs', as'.mapM f' = .ok bs' ∧ List.Forall₂ S bs bs' := by
  rw [mapM_eq_ok_iff] at hbs
  induction has generalizing bs with
  | nil =>
    cases hbs
    exact ⟨[], rfl, .nil⟩
  | cons haa' _ ih =>
    cases hbs with
    | cons hab hall =>
      obtain ⟨b', hb', hbb'⟩ := hstep _ _ _ haa' hab
      obtain ⟨bs', hbs', hrel⟩ := ih hall
      exact ⟨b' :: bs', mapM_eq_ok_iff.mpr (.cons hb' (mapM_eq_ok_iff.mp hbs')), .cons hbb' hrel⟩

/-- Two loops whose turns agree on something have results that agree on it. -/
theorem map_eq_map_of_mapM {γ : Type*} {G : β → γ} {f' : α → Except ε β} {as : List α} {bs bs' : List β}
    (h : as.mapM f = .ok bs) (h' : as.mapM f' = .ok bs')
    (hstep : ∀ a ∈ as, ∀ b ∈ bs, ∀ b', f a = .ok b → f' a = .ok b' → G b' = G b) : bs'.map G = bs.map G := by
  rw [mapM_eq_ok_iff] at h h'
  induction h generalizing bs' with
  | nil =>
    cases h'
    rfl
  | @cons a b as bs hab hall ih =>
    cases h' with
    | cons hab' hall' =>
      rw [List.map_cons, List.map_cons, hstep a List.mem_cons_self b List.mem_cons_self _ hab hab']
      rw [ih hall' fun c hc d hd => hstep c (List.mem_cons_of_mem a hc) d (List.mem_cons_of_mem b hd)]

/-- The last result is that of the last element. -/
theorem getLast?_of_mapM {as : List α} {bs : List β} (h : as.mapM f = .ok bs) {a : α} (ha : as.getLast? = some a) :
    ∃ b, f a = .ok b ∧ bs.getLast? = some b := by
  have hrev := List.rel_reverse (mapM_eq_ok_iff.mp h)
  rw [List.getLast?_eq_head?_reverse] at ha ⊢
  generalize as.reverse = xs at ha hrev
  generalize bs.reverse = ys at hrev ⊢
  cases hrev with
  | nil => exact absurd ha (by simp)
  | @cons x y _ _ hab _ =>
    rw [List.head?_cons, Option.some.injEq] at ha
    exact ⟨y, ha ▸ hab, rfl⟩

end Python
end Fragma
