import Fragma.Python.Raises

/-!
# Loops over lists

The loops that map, fold, test and run over a list, each with the lemma that says what a loop that
returns has done: every turn returned, in order.

* `mapM_eq_ok_iff`, `forM_eq_ok_iff`, `allM_eq_ok_true_iff`: what was done at each entry.
* `foldlM_cons_eq_ok_iff`, `foldlM_append_eq_ok_iff`: one turn, and two parts of a loop.
* `exists_ok_mapM`, `exists_ok_forM`: a loop returns where every turn does.
-/

namespace Fragma
namespace Python

universe u v

variable {ε : Type*} {α : Type u} {β : Type v}

theorem mapM_eq_ok_iff {f : α → Except ε β} {as : List α} {bs : List β} :
    as.mapM f = .ok bs ↔ List.Forall₂ (fun a b => f a = .ok b) as bs := by
  induction as generalizing bs with
  | nil => simp [pure, Except.pure, eq_comm]
  | cons a as ih =>
    rw [List.mapM_cons, bind_eq_ok_iff]
    constructor
    · rintro ⟨b, hb, h⟩
      obtain ⟨cs, hcs, h⟩ := bind_eq_ok_iff.mp h
      rw [← Except.ok.inj h]
      exact .cons hb (ih.mp hcs)
    · intro h
      cases h with
      | cons hb hcs => exact ⟨_, hb, bind_eq_ok_iff.mpr ⟨_, ih.mpr hcs, rfl⟩⟩

theorem exists_ok_mapM {f : α → Except ε β} {as : List α} (h : ∀ a ∈ as, ∃ b, f a = .ok b) :
    ∃ bs, as.mapM f = .ok bs := by
  induction as with
  | nil => exact ⟨[], rfl⟩
  | cons a as ih =>
    obtain ⟨⟨b, hb⟩, has⟩ := List.forall_mem_cons.mp h
    obtain ⟨bs, hbs⟩ := ih has
    exact ⟨b :: bs, mapM_eq_ok_iff.mpr (.cons hb (mapM_eq_ok_iff.mp hbs))⟩

theorem forall_of_mapM_eq_ok {f : α → Except ε β} {as : List α} {bs : List β}
    (h : as.mapM f = .ok bs) : ∀ a ∈ as, ∃ b ∈ bs, f a = .ok b := by
  rw [mapM_eq_ok_iff] at h
  induction h with
  | nil => exact fun a ha => absurd ha List.not_mem_nil
  | cons hb _ ih =>
    refine List.forall_mem_cons.mpr ⟨⟨_, List.mem_cons_self, hb⟩, fun a ha => ?_⟩
    obtain ⟨b, hmem, hab⟩ := ih a ha
    exact ⟨b, List.mem_cons_of_mem _ hmem, hab⟩

theorem foldlM_cons_eq_ok_iff {f : β → α → Except ε β} {a : α} {as : List α} {b c : β} :
    (a :: as).foldlM f b = .ok c ↔ ∃ d, f b a = .ok d ∧ as.foldlM f d = .ok c := by
  rw [List.foldlM_cons, bind_eq_ok_iff]

theorem foldlM_append_eq_ok_iff {f : β → α → Except ε β} {as as' : List α} {b c : β} :
    (as ++ as').foldlM f b = .ok c ↔ ∃ d, as.foldlM f b = .ok d ∧ as'.foldlM f d = .ok c := by
  rw [List.foldlM_append, bind_eq_ok_iff]

theorem forM_eq_ok_iff {f : α → Except ε PUnit} {as : List α} {u : PUnit} :
    as.forM f = .ok u ↔ ∀ a ∈ as, f a = .ok ⟨⟩ := by
  rw [List.forM_eq_forM]
  induction as with
  | nil => simp [pure, Except.pure]
  | cons a as ih =>
    rw [List.forM_cons, bind_eq_ok_iff, List.forall_mem_cons, ← ih]
    constructor
    · rintro ⟨_, ha, has⟩
      exact ⟨ha, has⟩
    · rintro ⟨ha, has⟩
      exact ⟨_, ha, has⟩

theorem exists_ok_forM {f : α → Except ε PUnit} {as : List α} (h : ∀ a ∈ as, ∃ u, f a = .ok u) :
    ∃ u, as.forM f = .ok u :=
  ⟨⟨⟩, forM_eq_ok_iff.mpr fun a ha => (h a ha).elim fun _ hu => hu⟩

theorem allM_eq_ok_true_iff {p : α → Except ε Bool} {as : List α} :
    as.allM p = .ok true ↔ ∀ a ∈ as, p a = .ok true := by
  induction as with
  | nil => simp [List.allM, pure, Except.pure]
  | cons a as ih =>
    rw [List.allM, List.forall_mem_cons, ← ih]
    cases hp : p a with
    | error e => simp [bind, Except.bind]
    | ok b => cases b <;> simp [bind, Except.bind, pure, Except.pure]

/-- What stands at the side of an entry. -/
theorem exists_mem_zip_of_forall₂ {R : α → β → Prop} {as : List α} {bs : List β}
    (h : List.Forall₂ R as bs) {b : β} (hb : b ∈ bs) : ∃ a, (a, b) ∈ as.zip bs ∧ R a b := by
  induction h with
  | nil => exact absurd hb List.not_mem_nil
  | cons hab _ ih =>
    rcases List.mem_cons.mp hb with rfl | hb
    · exact ⟨_, List.mem_cons_self, hab⟩
    · obtain ⟨a, ha, hR⟩ := ih hb
      exact ⟨a, List.mem_cons_of_mem _ ha, hR⟩

theorem exists_of_forall₂_left {R : α → β → Prop} {as : List α} {bs : List β}
    (h : List.Forall₂ R as bs) {a : α} (ha : a ∈ as) : ∃ b ∈ bs, R a b := by
  obtain ⟨b, hb, hab⟩ := exists_of_forall₂_right h.flip ha
  exact ⟨b, hb, hab⟩

theorem forall_iff_of_forall₂ {P : β → Prop} {Q : α → Prop} {as : List α} {bs : List β}
    (h : List.Forall₂ (fun a b => P b ↔ Q a) as bs) : (∀ b ∈ bs, P b) ↔ ∀ a ∈ as, Q a := by
  induction h with
  | nil => simp
  | cons hab _ ih => rw [List.forall_mem_cons, List.forall_mem_cons, hab, ih]

theorem map_eq_map_of_forall₂ {γ : Type*} {f : α → γ} {g : β → γ} {as : List α} {bs : List β}
    (h : List.Forall₂ (fun a b => f a = g b) as bs) : as.map f = bs.map g := by
  induction h with
  | nil => rfl
  | cons hab _ ih => rw [List.map_cons, List.map_cons, hab, ih]

end Python
end Fragma
