import Mathlib.Data.List.Nodup
import Mathlib.Data.List.Perm.Basic
import Mathlib.Tactic.SplitIfs

/-!
# Joining a list with a keyed table

A loop goes over a list and takes, for each element, the entry of a table under the key of the
element, where there is one.  With distinct keys on both sides, and an element for every key of the
table, the entries that are taken are those of the table.

* `join`: the loop.
* `mem_join`: what it takes.
* `join_perm`: **every entry is taken once.**
-/

namespace Fragma
namespace Keyed

universe u v w

variable {α : Type u} {κ : Type v} {β : Type w}

section Table

variable [BEq κ] [LawfulBEq κ] {table : List (κ × β)}

/-- The entry of a key that stands once in a table. -/
theorem lookup_of_mem (h : (table.map Prod.fst).Nodup) {k : κ} {b : β} (hmem : (k, b) ∈ table) :
    table.lookup k = some b := by
  induction table with
  | nil => exact absurd hmem List.not_mem_nil
  | cons p table ih =>
    obtain ⟨k', b'⟩ := p
    rw [List.map_cons, List.nodup_cons] at h
    rcases List.mem_cons.mp hmem with heq | hrest
    · rw [Prod.mk.injEq] at heq
      rw [heq.1, heq.2, List.lookup_cons_self]
    · have hne : k ≠ k' := by
        rintro rfl
        exact h.1 (List.mem_map.mpr ⟨_, hrest, rfl⟩)
      rw [List.lookup_cons, beq_false_of_ne hne]
      exact ih h.2 hrest

theorem lookup_eq_some_iff_mem (h : (table.map Prod.fst).Nodup) {k : κ} {b : β} :
    table.lookup k = some b ↔ (k, b) ∈ table := by
  refine ⟨fun hlookup => ?_, lookup_of_mem h⟩
  obtain ⟨front, back, rfl, -⟩ := List.lookup_eq_some_iff.mp hlookup
  exact List.mem_append_right _ List.mem_cons_self

end Table

/-- The elements with the entries of their keys. -/
def join [BEq κ] (key : α → κ) (table : List (κ × β)) (l : List α) : List (α × β) :=
  l.filterMap fun a => (table.lookup (key a)).map fun b => (a, b)

variable {key : α → κ} {table : List (κ × β)} {l : List α}

theorem mem_join [BEq κ] {p : α × β} :
    p ∈ join key table l ↔ p.1 ∈ l ∧ table.lookup (key p.1) = some p.2 := by
  unfold join
  rw [List.mem_filterMap]
  constructor
  · rintro ⟨a, ha, hp⟩
    obtain ⟨b, hb, rfl⟩ := Option.map_eq_some_iff.mp hp
    exact ⟨ha, hb⟩
  · rintro ⟨hp, hlookup⟩
    exact ⟨p.1, hp, by rw [hlookup]; rfl⟩

/-- The elements of a join keep their distinct keys. -/
theorem nodup_join [BEq κ] (hl : (l.map key).Nodup) :
    ((join key table l).map fun p => key p.1).Nodup := by
  induction l with
  | nil => exact List.nodup_nil
  | cons a l ih =>
    rw [List.map_cons, List.nodup_cons] at hl
    unfold join
    rw [List.filterMap_cons]
    cases table.lookup (key a) with
    | none => exact ih hl.2
    | some b =>
      refine List.nodup_cons.mpr ⟨fun hmem => ?_, ih hl.2⟩
      obtain ⟨p, hp, hkey⟩ := List.mem_map.mp hmem
      exact hl.1 (List.mem_map.mpr ⟨p.1, (mem_join.mp hp).1, hkey⟩)

/-- **Every entry is taken once.** -/
theorem join_perm [BEq κ] [LawfulBEq κ] (hl : (l.map key).Nodup) (ht : (table.map Prod.fst).Nodup)
    (hcovered : ∀ p ∈ table, ∃ a ∈ l, key a = p.1) :
    ((join key table l).map fun p => (key p.1, p.2)).Perm table := by
  have hleft : ((join key table l).map fun p => (key p.1, p.2)).Nodup := by
    refine List.Nodup.of_map Prod.fst ?_
    rw [List.map_map]
    exact nodup_join hl
  refine (List.perm_ext_iff_of_nodup hleft (List.Nodup.of_map Prod.fst ht)).mpr fun q => ?_
  rw [List.mem_map]
  constructor
  · rintro ⟨p, hp, rfl⟩
    exact (lookup_eq_some_iff_mem ht).mp (mem_join.mp hp).2
  · intro hq
    obtain ⟨a, ha, hkey⟩ := hcovered q hq
    refine ⟨(a, q.2), mem_join.mpr ⟨ha, ?_⟩, Prod.ext hkey rfl⟩
    show table.lookup (key a) = some q.2
    rw [hkey]
    exact lookup_of_mem ht hq

end Keyed
end Fragma
