import Mathlib.Data.List.Sort
import Mathlib.Order.Lattice

/-!
# The latest entries of a timeline

Entries are sorted by a key of a linear order.  When no two entries have the same key,
the sorted list does not depend on the order in which the entries came.  An entry that
is not the last one does not change which one is the last; it changes the one before
the last only when it stands between the two.

* `sortBy`, `sortBy_perm`: sorting forgets the order.
* `newest`, `newest_cons_of_lt`: the entries, the greatest key first, and what a further
  entry changes.
* `newest_head_perm`: the strictly greatest entry, whatever the order.
-/

namespace Fragma
namespace Keyed

universe u v

variable {α : Type u} {κ : Type v} [LinearOrder κ]

/-- The entries, sorted by their keys. -/
def sortBy (key : α → κ) (l : List α) : List α := l.insertionSort fun a b => key a ≤ key b

variable (key : α → κ)

instance total_key : Std.Total fun a b : α => key a ≤ key b := ⟨fun a b => le_total (key a) (key b)⟩

instance isTrans_key : IsTrans α fun a b : α => key a ≤ key b := ⟨fun _ _ _ => le_trans⟩

theorem pairwise_sortBy (l : List α) : (sortBy key l).Pairwise fun a b => key a ≤ key b :=
  List.pairwise_insertionSort _ l

theorem perm_sortBy (l : List α) : (sortBy key l).Perm l := List.perm_insertionSort _ l

variable {key}

@[simp] theorem mem_sortBy {l : List α} {a : α} : a ∈ sortBy key l ↔ a ∈ l :=
  (perm_sortBy key l).mem_iff

/-- **Sorting forgets the order**, where the keys are distinct. -/
theorem sortBy_perm {l l' : List α} (hperm : l.Perm l') (hnodup : (l.map key).Nodup) :
    sortBy key l = sortBy key l' := by
  refine List.Perm.eq_of_pairwise (fun a b ha hb hab hba => ?_) (pairwise_sortBy key l)
    (pairwise_sortBy key l') ?_
  · exact List.inj_on_of_nodup_map hnodup (mem_sortBy.mp ha)
      (hperm.mem_iff.mpr (mem_sortBy.mp hb)) (le_antisymm hab hba)
  · exact (perm_sortBy key l).trans (hperm.trans (perm_sortBy key l').symm)

/-- The entries, the greatest key first. -/
def newest (key : α → κ) (l : List α) : List α := (sortBy key l).reverse

@[simp] theorem mem_newest {l : List α} {a : α} : a ∈ newest key l ↔ a ∈ l := by
  rw [newest, List.mem_reverse, mem_sortBy]

theorem pairwise_newest (key : α → κ) (l : List α) :
    (newest key l).Pairwise fun a b => key b ≤ key a :=
  List.pairwise_reverse.mpr (pairwise_sortBy key l)

/-- The first entry has the greatest key. -/
theorem le_of_newest_eq_cons {l rest : List α} {a b : α} (h : newest key l = a :: rest)
    (hb : b ∈ l) : key b ≤ key a := by
  have hpairwise := pairwise_newest key l
  rw [h] at hpairwise
  rcases List.mem_cons.mp (h ▸ mem_newest.mpr hb) with rfl | hb
  · exact le_rfl
  · exact (List.pairwise_cons.mp hpairwise).1 b hb

/-- **A further entry that is not the greatest leaves the first one**, and it becomes
the second one or leaves that too. -/
theorem newest_cons_of_lt {l rest : List α} {a x : α} (hnodup : ((x :: l).map key).Nodup)
    (h : newest key l = a :: rest) (hlt : key x < key a) :
    ∃ rest', newest key (x :: l) = a :: rest' ∧
      (rest'.head? = rest.head? ∨ (rest'.head? = some x ∧
        ∀ b ∈ rest.head?, key b < key x)) := by
  have ha : a ∈ l := mem_newest.mp (h ▸ List.mem_cons_self)
  obtain ⟨a', rest', h'⟩ : ∃ a' rest', newest key (x :: l) = a' :: rest' :=
    List.exists_cons_of_ne_nil (List.ne_nil_of_mem (mem_newest.mpr List.mem_cons_self))
  have hinj : ∀ b ∈ x :: l, ∀ c ∈ x :: l, key b = key c → b = c := fun b hb c hc hkey =>
    List.inj_on_of_nodup_map hnodup hb hc hkey
  have ha' : a' ∈ x :: l := mem_newest.mp (h' ▸ List.mem_cons_self)
  have hle : key a ≤ key a' := le_of_newest_eq_cons h' (List.mem_cons_of_mem x ha)
  have hmem : a' ∈ l := by
    rcases List.mem_cons.mp ha' with rfl | hmem
    · exact absurd hle (not_le.mpr hlt)
    · exact hmem
  obtain rfl : a' = a := hinj a' ha' a (List.mem_cons_of_mem x ha)
    (le_antisymm (le_of_newest_eq_cons h hmem) hle)
  have hrest : (a' :: rest').Perm (a' :: x :: rest) := by
    rw [← h']
    refine ((List.reverse_perm _).trans (perm_sortBy key _)).trans ?_
    refine List.Perm.trans (List.Perm.cons x ?_) (List.Perm.swap a' x rest)
    rw [← h]
    exact ((List.reverse_perm _).trans (perm_sortBy key l)).symm
  have hrest' : rest'.Perm (x :: rest) := (List.perm_cons a').mp hrest
  have hsorted' := List.pairwise_cons.mp (h' ▸ pairwise_newest key (x :: l))
  have hsorted := List.pairwise_cons.mp (h ▸ pairwise_newest key l)
  refine ⟨rest', h', ?_⟩
  obtain ⟨b', tail', rfl⟩ := List.exists_cons_of_ne_nil
    (fun hnil => absurd (hrest'.symm.mem_iff.mp List.mem_cons_self) (by simp [hnil]) : rest' ≠ [])
  have hin : ∀ c ∈ rest, c ∈ x :: l := fun c hc =>
    List.mem_cons_of_mem x (mem_newest.mp (h ▸ List.mem_cons_of_mem a' hc))
  have htop : ∀ c ∈ x :: rest, key c ≤ key b' := by
    intro c hc
    rcases List.mem_cons.mp (hrest'.mem_iff.mpr hc) with rfl | hc
    · exact le_rfl
    · exact (List.pairwise_cons.mp hsorted'.2).1 c hc
  rcases List.mem_cons.mp (hrest'.mem_iff.mp List.mem_cons_self) with rfl | hb'
  · -- the further entry stands behind the first one
    refine Or.inr ⟨rfl, fun b hb => ?_⟩
    have hb : b ∈ rest := List.mem_of_mem_head? hb
    refine lt_of_le_of_ne (htop b (List.mem_cons_of_mem _ hb)) fun hkey => ?_
    have hx : b' ∉ l := fun hx => (List.nodup_cons.mp hnodup).1 (List.mem_map_of_mem hx)
    exact hx (hinj b (hin b hb) b' List.mem_cons_self hkey ▸
      mem_newest.mp (h ▸ List.mem_cons_of_mem a' hb))
  · refine Or.inl ?_
    cases rest with
    | nil => exact absurd hb' List.not_mem_nil
    | cons c tail =>
      have hc : key c ≤ key b' := htop c (List.mem_cons_of_mem _ List.mem_cons_self)
      have hb : key b' ≤ key c := by
        rcases List.mem_cons.mp hb' with rfl | hb'
        · exact le_rfl
        · exact (List.pairwise_cons.mp hsorted.2).1 b' hb'
      rw [hinj b' (hin b' hb') c (hin c List.mem_cons_self) (le_antisymm hb hc)]
      rfl

/-- The keys do not depend on the order of the entries. -/
theorem map_newest_perm (key : α → κ) {l l' : List α} (hperm : l.Perm l') :
    (newest key l).map key = (newest key l').map key := by
  have hsorted : ∀ l : List α, ((newest key l).map key).Pairwise fun a b => b ≤ a := fun l =>
    List.pairwise_map.mpr (pairwise_newest key l)
  refine List.Perm.eq_of_pairwise (fun _ _ _ _ hab hba => le_antisymm hba hab) (hsorted l) (hsorted l') ?_
  refine List.Perm.map key ?_
  exact ((List.reverse_perm _).trans (perm_sortBy key l)).trans
    (hperm.trans ((List.reverse_perm _).trans (perm_sortBy key l')).symm)

/-- **The strictly greatest entry does not depend on the order of the entries.** -/
theorem newest_head_perm {l l' rest rest' : List α} {a a' : α} (hperm : l.Perm l') (h : newest key l = a :: rest)
    (h' : newest key l' = a' :: rest') (hlt : ∀ b ∈ rest.head?, key b < key a) : a' = a := by
  have hkeys := map_newest_perm key hperm
  rw [h, h', List.map_cons, List.map_cons, List.cons.injEq] at hkeys
  have hmem : a' ∈ a :: rest := h ▸ mem_newest.mpr (hperm.mem_iff.mpr (mem_newest.mp (h' ▸ List.mem_cons_self)))
  rcases List.mem_cons.mp hmem with rfl | hmem
  · rfl
  · cases rest with
    | nil => exact absurd hmem List.not_mem_nil
    | cons b tail =>
      have hb : key b < key a := hlt b rfl
      have hpairwise := List.pairwise_cons.mp (List.pairwise_cons.mp (h ▸ pairwise_newest key l)).2
      have hle : key a' ≤ key b := by
        rcases List.mem_cons.mp hmem with rfl | hmem
        · exact le_rfl
        · exact hpairwise.1 a' hmem
      exact absurd (hkeys.1 ▸ hle.trans_lt hb) (lt_irrefl _)

end Keyed
end Fragma
