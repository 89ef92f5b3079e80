import Mathlib

/-!
# Disjoint intervals

A list of half-open intervals is checked for overlaps by sorting it and comparing neighbours.  For
intervals that are not empty this is the same as comparing every two of them.

* `sortPairs`, `Apart`: sorted pairs, and the check of neighbours.
* `apart_iff_pairwise_disjoint`: what the check says.
-/

namespace Fragma
namespace Keyed

variable {α : Type*} [LinearOrder α]

/-- The order of pairs: by the first component, then by the second. -/
def ByEnds (a b : α × α) : Prop := toLex a ≤ toLex b

instance decidableByEnds : DecidableRel (ByEnds (α := α)) := fun a b =>
  inferInstanceAs (Decidable (toLex a ≤ toLex b))

instance total_byEnds : Std.Total (ByEnds (α := α)) := ⟨fun a b => le_total (toLex a) (toLex b)⟩

instance isTrans_byEnds : IsTrans (α × α) ByEnds := ⟨fun _ _ _ h h' => le_trans h h'⟩

/-- `sorted(pairs)` -/
def sortPairs (ranges : List (α × α)) : List (α × α) := ranges.insertionSort ByEnds

/-- Sorting forgets the order. -/
theorem sortPairs_eq_of_perm {pairs sorted : List (α × α)} (h : pairs.Perm sorted)
    (hsorted : sorted.Pairwise ByEnds) : sortPairs pairs = sorted :=
  List.Perm.eq_of_pairwise (fun _ _ _ _ hab hba => toLex.injective (le_antisymm hab hba))
    (List.pairwise_insertionSort _ _) hsorted ((List.perm_insertionSort _ _).trans h)

/-- Of any two neighbours the second starts where the first has ended. -/
def Apart (ranges : List (α × α)) : Prop :=
  ∀ p ∈ (sortPairs ranges).zip (sortPairs ranges).tail, p.1.2 ≤ p.2.1

instance decidableApart (ranges : List (α × α)) : Decidable (Apart ranges) :=
  inferInstanceAs (Decidable (∀ p ∈ _, _))

/-- Neighbours, as a list zipped with its tail. -/
theorem forall_zip_tail_iff_isChain {β : Type*} {R : β → β → Prop} {bs : List β} :
    (∀ p ∈ bs.zip bs.tail, R p.1 p.2) ↔ bs.IsChain R := by
  induction bs with
  | nil => simp
  | cons b bs ih =>
    cases bs with
    | nil => simp
    | cons c cs =>
      rw [List.isChain_cons_cons, ← ih]
      simp

/-- Two intervals that are not empty, in their order, are disjoint where the second starts behind
the first. -/
theorem le_of_byEnds_of_disjoint {a b : α × α} (hb : b.1 < b.2) (hab : ByEnds a b)
    (h : Disjoint (Set.Ico a.1 a.2) (Set.Ico b.1 b.2)) : a.2 ≤ b.1 := by
  have hfst : a.1 ≤ b.1 := by
    rcases Prod.Lex.le_iff.mp hab with hlt | ⟨heq, -⟩
    · exact hlt.le
    · exact heq.le
  rw [Set.Ico_disjoint_Ico, max_eq_right hfst] at h
  rcases min_le_iff.mp h with h | h
  · exact h
  · exact absurd hb (not_lt.mpr h)

/-- **Neighbours are apart exactly where every two intervals are disjoint.** -/
theorem apart_iff_pairwise_disjoint {ranges : List (α × α)} (hne : ∀ r ∈ ranges, r.1 < r.2) :
    Apart ranges ↔ ranges.Pairwise fun a b => Disjoint (Set.Ico a.1 a.2) (Set.Ico b.1 b.2) := by
  have hperm : (sortPairs ranges).Perm ranges := List.perm_insertionSort _ _
  have hne' : ∀ r ∈ sortPairs ranges, r.1 < r.2 := fun r hr => hne r (hperm.mem_iff.mp hr)
  rw [Apart, forall_zip_tail_iff_isChain (R := fun a b : α × α => a.2 ≤ b.1),
    ← hperm.pairwise_iff fun {_ _} h => h.symm]
  constructor
  · intro hchain
    -- Each interval is proper, so being behind is transitive along the list.
    have htrans : (sortPairs ranges).Pairwise fun a b => a.2 ≤ b.1 := by
      have hboth : (sortPairs ranges).IsChain fun a b => a.2 ≤ b.1 ∧ b.1 < b.2 :=
        List.IsChain.imp_of_mem_imp (fun a b _ hb h => ⟨h, hne' b hb⟩) hchain
      have : IsTrans (α × α) fun a b => a.2 ≤ b.1 ∧ b.1 < b.2 :=
        ⟨fun _ _ _ h h' => ⟨h.1.trans (h.2.le.trans h'.1), h'.2⟩⟩
      exact (List.isChain_iff_pairwise.mp hboth).imp And.left
    refine htrans.imp fun {a b} hab => ?_
    rw [Set.Ico_disjoint_Ico]
    exact (min_le_left _ _).trans (hab.trans (le_max_right _ _))
  · intro hpair
    have hsorted : (sortPairs ranges).Pairwise ByEnds := List.pairwise_insertionSort _ _
    refine List.Pairwise.isChain ((hpair.and hsorted).imp_of_mem fun {a b} _ hb h => ?_)
    exact le_of_byEnds_of_disjoint (hne' b hb) h.2 h.1

end Keyed
end Fragma
