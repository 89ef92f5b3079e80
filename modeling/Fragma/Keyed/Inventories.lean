import Mathlib.Data.List.Nodup
import Mathlib.Data.List.Perm.Basic
import Mathlib.Logic.Relation
import Mathlib.Tactic.SplitIfs

/-!
# Comparing inventories

What is observed is compared with what is expected: as two counters, as two dictionaries, and by
letting each observation claim the first expectation that it matches.  The order of the observations
does not matter.

* `sameCounts_iff_perm`: two lists counted.
* `repeated_eq_nil_iff`: elements that were seen before.
* `sameEntries_iff_perm`: two lists of entries as dictionaries.
* `unclaimed_eq_nil_iff`: **claiming greedily succeeds exactly where some assignment does**, if no
  observation matches two different expectations.
-/

namespace Fragma
namespace Keyed

universe u v

variable {α : Type u} {β : Type v}

/-! ## Counting -/

section Counting

variable [DecidableEq α]

/-- `Counter(as) == Counter(bs)` -/
def SameCounts (as bs : List α) : Prop := ∀ a ∈ as ++ bs, as.count a = bs.count a

instance decidableSameCounts (as bs : List α) : Decidable (SameCounts as bs) :=
  inferInstanceAs (Decidable (∀ a ∈ as ++ bs, _))

theorem sameCounts_iff_perm {as bs : List α} : SameCounts as bs ↔ as.Perm bs := by
  rw [List.perm_iff_count]
  constructor
  · intro h a
    by_cases ha : a ∈ as ++ bs
    · exact h a ha
    · rw [List.mem_append, not_or] at ha
      rw [List.count_eq_zero.mpr ha.1, List.count_eq_zero.mpr ha.2]
  · exact fun h a _ => h a

/-- The elements that were seen before. -/
def repeated (seen : List α) : List α → List α
  | [] => []
  | a :: as => if a ∈ seen then a :: repeated (a :: seen) as else repeated (a :: seen) as

theorem repeated_eq_nil_iff {seen as : List α} :
    repeated seen as = [] ↔ as.Nodup ∧ ∀ a ∈ as, a ∉ seen := by
  induction as generalizing seen with
  | nil => simp [repeated]
  | cons a as ih =>
    rw [repeated, List.nodup_cons, List.forall_mem_cons]
    split_ifs with ha
    · simp [ha]
    · rw [ih]
      constructor
      · rintro ⟨hnodup, hnew⟩
        exact ⟨⟨fun hmem => hnew a hmem List.mem_cons_self, hnodup⟩, ha,
          fun b hb hseen => hnew b hb (List.mem_cons_of_mem _ hseen)⟩
      · rintro ⟨⟨hfresh, hnodup⟩, -, hnew⟩
        refine ⟨hnodup, fun b hb hseen => ?_⟩
        rcases List.mem_cons.mp hseen with rfl | hseen
        · exact hfresh hb
        · exact hnew b hb hseen

end Counting

/-! ## Dictionaries -/

section Dictionaries

variable [DecidableEq α]

/-- What a dictionary holds under a key after a list of assignments: the last one counts. -/
def assigned (entries : List (α × β)) (key : α) : Option β := entries.reverse.lookup key

/-- Two dictionaries are equal. -/
def SameEntries (entries entries' : List (α × β)) : Prop :=
  ∀ key ∈ entries.map Prod.fst ++ entries'.map Prod.fst, assigned entries key = assigned entries' key

instance decidableSameEntries [DecidableEq β] (entries entries' : List (α × β)) : Decidable (SameEntries entries entries') :=
  inferInstanceAs (Decidable (∀ key ∈ _, _))

theorem assigned_eq_some_iff {entries : List (α × β)} (hnodup : (entries.map Prod.fst).Nodup) {key : α}
    {b : β} : assigned entries key = some b ↔ (key, b) ∈ entries := by
  rw [assigned, ← List.mem_reverse]
  have hnodup' : (entries.reverse.map Prod.fst).Nodup := by
    rw [List.map_reverse]
    exact List.nodup_reverse.mpr hnodup
  generalize entries.reverse = es at hnodup'
  induction es with
  | nil => simp
  | cons e es ih =>
    obtain ⟨k, c⟩ := e
    rw [List.map_cons, List.nodup_cons] at hnodup'
    rw [List.lookup_cons, List.mem_cons, Prod.mk.injEq]
    by_cases hk : key = k
    · rw [hk, beq_self_eq_true]
      constructor
      · exact fun h => .inl ⟨rfl, (Option.some.inj h).symm⟩
      · rintro (⟨-, rfl⟩ | hmem)
        · rfl
        · exact absurd (List.mem_map.mpr ⟨_, hmem, rfl⟩) hnodup'.1
    · rw [beq_false_of_ne hk]
      simp only [ih hnodup'.2, hk, false_and, false_or]

/-- Dictionaries without a key twice are equal exactly where they have the same entries. -/
theorem sameEntries_iff_perm {entries entries' : List (α × β)} (h : (entries.map Prod.fst).Nodup)
    (h' : (entries'.map Prod.fst).Nodup) : SameEntries entries entries' ↔ entries.Perm entries' := by
  rw [List.perm_ext_iff_of_nodup h.of_map h'.of_map]
  simp only [Prod.forall, ← assigned_eq_some_iff h, ← assigned_eq_some_iff h']
  constructor
  · intro hsame key b
    by_cases hkey : key ∈ entries.map Prod.fst ++ entries'.map Prod.fst
    · rw [hsame key hkey]
    · rw [List.mem_append, not_or] at hkey
      rw [assigned_eq_some_iff h, assigned_eq_some_iff h']
      constructor
      · exact fun hmem => absurd (List.mem_map.mpr ⟨_, hmem, rfl⟩) hkey.1
      · exact fun hmem => absurd (List.mem_map.mpr ⟨_, hmem, rfl⟩) hkey.2
  · exact fun hall key _ => Option.ext fun b => hall key b

end Dictionaries

/-! ## Claiming -/

/-- An assignment of a list is one of every order of it. -/
theorem exists_assignment_of_perm {R : α → β → Prop} {as as' : List α} {entries : List β} (h : as.Perm as')
    (hassign : ∃ bs, bs.Perm entries ∧ List.Forall₂ R as bs) :
    ∃ bs, bs.Perm entries ∧ List.Forall₂ R as' bs := by
  obtain ⟨bs, hperm, hall⟩ := hassign
  obtain ⟨cs, hcs, hcb⟩ := List.perm_comp_forall₂ h.symm hall
  exact ⟨cs, hcb.trans hperm, hcs⟩

section Claiming

variable [DecidableEq β]

/-- Each item claims the first entry that it matches and that is not claimed yet: the items without a
match, and the entries that are left. -/
def unclaimed (M : α → β → Bool) : List α → List β → List α × List β
  | [], entries => ([], entries)
  | a :: as, entries =>
    match entries.find? (M a) with
    | none => (a :: (unclaimed M as entries).1, (unclaimed M as entries).2)
    | some b => unclaimed M as (entries.erase b)

variable {M : α → β → Bool}

/-- Where nothing is left, the claims are an assignment. -/
theorem exists_perm_of_unclaimed {as : List α} {entries : List β} (h : unclaimed M as entries = ([], [])) :
    ∃ bs, bs.Perm entries ∧ List.Forall₂ (fun a b => M a b = true) as bs := by
  induction as generalizing entries with
  | nil => exact ⟨[], by rw [unclaimed, Prod.mk.injEq] at h; rw [h.2], .nil⟩
  | cons a as ih =>
    rw [unclaimed] at h
    split at h
    · exact absurd (congrArg Prod.fst h) (List.cons_ne_nil _ _)
    · next b hb =>
      obtain ⟨bs, hperm, hall⟩ := ih h
      refine ⟨b :: bs, ?_, .cons (List.find?_some hb) hall⟩
      exact (hperm.cons b).trans (List.perm_cons_erase (List.mem_of_find?_eq_some hb)).symm

/-- An assignment is found, whatever is claimed first. -/
theorem unclaimed_of_perm {as : List α} {bs entries : List β}
    (hM : ∀ a ∈ as, ∀ b ∈ entries, ∀ c ∈ entries, M a b = true → M a c = true → b = c)
    (hperm : bs.Perm entries) (h : List.Forall₂ (fun a b => M a b = true) as bs) :
    unclaimed M as entries = ([], []) := by
  induction h generalizing entries with
  | nil => rw [List.nil_perm.mp hperm, unclaimed]
  | @cons a b as bs hab _ ih =>
    have hb : b ∈ entries := hperm.mem_iff.mp List.mem_cons_self
    obtain ⟨c, hc⟩ := Option.isSome_iff_exists.mp (List.find?_isSome.mpr ⟨b, hb, hab⟩)
    have hcb : c = b :=
      hM a List.mem_cons_self c (List.mem_of_find?_eq_some hc) b hb (List.find?_some hc) hab
    rw [unclaimed, hc, hcb]
    refine ih (fun a' ha' x hx y hy => ?_) ?_
    · exact hM a' (List.mem_cons_of_mem _ ha') x (List.mem_of_mem_erase hx) y (List.mem_of_mem_erase hy)
    · exact List.Perm.cons_inv (hperm.trans (List.perm_cons_erase hb))

/-- **Claiming greedily succeeds exactly where some assignment does.** -/
theorem unclaimed_eq_nil_iff {as : List α} {entries : List β}
    (hM : ∀ a ∈ as, ∀ b ∈ entries, ∀ c ∈ entries, M a b = true → M a c = true → b = c) :
    unclaimed M as entries = ([], []) ↔
      ∃ bs, bs.Perm entries ∧ List.Forall₂ (fun a b => M a b = true) as bs :=
  ⟨exists_perm_of_unclaimed, fun ⟨_, hperm, h⟩ => unclaimed_of_perm hM hperm h⟩

end Claiming

end Keyed
end Fragma
