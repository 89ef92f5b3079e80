import Mathlib.Data.List.Nodup
import Mathlib.Data.List.Count

/-!
# Worklists over a partial link

A worklist grows a selection: it takes an entry, follows its link, and puts what it finds
there on the selection and on the list, unless it is selected already.  Links may form chains
and cycles.  Each turn takes an entry off the list or an entry of the finite universe into the
selection, so the loop ends.

* `Linked`: what the links lead to from a start.
* `drain`: the loop, with the selection and the entries that are still to be looked at.
* `Drained`: its invariant, and `drained_of_drain`.
* `mem_drain`: **the loop returns what is linked to the start**, each entry once.
* `drain_isOk_iff`: **it fails exactly when a linked entry does.**
-/

namespace Fragma
namespace Keyed

universe u v

variable {α : Type u} {ε : Type v} {all : List α}

/-- What the links lead to from the entries of a start. -/
inductive Linked (link : α → Except ε (Option { b // b ∈ all })) (start : List α) : α → Prop where
  | start {a : α} : a ∈ start → Linked link start a
  | link {a : α} {b : { b // b ∈ all }} : Linked link start a → link a = .ok (some b) →
      Linked link start b.1

variable [DecidableEq α]

/-- How many entries of the universe are not selected. -/
def unselected (all selected : List α) : ℕ := all.countP fun a => a ∉ selected

theorem unselected_lt {selected : List α} {b : α} (hb : b ∈ all) (hnot : b ∉ selected) :
    unselected all (selected ++ [b]) < unselected all selected := by
  unfold unselected
  induction all with
  | nil => exact absurd hb List.not_mem_nil
  | cons a as ih =>
    have hle : as.countP (fun a => a ∉ selected ++ [b]) ≤ as.countP fun a => a ∉ selected := by
      refine List.countP_mono_left fun x _ hx => ?_
      rw [decide_eq_true_eq] at hx ⊢
      exact fun hmem => hx (List.mem_append_left _ hmem)
    rw [List.countP_cons, List.countP_cons]
    by_cases hab : a = b
    · rw [if_neg (by simp [hab]), if_pos (by simpa [hab] using hnot)]
      omega
    · have hlt := ih ((List.mem_cons.mp hb).resolve_left (Ne.symm hab))
      by_cases ha : a ∈ selected
      · rw [if_neg (by simp [ha]), if_neg (by simp [ha])]
        omega
      · rw [if_pos (by simp [ha, hab]), if_pos (by simpa using ha)]
        omega

/-- The loop.  The entry that was put on the list last is taken first. -/
def drain (link : α → Except ε (Option { b // b ∈ all })) (selected : List α) :
    List α → Except ε (List α)
  | [] => .ok selected
  | a :: pending =>
    match link a with
    | .error e => .error e
    | .ok none => drain link selected pending
    | .ok (some b) =>
      if b.1 ∈ selected then drain link selected pending
      else drain link (selected ++ [b.1]) (b.1 :: pending)
termination_by pending => unselected all selected + pending.length
decreasing_by
  · rw [List.length_cons]
    omega
  · rw [List.length_cons]
    omega
  · next hnot =>
    have hlt := unselected_lt b.2 hnot
    rw [List.length_cons, List.length_cons]
    omega

variable {link : α → Except ε (Option { b // b ∈ all })} {start : List α}

/-- What holds of the loop: the selection is linked to the start and has it, no entry is there
twice, and an entry that was looked at has its link in the selection. -/
structure Drained (link : α → Except ε (Option { b // b ∈ all })) (start selected pending : List α) :
    Prop where
  nodup : selected.Nodup
  started : start ⊆ selected
  waiting : pending ⊆ selected
  linked : ∀ a ∈ selected, Linked link start a
  closed : ∀ a ∈ selected, a ∉ pending →
    link a = .ok none ∨ ∃ b, link a = .ok (some b) ∧ b.1 ∈ selected

omit [DecidableEq α] in
theorem Drained.initial (hnodup : start.Nodup) : Drained link start start start.reverse where
  nodup := hnodup
  started := fun _ h => h
  waiting := fun _ h => List.mem_reverse.mp h
  linked := fun _ h => .start h
  closed := fun _ h hnot => absurd (List.mem_reverse.mpr h) hnot

/-- An entry is looked at, and its link is selected. -/
theorem Drained.skip {selected pending : List α} {a : α}
    (h : Drained link start selected (a :: pending))
    (ha : link a = .ok none ∨ ∃ b, link a = .ok (some b) ∧ b.1 ∈ selected) :
    Drained link start selected pending where
  nodup := h.nodup
  started := h.started
  waiting := fun _ hx => h.waiting (List.mem_cons_of_mem _ hx)
  linked := h.linked
  closed := by
    intro x hx hnot
    by_cases hxa : x = a
    · exact hxa ▸ ha
    · exact h.closed x hx fun hmem => (List.mem_cons.mp hmem).elim hxa hnot

/-- An entry is looked at, and its link is put on the selection and on the list. -/
theorem Drained.select {selected pending : List α} {a : α} {b : { b // b ∈ all }}
    (h : Drained link start selected (a :: pending)) (hlink : link a = .ok (some b))
    (hnot : b.1 ∉ selected) : Drained link start (selected ++ [b.1]) (b.1 :: pending) where
  nodup := List.nodup_append'.mpr ⟨h.nodup, List.nodup_singleton _, by simpa using hnot⟩
  started := fun _ hx => List.mem_append_left _ (h.started hx)
  waiting := by
    intro x hx
    rcases List.mem_cons.mp hx with rfl | hx
    · exact List.mem_append_right _ (List.mem_singleton_self _)
    · exact List.mem_append_left _ (h.waiting (List.mem_cons_of_mem _ hx))
  linked := by
    intro x hx
    rcases List.mem_append.mp hx with hx | hx
    · exact h.linked x hx
    · rw [List.mem_singleton.mp hx]
      exact .link (h.linked a (h.waiting List.mem_cons_self)) hlink
  closed := by
    intro x hx hpending
    rw [List.mem_cons, not_or] at hpending
    rcases List.mem_append.mp hx with hx | hx
    · by_cases hxa : x = a
      · rw [hxa]
        exact .inr ⟨b, hlink, List.mem_append_right _ (List.mem_singleton_self _)⟩
      · refine (h.closed x hx fun hmem => ?_).imp id ?_
        · exact (List.mem_cons.mp hmem).elim hxa hpending.2
        · rintro ⟨c, hc, hmem⟩
          exact ⟨c, hc, List.mem_append_left _ hmem⟩
    · exact absurd (List.mem_singleton.mp hx) hpending.1

/-- The loop keeps its invariant to the end. -/
theorem drained_of_drain {selected pending result : List α}
    (hinv : Drained link start selected pending) (h : drain link selected pending = .ok result) :
    Drained link start result [] := by
  fun_induction drain link selected pending with
  | case1 selected => exact Except.ok.inj h ▸ hinv
  | case2 => exact absurd h (by simp)
  | case3 selected a pending hlink ih => exact ih (hinv.skip (.inl hlink)) h
  | case4 selected a pending b hlink hmem ih => exact ih (hinv.skip (.inr ⟨b, hlink, hmem⟩)) h
  | case5 selected a pending b hlink hnot ih => exact ih (hinv.select hlink hnot) h

/-- **The loop returns what is linked to the start**, each entry once. -/
theorem mem_drain {result : List α} (hnodup : start.Nodup)
    (h : drain link start start.reverse = .ok result) :
    result.Nodup ∧ ∀ a, a ∈ result ↔ Linked link start a := by
  have hinv := drained_of_drain (Drained.initial hnodup) h
  refine ⟨hinv.nodup, fun a => ⟨hinv.linked a, fun ha => ?_⟩⟩
  induction ha with
  | start ha => exact hinv.started ha
  | link _ hlink ih =>
    rcases hinv.closed _ ih List.not_mem_nil with hnone | ⟨c, hc, hmem⟩
    · rw [hnone] at hlink
      exact absurd hlink (by simp)
    · rw [hc] at hlink
      obtain rfl := Option.some.inj (Except.ok.inj hlink)
      exact hmem

/-- The loop fails at an entry that is linked to the start. -/
theorem error_of_drain {selected pending : List α} {e : ε}
    (hinv : Drained link start selected pending) (h : drain link selected pending = .error e) :
    ∃ a, Linked link start a ∧ link a = .error e := by
  fun_induction drain link selected pending with
  | case1 => exact absurd h (by simp)
  | case2 selected a pending e' hlink =>
    exact ⟨a, hinv.linked a (hinv.waiting List.mem_cons_self),
      hlink.trans (congrArg Except.error (Except.error.inj h))⟩
  | case3 selected a pending hlink ih => exact ih (hinv.skip (.inl hlink)) h
  | case4 selected a pending b hlink hmem ih => exact ih (hinv.skip (.inr ⟨b, hlink, hmem⟩)) h
  | case5 selected a pending b hlink hnot ih => exact ih (hinv.select hlink hnot) h

/-- **The loop fails exactly when a linked entry does.** -/
theorem drain_fails_iff (hnodup : start.Nodup) :
    (∃ e, drain link start start.reverse = .error e) ↔
      ∃ a, Linked link start a ∧ ∃ e, link a = .error e := by
  constructor
  · rintro ⟨e, h⟩
    obtain ⟨a, ha, hlink⟩ := error_of_drain (Drained.initial hnodup) h
    exact ⟨a, ha, e, hlink⟩
  · rintro ⟨a, ha, e, hlink⟩
    cases hdrain : drain link start start.reverse with
    | error e' => exact ⟨e', rfl⟩
    | ok result =>
      have hinv := drained_of_drain (Drained.initial hnodup) hdrain
      have hmem := ((mem_drain hnodup hdrain).2 a).mpr ha
      rcases hinv.closed a hmem List.not_mem_nil with hnone | ⟨c, hc, -⟩
      · rw [hnone] at hlink
        exact absurd hlink (by simp)
      · rw [hc] at hlink
        exact absurd hlink (by simp)

end Keyed
end Fragma
