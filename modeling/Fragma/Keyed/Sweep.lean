import Mathlib.Data.List.Basic
import Mathlib.Data.List.Nodup
import Mathlib.Data.List.Perm.Basic

/-!
# Keyed lists and loops that update in place

Records with distinct keys are looked up by their key, whatever their order is.  A
sweep goes over a list and replaces every element by what a step makes of it; the step
sees the whole list as it is at that moment, so what it has replaced already and what
is still to come.

* `find_key_eq_some_iff`, `find_key_perm`, `find_key_map`: lookups in a keyed list.
* `sweep`: the loop.
* `sweep_induction`: an invariant of the loop.
* `sweep_eq_map`: a loop whose steps do not see the replacements is a map.
-/

namespace Fragma
namespace Keyed

universe u v

variable {α : Type u} {κ : Type v} [DecidableEq κ]

/-! ## Keyed lists -/

/-- The element with a key. -/
def findKey (key : α → κ) (k : κ) (l : List α) : Option α := l.find? fun a => key a = k

variable {key : α → κ}

theorem mem_of_findKey {k : κ} {l : List α} {a : α} (h : findKey key k l = some a) :
    a ∈ l ∧ key a = k :=
  ⟨List.mem_of_find?_eq_some h, of_decide_eq_true (List.find?_some h : _)⟩

/-- **A keyed list has at most one element with a key.** -/
theorem findKey_eq_some_iff {l : List α} (hnodup : (l.map key).Nodup) {k : κ} {a : α} :
    findKey key k l = some a ↔ a ∈ l ∧ key a = k := by
  refine ⟨mem_of_findKey, fun ⟨hmem, hkey⟩ => ?_⟩
  cases hfind : findKey key k l with
  | none => exact absurd (decide_eq_true hkey) (List.find?_eq_none.mp hfind a hmem)
  | some b =>
    obtain ⟨hb, hkb⟩ := mem_of_findKey hfind
    rw [List.inj_on_of_nodup_map hnodup hb hmem (hkb.trans hkey.symm)]

/-- **The order of a keyed list does not matter for lookups.** -/
theorem findKey_perm {l l' : List α} (hperm : l.Perm l') (hnodup : (l.map key).Nodup) (k : κ) :
    findKey key k l = findKey key k l' := by
  have hnodup' : (l'.map key).Nodup := (hperm.map key).nodup_iff.mp hnodup
  refine Option.ext fun a => ?_
  rw [findKey_eq_some_iff hnodup, findKey_eq_some_iff hnodup', hperm.mem_iff]

/-- Replacing elements without changing their keys replaces what is found. -/
theorem findKey_map {f : α → α} (hkey : ∀ a, key (f a) = key a) (k : κ) (l : List α) :
    findKey key k (l.map f) = (findKey key k l).map f := by
  induction l with
  | nil => rfl
  | cons a l ih =>
    rw [List.map_cons, findKey, findKey, List.find?_cons, List.find?_cons, hkey]
    cases hk : decide (key a = k) with
    | true => rfl
    | false => exact ih

theorem findKey_append (k : κ) (l l' : List α) :
    findKey key k (l ++ l') = (findKey key k l).or (findKey key k l') := List.find?_append

/-! ## Sweeps -/

/-- The loop, after the elements `done`. -/
def sweepFrom (step : List α → α → α) (done : List α) : List α → List α
  | [] => done
  | a :: todo => sweepFrom step (done ++ [step (done ++ a :: todo) a]) todo

/-- A loop over a list that replaces its elements one after the other. -/
def sweep (step : List α → α → α) (l : List α) : List α := sweepFrom step [] l

variable {step : List α → α → α}

theorem sweepFrom_induction {I : List α → List α → Prop}
    (hstep : ∀ done a todo, I done (a :: todo) → I (done ++ [step (done ++ a :: todo) a]) todo)
    {done todo : List α} (h : I done todo) : I (sweepFrom step done todo) [] := by
  induction todo generalizing done with
  | nil => exact h
  | cons a todo ih => exact ih (hstep done a todo h)

/-- A sweep does not touch what it has replaced. -/
theorem prefix_sweepFrom (step : List α → α → α) (done todo : List α) :
    done <+: sweepFrom step done todo := by
  induction todo generalizing done with
  | nil => exact List.prefix_rfl
  | cons a todo ih => exact (List.prefix_append done _).trans (ih _)

/-- An element that every step leaves alone is still there after a sweep. -/
theorem mem_sweepFrom_of_stays {a : α} (hstays : ∀ s, step s a = a) {done todo : List α}
    (h : a ∈ todo) : a ∈ sweepFrom step done todo := by
  induction todo generalizing done with
  | nil => exact absurd h List.not_mem_nil
  | cons b todo ih =>
    rcases List.mem_cons.mp h with rfl | h
    · refine (prefix_sweepFrom step (done ++ [step (done ++ a :: todo) a]) todo).subset ?_
      rw [hstays]
      exact List.mem_append_right _ (List.mem_singleton_self a)
    · exact ih h

/-- **What holds before a sweep and is preserved by its steps holds after it.** -/
theorem sweep_induction (step : List α → α → α) {I : List α → List α → Prop} {l : List α}
    (hstep : ∀ done a todo, I done (a :: todo) → I (done ++ [step (done ++ a :: todo) a]) todo)
    (h : I [] l) : I (sweep step l) [] := sweepFrom_induction hstep h

omit [DecidableEq κ] in
/-- A sweep that keeps the keys keeps the list of keys. -/
theorem map_key_sweep (hkey : ∀ s a, key (step s a) = key a) (l : List α) :
    (sweep step l).map key = l.map key := by
  have h := sweep_induction step
    (I := fun done todo => done.map key ++ todo.map key = l.map key)
    (fun done a todo h => by
      rw [← h]
      simp [hkey]) (l := l) rfl
  simpa using h

/-- **A sweep whose steps do not see the replacements is a map.** -/
theorem sweep_eq_map {f : α → α} {l : List α}
    (hstep : ∀ front a back, l = front ++ a :: back → step (front.map f ++ a :: back) a = f a) :
    sweep step l = l.map f := by
  have h := sweep_induction step
    (I := fun done todo => ∃ front, l = front ++ todo ∧ done = front.map f)
    (fun done a todo => by
      rintro ⟨front, hl, rfl⟩
      refine ⟨front ++ [a], by rw [hl]; simp, ?_⟩
      rw [hstep front a todo hl]
      simp) (l := l) ⟨[], rfl, rfl⟩
  obtain ⟨front, hl, hdone⟩ := h
  rw [hdone, hl, List.append_nil]

/-- **A sweep replaces every element by what a step makes of it**, on a list that
satisfies whatever every step preserves. -/
theorem forall₂_sweep {I : List α → Prop} {l : List α} (hl : I l)
    (hstep : ∀ front a back, I (front ++ a :: back) →
      I (front ++ step (front ++ a :: back) a :: back)) :
    List.Forall₂ (fun a a' => ∃ s, a ∈ s ∧ I s ∧ a' = step s a) l (sweep step l) := by
  have h : ∀ done todo, I (done ++ todo) → ∃ out, sweepFrom step done todo = done ++ out ∧
      List.Forall₂ (fun a a' => ∃ s, a ∈ s ∧ I s ∧ a' = step s a) todo out := by
    intro done todo
    induction todo generalizing done with
    | nil => exact fun _ => ⟨[], (List.append_nil done).symm, .nil⟩
    | cons a todo ih =>
      intro hI
      have hI' := hstep done a todo hI
      rw [List.append_cons] at hI'
      obtain ⟨out, hout, hall⟩ := ih _ hI'
      refine ⟨step (done ++ a :: todo) a :: out, ?_, .cons ⟨_, by simp, hI, rfl⟩ hall⟩
      rw [sweepFrom, hout, List.append_assoc, List.singleton_append]
  obtain ⟨out, hout, hall⟩ := h [] l hl
  rw [sweep, hout]
  exact hall

end Keyed
end Fragma
