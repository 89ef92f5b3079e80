import Mathlib.Data.List.Infix
import Mathlib.Tactic.Cases

/-!
# Balanced brackets

Lists in which every bracket is closed by its partner.  The brackets are given by a
`Pairing`: which entries open, by what each is closed, and which entries close.

* `Pairing.Balanced`: the balanced lists, by their first entry.
* `Balanced.group_unique`: where a group ends is decided by where it starts.
* `Pairing.Opened`: what a reader has seen when some brackets are still open, and what
  one more entry does to it.
* `Opened.balanced_iff`: nothing is open exactly when what was seen is balanced.
* `Balanced.of_append_left`, `Balanced.of_append_right`: balanced ends can be taken away.
-/

namespace Fragma
namespace Scan

universe u

/-- Opening entries with their partners, and the closing entries. -/
structure Pairing (α : Type u) where
  closer : α → Option α
  closes : α → Bool
  closes_of_closer : ∀ {o c : α}, closer o = some c → closes c = true
  closer_of_closes : ∀ {c : α}, closes c = true → closer c = none

namespace Pairing

variable {α : Type u} {B : Pairing α}

/-- Every bracket is closed by its partner. -/
inductive Balanced (B : Pairing α) : List α → Prop
  | nil : Balanced B []
  | plain {a : α} {l : List α} (ho : B.closer a = none) (hc : B.closes a = false)
      (hl : Balanced B l) : Balanced B (a :: l)
  | group {o c : α} {inner l : List α} (ho : B.closer o = some c) (hi : Balanced B inner)
      (hl : Balanced B l) : Balanced B (o :: (inner ++ c :: l))

/-- A list of entries that are no brackets is balanced. -/
theorem balanced_of_plain {l : List α} (h : ∀ a ∈ l, B.closer a = none ∧ B.closes a = false) :
    B.Balanced l := by
  induction l with
  | nil => exact .nil
  | cons a l ih =>
    obtain ⟨ho, hc⟩ := h a List.mem_cons_self
    exact .plain ho hc (ih fun b hb => h b (List.mem_cons_of_mem a hb))

/-- No balanced list starts with a closing bracket. -/
theorem Balanced.not_closes {c : α} {l : List α} (h : B.Balanced (c :: l)) : B.closes c = false := by
  cases h with
  | plain ho hc hl => exact hc
  | group ho hi hl =>
    by_contra hclose
    rw [B.closer_of_closes (by simpa using hclose)] at ho
    exact absurd ho (by simp)

theorem Balanced.append {l r : List α} (hl : B.Balanced l) (hr : B.Balanced r) :
    B.Balanced (l ++ r) := by
  induction hl with
  | nil => exact hr
  | plain ho hc _ ih => exact .plain ho hc ih
  | group ho hi _ _ ih =>
    rw [List.cons_append, List.append_assoc, List.cons_append]
    exact .group ho hi ih

/-- A group by itself. -/
theorem Balanced.single {o c : α} {inner : List α} (ho : B.closer o = some c)
    (hi : B.Balanced inner) : B.Balanced (o :: (inner ++ [c])) :=
  .group ho hi .nil

/-! ## Where a group ends -/

/-- **Where a group ends is decided by where it starts**: of two balanced lists that each
stand in front of a closing bracket, neither reaches beyond the other. -/
theorem Balanced.group_unique {p : List α} (hp : B.Balanced p) :
    ∀ {q r s : List α} {c d : α}, B.Balanced q → B.closes c = true → B.closes d = true →
      p ++ c :: r = q ++ d :: s → p = q ∧ c = d ∧ r = s := by
  induction hp with
  | nil =>
    intro q r s c d hq hc hd heq
    cases q with
    | nil => exact ⟨rfl, List.cons.inj heq⟩
    | cons a q =>
      have ha : c = a := (List.cons.inj heq).1
      rw [ha, hq.not_closes] at hc
      exact absurd hc (by simp)
  | @plain a l ho ha hl ih =>
    intro q r s c d hq hc hd heq
    cases hq with
    | nil =>
      have had : a = d := (List.cons.inj heq).1
      rw [had, hd] at ha
      exact absurd ha (by simp)
    | plain ho' ha' hq =>
      rw [List.cons_append, List.cons_append, List.cons.injEq] at heq
      obtain ⟨rfl, htail⟩ := heq
      obtain ⟨rfl, hrest⟩ := ih hq hc hd htail
      exact ⟨rfl, hrest⟩
    | group ho' hi' hq =>
      obtain ⟨rfl, -⟩ := List.cons.inj heq
      rw [ho] at ho'
      exact absurd ho' (by simp)
  | @group o e inner l ho hi hl ihi ih =>
    intro q r s c d hq hc hd heq
    cases hq with
    | nil =>
      have hod : o = d := (List.cons.inj heq).1
      rw [hod, B.closer_of_closes hd] at ho
      exact absurd ho (by simp)
    | plain ho' ha' hq =>
      obtain ⟨rfl, -⟩ := List.cons.inj heq
      rw [ho] at ho'
      exact absurd ho' (by simp)
    | group ho' hi' hq =>
      rw [List.cons_append, List.cons_append, List.cons.injEq, List.append_assoc,
        List.append_assoc, List.cons_append, List.cons_append] at heq
      obtain ⟨rfl, htail⟩ := heq
      obtain ⟨rfl, rfl, hlast⟩ := ihi hi' (B.closes_of_closer ho) (B.closes_of_closer ho') htail
      obtain ⟨rfl, hrest⟩ := ih hq hc hd hlast
      exact ⟨rfl, hrest⟩

/-- A balanced start can be taken away. -/
theorem Balanced.of_append_left {l r : List α} (hl : B.Balanced l) (h : B.Balanced (l ++ r)) :
    B.Balanced r := by
  induction hl with
  | nil => exact h
  | @plain a l ho hc _ ih =>
    rw [List.cons_append] at h
    generalize hrest : l ++ r = rest at h
    cases h with
    | plain _ _ h =>
      rw [← hrest] at h
      exact ih h
    | group ho' _ _ =>
      rw [ho] at ho'
      exact absurd ho' (by simp)
  | @group o c inner l ho hi hl _ ih =>
    rw [List.cons_append, List.append_assoc, List.cons_append] at h
    generalize hrest : inner ++ c :: (l ++ r) = rest at h
    cases h with
    | plain ho' _ _ =>
      rw [ho] at ho'
      exact absurd ho' (by simp)
    | group ho' hi' hl' =>
      obtain ⟨-, -, heq⟩ :=
        hi.group_unique hi' (B.closes_of_closer ho) (B.closes_of_closer ho') hrest
      rw [← heq] at hl'
      exact ih hl'

/-! ## Brackets that are still open -/

/-- What a reader has seen when the given brackets are still open, the innermost first,
each with its place. -/
inductive Opened (B : Pairing α) : List α → List (ℕ × α) → Prop
  | closed {l : List α} (hl : B.Balanced l) : Opened B l []
  | opened {front inner : List α} {stack : List (ℕ × α)} {o : α}
      (hf : Opened B front stack) (ho : (B.closer o).isSome) (hi : B.Balanced inner) :
      Opened B (front ++ o :: inner) ((front.length, o) :: stack)

theorem Opened.append {l r : List α} {stack : List (ℕ × α)} (h : B.Opened l stack)
    (hr : B.Balanced r) : B.Opened (l ++ r) stack := by
  cases h with
  | closed hl => exact .closed (hl.append hr)
  | opened hf ho hi =>
    rw [List.append_assoc, List.cons_append]
    exact .opened hf ho (hi.append hr)

/-- One more opening bracket. -/
theorem Opened.push {l : List α} {stack : List (ℕ × α)} {o : α} (h : B.Opened l stack)
    (ho : (B.closer o).isSome) : B.Opened (l ++ [o]) ((l.length, o) :: stack) :=
  .opened h ho .nil

/-- The partner of the innermost open bracket: the two are the ends of a group. -/
theorem Opened.pop {l : List α} {stack : List (ℕ × α)} {i : ℕ} {o c : α}
    (h : B.Opened l ((i, o) :: stack)) (ho : B.closer o = some c) :
    B.Opened (l ++ [c]) stack ∧
      ∃ front inner, l = front ++ o :: inner ∧ front.length = i ∧ B.Balanced inner := by
  cases h with
  | @opened front inner _ _ hf _ hi =>
    refine ⟨?_, front, inner, rfl, rfl, hi⟩
    rw [List.append_assoc, List.cons_append]
    exact hf.append (.single ho hi)

/-! ## Counting -/

/-- A balanced list has as many opening as closing brackets. -/
theorem Balanced.countP_eq {l : List α} (h : B.Balanced l) :
    l.countP (fun a => (B.closer a).isSome) = l.countP B.closes := by
  induction h with
  | nil => rfl
  | plain ho hc _ ih => simp [ho, hc, ih]
  | @group o c inner l ho hi hl ihi ih =>
    have hcloses := B.closes_of_closer ho
    have hopens := B.closer_of_closes hcloses
    have hstart : B.closes o = false := by
      by_contra hclose
      rw [B.closer_of_closes (by simpa using hclose)] at ho
      exact absurd ho (by simp)
    simp only [List.countP_cons, List.countP_append, ho, hcloses, hopens, hstart, ihi, ih,
      Option.isSome_some, Option.isSome_none, if_true, Bool.false_eq_true, if_false]
    omega

theorem Opened.countP_eq {l : List α} {stack : List (ℕ × α)} (h : B.Opened l stack) :
    l.countP (fun a => (B.closer a).isSome) = l.countP B.closes + stack.length := by
  induction h with
  | closed hl => exact hl.countP_eq
  | @opened front inner stack o hf ho hi ih =>
    have hstart : B.closes o = false := by
      by_contra hclose
      rw [B.closer_of_closes (by simpa using hclose)] at ho
      exact absurd ho (by simp)
    simp only [List.countP_cons, List.countP_append, ho, hstart, hi.countP_eq, ih,
      List.length_cons, if_true, Bool.false_eq_true, if_false]
    omega

/-- **Nothing is open exactly when what was seen is balanced.** -/
theorem Opened.balanced_iff {l : List α} {stack : List (ℕ × α)} (h : B.Opened l stack) :
    B.Balanced l ↔ stack = [] := by
  constructor
  · intro hl
    have hcount := h.countP_eq
    rw [hl.countP_eq] at hcount
    exact List.length_eq_zero_iff.mp (by omega)
  · rintro rfl
    cases h with
    | closed hl => exact hl

/-- What a reader sees of a balanced list leaves some brackets open. -/
theorem Balanced.opened_of_prefix {l : List α} (h : B.Balanced l) :
    ∀ {front p : List α} {stack : List (ℕ × α)}, B.Opened front stack → p <+: l →
      ∃ stack', B.Opened (front ++ p) stack' := by
  induction h with
  | nil =>
    intro front p stack hf hp
    rw [List.prefix_nil.mp hp, List.append_nil]
    exact ⟨stack, hf⟩
  | @plain a l ho hc _ ih =>
    intro front p stack hf hp
    rcases List.prefix_cons_iff.mp hp with rfl | ⟨p, rfl, htail⟩
    · rw [List.append_nil]
      exact ⟨stack, hf⟩
    · have hfront := hf.append (.plain ho hc .nil)
      rw [← List.singleton_append, ← List.append_assoc]
      exact ih hfront htail
  | @group o c inner l ho hi hl ihi ih =>
    intro front p stack hf hp
    rcases List.prefix_cons_iff.mp hp with rfl | ⟨p, rfl, htail⟩
    · rw [List.append_nil]
      exact ⟨stack, hf⟩
    · have hopen := hf.push (o := o) (by rw [ho]; rfl)
      rw [← List.singleton_append, ← List.append_assoc]
      rcases List.prefix_or_prefix_of_prefix htail (List.prefix_append inner (c :: l)) with
        hin | ⟨q, rfl⟩
      · exact ihi hopen hin
      rcases List.prefix_cons_iff.mp ((List.prefix_append_right_inj inner).mp htail) with
        rfl | ⟨q, rfl, hlast⟩
      · rw [List.append_nil]
        exact ⟨_, hopen.append hi⟩
      · have hgroup := hf.append (.single ho hi)
        obtain ⟨stack', hstack⟩ := ih hgroup hlast
        have hsame : front ++ o :: (inner ++ [c]) ++ q = front ++ [o] ++ (inner ++ c :: q) := by
          simp only [List.append_assoc, List.cons_append, List.nil_append]
        rw [hsame] at hstack
        exact ⟨stack', hstack⟩

/-- A balanced end can be taken away. -/
theorem Balanced.of_append_right {l r : List α} (hr : B.Balanced r) (h : B.Balanced (l ++ r)) :
    B.Balanced l := by
  obtain ⟨stack, hstack⟩ := h.opened_of_prefix (.closed .nil) (List.prefix_append l r)
  rw [List.nil_append] at hstack
  have hwhole := hstack.append hr
  exact hstack.balanced_iff.mpr (hwhole.balanced_iff.mp h)

end Pairing

end Scan
end Fragma
