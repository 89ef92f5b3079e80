import Fragma.Python.Exn

/-!
# Which exceptions a computation raises

An `except` clause names the kinds of exceptions that it takes; a computation under it ends the
program exactly when it raises another.  `Raises P x` says that `x` raises only kinds in `P`, and
each way of putting computations together has one lemma for it.

* `Raises`, `Raises.bind`, `raises_collect`, `raises_select`: the rules.
* `collect_eq_error_iff`, `select_eq_error_iff`: **a loop raises where it first meets an entry that
  raises.**
-/

namespace Fragma
namespace Python

universe u v

/-- `x` raises exceptions of the kinds `P` and no others. -/
def Raises {α : Type u} (P : ExnKind → Prop) (x : Except Exn α) : Prop :=
  ∀ e, x = .error e → P e.kind

variable {P : ExnKind → Prop} {α β : Type u}

theorem raises_ok {a : α} : Raises P (.ok a) := fun _ h => absurd h (by simp)

theorem raises_error {e : Exn} (h : P e.kind) : Raises P (.error e : Except Exn α) := by
  intro e' h'
  rw [← Except.error.inj h']
  exact h

/-- What returns raises nothing. -/
theorem raises_of_eq_ok {x : Except Exn α} {a : α} (h : x = .ok a) : Raises P x := h ▸ raises_ok

theorem Raises.bind {x : Except Exn α} {f : α → Except Exn β} (hx : Raises P x)
    (hf : ∀ a, x = .ok a → Raises P (f a)) : Raises P (x >>= f) := by
  cases x with
  | error e => exact raises_error (hx e rfl)
  | ok a => exact hf a rfl

theorem Raises.map {x : Except Exn α} {f : α → β} (hx : Raises P x) : Raises P (x.map f) := by
  cases x with
  | error e => exact raises_error (hx e rfl)
  | ok a => exact raises_ok

theorem raises_raiseIf {condition : Prop} [Decidable condition] {e : Exn} (h : P e.kind) :
    Raises P (raiseIf condition e) := by
  unfold raiseIf
  split_ifs
  · exact raises_error h
  · exact raises_ok

theorem raises_orRaise {o : Option α} {e : Exn} (h : P e.kind) : Raises P (orRaise o e) := by
  cases o with
  | none => exact raises_error h
  | some a => exact raises_ok

/-- What raises nothing returns. -/
theorem exists_ok_of_raises {x : Except Exn α} (h : Raises (fun _ => False) x) :
    ∃ a, x = .ok a := by
  cases x with
  | error e => exact (h e rfl).elim
  | ok a => exact ⟨a, rfl⟩

/-- A sequence returns where both parts do. -/
theorem exists_ok_bind {x : Except Exn α} {f : α → Except Exn β} (hx : ∃ a, x = .ok a)
    (hf : ∀ a, x = .ok a → ∃ b, f a = .ok b) : ∃ b, (x >>= f) = .ok b := by
  obtain ⟨a, ha⟩ := hx
  obtain ⟨b, hb⟩ := hf a ha
  exact ⟨b, bind_eq_ok_iff.mpr ⟨a, ha, hb⟩⟩

theorem exists_ok_raiseIf {condition : Prop} [Decidable condition] {e : Exn} (h : ¬ condition) :
    ∃ u, raiseIf condition e = .ok u := ⟨(), raiseIf_eq_ok_iff.mpr h⟩

/-! ## Loops -/

section Loops

variable {ε : Type*} {α : Type u} {β : Type v}

theorem collect_cons_eq_error_iff {f : α → Except ε (List β)} {a : α} {as : List α} {e : ε} :
    collect f (a :: as) = .error e ↔
      f a = .error e ∨ (∃ bs, f a = .ok bs) ∧ collect f as = .error e := by
  rw [collect]
  cases f a with
  | error e' => simp
  | ok bs =>
    cases collect f as with
    | error e' => simp
    | ok cs => simp

/-- A loop raises where it first meets an entry that raises. -/
theorem collect_eq_error_iff {f : α → Except ε (List β)} {as : List α} {e : ε} :
    collect f as = .error e ↔
      ∃ front a back, as = front ++ a :: back ∧ (∀ b ∈ front, ∃ c, f b = .ok c) ∧ f a = .error e := by
  induction as with
  | nil => simp [collect]
  | cons a as ih =>
    rw [collect_cons_eq_error_iff, ih]
    constructor
    · rintro (ha | ⟨ha, front, b, back, rfl, hfront, hb⟩)
      · exact ⟨[], a, as, rfl, fun _ hb => absurd hb List.not_mem_nil, ha⟩
      · exact ⟨a :: front, b, back, rfl, List.forall_mem_cons.mpr ⟨ha, hfront⟩, hb⟩
    · rintro ⟨front, b, back, heq, hfront, hb⟩
      rcases List.cons_eq_append_iff.mp heq with ⟨rfl, hcons⟩ | ⟨front, rfl, rfl⟩
      · obtain ⟨rfl, -⟩ := List.cons.inj hcons
        exact .inl hb
      · exact .inr ⟨hfront a List.mem_cons_self, front, b, back, rfl,
          fun c hc => hfront c (List.mem_cons_of_mem _ hc), hb⟩

theorem select_eq_error_iff {p : α → Except ε Bool} {as : List α} {e : ε} :
    select p as = .error e ↔
      ∃ front a back, as = front ++ a :: back ∧ (∀ b ∈ front, ∃ c, p b = .ok c) ∧ p a = .error e := by
  have hmap : ∀ a, ((p a).map fun b => if b then [a] else []) = .error e ↔ p a = .error e := by
    intro a
    cases p a with
    | error e' => simp [Except.map]
    | ok b => simp [Except.map]
  have hreturns : ∀ a, (∃ c, ((p a).map fun b => if b then [a] else []) = .ok c) ↔
      ∃ c, p a = .ok c := by
    intro a
    cases p a with
    | error e' => simp [Except.map]
    | ok b => simp [Except.map]
  unfold select
  rw [collect_eq_error_iff]
  simp only [hmap, hreturns]

end Loops

theorem raises_collect {f : α → Except Exn (List β)} {as : List α} (h : ∀ a ∈ as, Raises P (f a)) :
    Raises P (collect f as) := by
  intro e he
  obtain ⟨front, a, back, rfl, -, ha⟩ := collect_eq_error_iff.mp he
  exact h a (List.mem_append_right _ List.mem_cons_self) e ha

theorem raises_select {p : α → Except Exn Bool} {as : List α} (h : ∀ a ∈ as, Raises P (p a)) :
    Raises P (select p as) := by
  intro e he
  obtain ⟨front, a, back, rfl, -, ha⟩ := select_eq_error_iff.mp he
  exact h a (List.mem_append_right _ List.mem_cons_self) e ha

end Python
end Fragma
