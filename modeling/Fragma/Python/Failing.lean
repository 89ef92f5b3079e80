import Fragma.Python.Loops

/-!
# Which failures a computation has

`Fails P x` says that `x` fails with failures that satisfy `P` and with no others.  Each way of putting
computations together has one rule; a step is judged under what the steps before it returned.

* `Fails`, `Fails.bind`: the notion, and sequences.
* `fails_mapM`, `fails_forM`, `fails_foldlM`: loops.
* `ensure`, `andAlso`, `orElse`: a check, and tests that come after another one.
-/

namespace Fragma
namespace Python

universe u v w

/-- `x` fails only as `P` says. -/
def Fails {ε : Type v} {α : Type u} (P : ε → Prop) (x : Except ε α) : Prop := ∀ e, x = .error e → P e

/-- `if not condition: raise e`. -/
def ensure {ε : Type v} (condition : Prop) [Decidable condition] (e : ε) : Except ε Unit :=
  if condition then .ok () else .error e

/-- `a and b`, where `b` is tried only where `a` holds. -/
def andAlso {ε : Type v} (a : Prop) [Decidable a] (b : Except ε Bool) : Except ε Bool :=
  if a then b else .ok false

/-- `a or b`, where `b` is tried only where `a` does not hold. -/
def orElse {ε : Type v} (a : Prop) [Decidable a] (b : Except ε Bool) : Except ε Bool :=
  if a then .ok true else b

variable {ε : Type v} {P : ε → Prop} {α β : Type u} {e : ε}

@[simp] theorem ensure_eq_ok_iff {condition : Prop} [Decidable condition] {u : Unit} :
    ensure condition e = .ok u ↔ condition := by
  unfold ensure
  split_ifs with h
  · simp [h]
  · simp [h]

theorem andAlso_eq_ok_true_iff {a : Prop} [Decidable a] {b : Except ε Bool} :
    andAlso a b = .ok true ↔ a ∧ b = .ok true := by
  unfold andAlso
  split_ifs with h
  · simp [h]
  · simp [h]

theorem fails_ok (P : ε → Prop) (a : α) : Fails P (.ok a) := fun _ h => absurd h (by simp)

theorem fails_pure (P : ε → Prop) (a : α) : Fails P (pure a : Except ε α) := fails_ok P a

theorem fails_error (h : P e) : Fails P (.error e : Except ε α) := by
  intro e' h'
  rw [← Except.error.inj h']
  exact h

theorem fails_ensure {condition : Prop} [Decidable condition] (h : P e) :
    Fails P (ensure condition e) := by
  unfold ensure
  split_ifs
  · exact fails_ok P ()
  · exact fails_error h

theorem toOption_eq_iff {x : Except ε α} {a : α} : x.toOption = some a ↔ x = .ok a := by
  cases x with
  | ok b => exact ⟨fun h => congrArg Except.ok (Option.some.inj h), fun h => congrArg some (Except.ok.inj h)⟩
  | error e => exact ⟨fun h => absurd h (by simp [Except.toOption]), fun h => absurd h (by simp)⟩

theorem exists_ok_of_isOk {x : Except ε α} (h : x.isOk = true) : ∃ a, x = .ok a := by
  cases x with
  | error e => exact absurd h (by simp [Except.isOk, Except.toBool])
  | ok a => exact ⟨a, rfl⟩

theorem fails_of_eq_ok {x : Except ε α} {a : α} (h : x = .ok a) : Fails P x := h ▸ fails_ok P a

theorem Fails.bind {x : Except ε α} {f : α → Except ε β} (hx : Fails P x)
    (hf : ∀ a, x = .ok a → Fails P (f a)) : Fails P (x >>= f) := by
  cases x with
  | error e => exact fails_error (hx e rfl)
  | ok a => exact hf a rfl

theorem fails_andAlso {a : Prop} [Decidable a] {b : Except ε Bool} (h : a → Fails P b) :
    Fails P (andAlso a b) := by
  unfold andAlso
  split_ifs with ha
  · exact h ha
  · exact fails_ok P false

theorem fails_orElse {a : Prop} [Decidable a] {b : Except ε Bool} (h : ¬a → Fails P b) :
    Fails P (orElse a b) := by
  unfold orElse
  split_ifs with ha
  · exact fails_ok P true
  · exact h ha

theorem Fails.mono {Q : ε → Prop} {x : Except ε α} (hx : Fails P x) (h : ∀ e, P e → Q e) : Fails Q x :=
  fun e he => h e (hx e he)

/-- `try: x` with `except: raise f(e)`. -/
theorem Fails.mapError {ε' : Type w} {Q : ε' → Prop} {f : ε → ε'} {x : Except ε α} (hx : Fails P x)
    (h : ∀ e, P e → Q (f e)) : Fails Q (x.mapError f) := by
  intro e he
  cases x with
  | error e' =>
    rw [← Except.error.inj he]
    exact h e' (hx e' rfl)
  | ok b => exact absurd he (by simp [Except.mapError])

section Loops

variable {γ : Type w}

theorem fails_mapM {f : γ → Except ε α} {as : List γ} (h : ∀ a ∈ as, Fails P (f a)) :
    Fails P (as.mapM f) := by
  induction as with
  | nil => exact fails_ok P []
  | cons a as ih =>
    obtain ⟨ha, has⟩ := List.forall_mem_cons.mp h
    rw [List.mapM_cons]
    exact ha.bind fun b _ => (ih has).bind fun bs _ => fails_pure P _

theorem fails_forM {f : γ → Except ε PUnit} {as : List γ} (h : ∀ a ∈ as, Fails P (f a)) :
    Fails P (as.forM f) := by
  rw [List.forM_eq_forM]
  induction as with
  | nil => exact fails_ok P PUnit.unit
  | cons a as ih =>
    obtain ⟨ha, has⟩ := List.forall_mem_cons.mp h
    rw [List.forM_cons]
    exact ha.bind fun _ _ => ih has

theorem fails_allM {p : γ → Except ε Bool} {as : List γ} (h : ∀ a ∈ as, Fails P (p a)) :
    Fails P (as.allM p) := by
  induction as with
  | nil => exact fails_ok P true
  | cons a as ih =>
    obtain ⟨ha, has⟩ := List.forall_mem_cons.mp h
    rw [List.allM]
    refine ha.bind fun b _ => ?_
    cases b with
    | false => exact fails_ok P false
    | true => exact ih has

theorem fails_foldlM {f : β → γ → Except ε β} {as : List γ} {b : β}
    (h : ∀ b, ∀ a ∈ as, Fails P (f b a)) : Fails P (as.foldlM f b) := by
  induction as generalizing b with
  | nil => exact fails_ok P b
  | cons a as ih =>
    rw [List.foldlM_cons]
    exact (h b a List.mem_cons_self).bind fun c _ =>
      ih fun b a' ha' => h b a' (List.mem_cons_of_mem a ha')

end Loops

end Python
end Fragma
