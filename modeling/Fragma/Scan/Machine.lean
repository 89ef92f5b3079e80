import Mathlib.Data.List.Basic

/-!
# Scanners that consume their input from the left

A scanner reads a list from the left.  At each turn it looks at the current
state and the rest of the input, fails or consumes at least one entry, emits some
outputs and moves to a new state.  Lexers are of this kind: how much a turn
consumes depends on the input, so the recursion is on the length of what is left.

* `Machine`: the step function, with the proof that every step consumes and
  leaves the end of its input.
* `Machine.run`: the whole run, by recursion on a bound that `run_cons` removes.
* `Machine.Steps`: some turns of a run, with `run_of_steps` and
  `Steps.invariant`.
* `Machine.run_induction`: what a run emits satisfies whatever the finish does and
  every step passes on.
* `Machine.run_congr`: two runs over the same input whose states stay related
  emit related outputs.
-/

namespace Fragma
namespace Scan

universe u v w x

/-- A scanner.  `step q a as` is one turn in state `q` on the nonempty input
`a :: as`; it returns the outputs, the next state and the rest of the input. -/
structure Machine (α : Type u) (σ : Type v) (τ : Type w) (ε : Type x) where
  step : σ → α → List α → Except ε (List τ × σ × List α)
  finish : σ → List τ
  consumes : ∀ {q a as out q' rest}, step q a as = .ok (out, q', rest) → rest <:+ as

namespace Machine

variable {α : Type u} {σ : Type v} {τ : Type w} {ε : Type x} (M : Machine α σ τ ε)

theorem shrinks {q q' : σ} {a : α} {as rest : List α} {out : List τ}
    (h : M.step q a as = .ok (out, q', rest)) : rest.length ≤ as.length :=
  (M.consumes h).length_le

/-- A run of at most the given number of turns. -/
def runFuel : ℕ → σ → List α → Except ε (List τ)
  | _, q, [] => .ok (M.finish q)
  | 0, q, _ :: _ => .ok (M.finish q)
  | n + 1, q, a :: as =>
    match M.step q a as with
    | .error e => .error e
    | .ok (out, q', rest) => (runFuel n q' rest).map (out ++ ·)

/-- The whole run: no run takes more turns than the input has entries. -/
def run (q : σ) (as : List α) : Except ε (List τ) := M.runFuel as.length q as

theorem runFuel_eq_run : ∀ (n : ℕ) (q : σ) (as : List α), as.length ≤ n →
    M.runFuel n q as = M.run q as := by
  intro n
  induction n using Nat.strongRecOn with
  | _ n ih =>
    intro q as hn
    cases as with
    | nil => cases n <;> rfl
    | cons a as =>
      obtain ⟨n, rfl⟩ : ∃ k, n = k + 1 := ⟨n - 1, by simp at hn; omega⟩
      rw [run, List.length_cons, runFuel, runFuel]
      cases hs : M.step q a as with
      | error e => rfl
      | ok r =>
        obtain ⟨out, q', rest⟩ := r
        have hshrink := M.shrinks hs
        rw [List.length_cons] at hn
        have h1 := ih n (by omega) q' rest (by omega)
        have h2 : M.runFuel as.length q' rest = M.run q' rest := by
          rcases Nat.lt_or_ge as.length (n + 1) with hlt | hge
          · exact ih as.length hlt q' rest hshrink
          · omega
        simp only [h1, h2]

@[simp] theorem run_nil (q : σ) : M.run q [] = .ok (M.finish q) := rfl

/-- One turn of a run. -/
theorem run_cons_of_step {q q' : σ} {a : α} {as rest : List α} {out : List τ}
    (h : M.step q a as = .ok (out, q', rest)) :
    M.run q (a :: as) = (M.run q' rest).map (out ++ ·) := by
  have hrest := M.runFuel_eq_run as.length q' rest (M.shrinks h)
  rw [run, List.length_cons, runFuel, h]
  simp only [hrest]

theorem run_cons_of_error {q : σ} {a : α} {as : List α} {e : ε} (h : M.step q a as = .error e) :
    M.run q (a :: as) = .error e := by
  rw [run, List.length_cons, runFuel, h]

/-- A successful run either had no input or took a successful first turn. -/
theorem run_cons_eq_ok {q : σ} {a : α} {as : List α} {ts : List τ}
    (h : M.run q (a :: as) = .ok ts) :
    ∃ out q' rest later, M.step q a as = .ok (out, q', rest) ∧ M.run q' rest = .ok later ∧
      ts = out ++ later := by
  cases hs : M.step q a as with
  | error e =>
    rw [M.run_cons_of_error hs] at h
    exact absurd h (by simp)
  | ok r =>
    obtain ⟨out, q', rest⟩ := r
    rw [M.run_cons_of_step hs] at h
    cases hr : M.run q' rest with
    | error e =>
      rw [hr] at h
      exact absurd h (by simp [Except.map])
    | ok later =>
      rw [hr] at h
      exact ⟨out, q', rest, later, rfl, hr, by simpa [Except.map] using h.symm⟩

/-! ## Some turns of a run -/

/-- `Steps q as out q' rest`: some turns lead from state `q` before `as` to state
`q'` before `rest`, emitting `out`. -/
inductive Steps : σ → List α → List τ → σ → List α → Prop where
  | refl (q : σ) (as : List α) : Steps q as [] q as
  | head {q q₁ q' : σ} {a : α} {as mid rest : List α} {out later : List τ} :
      M.step q a as = .ok (out, q₁, mid) → Steps q₁ mid later q' rest →
        Steps q (a :: as) (out ++ later) q' rest

variable {M}

theorem Steps.single {q q' : σ} {a : α} {as rest : List α} {out : List τ}
    (h : M.step q a as = .ok (out, q', rest)) : M.Steps q (a :: as) out q' rest := by
  have := Steps.head h (Steps.refl q' rest)
  rwa [List.append_nil] at this

theorem Steps.trans {q q₁ q' : σ} {as mid rest : List α} {out later : List τ}
    (h : M.Steps q as out q₁ mid) (h' : M.Steps q₁ mid later q' rest) :
    M.Steps q as (out ++ later) q' rest := by
  induction h with
  | refl => exact h'
  | head hs _ ih =>
    rw [List.append_assoc]
    exact Steps.head hs (ih h')

theorem Steps.suffix {q q' : σ} {as rest : List α} {out : List τ}
    (h : M.Steps q as out q' rest) : rest <:+ as := by
  induction h with
  | refl => exact List.suffix_refl _
  | head hs _ ih => exact (ih.trans (M.consumes hs)).trans (List.suffix_cons _ _)

/-- What every turn preserves, some turns preserve. -/
theorem Steps.invariant {P : σ → Prop}
    (hstep : ∀ q a as out q' rest, P q → M.step q a as = .ok (out, q', rest) → P q')
    {q q' : σ} {as rest : List α} {out : List τ} (h : M.Steps q as out q' rest) (hq : P q) :
    P q' := by
  induction h with
  | refl => exact hq
  | head hs _ ih => exact ih (hstep _ _ _ _ _ _ hq hs)

/-- **A run is its first turns followed by the run from there.** -/
theorem run_of_steps {q q' : σ} {as rest : List α} {out : List τ}
    (h : M.Steps q as out q' rest) : M.run q as = (M.run q' rest).map (out ++ ·) := by
  induction h with
  | refl q as => cases M.run q as <;> simp [Except.map]
  | head hs _ ih =>
    rw [M.run_cons_of_step hs, ih]
    cases M.run _ _ <;> simp [Except.map]

variable (M)

/-! ## Rules for whole runs -/

/-- **Induction over a run.**  What the finish emits satisfies `P`, and each turn
passes `P` from what follows to itself. -/
theorem run_induction {P : σ → List α → List τ → Prop} (hfinish : ∀ q, P q [] (M.finish q))
    (hstep : ∀ q a as out q' rest later, M.step q a as = .ok (out, q', rest) →
      P q' rest later → P q (a :: as) (out ++ later)) :
    ∀ (q : σ) (as : List α) (ts : List τ), M.run q as = .ok ts → P q as ts := by
  intro q as
  induction hn : as.length using Nat.strongRecOn generalizing q as with
  | _ n ih =>
    intro ts h
    cases as with
    | nil =>
      rw [run_nil, Except.ok.injEq] at h
      exact h ▸ hfinish q
    | cons a as =>
      obtain ⟨out, q', rest, later, hs, hr, rfl⟩ := M.run_cons_eq_ok h
      have hlt : rest.length < n := by
        have := M.shrinks hs
        rw [List.length_cons] at hn
        omega
      exact hstep q a as out q' rest later hs (ih rest.length hlt q' rest rfl later hr)

/-- **Two related runs over the same input.**  `R q q' as` relates the states of
two runs in front of the same rest of the input.  If related states take the same
turns, up to outputs with the same image under `f`, then the second run succeeds
wherever the first one does, with the same images. -/
theorem run_congr {β : Type*} (f : τ → β) {R : σ → σ → List α → Prop}
    (hfinish : ∀ q q', R q q' [] → (M.finish q').map f = (M.finish q).map f)
    (hstep : ∀ q q' a as out q₁ rest, R q q' (a :: as) → M.step q a as = .ok (out, q₁, rest) →
      ∃ out' q₁', M.step q' a as = .ok (out', q₁', rest) ∧ out'.map f = out.map f ∧
        R q₁ q₁' rest) :
    ∀ (q q' : σ) (as : List α) (ts : List τ), R q q' as → M.run q as = .ok ts →
      ∃ ts', M.run q' as = .ok ts' ∧ ts'.map f = ts.map f := by
  intro q q' as
  induction hn : as.length using Nat.strongRecOn generalizing q q' as with
  | _ n ih =>
    intro ts hR h
    cases as with
    | nil =>
      rw [run_nil, Except.ok.injEq] at h
      exact ⟨M.finish q', rfl, h ▸ hfinish q q' hR⟩
    | cons a as =>
      obtain ⟨out, q₁, rest, later, hs, hr, rfl⟩ := M.run_cons_eq_ok h
      obtain ⟨out', q₁', hs', hout, hR'⟩ := hstep q q' a as out q₁ rest hR hs
      have hlt : rest.length < n := by
        have := M.shrinks hs
        rw [List.length_cons] at hn
        omega
      obtain ⟨later', hr', hlater⟩ := ih rest.length hlt q₁ q₁' rest rfl later hR' hr
      refine ⟨out' ++ later', ?_, ?_⟩
      · rw [M.run_cons_of_step hs', hr']
        rfl
      · rw [List.map_append, List.map_append, hout, hlater]

end Machine

end Scan
end Fragma
