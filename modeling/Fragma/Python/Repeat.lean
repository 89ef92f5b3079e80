import Fragma.Python.Pattern

/-!
# Patterns that repeat a pattern

`(?:p)*`, `(?:p)+?` and `[…]{n}`.  A round takes at least one character, so a text bounds how many there
are.

* `many`, `manyReluctant1`, `exactly`: the patterns.
* `mem_many_iff`, `mem_manyReluctant1_iff`: the ways to repeat a pattern whose ways are known.
-/

namespace Fragma
namespace Python
namespace Pattern

variable {α : Type}

/-- `(?:p)*` with at most `n` rounds. -/
def rounds (p : Pattern α) : ℕ → Pattern (List α)
  | 0 => pure []
  | n + 1 =>
    orElse (do
      let a ← p
      let as ← rounds p n
      pure (a :: as)) (pure [])

/-- `(?:p)*?` with at most `n` rounds. -/
def roundsReluctant (p : Pattern α) : ℕ → Pattern (List α)
  | 0 => pure []
  | n + 1 =>
    orElse (pure []) (do
      let a ← p
      let as ← roundsReluctant p n
      pure (a :: as))

/-- `(?:p)*`. -/
def many (p : Pattern α) : Pattern (List α) := fun cs => rounds p cs.length cs

/-- `(?:p)*?`. -/
def manyReluctant (p : Pattern α) : Pattern (List α) := fun cs => roundsReluctant p cs.length cs

/-- `(?:p)+?`. -/
def manyReluctant1 (p : Pattern α) : Pattern (List α) := do
  let a ← p
  let as ← manyReluctant p
  pure (a :: as)

/-- `[…]{n}`. -/
def exactly (p : Char → Bool) : ℕ → Pattern (List Char)
  | 0 => pure []
  | n + 1 => do
    let c ← one p
    let cs ← exactly p n
    pure (c :: cs)

/-! ## The ways there are -/

variable {cs rest : List Char}

@[simp] theorem mem_exactly_iff {k : Char → Bool} {n : ℕ} {taken : List Char} :
    (taken, rest) ∈ exactly k n cs ↔
      cs = taken ++ rest ∧ taken.length = n ∧ ∀ c ∈ taken, k c = true := by
  induction n generalizing cs rest taken with
  | zero =>
    rw [exactly, mem_pure_iff]
    constructor
    · rintro ⟨rfl, rfl⟩
      simp
    · rintro ⟨rfl, hlen, -⟩
      obtain rfl := List.length_eq_zero_iff.mp hlen
      exact ⟨rfl, rfl⟩
  | succ n ih =>
    simp only [exactly, mem_bind_iff, mem_one_iff, ih, mem_pure_iff]
    constructor
    · rintro ⟨c, middle, ⟨rfl, hc⟩, t, r, ⟨rfl, hlen, hall⟩, rfl, rfl⟩
      exact ⟨rfl, by simp [hlen], List.forall_mem_cons.mpr ⟨hc, hall⟩⟩
    · rintro ⟨rfl, hlen, hall⟩
      obtain ⟨c, t, rfl⟩ := List.exists_cons_of_length_eq_add_one hlen
      obtain ⟨hc, hall⟩ := List.forall_mem_cons.mp hall
      exact ⟨c, t ++ rest, ⟨rfl, hc⟩, t, rest, ⟨rfl, by simpa using hlen, hall⟩, rfl, rfl⟩

section Spelled

-- what a round spells, and for which results there is a round
variable {p : Pattern α} {spell : α → List Char} {good : α → Prop}

/-- The ways of a pattern are the spellings of its results. -/
def Spells (p : Pattern α) (spell : α → List Char) (good : α → Prop) : Prop :=
  ∀ a cs rest, (a, rest) ∈ p cs ↔ cs = spell a ++ rest ∧ good a

theorem mem_rounds_iff (hp : Spells p spell good) {n : ℕ} {as : List α} :
    (as, rest) ∈ rounds p n cs ↔
      as.length ≤ n ∧ cs = as.flatMap spell ++ rest ∧ ∀ a ∈ as, good a := by
  induction n generalizing cs rest as with
  | zero =>
    rw [rounds, mem_pure_iff]
    constructor
    · rintro ⟨rfl, rfl⟩
      simp
    · rintro ⟨hlen, rfl, -⟩
      obtain rfl := List.length_eq_zero_iff.mp (Nat.le_zero.mp hlen)
      exact ⟨rfl, rfl⟩
  | succ n ih =>
    have hway : ∀ a cs rest, (a, rest) ∈ p cs ↔ cs = spell a ++ rest ∧ good a := hp
    rw [rounds, mem_orElse_iff]
    simp only [mem_bind_iff, hway, ih, mem_pure_iff]
    constructor
    · rintro (⟨a, middle, ⟨rfl, ha⟩, t, r, ⟨hlen, rfl, hall⟩, rfl, rfl⟩ | ⟨rfl, rfl⟩)
      · exact ⟨by simpa using hlen, by simp, List.forall_mem_cons.mpr ⟨ha, hall⟩⟩
      · simp
    · rintro ⟨hlen, rfl, hall⟩
      cases as with
      | nil => exact .inr ⟨rfl, rfl⟩
      | cons a t =>
        obtain ⟨ha, hall⟩ := List.forall_mem_cons.mp hall
        exact .inl ⟨a, t.flatMap spell ++ rest, ⟨by simp, ha⟩, t, rest,
          ⟨by simpa using hlen, rfl, hall⟩, rfl, rfl⟩

theorem mem_roundsReluctant_iff {n : ℕ} {as : List α} :
    (as, rest) ∈ roundsReluctant p n cs ↔ (as, rest) ∈ rounds p n cs := by
  induction n generalizing cs rest as with
  | zero => rfl
  | succ n ih =>
    simp only [rounds, roundsReluctant, mem_orElse_iff, mem_bind_iff, ih]
    exact or_comm

theorem length_le_flatMap (hne : ∀ a, good a → spell a ≠ []) {as : List α} (h : ∀ a ∈ as, good a) :
    as.length ≤ (as.flatMap spell).length := by
  induction as with
  | nil => rfl
  | cons a as ih =>
    obtain ⟨ha, hall⟩ := List.forall_mem_cons.mp h
    have hpos := List.length_pos_of_ne_nil (hne a ha)
    have htail := ih hall
    rw [List.flatMap_cons, List.length_append, List.length_cons]
    omega

theorem mem_many_iff (hp : Spells p spell good) (hne : ∀ a, good a → spell a ≠ []) {as : List α} :
    (as, rest) ∈ many p cs ↔ cs = as.flatMap spell ++ rest ∧ ∀ a ∈ as, good a := by
  rw [many, mem_rounds_iff hp, and_iff_right_of_imp]
  rintro ⟨rfl, hall⟩
  have hlen := length_le_flatMap hne hall
  rw [List.length_append]
  omega

theorem mem_manyReluctant1_iff (hp : Spells p spell good) (hne : ∀ a, good a → spell a ≠ [])
    {as : List α} : (as, rest) ∈ manyReluctant1 p cs ↔
      as ≠ [] ∧ cs = as.flatMap spell ++ rest ∧ ∀ a ∈ as, good a := by
  have hway : ∀ a cs rest, (a, rest) ∈ p cs ↔ cs = spell a ++ rest ∧ good a := hp
  have hmany : ∀ {cs rest : List Char} {t : List α}, (t, rest) ∈ manyReluctant p cs ↔
      cs = t.flatMap spell ++ rest ∧ ∀ a ∈ t, good a := by
    intro cs rest t
    rw [← mem_many_iff hp hne]
    exact mem_roundsReluctant_iff
  simp only [manyReluctant1, mem_bind_iff, hway, hmany, mem_pure_iff]
  constructor
  · rintro ⟨a, middle, ⟨rfl, ha⟩, t, r, ⟨rfl, hall⟩, rfl, rfl⟩
    exact ⟨List.cons_ne_nil _ _, by simp, List.forall_mem_cons.mpr ⟨ha, hall⟩⟩
  · rintro ⟨hcons, rfl, hall⟩
    obtain ⟨a, t, rfl⟩ := List.exists_cons_of_ne_nil hcons
    obtain ⟨ha, hall⟩ := List.forall_mem_cons.mp hall
    exact ⟨a, t.flatMap spell ++ rest, ⟨by simp, ha⟩, t, rest, ⟨rfl, hall⟩, rfl, rfl⟩

end Spelled

end Pattern
end Python
end Fragma
