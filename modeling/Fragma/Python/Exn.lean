import Mathlib.Data.List.Perm.Basic
import Mathlib.Tactic.SplitIfs

/-!
# Exceptions, and loops that collect

A Python function returns or raises.  Most loops of the repository go over a list and
append what they find to another one; `collect` is such a loop.  It stops at the first
exception.

* `Exn`: an exception, by its class and its text.
* `collect`: the loop, with `mem_of_collect_eq_ok` and `collect_eq_nil_iff`.
* `select`: the loop that keeps what passes a test; `select_eq_ok_iff`.
-/

namespace Fragma
namespace Python

universe u v

/-- The classes of exceptions that the modelled functions raise. -/
inductive ExnKind where
  | reportError
  | valueError
  | osError
  | runtimeError
  | typeError
  | attributeError
  | keyError
  | overflowError
  | indexError
  deriving DecidableEq, Repr

/-- An exception with what `str` makes of it. -/
structure Exn where
  kind : ExnKind
  message : String
  deriving DecidableEq, Repr

/-- A result, or an exception where there is none. -/
def orRaise {α : Type u} (o : Option α) (e : Exn) : Except Exn α :=
  match o with
  | some a => .ok a
  | none => .error e

@[simp] theorem orRaise_eq_ok_iff {α : Type u} {o : Option α} {e : Exn} {a : α} :
    orRaise o e = .ok a ↔ o = some a := by
  cases o with
  | none => simp [orRaise]
  | some b => simp [orRaise]

/-- `if condition: raise e`. -/
def raiseIf (condition : Prop) [Decidable condition] (e : Exn) : Except Exn Unit :=
  if condition then .error e else .ok ()

@[simp] theorem raiseIf_eq_ok_iff {condition : Prop} [Decidable condition] {e : Exn} {u : Unit} :
    raiseIf condition e = .ok u ↔ ¬ condition := by
  unfold raiseIf
  split_ifs with h
  · simp [h]
  · simp [h]

/-- `x >>= f` returns when both do. -/
theorem bind_eq_ok_iff {ε : Type*} {α β : Type u} {x : Except ε α} {f : α → Except ε β} {b : β} :
    (x >>= f) = .ok b ↔ ∃ a, x = .ok a ∧ f a = .ok b := by
  cases x with
  | error e => simp [bind, Except.bind]
  | ok a => simp [bind, Except.bind]

/-- `x` returns, and its result passes the test. -/
def returns {ε : Type*} {α : Type u} (x : Except ε α) (f : α → Bool) : Bool :=
  match x with
  | .ok a => f a
  | .error _ => false

theorem exists_of_returns {ε : Type*} {α : Type u} {x : Except ε α} {f : α → Bool}
    (h : returns x f = true) : ∃ a, x = .ok a ∧ f a = true := by
  cases x with
  | error e => exact absurd h (by simp [returns])
  | ok a => exact ⟨a, rfl, h⟩

/-- What a table has under a key is an entry of it. -/
theorem mem_of_lookup {κ : Type u} {β : Type v} [BEq κ] [LawfulBEq κ] {table : List (κ × β)}
    {k : κ} {b : β} (h : table.lookup k = some b) : (k, b) ∈ table := by
  obtain ⟨front, back, rfl, -⟩ := List.lookup_eq_some_iff.mp h
  exact List.mem_append_right _ List.mem_cons_self

variable {ε : Type*} {α : Type u} {β : Type v}

/-- A loop that appends to a list what it finds at each entry. -/
def collect (f : α → Except ε (List β)) : List α → Except ε (List β)
  | [] => .ok []
  | a :: as =>
    match f a with
    | .error e => .error e
    | .ok bs =>
      match collect f as with
      | .error e => .error e
      | .ok cs => .ok (bs ++ cs)

variable {f : α → Except ε (List β)}

theorem collect_cons_eq_ok_iff {a : α} {as : List α} {bs : List β} :
    collect f (a :: as) = .ok bs ↔
      ∃ cs ds, f a = .ok cs ∧ collect f as = .ok ds ∧ bs = cs ++ ds := by
  rw [collect]
  cases f a with
  | error e => simp
  | ok cs =>
    cases collect f as with
    | error e => simp
    | ok ds => simp [eq_comm]

/-- The loop finds what it finds at the entries. -/
theorem mem_of_collect_eq_ok {as : List α} {bs : List β} (h : collect f as = .ok bs) {b : β} :
    b ∈ bs ↔ ∃ a ∈ as, ∃ cs, f a = .ok cs ∧ b ∈ cs := by
  induction as generalizing bs with
  | nil =>
    rw [← Except.ok.inj h]
    simp
  | cons a as ih =>
    obtain ⟨cs, ds, ha, hrest, rfl⟩ := collect_cons_eq_ok_iff.mp h
    rw [List.mem_append, ih hrest]
    constructor
    · rintro (hb | ⟨a', ha', cs', hcs', hb⟩)
      · exact ⟨a, List.mem_cons_self, cs, ha, hb⟩
      · exact ⟨a', List.mem_cons_of_mem _ ha', cs', hcs', hb⟩
    · rintro ⟨a', ha', cs', hcs', hb⟩
      rcases List.mem_cons.mp ha' with rfl | hmem
      · rw [ha, Except.ok.injEq] at hcs'
        exact Or.inl (hcs' ▸ hb)
      · exact Or.inr ⟨a', hmem, cs', hcs', hb⟩

/-- The loop returns when every entry does. -/
theorem collect_ok_of_forall {as : List α} (h : ∀ a ∈ as, ∃ cs, f a = .ok cs) :
    ∃ bs, collect f as = .ok bs := by
  induction as with
  | nil => exact ⟨[], rfl⟩
  | cons a as ih =>
    obtain ⟨cs, hcs⟩ := h a List.mem_cons_self
    obtain ⟨ds, hds⟩ := ih fun a' ha' => h a' (List.mem_cons_of_mem _ ha')
    exact ⟨cs ++ ds, collect_cons_eq_ok_iff.mpr ⟨cs, ds, hcs, hds, rfl⟩⟩

theorem forall_of_collect_eq_ok {as : List α} {bs : List β} (h : collect f as = .ok bs) :
    ∀ a ∈ as, ∃ cs, f a = .ok cs := by
  induction as generalizing bs with
  | nil => exact fun a ha => absurd ha List.not_mem_nil
  | cons a as ih =>
    obtain ⟨cs, ds, hcs, hds, -⟩ := collect_cons_eq_ok_iff.mp h
    intro a' ha'
    rcases List.mem_cons.mp ha' with rfl | hmem
    · exact ⟨cs, hcs⟩
    · exact ih hds a' hmem

/-- **A loop that finds nothing finds nothing at any entry.** -/
theorem collect_eq_nil_iff {as : List α} : collect f as = .ok [] ↔ ∀ a ∈ as, f a = .ok [] := by
  induction as with
  | nil => simp [collect]
  | cons a as ih =>
    rw [collect_cons_eq_ok_iff, List.forall_mem_cons, ← ih]
    constructor
    · rintro ⟨cs, ds, ha, hrest, hnil⟩
      obtain ⟨rfl, rfl⟩ := List.append_eq_nil_iff.mp hnil.symm
      exact ⟨ha, hrest⟩
    · rintro ⟨ha, hrest⟩
      exact ⟨[], [], ha, hrest, rfl⟩

/-- A loop that finds one thing at each entry lists them in order. -/
theorem forall₂_of_collect_map {g : α → Except ε β} {as : List α} {bs : List β}
    (h : collect (fun a => (g a).map fun b => [b]) as = .ok bs) :
    List.Forall₂ (fun a b => g a = .ok b) as bs := by
  induction as generalizing bs with
  | nil =>
    rw [← Except.ok.inj h]
    exact .nil
  | cons a as ih =>
    obtain ⟨cs, ds, ha, hrest, rfl⟩ := collect_cons_eq_ok_iff.mp h
    cases hg : g a with
    | error e =>
      rw [hg] at ha
      exact absurd ha (by simp [Except.map])
    | ok b =>
      rw [hg] at ha
      rw [← Except.ok.inj ha]
      exact .cons hg (ih hrest)

/-! ## Lists side by side -/

theorem exists_of_forall₂_right {γ : Type*} {R : α → γ → Prop} {as : List α} {cs : List γ}
    (h : List.Forall₂ R as cs) {c : γ} (hc : c ∈ cs) : ∃ a ∈ as, R a c := by
  induction h with
  | nil => exact absurd hc List.not_mem_nil
  | cons hac _ ih =>
    rcases List.mem_cons.mp hc with rfl | hc
    · exact ⟨_, List.mem_cons_self, hac⟩
    · obtain ⟨a, ha, hR⟩ := ih hc
      exact ⟨a, List.mem_cons_of_mem _ ha, hR⟩

theorem forall₂_trans {γ δ : Type*} {R : α → γ → Prop} {S : γ → δ → Prop} {T : α → δ → Prop}
    {as : List α} {cs : List γ} {ds : List δ} (h : List.Forall₂ R as cs)
    (h' : List.Forall₂ S cs ds) (hT : ∀ a c d, R a c → S c d → T a d) : List.Forall₂ T as ds := by
  induction h generalizing ds with
  | nil =>
    cases h'
    exact .nil
  | cons hac _ ih =>
    cases h' with
    | cons hcd hrest => exact .cons (hT _ _ _ hac hcd) (ih hrest)

/-! ## Loops that select -/

/-- `p a`, where that returns. -/
def holds (p : α → Except ε Bool) (a : α) : Bool :=
  match p a with
  | .ok b => b
  | .error _ => false

theorem holds_iff {p : α → Except ε Bool} {a : α} : holds p a = true ↔ p a = .ok true := by
  unfold holds
  cases p a with
  | error e => simp
  | ok b => simp

/-- `[a for a in as if p(a)]`. -/
def select (p : α → Except ε Bool) (as : List α) : Except ε (List α) :=
  collect (fun a => (p a).map fun b => if b then [a] else []) as

/-- **A selection is a filter**, once every test returns. -/
theorem select_eq_ok_iff {p : α → Except ε Bool} {as bs : List α} :
    select p as = .ok bs ↔ (∀ a ∈ as, ∃ b, p a = .ok b) ∧ bs = as.filter (holds p) := by
  induction as generalizing bs with
  | nil => simp [select, collect, eq_comm]
  | cons a as ih =>
    have htail : ∀ {ds : List α}, collect (fun a => (p a).map fun b => if b then [a] else []) as =
        .ok ds ↔ (∀ a ∈ as, ∃ b, p a = .ok b) ∧ ds = as.filter (holds p) := ih
    rw [select, collect_cons_eq_ok_iff, List.forall_mem_cons, List.filter_cons]
    simp only [htail]
    cases hpa : p a with
    | error e => simp [Except.map]
    | ok b =>
      have hholds : holds p a = b := by rw [holds, hpa]
      rw [hholds]
      cases b with
      | false => simp [Except.map]
      | true => simp [Except.map]

end Python
end Fragma
