import Mathlib.Tactic.IntervalCases
import Fragma.Python.Tsv

/-!
# Numerals

The numerals that `[0-9]+` matches, and what `int` makes of them.

* `Numeral`: digits of ASCII, at least one.
* `natOf_numeral`: the number of a numeral, up to the limit on its digits.
* `natOf_toDigits_iff`: a number is read back from its own digits.
-/

namespace Fragma
namespace Python

/-- A text that `[0-9]+` matches. -/
def Numeral (cs : List Char) : Prop := cs ≠ [] ∧ ∀ c ∈ cs, isDigit c = true

instance decidableNumeral (cs : List Char) : Decidable (Numeral cs) :=
  decidable_of_iff (cs ≠ [] ∧ cs.all isDigit = true) (by simp [Numeral])

theorem isDigit_iff (c : Char) : isDigit c = true ↔ c.isDigit = true := by
  constructor
  · intro h
    have hmem : c ∈ "0123456789".toList := by simpa [isDigit] using h
    have hall : ("0123456789".toList.all fun c => c.isDigit) = true := by decide
    exact List.all_eq_true.mp hall c hmem
  · intro h
    rw [Char.isDigit, Bool.and_eq_true, decide_eq_true_eq, decide_eq_true_eq] at h
    have hlow : 48 ≤ c.toNat := h.1
    have hhigh : c.toNat ≤ 57 := h.2
    have hc : c = Char.ofNat c.toNat := (Char.ofNat_toNat c).symm
    generalize c.toNat = n at hc hlow hhigh
    rw [hc]
    interval_cases n <;> decide

theorem numeral_toDigits (n : ℕ) : Numeral (Nat.toDigits 10 n) :=
  ⟨Nat.toDigits_ne_nil, fun _ hc => (isDigit_iff _).mpr
    (Nat.isDigit_of_mem_toDigits (by decide) (by decide) hc)⟩

theorem digitsOf_numeral {cs : List Char} (h : Numeral cs) :
    digitsOf asciiDigit cs = some (cs.map fun c => c.toNat - '0'.toNat) := by
  obtain ⟨hne, hall⟩ := h
  have hdigit : ∀ c ∈ cs, asciiDigit c = some (c.toNat - '0'.toNat) := fun c hc => if_pos (hall c hc)
  clear hall
  fun_induction digitsOf asciiDigit cs with
  | case1 => exact absurd rfl hne
  | case2 c => simp [hdigit c (by simp)]
  | case3 c cs ih => exact absurd (hdigit '_' (by simp)) (by decide)
  | case4 c cs hnil hunder ih =>
    have hcs : cs ≠ [] := fun h => hnil h
    rw [hdigit c (by simp), ih hcs fun d hd => hdigit d (List.mem_cons_of_mem c hd)]
    rfl

/-- **What `int` makes of a numeral.** -/
theorem natOf_numeral {cs : List Char} (h : Numeral cs) :
    natOf asciiDigit cs = if maxDigits < cs.length then none else some (Nat.ofDigitChars 10 cs 0) := by
  have hvalue : Nat.ofDigitChars 10 cs 0 =
      (cs.map fun c => c.toNat - '0'.toNat).foldl (fun n d => 10 * n + d) 0 := by
    rw [Nat.ofDigitChars_eq_foldl, List.foldl_map]
  rw [natOf, digitsOf_numeral h, Option.bind_eq_bind, Option.bind_some, List.length_map, hvalue]

/-- A number is read back from its digits, if they are not too many. -/
theorem natOf_toDigits_iff {n m : ℕ} :
    natOf asciiDigit (Nat.toDigits 10 n) = some m ↔ m = n ∧ (Nat.toDigits 10 n).length ≤ maxDigits := by
  rw [natOf_numeral (numeral_toDigits n), Nat.ofDigitChars_ten_toDigits]
  split_ifs with h
  · simp [h]
  · simp [not_lt.mp h, eq_comm]

end Python
end Fragma
