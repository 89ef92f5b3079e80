import Mathlib
import Fragma.Python.Lines
import Fragma.Python.Tsv

/-!
# Whole words in a text

`re.search(r"\bword\b", text)`.  A word is found where neither the character in front of it nor the one
behind it belongs to a word.

* `hasWord`, `hasWord_iff`: the search, and the places where it succeeds.
* `Whole.strip`: stripping a text loses no word.
* `Whole.of_line`: a word of a line is one of the text.
-/

namespace Fragma
namespace Python

/-- The letters and digits of the interpreter's character table.  None of them is a space. -/
structure Letters where
  isAlnum : Char → Bool
  ascii : ∀ c, c.toNat < 128 → isAlnum c = c.isAlphanum
  notSpace : ∀ c, isAlnum c = true → isSpace c = false

/-- The letters and digits of ASCII. -/
def asciiLetters : Letters where
  isAlnum c := c.toNat < 128 && c.isAlphanum
  ascii c hc := by simp [hc]
  notSpace c hc := by
    have hrange := hc
    simp only [Char.isAlphanum, Char.isAlpha, Char.isUpper, Char.isLower, Char.isDigit,
      Bool.and_eq_true, Bool.or_eq_true, decide_eq_true_eq, ge_iff_le, UInt32.le_iff_toNat_le]
      at hrange
    have hnat : c.val.toNat = c.toNat := rfl
    rw [hnat] at hrange
    simp only [isSpace, Bool.or_eq_false_iff, Bool.and_eq_false_iff, decide_eq_false_iff_not]
    have hA : 'A'.val.toNat = 65 := rfl
    have hZ : 'Z'.val.toNat = 90 := rfl
    have ha : 'a'.val.toNat = 97 := rfl
    have hz : 'z'.val.toNat = 122 := rfl
    have h0 : '0'.val.toNat = 48 := rfl
    have h9 : '9'.val.toNat = 57 := rfl
    omega

theorem isSpace_of_isLineBreak {c : Char} (h : isLineBreak c = true) : isSpace c = true := by
  simp only [isLineBreak, isSpace, Bool.or_eq_true, Bool.and_eq_true, decide_eq_true_eq] at h ⊢
  omega

/-- A text is what is left of it by stripping, with spaces around. -/
theorem exists_strip (cs : List Char) : ∃ front rest, cs = front ++ (strip cs ++ rest) ∧
    (∀ c ∈ front, isSpace c = true) ∧ ∀ c ∈ rest, isSpace c = true := by
  refine ⟨cs.takeWhile isSpace, ((cs.dropWhile isSpace).reverse.takeWhile isSpace).reverse, ?_,
    fun c hc => List.mem_takeWhile_imp hc, fun c hc =>
      List.mem_takeWhile_imp (List.mem_reverse.mp hc)⟩
  rw [strip, ← List.reverse_append, List.takeWhile_append_dropWhile, List.reverse_reverse,
    List.takeWhile_append_dropWhile]

namespace Letters

variable (t : Letters)

/-- No character of a word stands here. -/
def outside (o : Option Char) : Bool := !(o.map (isWord t.isAlnum)).getD false

/-- `re.search(r"\bword\b", text)`, behind the character `before`. -/
def hasWord (word : List Char) : Option Char → List Char → Bool
  | _, [] => false
  | before, c :: cs =>
    (t.outside before && word.isPrefixOf (c :: cs) && t.outside ((c :: cs).drop word.length).head?) ||
      hasWord word (some c) cs

/-- The word stands in the text as a whole one. -/
def Whole (word cs : List Char) : Prop :=
  ∃ front rest, cs = front ++ (word ++ rest) ∧ t.outside front.getLast? = true ∧
    t.outside rest.head? = true

variable {t} {word cs : List Char}

theorem outside_of_isSpace {c : Char} (h : isSpace c = true) : t.outside (some c) = true := by
  have hc : t.isAlnum c = false := by
    by_contra hne
    have hspace := t.notSpace c (by simpa using hne)
    rw [h] at hspace
    exact absurd hspace (by decide)
  have hunder : c ≠ '_' := by
    rintro rfl
    exact absurd h (by decide)
  simp [outside, isWord, hc, hunder]

theorem hasWord_iff_behind (hne : word ≠ []) {before : Option Char} :
    t.hasWord word before cs = true ↔ ∃ front rest, cs = front ++ (word ++ rest) ∧
      t.outside (front.getLast?.or before) = true ∧ t.outside rest.head? = true := by
  induction cs generalizing before with
  | nil =>
    refine iff_of_false (by simp [hasWord]) ?_
    rintro ⟨front, rest, hcs, -⟩
    rw [eq_comm, List.append_eq_nil_iff, List.append_eq_nil_iff] at hcs
    exact hne hcs.2.1
  | cons c cs ih =>
    rw [hasWord, Bool.or_eq_true, Bool.and_eq_true, Bool.and_eq_true, List.isPrefixOf_iff_prefix, ih]
    have hlast : ∀ front : List Char,
        (c :: front).getLast?.or before = front.getLast?.or (some c) := by
      intro front
      rw [List.getLast?_cons]
      cases front.getLast? with
      | none => rfl
      | some d => rfl
    constructor
    · rintro (⟨⟨hbefore, rest, hrest⟩, hbehind⟩ | ⟨front, rest, rfl, hfront, hbehind⟩)
      · rw [← hrest, List.drop_left] at hbehind
        exact ⟨[], rest, hrest.symm, hbefore, hbehind⟩
      · exact ⟨c :: front, rest, rfl, by rwa [hlast], hbehind⟩
    · rintro ⟨front, rest, hcs, hfront, hbehind⟩
      cases front with
      | nil =>
        rw [List.nil_append] at hcs
        exact .inl ⟨⟨hfront, rest, hcs.symm⟩, by rwa [hcs, List.drop_left]⟩
      | cons d front =>
        rw [List.cons_append, List.cons.injEq] at hcs
        obtain ⟨rfl, hcs⟩ := hcs
        exact .inr ⟨front, rest, hcs, by rwa [← hlast], hbehind⟩

theorem hasWord_iff (hne : word ≠ []) : t.hasWord word none cs = true ↔ t.Whole word cs := by
  rw [hasWord_iff_behind hne]
  simp only [Option.or_none, Whole]

theorem Whole.reverse (h : t.Whole word cs) : t.Whole word.reverse cs.reverse := by
  obtain ⟨front, rest, rfl, hfront, hrest⟩ := h
  exact ⟨rest.reverse, front.reverse, by simp, by rwa [List.getLast?_reverse],
    by rwa [List.head?_reverse]⟩

theorem Whole.dropWhile (h : t.Whole word cs) (hne : word ≠ [])
    (hword : ∀ c ∈ word, isSpace c = false) : t.Whole word (cs.dropWhile isSpace) := by
  obtain ⟨front, rest, rfl, hfront, hrest⟩ := h
  rw [List.dropWhile_append]
  split_ifs with hempty
  · obtain ⟨c, tail, rfl⟩ := List.exists_cons_of_ne_nil hne
    have hc : ¬ isSpace c = true := by simp [hword c List.mem_cons_self]
    rw [List.cons_append, List.dropWhile_cons_of_neg hc]
    exact ⟨[], rest, rfl, rfl, hrest⟩
  · refine ⟨front.dropWhile isSpace, rest, rfl, ?_, hrest⟩
    have hsplit := List.takeWhile_append_dropWhile (p := isSpace) (l := front)
    obtain ⟨d, hd⟩ : ∃ d, (front.dropWhile isSpace).getLast? = some d := by
      refine ⟨_, List.getLast?_eq_some_getLast fun hnil => hempty ?_⟩
      rw [hnil]
      rfl
    rw [← hsplit, List.getLast?_append, hd] at hfront
    rwa [hd]

/-- Stripping a text loses no word. -/
theorem Whole.strip (h : t.Whole word cs) (hne : word ≠ []) (hword : ∀ c ∈ word, isSpace c = false) :
    t.Whole word (strip cs) := by
  have hrev := (h.dropWhile hne hword).reverse.dropWhile (by simpa using hne)
    (fun c hc => hword c (List.mem_reverse.mp hc))
  have hback := hrev.reverse
  rwa [List.reverse_reverse] at hback

theorem outside_of_forall {o : Option Char} (h : ∀ c ∈ o, isSpace c = true) : t.outside o = true := by
  cases o with
  | none => rfl
  | some c => exact outside_of_isSpace (h c rfl)

/-- A word with spaces around it. -/
theorem whole_of_strip_eq (h : Python.strip cs = word) {front : List Char}
    (hfront : t.outside front.getLast? = true) : t.Whole word (front ++ cs) := by
  obtain ⟨blank, rest, heq, hblank, hrest⟩ := exists_strip cs
  rw [h] at heq
  refine ⟨front ++ blank, rest, by rw [heq, List.append_assoc], ?_, outside_of_forall fun c hc => hrest c
    (List.mem_of_head? hc)⟩
  rw [List.getLast?_append]
  cases hlast : blank.getLast? with
  | none => exact hfront
  | some c => exact outside_of_isSpace (hblank c (List.mem_of_getLast? hlast))

/-- A word of the stripped text is one of the text. -/
theorem Whole.of_strip (h : t.Whole word (Python.strip cs)) : t.Whole word cs := by
  obtain ⟨blank, blank', heq, hblank, hblank'⟩ := exists_strip cs
  obtain ⟨front, rest, hstrip, hfront, hrest⟩ := h
  rw [hstrip] at heq
  refine ⟨blank ++ front, rest ++ blank', by rw [heq]; simp, ?_, ?_⟩
  · rw [List.getLast?_append]
    cases hlast : front.getLast? with
    | none => exact outside_of_forall fun c hc => hblank c (List.mem_of_getLast? hc)
    | some c =>
      rw [hlast] at hfront
      exact hfront
  · rw [List.head?_append]
    cases hhead : rest.head? with
    | none => exact outside_of_forall fun c hc => hblank' c (List.mem_of_head? hc)
    | some c =>
      rw [hhead] at hrest
      exact hrest

/-- A word of a line is a word of the text. -/
theorem Whole.of_line {line text : List Char} (h : t.Whole word line) (hline : line ∈ bareLines text) :
    t.Whole word text := by
  obtain ⟨front, rest, rfl, hfront, hrest⟩ := h
  obtain ⟨before, after, rfl, hbefore, hafter⟩ := exists_of_mem_bareLines hline
  refine ⟨before ++ front, rest ++ after, by simp, ?_, ?_⟩
  · rw [List.getLast?_append]
    cases hlast : front.getLast? with
    | none => exact outside_of_forall fun c hc => isSpace_of_isLineBreak (hbefore c hc)
    | some c =>
      rw [hlast] at hfront
      exact hfront
  · rw [List.head?_append]
    cases hhead : rest.head? with
    | none => exact outside_of_forall fun c hc => isSpace_of_isLineBreak (hafter c hc)
    | some c =>
      rw [hhead] at hrest
      exact hrest

end Letters
end Python
end Fragma
