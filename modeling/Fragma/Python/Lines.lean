import Mathlib.Data.List.Forall2
import Mathlib.Data.List.GetD

/-!
# The lines of a text

`str.splitlines(keepends=True)` and the string form of `json.dumps`.  A line ends with one
of the line boundaries of the language, of which `\r\n` is a single one; the last line may
lack it.

* `splitLines`: the lines, with their ends.
* `Lines`: a list that can be the lines of a text; `lines_splitLines` and
  `splitLines_flatten`, by which it is exactly those.
* `Reworded`, `Lines.reworded`: lines may be changed in front of their ends.
* `jsonString`: a text as a JSON string in ASCII.
-/

namespace Fragma
namespace Python

/-- The characters that end a line. -/
def isLineBreak (c : Char) : Bool :=
  let n := c.toNat
  (10 ≤ n && n ≤ 13) || (28 ≤ n && n ≤ 30) || n = 0x85 || n = 0x2028 || n = 0x2029

/-- The lines of a text behind the start of a line. -/
def splitLinesFrom (line : List Char) : List Char → List (List Char)
  | [] => if line = [] then [] else [line]
  | '\r' :: '\n' :: cs => (line ++ ['\r', '\n']) :: splitLinesFrom [] cs
  | c :: cs =>
    if isLineBreak c then (line ++ [c]) :: splitLinesFrom [] cs
    else splitLinesFrom (line ++ [c]) cs

/-- `text.splitlines(keepends=True)`. -/
def splitLines (text : List Char) : List (List Char) := splitLinesFrom [] text

/-- A line without what ends it. -/
def cutTerminator (line : List Char) : List Char :=
  match line.reverse with
  | '\n' :: '\r' :: cs => cs.reverse
  | c :: cs => if isLineBreak c then cs.reverse else line
  | [] => []

/-- `text.splitlines()`. -/
def bareLines (text : List Char) : List (List Char) := (splitLines text).map cutTerminator

theorem flatten_splitLinesFrom (line cs : List Char) :
    (splitLinesFrom line cs).flatten = line ++ cs := by
  fun_induction splitLinesFrom line cs with
  | case1 => rfl
  | case2 line h => simp
  | case3 line cs ih => rw [List.flatten_cons, ih]; simp
  | case4 line c cs _ h ih => rw [List.flatten_cons, ih]; simp
  | case5 line c cs _ h ih => rw [ih]; simp

/-- The lines are the text. -/
@[simp] theorem flatten_splitLines (text : List Char) : (splitLines text).flatten = text :=
  flatten_splitLinesFrom [] text

/-! ## Lists of lines -/

/-- The end of a line. -/
def IsTerminator (term : List Char) : Prop :=
  term = ['\r', '\n'] ∨ ∃ c, isLineBreak c = true ∧ term = [c]

/-- No line ends here. -/
def Unbroken (cs : List Char) : Prop := ∀ c ∈ cs, isLineBreak c = false

/-- A list that can be the lines of a text. -/
inductive Lines : List (List Char) → Prop
  | nil : Lines []
  | last {body : List Char} (hne : body ≠ []) (hbody : Unbroken body) : Lines [body]
  | cons {body term : List Char} {rest : List (List Char)} (hbody : Unbroken body)
      (hterm : IsTerminator term) (hrest : Lines rest)
      (hcr : term = ['\r'] → rest.flatten.head? ≠ some '\n') : Lines ((body ++ term) :: rest)

theorem Unbroken.concat {cs : List Char} {c : Char} (h : Unbroken cs) (hc : isLineBreak c = false) :
    Unbroken (cs ++ [c]) := by
  intro d hd
  rcases List.mem_append.mp hd with hd | hd
  · exact h d hd
  · rw [List.mem_singleton.mp hd]
    exact hc

theorem lines_splitLinesFrom (line cs : List Char) (h : Unbroken line) :
    Lines (splitLinesFrom line cs) := by
  fun_induction splitLinesFrom line cs with
  | case1 => exact .nil
  | case2 line hne => exact .last hne h
  | case3 line cs ih => exact .cons h (.inl rfl) (ih (by simp [Unbroken])) (by simp)
  | case4 line c cs hpair hc ih =>
    refine .cons h (.inr ⟨c, hc, rfl⟩) (ih (by simp [Unbroken])) fun hterm => ?_
    obtain rfl : c = '\r' := by simpa using hterm
    rw [flatten_splitLinesFrom, List.nil_append]
    intro hhead
    obtain ⟨cs', rfl⟩ := List.head?_eq_some_iff.mp hhead
    exact hpair cs' rfl rfl
  | case5 line c cs _ hc ih => exact ih (h.concat (by simpa using hc))

/-- The lines of a text are a list of lines. -/
theorem lines_splitLines (text : List Char) : Lines (splitLines text) :=
  lines_splitLinesFrom [] text (by simp [Unbroken])

theorem splitLinesFrom_append {body : List Char} (hbody : Unbroken body) :
    ∀ line cs : List Char, splitLinesFrom line (body ++ cs) = splitLinesFrom (line ++ body) cs := by
  induction body with
  | nil => simp
  | cons c body ih =>
    intro line cs
    have hc : isLineBreak c = false := hbody c List.mem_cons_self
    have hcr : c ≠ '\r' := by
      rintro rfl
      exact absurd hc (by decide)
    rw [List.cons_append, splitLinesFrom.eq_3 line _ _ (fun _ h => absurd h hcr), if_neg (by simp [hc]),
      ih (fun d hd => hbody d (List.mem_cons_of_mem c hd))]
    simp

theorem splitLinesFrom_terminator {line term cs : List Char} (hterm : IsTerminator term)
    (hcr : term = ['\r'] → cs.head? ≠ some '\n') :
    splitLinesFrom line (term ++ cs) = (line ++ term) :: splitLinesFrom [] cs := by
  rcases hterm with rfl | ⟨c, hc, rfl⟩
  · rfl
  · have hpair : ∀ cs' : List Char, c = '\r' → cs = '\n' :: cs' → False := by
      rintro cs' rfl rfl
      exact hcr rfl rfl
    rw [List.singleton_append, splitLinesFrom.eq_3 line c cs hpair, if_pos hc]

theorem cutTerminator_append {body term : List Char} (hbody : Unbroken body)
    (hterm : IsTerminator term) : cutTerminator (body ++ term) = body := by
  rcases hterm with rfl | ⟨c, hc, rfl⟩
  · simp [cutTerminator]
  · unfold cutTerminator
    rw [List.reverse_append, List.reverse_singleton, List.singleton_append]
    split
    · next cs heq =>
      have hmem : '\r' ∈ body := by
        rw [← List.mem_reverse, (List.cons.inj heq).2]
        exact List.mem_cons_self
      exact absurd (hbody _ hmem) (by decide)
    · next d cs _ heq =>
      obtain ⟨rfl, rfl⟩ := List.cons.inj heq
      rw [if_pos hc, List.reverse_reverse]
    · next heq => exact absurd heq (List.cons_ne_nil _ _)

theorem cutTerminator_eq_self {body : List Char} (hbody : Unbroken body) :
    cutTerminator body = body := by
  unfold cutTerminator
  split
  · next cs heq =>
    have hmem : '\n' ∈ body := by
      rw [← List.mem_reverse, heq]
      exact List.mem_cons_self
    exact absurd (hbody _ hmem) (by decide)
  · next c cs _ heq =>
    have hmem : c ∈ body := by
      rw [← List.mem_reverse, heq]
      exact List.mem_cons_self
    rw [if_neg (by rw [hbody c hmem]; decide)]
  · next heq => exact (List.reverse_eq_nil_iff.mp heq).symm

theorem IsTerminator.head?_last? {term : List Char} (h : IsTerminator term) :
    term ≠ [] ∧ (∀ c ∈ term.head?, isLineBreak c = true) ∧
      ∀ c ∈ term.getLast?, isLineBreak c = true := by
  rcases h with rfl | ⟨c, hc, rfl⟩
  · simp [isLineBreak]
  · simp [hc]

theorem Lines.exists_of_mem {ls : List (List Char)} (h : Lines ls) {line : List Char}
    (hline : line ∈ ls.map cutTerminator) : ∃ front rest, ls.flatten = front ++ (line ++ rest) ∧
      (∀ c ∈ front.getLast?, isLineBreak c = true) ∧ ∀ c ∈ rest.head?, isLineBreak c = true := by
  induction h with
  | nil => exact absurd hline List.not_mem_nil
  | last hne hbody =>
    rw [List.map_singleton, List.mem_singleton, cutTerminator_eq_self hbody] at hline
    exact ⟨[], [], by simp [hline], by simp, by simp⟩
  | @cons body term rest hbody hterm _ _ ih =>
    obtain ⟨hne, hhead, hlast⟩ := hterm.head?_last?
    rw [List.map_cons, List.mem_cons, cutTerminator_append hbody hterm] at hline
    rcases hline with rfl | hline
    · refine ⟨[], term ++ rest.flatten, by simp, by simp, fun c hc => hhead c ?_⟩
      rwa [List.head?_append_of_ne_nil _ hne] at hc
    · obtain ⟨front, behind, heq, hfront, hbehind⟩ := ih hline
      refine ⟨body ++ term ++ front, behind, by simp [heq], fun c hc => ?_, hbehind⟩
      rw [List.getLast?_append] at hc
      cases hf : front.getLast? with
      | none =>
        rw [hf, Option.none_or, List.getLast?_append_of_ne_nil _ hne] at hc
        exact hlast c hc
      | some d =>
        rw [hf] at hc
        exact hfront c (hf ▸ hc)

/-- A line stands in its text between line ends. -/
theorem exists_of_mem_bareLines {text line : List Char} (h : line ∈ bareLines text) :
    ∃ front rest, text = front ++ (line ++ rest) ∧
      (∀ c ∈ front.getLast?, isLineBreak c = true) ∧ ∀ c ∈ rest.head?, isLineBreak c = true := by
  obtain ⟨front, rest, heq, h⟩ := (lines_splitLines text).exists_of_mem h
  rw [flatten_splitLines] at heq
  exact ⟨front, rest, heq, h⟩

/-- **A list of lines is the lines of its text.** -/
theorem splitLines_flatten {ls : List (List Char)} (h : Lines ls) : splitLines ls.flatten = ls := by
  unfold splitLines
  induction h with
  | nil => rfl
  | @last body hne hbody =>
    rw [List.flatten_cons, List.flatten_nil, splitLinesFrom_append hbody, List.nil_append,
      splitLinesFrom, if_neg hne]
  | @cons body term rest hbody hterm _ hcr ih =>
    rw [List.flatten_cons, List.append_assoc, splitLinesFrom_append hbody, List.nil_append,
      splitLinesFrom_terminator hterm hcr, ih]

/-! ## Changing lines in front of their ends -/

/-- The second line is the first one with another text in front of a character that ends
no line. -/
def Reworded (l l' : List Char) : Prop :=
  l' = l ∨ ∃ a a' c z, l = a ++ c :: z ∧ l' = a' ++ c :: z ∧ isLineBreak c = false ∧ Unbroken a' ∧
    l'.head? = l.head?

theorem Reworded.head? {l l' : List Char} (h : Reworded l l') : l'.head? = l.head? := by
  rcases h with rfl | ⟨a, a', c, z, -, -, -, -, hhead⟩
  · rfl
  · exact hhead

theorem head?_flatten_reworded {ls ls' : List (List Char)} (h : List.Forall₂ Reworded ls ls') :
    ls'.flatten.head? = ls.flatten.head? := by
  induction h with
  | nil => rfl
  | cons hl _ ih =>
    rw [List.flatten_cons, List.flatten_cons, List.head?_append, List.head?_append, hl.head?, ih]

theorem isLineBreak_of_mem_terminator {term : List Char} (h : IsTerminator term) {c : Char}
    (hc : c ∈ term) : isLineBreak c = true := by
  rcases h with rfl | ⟨d, hd, rfl⟩
  · simp only [List.mem_cons, List.not_mem_nil, or_false] at hc
    rcases hc with rfl | rfl <;> decide
  · rw [List.mem_singleton.mp hc]
    exact hd

/-- A character that ends no line stands in front of the end of its line. -/
theorem exists_of_append_terminator {body term a z : List Char} {c : Char} (hterm : IsTerminator term)
    (hc : isLineBreak c = false) (h : body ++ term = a ++ c :: z) :
    ∃ more, body = a ++ c :: more ∧ z = more ++ term := by
  have hout : c ∉ term := by
    intro hmem
    rw [isLineBreak_of_mem_terminator hterm hmem] at hc
    exact absurd hc (by simp)
  rcases List.append_eq_append_iff.mp h with ⟨more, rfl, hmore⟩ | ⟨more, rfl, hmore⟩
  · rw [hmore] at hout
    exact absurd (by simp) hout
  · cases more with
    | nil =>
      rw [List.nil_append] at hmore
      rw [← hmore] at hout
      exact absurd (by simp) hout
    | cons d more =>
      rw [List.cons_append, List.cons.injEq] at hmore
      obtain ⟨rfl, rfl⟩ := hmore
      exact ⟨more, rfl, rfl⟩

theorem Unbroken.replace {a a' z : List Char} {c : Char} (h : Unbroken (a ++ c :: z))
    (ha : Unbroken a') : Unbroken (a' ++ c :: z) := by
  intro d hd
  rcases List.mem_append.mp hd with hd | hd
  · exact ha d hd
  · exact h d (List.mem_append_right a hd)

/-- What stands in a line in front of a character that ends no line has no line end. -/
theorem Lines.unbroken {ls : List (List Char)} (h : Lines ls) {l a z : List Char} {c : Char}
    (hl : l ∈ ls) (heq : l = a ++ c :: z) (hc : isLineBreak c = false) : Unbroken a := by
  induction h with
  | nil => exact absurd hl (by simp)
  | last _ hbody =>
    rw [List.mem_singleton.mp hl] at heq
    exact fun d hd => hbody d (by rw [heq]; exact List.mem_append_left _ hd)
  | cons hbody hterm _ _ ih =>
    rcases List.mem_cons.mp hl with rfl | hl
    · obtain ⟨more, rfl, -⟩ := exists_of_append_terminator hterm hc heq
      exact fun d hd => hbody d (List.mem_append_left _ hd)
    · exact ih hl

/-- **Reworded lines are lines.** -/
theorem Lines.reworded {ls ls' : List (List Char)} (h : Lines ls)
    (hr : List.Forall₂ Reworded ls ls') : Lines ls' := by
  induction h generalizing ls' with
  | nil =>
    cases hr with
    | nil => exact .nil
  | @last body hne hbody =>
    cases hr with
    | cons hl hrest =>
    cases hrest with
    | nil =>
    rcases hl with rfl | ⟨a, a', c, z, rfl, rfl, -, ha, -⟩
    · exact .last hne hbody
    · exact .last (by simp) (hbody.replace ha)
  | @cons body term rest hbody hterm _ hcr ih =>
    cases hr with
    | @cons _ _ _ rest' hl hrest =>
    have hnext : term = ['\r'] → rest'.flatten.head? ≠ some '\n' := by
      rw [head?_flatten_reworded hrest]
      exact hcr
    rcases hl with rfl | ⟨a, a', c, z, heq, rfl, hc, ha, -⟩
    · exact .cons hbody hterm (ih hrest) hnext
    · obtain ⟨more, rfl, rfl⟩ := exists_of_append_terminator hterm hc heq
      rw [← List.cons_append, ← List.append_assoc]
      exact .cons (hbody.replace ha) hterm (ih hrest) hnext

/-! ## JSON strings -/

/-- The hexadecimal digit of a number below sixteen. -/
def hexDigit (n : ℕ) : Char := "0123456789abcdef".toList.getD n '0'

/-- `\uXXXX`. -/
def jsonUnit (n : ℕ) : List Char :=
  ['\\', 'u', hexDigit (n / 4096 % 16), hexDigit (n / 256 % 16), hexDigit (n / 16 % 16),
    hexDigit (n % 16)]

/-- A character inside a JSON string, in ASCII. -/
def jsonChar (c : Char) : List Char :=
  if c = '"' then ['\\', '"']
  else if c = '\\' then ['\\', '\\']
  else if c = '\n' then ['\\', 'n']
  else if c = '\r' then ['\\', 'r']
  else if c = '\t' then ['\\', 't']
  else if c.toNat = 12 then ['\\', 'f']
  else if c.toNat = 8 then ['\\', 'b']
  else if 32 ≤ c.toNat ∧ c.toNat ≤ 126 then [c]
  else if c.toNat < 65536 then jsonUnit c.toNat
  else jsonUnit (0xd800 + (c.toNat - 65536) / 1024) ++ jsonUnit (0xdc00 + (c.toNat - 65536) % 1024)

/-- `json.dumps(text)`. -/
def jsonString (text : List Char) : List Char := '"' :: (text.flatMap jsonChar ++ ['"'])

/-- What a character becomes: itself, when it is plain, or escapes. -/
inductive Escaped (c : Char) : List Char → Prop
  | plain (h : 32 ≤ c.toNat ∧ c.toNat ≤ 126) (hq : c ≠ '"') (hb : c ≠ '\\') : Escaped c [c]
  | pair {d : Char} (h : 32 ≤ d.toNat ∧ d.toNat ≤ 126) : Escaped c ['\\', d]
  | unit (n : ℕ) : Escaped c (jsonUnit n)
  | units (n k : ℕ) : Escaped c (jsonUnit n ++ jsonUnit k)

theorem escaped_jsonChar (c : Char) : Escaped c (jsonChar c) := by
  unfold jsonChar
  split_ifs with h1 h2 h3 h4 h5 h6 h7 h8 h9
  · exact .pair (by decide)
  · exact .pair (by decide)
  · exact .pair (by decide)
  · exact .pair (by decide)
  · exact .pair (by decide)
  · exact .pair (by decide)
  · exact .pair (by decide)
  · exact .plain h8 h1 h2
  · exact .unit _
  · exact .units _ _

theorem hexDigit_mem (n : ℕ) : hexDigit (n % 16) ∈ "0123456789abcdef".toList := by
  have h : n % 16 < "0123456789abcdef".toList.length := Nat.mod_lt n (by decide)
  unfold hexDigit
  rw [List.getD_eq_getElem _ _ h]
  exact List.getElem_mem h

/-- A hexadecimal digit is a plain character. -/
theorem hexDigit_plain (n : ℕ) : hexDigit (n % 16) ≠ '"' ∧ hexDigit (n % 16) ≠ '\\' ∧
    isLineBreak (hexDigit (n % 16)) = false := by
  have hmem := hexDigit_mem n
  rw [show "0123456789abcdef".toList =
    ['0', '1', '2', '3', '4', '5', '6', '7', '8', '9', 'a', 'b', 'c', 'd', 'e', 'f'] from rfl] at hmem
  simp only [List.mem_cons, List.not_mem_nil, or_false] at hmem
  rcases hmem with h | h | h | h | h | h | h | h | h | h | h | h | h | h | h | h <;>
    rw [h] <;> decide

theorem isLineBreak_of_ascii {c : Char} (h : 32 ≤ c.toNat ∧ c.toNat ≤ 126) :
    isLineBreak c = false := by
  unfold isLineBreak
  simp only [Bool.or_eq_false_iff, Bool.and_eq_false_iff, decide_eq_false_iff_not]
  omega

theorem unbroken_jsonUnit (n : ℕ) : Unbroken (jsonUnit n) := by
  intro c hc
  simp only [jsonUnit, List.mem_cons, List.not_mem_nil, or_false] at hc
  rcases hc with rfl | rfl | rfl | rfl | rfl | rfl
  · decide
  · decide
  all_goals exact (hexDigit_plain _).2.2

/-- A JSON string is on one line. -/
theorem Escaped.unbroken {c : Char} {s : List Char} (h : Escaped c s) : Unbroken s := by
  cases h with
  | plain h _ _ =>
    intro d hd
    rw [List.mem_singleton.mp hd]
    exact isLineBreak_of_ascii h
  | pair h =>
    intro d hd
    simp only [List.mem_cons, List.not_mem_nil, or_false] at hd
    rcases hd with rfl | rfl
    · decide
    · exact isLineBreak_of_ascii h
  | unit n => exact unbroken_jsonUnit n
  | units n k =>
    intro d hd
    rcases List.mem_append.mp hd with hd | hd
    · exact unbroken_jsonUnit n d hd
    · exact unbroken_jsonUnit k d hd

end Python
end Fragma
