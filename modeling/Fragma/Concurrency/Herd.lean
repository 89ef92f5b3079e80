import Mathlib
import Fragma.Python.Exn
import Fragma.Python.Joined
import Fragma.Python.Numerals
import Fragma.Python.Repeat

/-!
# The output of herd

`parse_herd_output` of `fragma/concurrency_c3_lkmm.py`.  One regular expression matches a whole output;
the state lines and the flags are then split once more, by `str.splitlines`, which knows more line ends
than the newlines of the expression.

* `Groups`, `output`: what the expression captures, and the expression.
* `evaluate`, `parseHerdOutput`: the record of a match, and the function.
* `mem_output_iff`, `Groups.Shaped.text_inj`: a text is the writing of at most one match.
* `Renders`, `parseHerdOutput_renders_iff`: the texts of a record, and when they are read back.
* `parseHerdOutput_accepts`: what the accepted texts are.
-/

namespace Fragma
namespace Concurrency
namespace Herd

open Python Pattern

/-! ## The expression -/

def lkmmError (message : String) : Exn := ⟨.valueError, message⟩

/-- `\S` -/
def isMark (c : Char) : Bool := !isSpace c

/-- `[^\n]` -/
def inLine (c : Char) : Bool := c ≠ '\n'

/-- `[0-9a-f]` -/
def isHexDigit (c : Char) : Bool := "0123456789abcdef".toList.contains c

/-- The characters of a fixed text. -/
def mark (text : String) : List Char := text.toList

/-- The groups of a match.  The state lines stand without their newlines, the flags without `Flag ` too,
and `blank` says that a second newline follows the hash. -/
@[ext] structure Groups where
  test : List Char
  disposition : List Char
  states : List Char
  stateLines : List (List Char)
  marker : List Char
  positive : List Char
  negative : List Char
  flags : List (List Char)
  condition : List Char
  observationTest : List Char
  observation : List Char
  observationPositive : List Char
  observationNegative : List Char
  timeTest : List Char
  seconds : List Char
  hash : List Char
  blank : Bool

/-- `[^\n]+\n` behind a fixed text. -/
def line (front : String) : Pattern (List Char) := do
  lit front
  let text ← greedy1 inLine
  lit "\n"
  pure text

/-- `[0-9]+(?:\.[0-9]+)?` -/
def decimal : Pattern (List Char) := do
  let whole ← greedy1 isDigit
  let part ← optional (do
    lit "."
    greedy1 isDigit)
  pure (whole ++ part.elim [] ('.' :: ·))

/-- `Ok|No` -/
def marker : Pattern (List Char) :=
  orElse (do lit "Ok"; pure (mark "Ok")) (do lit "No"; pure (mark "No"))

/-- `Test …`, the name and what is done to the states. -/
def testLine : Pattern (List Char × List Char) := do
  lit "Test "
  let test ← greedy1 isMark
  lit " "
  let disposition ← greedy1 isMark
  lit "\n"
  pure (test, disposition)

/-- `States …` -/
def statesLine : Pattern (List Char) := do
  lit "States "
  let states ← greedy1 isDigit
  lit "\n"
  pure states

/-- `Ok|No` and `Witnesses` -/
def markerLines : Pattern (List Char) := do
  let taken ← marker
  lit "\nWitnesses\n"
  pure taken

/-- `Positive: … Negative: …` -/
def witnessLine : Pattern (List Char × List Char) := do
  lit "Positive: "
  let positive ← greedy1 isDigit
  lit " Negative: "
  let negative ← greedy1 isDigit
  lit "\n"
  pure (positive, negative)

/-- `Observation …` -/
def observationLine : Pattern ((List Char × List Char) × List Char × List Char) := do
  lit "Observation "
  let test ← greedy1 isMark
  lit " "
  let observation ← greedy1 isMark
  lit " "
  let positive ← greedy1 isDigit
  lit " "
  let negative ← greedy1 isDigit
  lit "\n"
  pure ((test, observation), positive, negative)

/-- `Time …` -/
def timeLine : Pattern (List Char × List Char) := do
  lit "Time "
  let test ← greedy1 isMark
  lit " "
  let seconds ← decimal
  lit "\n"
  pure (test, seconds)

/-- `Hash=…`, and a newline more if there is one. -/
def hashLine : Pattern (List Char × Bool) := do
  lit "Hash="
  let hash ← exactly isHexDigit 32
  lit "\n"
  let blank ← optional (lit "\n")
  pure (hash, blank.isSome)

/-- `_OUTPUT` -/
def output : Pattern Groups := do
  let (test, disposition) ← testLine
  let states ← statesLine
  let stateLines ← manyReluctant1 (line "")
  let marker ← markerLines
  let (positive, negative) ← witnessLine
  let flags ← many (line "Flag ")
  let condition ← line "Condition "
  let ((observationTest, observation), observationPositive, observationNegative) ← observationLine
  let (timeTest, seconds) ← timeLine
  let (hash, blank) ← hashLine
  pure ⟨test, disposition, states, stateLines, marker, positive, negative, flags, condition,
    observationTest, observation, observationPositive, observationNegative, timeTest, seconds, hash,
    blank⟩

/-! ## The function -/

/-- `text.rstrip("\n")` -/
def stripNewlines (text : List Char) : List Char := text.rdropWhile (· = '\n')

/-- `groups["state_lines"].rstrip("\n").splitlines()` -/
def Groups.stateValues (w : Groups) : List (List Char) := bareLines (stripNewlines (unlines w.stateLines))

/-- `line.removeprefix("Flag ")` -/
def removeFlag (line : List Char) : List Char :=
  if mark "Flag " <+: line then line.drop (mark "Flag ").length else line

/-- The flags of the record. -/
def Groups.flagValues (w : Groups) : List (List Char) :=
  (bareLines (unlines (w.flags.map (mark "Flag " ++ ·)))).map removeFlag

/-- The record of an output.  `F` are the floats. -/
@[ext] structure HerdOutput (F : Type) where
  test : List Char
  disposition : List Char
  states : ℕ
  stateValues : List (List Char)
  marker : List Char
  positive : ℕ
  negative : ℕ
  flags : List (List Char)
  condition : List Char
  observation : List Char
  hash : List Char
  seconds : F

/-- `int(text)` of a numeral. -/
def intOf (text : List Char) : Except Exn ℕ :=
  orRaise (natOf asciiDigit text) (lkmmError "Exceeds the limit (4300 digits) for integer string conversion")

def inconsistent : Exn := lkmmError "herd7 output is internally inconsistent"

section Floats

-- `float(text)` of a decimal numeral, and `math.isfinite`
variable {F : Type} (float : List Char → F) (isFinite : F → Bool)

/-- The record of a match. -/
def evaluate (w : Groups) : Except Exn (HerdOutput F) := do
  let states ← intOf w.states
  let positive ← intOf w.positive
  let negative ← intOf w.negative
  raiseIf (states ≠ w.stateValues.length ∨ ¬ w.stateValues.Nodup ∨ w.observationTest ≠ w.test ∨
    w.timeTest ≠ w.test) inconsistent
  let observationPositive ← intOf w.observationPositive
  raiseIf (observationPositive ≠ positive) inconsistent
  let observationNegative ← intOf w.observationNegative
  raiseIf (observationNegative ≠ negative ∨ isFinite (float w.seconds) = false) inconsistent
  pure ⟨w.test, w.disposition, states, w.stateValues, w.marker, positive, negative, w.flagValues,
    w.condition, w.observation, w.hash, float w.seconds⟩

/-- `parse_herd_output(value)` -/
def parseHerdOutput (value : List Char) : Except Exn (HerdOutput F) := do
  let w ← orRaise (fullmatch output value) (lkmmError "herd7 output does not match the pinned format")
  evaluate float isFinite w

end Floats

/-! ## What the expression matches -/

/-- A text that `\S+` matches. -/
def Token (cs : List Char) : Prop := cs ≠ [] ∧ ∀ c ∈ cs, isSpace c = false

/-- A text that `[^\n]+` matches. -/
def Line (cs : List Char) : Prop := cs ≠ [] ∧ '\n' ∉ cs

/-- A text that `[0-9]+(?:\.[0-9]+)?` matches. -/
def Decimal (cs : List Char) : Prop :=
  ∃ whole, Numeral whole ∧ (cs = whole ∨ ∃ part, Numeral part ∧ cs = whole ++ '.' :: part)

/-- A text that `[0-9a-f]{32}` matches. -/
def Hash (cs : List Char) : Prop := cs.length = 32 ∧ ∀ c ∈ cs, isHexDigit c = true

instance decidableToken (cs : List Char) : Decidable (Token cs) :=
  decidable_of_iff (cs ≠ [] ∧ cs.all isMark = true) (by simp [Token, isMark])

instance decidableLine (cs : List Char) : Decidable (Line cs) := inferInstanceAs (Decidable (_ ∧ _))

instance decidableHash (cs : List Char) : Decidable (Hash cs) :=
  decidable_of_iff (cs.length = 32 ∧ cs.all isHexDigit = true) (by simp [Hash])

/-- The groups have the forms of the expression, except that lines may be empty. -/
structure Groups.Shaped (w : Groups) : Prop where
  test : Token w.test
  disposition : Token w.disposition
  states : Numeral w.states
  stateLines : ∀ l ∈ w.stateLines, '\n' ∉ l
  marker : w.marker = mark "Ok" ∨ w.marker = mark "No"
  positive : Numeral w.positive
  negative : Numeral w.negative
  flags : ∀ f ∈ w.flags, '\n' ∉ f
  condition : Line w.condition
  observationTest : Token w.observationTest
  observation : Token w.observation
  observationPositive : Numeral w.observationPositive
  observationNegative : Numeral w.observationNegative
  timeTest : Token w.timeTest
  seconds : Decimal w.seconds
  hash : Hash w.hash

/-- The groups have the forms of the expression. -/
structure Groups.WellFormed (w : Groups) : Prop extends w.Shaped where
  stateLines_ne_nil : w.stateLines ≠ []
  stateLine_ne_nil : ∀ l ∈ w.stateLines, l ≠ []
  flag_ne_nil : ∀ f ∈ w.flags, f ≠ []

/-- `Test …` -/
def testText (p : List Char × List Char) : List Char := mark "Test " ++ (p.1 ++ ' ' :: p.2)

/-- `States …` -/
def statesText (states : List Char) : List Char := mark "States " ++ states

/-- `Positive: … Negative: …` -/
def witnessText (p : List Char × List Char) : List Char :=
  mark "Positive: " ++ (p.1 ++ (mark " Negative: " ++ p.2))

/-- `Observation …` -/
def observationText (p : (List Char × List Char) × List Char × List Char) : List Char :=
  mark "Observation " ++ (p.1.1 ++ ' ' :: (p.1.2 ++ ' ' :: (p.2.1 ++ ' ' :: p.2.2)))

/-- `Time …` -/
def timeText (p : List Char × List Char) : List Char := mark "Time " ++ (p.1 ++ ' ' :: p.2)

/-- The lines of an output. -/
def Groups.lines (w : Groups) : List (List Char) :=
  testText (w.test, w.disposition) :: statesText w.states :: (w.stateLines ++
    ([w.marker, mark "Witnesses", witnessText (w.positive, w.negative)] ++
      (w.flags.map (mark "Flag " ++ ·) ++ [mark "Condition " ++ w.condition,
        observationText ((w.observationTest, w.observation), w.observationPositive, w.observationNegative),
        timeText (w.timeTest, w.seconds), mark "Hash=" ++ w.hash])))

/-- The text of an output. -/
def Groups.text (w : Groups) : List Char := unlines w.lines ++ if w.blank then ['\n'] else []

/-- The text is the output of these groups. -/
def Written (w : Groups) (text : List Char) : Prop := w.WellFormed ∧ text = w.text

section Matching

variable {cs rest taken text : List Char} {w : Groups}

@[simp] theorem mem_mark_iff :
    (taken, rest) ∈ greedy1 isMark cs ↔ cs = taken ++ rest ∧ Token taken := by
  rw [mem_greedy1_iff]
  simp [Token, isMark]

@[simp] theorem mem_digits_iff :
    (taken, rest) ∈ greedy1 isDigit cs ↔ cs = taken ++ rest ∧ Numeral taken := mem_greedy1_iff

@[simp] theorem mem_inLine_iff :
    (taken, rest) ∈ greedy1 inLine cs ↔ cs = taken ++ rest ∧ Line taken := by
  rw [mem_greedy1_iff]
  have hall : (∀ c ∈ taken, inLine c = true) ↔ '\n' ∉ taken := by
    simp only [inLine, decide_eq_true_eq]
    exact ⟨fun h hmem => h _ hmem rfl, fun h c hc heq => h (heq ▸ hc)⟩
  rw [hall, Line]

theorem mark_blank : mark " " = [' '] := rfl

theorem mark_newline : mark "\n" = ['\n'] := rfl

theorem mem_lit_mark_iff {front : String} {u : Unit} :
    (u, rest) ∈ lit front cs ↔ cs = mark front ++ rest := mem_lit_iff

theorem spells_line (front : String) :
    Spells (line front) (fun l => mark front ++ (l ++ ['\n'])) Line := by
  intro l cs rest
  simp only [line, mem_bind_iff, mem_lit_mark_iff, mem_inLine_iff, mem_pure_iff, mark_newline]
  constructor
  · rintro ⟨u, _, rfl, t, _, ⟨rfl, ht⟩, u', _, rfl, rfl, rfl⟩
    exact ⟨by simp, ht⟩
  · rintro ⟨rfl, hl⟩
    exact ⟨(), _, by simp, l, _, ⟨rfl, hl⟩, (), rest, rfl, rfl, rfl⟩

@[simp] theorem mem_line_iff {front : String} :
    (taken, rest) ∈ line front cs ↔ cs = mark front ++ (taken ++ '\n' :: rest) ∧ Line taken := by
  rw [spells_line front]
  simp

@[simp] theorem mem_decimal_iff : (taken, rest) ∈ decimal cs ↔ cs = taken ++ rest ∧ Decimal taken := by
  simp only [decimal, mem_bind_iff, mem_digits_iff, mem_optional_iff, mem_lit_iff, mem_pure_iff]
  constructor
  · rintro ⟨whole, _, ⟨rfl, hwhole⟩, o, _, ⟨part, ⟨u, _, rfl, rfl, hpart⟩, rfl⟩ | ⟨rfl, rfl⟩, rfl, rfl⟩
    · exact ⟨by simp, whole, hwhole, .inr ⟨part, hpart, rfl⟩⟩
    · exact ⟨by simp, whole, hwhole, .inl (by simp)⟩
  · rintro ⟨rfl, whole, hwhole, rfl | ⟨part, hpart, rfl⟩⟩
    · exact ⟨_, _, ⟨rfl, hwhole⟩, none, _, .inr ⟨rfl, rfl⟩, by simp⟩
    · exact ⟨whole, '.' :: (part ++ rest), ⟨by simp, hwhole⟩, some part, rest,
        .inl ⟨part, ⟨(), part ++ rest, rfl, rfl, hpart⟩, rfl⟩, rfl, rfl⟩

@[simp] theorem mem_marker_iff : (taken, rest) ∈ marker cs ↔
    cs = taken ++ rest ∧ (taken = mark "Ok" ∨ taken = mark "No") := by
  simp only [marker, mem_orElse_iff, mem_bind_iff, mem_lit_mark_iff, mem_pure_iff]
  constructor
  · rintro (⟨u, _, rfl, rfl, rfl⟩ | ⟨u, _, rfl, rfl, rfl⟩)
    · exact ⟨rfl, .inl rfl⟩
    · exact ⟨rfl, .inr rfl⟩
  · rintro ⟨rfl, rfl | rfl⟩
    · exact .inl ⟨(), _, rfl, rfl, rfl⟩
    · exact .inr ⟨(), _, rfl, rfl, rfl⟩

theorem mem_stateLines_iff {ls : List (List Char)} : (ls, rest) ∈ manyReluctant1 (line "") cs ↔
    ls ≠ [] ∧ cs = unlines ls ++ rest ∧ ∀ l ∈ ls, Line l :=
  mem_manyReluctant1_iff (spells_line "") (by simp)

theorem mem_flags_iff {fs : List (List Char)} : (fs, rest) ∈ many (line "Flag ") cs ↔
    cs = unlines (fs.map (mark "Flag " ++ ·)) ++ rest ∧ ∀ f ∈ fs, Line f := by
  rw [mem_many_iff (spells_line "Flag ") (by simp), unlines, List.flatMap_map]
  simp

theorem mem_testLine_iff {p : List Char × List Char} : (p, rest) ∈ testLine cs ↔
    cs = testText p ++ '\n' :: rest ∧ Token p.1 ∧ Token p.2 := by
  simp only [testLine, mem_bind_iff, mem_lit_mark_iff, mem_mark_iff, mem_pure_iff, testText, mark_blank,
    mark_newline, List.append_assoc, List.cons_append, List.nil_append]
  constructor
  · rintro ⟨_, _, rfl, t, _, ⟨rfl, ht⟩, _, _, rfl, d, _, ⟨rfl, hd⟩, _, _, rfl, rfl, rfl⟩
    exact ⟨rfl, ht, hd⟩
  · rintro ⟨rfl, ht, hd⟩
    exact ⟨(), _, rfl, p.1, _, ⟨rfl, ht⟩, (), _, rfl, p.2, _, ⟨rfl, hd⟩, (), rest, rfl, rfl, rfl⟩

theorem mem_statesLine_iff : (taken, rest) ∈ statesLine cs ↔
    cs = statesText taken ++ '\n' :: rest ∧ Numeral taken := by
  simp only [statesLine, mem_bind_iff, mem_lit_mark_iff, mem_digits_iff, mem_pure_iff, statesText,
    mark_newline, List.append_assoc, List.cons_append, List.nil_append]
  constructor
  · rintro ⟨_, _, rfl, t, _, ⟨rfl, ht⟩, _, _, rfl, rfl, rfl⟩
    exact ⟨rfl, ht⟩
  · rintro ⟨rfl, ht⟩
    exact ⟨(), _, rfl, taken, _, ⟨rfl, ht⟩, (), rest, rfl, rfl, rfl⟩

theorem mem_markerLines_iff : (taken, rest) ∈ markerLines cs ↔
    cs = unlines [taken, mark "Witnesses"] ++ rest ∧ (taken = mark "Ok" ∨ taken = mark "No") := by
  have htext : mark "\nWitnesses\n" = '\n' :: (mark "Witnesses" ++ ['\n']) := by decide
  simp only [markerLines, mem_bind_iff, mem_lit_mark_iff, mem_marker_iff, mem_pure_iff, unlines, htext,
    List.flatMap_cons, List.flatMap_nil, List.append_assoc, List.cons_append, List.nil_append]
  constructor
  · rintro ⟨t, _, ⟨rfl, ht⟩, _, _, rfl, rfl, rfl⟩
    exact ⟨rfl, ht⟩
  · rintro ⟨rfl, ht⟩
    exact ⟨taken, _, ⟨rfl, ht⟩, (), rest, rfl, rfl, rfl⟩

theorem mem_witnessLine_iff {p : List Char × List Char} : (p, rest) ∈ witnessLine cs ↔
    cs = witnessText p ++ '\n' :: rest ∧ Numeral p.1 ∧ Numeral p.2 := by
  simp only [witnessLine, mem_bind_iff, mem_lit_mark_iff, mem_digits_iff, mem_pure_iff, witnessText,
    mark_newline, List.append_assoc, List.cons_append, List.nil_append]
  constructor
  · rintro ⟨_, _, rfl, t, _, ⟨rfl, ht⟩, _, _, rfl, d, _, ⟨rfl, hd⟩, _, _, rfl, rfl, rfl⟩
    exact ⟨rfl, ht, hd⟩
  · rintro ⟨rfl, ht, hd⟩
    exact ⟨(), _, rfl, p.1, _, ⟨rfl, ht⟩, (), _, rfl, p.2, _, ⟨rfl, hd⟩, (), rest, rfl, rfl, rfl⟩

theorem mem_observationLine_iff {p : (List Char × List Char) × List Char × List Char} :
    (p, rest) ∈ observationLine cs ↔ cs = observationText p ++ '\n' :: rest ∧
      (Token p.1.1 ∧ Token p.1.2) ∧ Numeral p.2.1 ∧ Numeral p.2.2 := by
  simp only [observationLine, mem_bind_iff, mem_lit_mark_iff, mem_mark_iff, mem_digits_iff, mem_pure_iff,
    observationText, mark_blank, mark_newline, List.append_assoc, List.cons_append, List.nil_append]
  constructor
  · rintro ⟨_, _, rfl, t, _, ⟨rfl, ht⟩, _, _, rfl, o, _, ⟨rfl, ho⟩, _, _, rfl, m, _, ⟨rfl, hm⟩, _, _, rfl,
      n, _, ⟨rfl, hn⟩, _, _, rfl, rfl, rfl⟩
    exact ⟨rfl, ⟨ht, ho⟩, hm, hn⟩
  · rintro ⟨rfl, ⟨ht, ho⟩, hm, hn⟩
    exact ⟨(), _, rfl, p.1.1, _, ⟨rfl, ht⟩, (), _, rfl, p.1.2, _, ⟨rfl, ho⟩, (), _, rfl, p.2.1, _, ⟨rfl, hm⟩,
      (), _, rfl, p.2.2, _, ⟨rfl, hn⟩, (), rest, rfl, rfl, rfl⟩

theorem mem_timeLine_iff {p : List Char × List Char} : (p, rest) ∈ timeLine cs ↔
    cs = timeText p ++ '\n' :: rest ∧ Token p.1 ∧ Decimal p.2 := by
  simp only [timeLine, mem_bind_iff, mem_lit_mark_iff, mem_mark_iff, mem_decimal_iff, mem_pure_iff, timeText,
    mark_blank, mark_newline, List.append_assoc, List.cons_append, List.nil_append]
  constructor
  · rintro ⟨_, _, rfl, t, _, ⟨rfl, ht⟩, _, _, rfl, d, _, ⟨rfl, hd⟩, _, _, rfl, rfl, rfl⟩
    exact ⟨rfl, ht, hd⟩
  · rintro ⟨rfl, ht, hd⟩
    exact ⟨(), _, rfl, p.1, _, ⟨rfl, ht⟩, (), _, rfl, p.2, _, ⟨rfl, hd⟩, (), rest, rfl, rfl, rfl⟩

theorem mem_hashLine_iff {p : List Char × Bool} : (p, []) ∈ hashLine cs ↔
    cs = mark "Hash=" ++ (p.1 ++ '\n' :: if p.2 then ['\n'] else []) ∧ Hash p.1 := by
  simp only [hashLine, mem_bind_iff, mem_lit_mark_iff, mem_exactly_iff, mem_optional_iff, mem_pure_iff,
    mark_newline, List.cons_append, List.nil_append]
  constructor
  · rintro ⟨_, _, rfl, h, _, ⟨rfl, hh⟩, _, _, rfl, blank, _, ⟨_, rfl, rfl⟩ | ⟨rfl, rfl⟩, rfl, rfl⟩
    · exact ⟨rfl, hh⟩
    · exact ⟨rfl, hh⟩
  · rintro ⟨rfl, hh⟩
    obtain ⟨h, blank⟩ := p
    cases blank with
    | false => exact ⟨(), _, rfl, h, _, ⟨rfl, hh⟩, (), [], rfl, none, [], .inr ⟨rfl, rfl⟩, rfl, rfl⟩
    | true =>
      exact ⟨(), _, rfl, h, _, ⟨rfl, hh⟩, (), ['\n'], rfl, some (), [], .inl ⟨(), rfl, rfl⟩, rfl, rfl⟩

/-- **The expression matches the texts of well-formed groups.** -/
theorem mem_output_iff : (w, []) ∈ output text ↔ Written w text := by
  simp only [output, mem_bind_iff, mem_pure_iff, mem_testLine_iff, mem_statesLine_iff, mem_stateLines_iff,
    mem_markerLines_iff, mem_witnessLine_iff, mem_flags_iff, mem_line_iff, mem_observationLine_iff,
    mem_timeLine_iff]
  constructor
  · rintro ⟨⟨test, disposition⟩, _, ⟨rfl, htest, hdisposition⟩, states, _, ⟨rfl, hstates⟩, stateLines, _,
      ⟨hne, rfl, hlines⟩, marker, _, ⟨rfl, hmarker⟩, ⟨positive, negative⟩, _, ⟨rfl, hpositive, hnegative⟩,
      flags, _, ⟨rfl, hflags⟩, condition, _, ⟨rfl, hcondition⟩, ⟨⟨observationTest, observation⟩,
      observationPositive, observationNegative⟩, _, ⟨rfl, ⟨hobservationTest, hobservation⟩,
      hobservationPositive, hobservationNegative⟩, ⟨timeTest, seconds⟩, _, ⟨rfl, htimeTest, hseconds⟩,
      ⟨hash, blank⟩, _, hhashLine, rfl, rfl⟩
    obtain ⟨rfl, hhash⟩ := mem_hashLine_iff.mp hhashLine
    refine ⟨⟨⟨htest, hdisposition, hstates, fun l hl => (hlines l hl).2, hmarker, hpositive, hnegative,
      fun f hf => (hflags f hf).2, hcondition, hobservationTest, hobservation, hobservationPositive,
      hobservationNegative, htimeTest, hseconds, hhash⟩, hne, fun l hl => (hlines l hl).1,
      fun f hf => (hflags f hf).1⟩, ?_⟩
    simp only [Groups.text, Groups.lines, unlines_append, unlines_cons, unlines_nil, List.append_assoc,
      List.cons_append, List.nil_append]
  · rintro ⟨hw, rfl⟩
    refine ⟨(w.test, w.disposition), _, ⟨?_, hw.test, hw.disposition⟩, w.states, _, ⟨rfl, hw.states⟩,
      w.stateLines, _, ⟨hw.stateLines_ne_nil, rfl, fun l hl => ⟨hw.stateLine_ne_nil l hl, hw.stateLines l hl⟩⟩,
      w.marker, _, ⟨rfl, hw.marker⟩, (w.positive, w.negative), _, ⟨rfl, hw.positive, hw.negative⟩, w.flags,
      _, ⟨rfl, fun f hf => ⟨hw.flag_ne_nil f hf, hw.flags f hf⟩⟩, w.condition, _, ⟨rfl, hw.condition⟩,
      ((w.observationTest, w.observation), w.observationPositive, w.observationNegative), _,
      ⟨rfl, ⟨hw.observationTest, hw.observation⟩, hw.observationPositive, hw.observationNegative⟩,
      (w.timeTest, w.seconds), _, ⟨rfl, hw.timeTest, hw.seconds⟩, (w.hash, w.blank), [],
      mem_hashLine_iff.mpr ⟨rfl, hw.hash⟩, rfl, rfl⟩
    simp only [Groups.text, Groups.lines, unlines_append, unlines_cons, unlines_nil, List.append_assoc,
      List.cons_append, List.nil_append]

end Matching

/-! ## One reading only -/

section Reading

theorem Token.notMem_blank {cs : List Char} (h : Token cs) : ' ' ∉ cs := fun hmem =>
  absurd (h.2 ' ' hmem) (by decide)

theorem Token.notMem_newline {cs : List Char} (h : Token cs) : '\n' ∉ cs := fun hmem =>
  absurd (h.2 '\n' hmem) (by decide)

theorem notMem_of_numeral {cs : List Char} {c : Char} (h : Numeral cs) (hc : isDigit c = false) :
    c ∉ cs := fun hmem => by
  rw [h.2 c hmem] at hc
  exact absurd hc (by decide)

theorem Decimal.notMem_newline {cs : List Char} (h : Decimal cs) : '\n' ∉ cs := by
  obtain ⟨whole, hwhole, rfl | ⟨part, hpart, rfl⟩⟩ := h
  · exact notMem_of_numeral hwhole (by decide)
  · simp [notMem_of_numeral hwhole (c := '\n') (by decide),
      notMem_of_numeral hpart (c := '\n') (by decide)]

variable {w w' : Groups}

theorem Groups.Shaped.newline_notMem (h : w.Shaped) : ∀ l ∈ w.lines, '\n' ∉ l := by
  have hdigits : ∀ {cs : List Char}, Numeral cs → '\n' ∉ cs := fun hcs =>
    notMem_of_numeral hcs (by decide)
  have hmarker : '\n' ∉ w.marker := by
    rcases h.marker with hm | hm
    · rw [hm]; decide
    · rw [hm]; decide
  have hhash : '\n' ∉ w.hash := fun hmem => absurd (h.hash.2 '\n' hmem) (by decide)
  have hflags : ∀ f ∈ w.flags, '\n' ∉ mark "Flag " ++ f := by
    intro f hf hmem
    rcases List.mem_append.mp hmem with hmem | hmem
    · exact absurd hmem (by decide)
    · exact h.flags f hf hmem
  intro l hl
  simp only [Groups.lines, List.mem_append, List.mem_cons, List.not_mem_nil, or_false,
    List.mem_map] at hl
  rcases hl with rfl | rfl | hl | (rfl | rfl | rfl) | ⟨f, hf, rfl⟩ | rfl | rfl | rfl | rfl
  · simp [testText, show '\n' ∉ mark "Test " by decide, h.test.notMem_newline,
      h.disposition.notMem_newline]
  · simp [statesText, show '\n' ∉ mark "States " by decide, hdigits h.states]
  · exact h.stateLines l hl
  · exact hmarker
  · decide
  · simp [witnessText, show '\n' ∉ mark "Positive: " by decide, show '\n' ∉ mark " Negative: " by decide,
      hdigits h.positive, hdigits h.negative]
  · exact hflags f hf
  · simp [show '\n' ∉ mark "Condition " by decide, h.condition.2]
  · simp [observationText, show '\n' ∉ mark "Observation " by decide, h.observationTest.notMem_newline,
      h.observation.notMem_newline, hdigits h.observationPositive, hdigits h.observationNegative]
  · simp [timeText, show '\n' ∉ mark "Time " by decide, h.timeTest.notMem_newline,
      h.seconds.notMem_newline]
  · simp [show '\n' ∉ mark "Hash=" by decide, hhash]

theorem not_flag_witnessText (p : List Char × List Char) : ¬ mark "Flag " <+: witnessText p := by
  rintro ⟨t, ht⟩
  have hhead : some 'F' = some 'P' := congrArg List.head? ht
  exact absurd hhead (by decide)

theorem testText_inj {p p' : List Char × List Char} (h : testText p = testText p') (hp : Token p.1)
    (hp' : Token p'.1) : p.1 = p'.1 ∧ p.2 = p'.2 :=
  append_cons_inj_of_notMem (List.append_cancel_left h) hp.notMem_blank hp'.notMem_blank

theorem timeText_inj {p p' : List Char × List Char} (h : timeText p = timeText p') (hp : Token p.1)
    (hp' : Token p'.1) : p.1 = p'.1 ∧ p.2 = p'.2 :=
  append_cons_inj_of_notMem (List.append_cancel_left h) hp.notMem_blank hp'.notMem_blank

theorem witnessText_inj {p p' : List Char × List Char} (h : witnessText p = witnessText p')
    (hp : Numeral p.1) (hp' : Numeral p'.1) : p.1 = p'.1 ∧ p.2 = p'.2 := by
  have hnegative : mark " Negative: " = ' ' :: mark "Negative: " := by decide
  have hcut := List.append_cancel_left h
  rw [hnegative, List.cons_append, List.cons_append] at hcut
  obtain ⟨hfront, hback⟩ := append_cons_inj_of_notMem hcut (notMem_of_numeral hp (by decide))
    (notMem_of_numeral hp' (by decide))
  exact ⟨hfront, List.append_cancel_left hback⟩

theorem observationText_inj {p p' : (List Char × List Char) × List Char × List Char}
    (h : observationText p = observationText p') (hp : Token p.1.1 ∧ Token p.1.2 ∧ Numeral p.2.1)
    (hp' : Token p'.1.1 ∧ Token p'.1.2 ∧ Numeral p'.2.1) :
    p.1.1 = p'.1.1 ∧ p.1.2 = p'.1.2 ∧ p.2.1 = p'.2.1 ∧ p.2.2 = p'.2.2 := by
  obtain ⟨htest, h⟩ := append_cons_inj_of_notMem (List.append_cancel_left h) hp.1.notMem_blank hp'.1.notMem_blank
  obtain ⟨hobservation, h⟩ := append_cons_inj_of_notMem h hp.2.1.notMem_blank hp'.2.1.notMem_blank
  exact ⟨htest, hobservation, append_cons_inj_of_notMem h (notMem_of_numeral hp.2.2 (by decide))
    (notMem_of_numeral hp'.2.2 (by decide))⟩

/-- The lines tell the groups. -/
theorem Groups.Shaped.lines_inj (h : w.Shaped) (h' : w'.Shaped) (hlines : w.lines = w'.lines)
    (hblank : w.blank = w'.blank) : w = w' := by
  obtain ⟨htestLine, htail⟩ := List.cons.inj hlines
  obtain ⟨hstatesLine, hrest⟩ := List.cons.inj htail
  have hparts : (w.stateLines ++ [w.marker, mark "Witnesses"]) ++ (witnessText (w.positive, w.negative) ::
        w.flags.map (mark "Flag " ++ ·)) ++ [mark "Condition " ++ w.condition,
        observationText ((w.observationTest, w.observation), w.observationPositive, w.observationNegative),
        timeText (w.timeTest, w.seconds), mark "Hash=" ++ w.hash] =
      (w'.stateLines ++ [w'.marker, mark "Witnesses"]) ++ (witnessText (w'.positive, w'.negative) ::
        w'.flags.map (mark "Flag " ++ ·)) ++ [mark "Condition " ++ w'.condition,
        observationText ((w'.observationTest, w'.observation), w'.observationPositive,
          w'.observationNegative),
        timeText (w'.timeTest, w'.seconds), mark "Hash=" ++ w'.hash] := by
    simpa only [List.append_assoc, List.cons_append, List.nil_append] using hrest
  -- the last four lines, the flags in front of them, and what stands in front of the flags
  obtain ⟨hfront, hlast⟩ := List.append_inj' hparts rfl
  have hflag : ∀ fs : List (List Char), ∀ l ∈ fs.map (mark "Flag " ++ ·), mark "Flag " <+: l := by
    intro fs l hl
    obtain ⟨f, -, rfl⟩ := List.mem_map.mp hl
    exact List.prefix_append _ f
  obtain ⟨hmarked, hwitness, hflags⟩ := cons_append_inj hfront (hflag w.flags) (hflag w'.flags)
    (not_flag_witnessText _) (not_flag_witnessText _)
  obtain ⟨hstateLines, hmarker⟩ := List.append_inj' hmarked rfl
  simp only [List.cons.injEq, List.append_cancel_left_eq, and_true] at hlast hmarker
  obtain ⟨hcondition, hobservationLine, htimeLine, hhash⟩ := hlast
  obtain ⟨htest, hdisposition⟩ := testText_inj htestLine h.test h'.test
  obtain ⟨hpositive, hnegative⟩ := witnessText_inj hwitness h.positive h'.positive
  obtain ⟨hobservationTest, hobservation, hobservationPositive, hobservationNegative⟩ :=
    observationText_inj hobservationLine ⟨h.observationTest, h.observation, h.observationPositive⟩
      ⟨h'.observationTest, h'.observation, h'.observationPositive⟩
  obtain ⟨htimeTest, hseconds⟩ := timeText_inj htimeLine h.timeTest h'.timeTest
  exact Groups.ext htest hdisposition (List.append_cancel_left hstatesLine) hstateLines hmarker hpositive
    hnegative (List.map_injective_iff.mpr (List.append_right_injective _) hflags) hcondition
    hobservationTest hobservation hobservationPositive hobservationNegative htimeTest hseconds hhash hblank

theorem Groups.text_eq (w : Groups) : w.text = unlines (w.lines ++ if w.blank then [[]] else []) := by
  rw [Groups.text, unlines_append]
  cases w.blank <;> rfl

theorem Groups.getLast?_lines (w : Groups) : w.lines.getLast? = some (mark "Hash=" ++ w.hash) := by
  simp [Groups.lines, List.getLast?_cons, List.getLast?_append]

/-- **A text is the output of one group of texts at most.** -/
theorem Groups.Shaped.text_inj (h : w.Shaped) (h' : w'.Shaped) (htext : w.text = w'.text) : w = w' := by
  have hne : ∀ hash : List Char, mark "Hash=" ++ hash ≠ [] := fun hash heq =>
    absurd (List.append_eq_nil_iff.mp heq).1 (by decide)
  have hfree : ∀ v : Groups, v.Shaped →
      ∀ l ∈ v.lines ++ if v.blank then [[]] else [], '\n' ∉ l := by
    intro v hv l hl
    rcases List.mem_append.mp hl with hl | hl
    · exact hv.newline_notMem l hl
    · split at hl
      · rw [List.mem_singleton.mp hl]
        exact List.not_mem_nil
      · exact absurd hl List.not_mem_nil
  rw [w.text_eq, w'.text_eq] at htext
  have hlines := unlines_inj (hfree w h) (hfree w' h') htext
  have hlast := congrArg List.getLast? hlines
  cases hb : w.blank with
  | false =>
    cases hb' : w'.blank with
    | false => exact h.lines_inj h' (by simpa [hb, hb'] using hlines) (by rw [hb, hb'])
    | true => simp [hb, hb', w.getLast?_lines, hne] at hlast
  | true =>
    cases hb' : w'.blank with
    | false => simp [hb, hb', w'.getLast?_lines, (hne _).symm] at hlast
    | true => exact h.lines_inj h' (by simpa [hb, hb'] using hlines) (by rw [hb, hb'])

end Reading

/-! ## Lines with and without further ends -/

theorem stripNewlines_unlines (front : List (List Char)) {l : List Char} (hne : l ≠ []) (hl : '\n' ∉ l) :
    stripNewlines (unlines (front ++ [l])) = unlines front ++ l := by
  have htext : unlines (front ++ [l]) = (unlines front ++ l) ++ ['\n'] := by
    rw [unlines_append, unlines_cons, unlines_nil, List.append_assoc]
  rw [stripNewlines, htext, List.rdropWhile_concat_pos _ _ _ (by decide), List.rdropWhile_eq_self_iff]
  intro h hlast
  rw [List.getLast_append_of_right_ne_nil _ _ hne, decide_eq_true_eq] at hlast
  exact hl (hlast ▸ List.getLast_mem hne)

/-- The values are the state lines, where these hold no other line end. -/
theorem Groups.WellFormed.stateValues_eq_iff {w : Groups} (h : w.WellFormed) :
    w.stateValues = w.stateLines ↔ ∀ l ∈ w.stateLines, Unbroken l := by
  constructor
  · intro heq l hl
    rw [← heq] at hl
    exact unbroken_of_mem_bareLines hl
  · intro hlines
    obtain ⟨front, l, hsplit⟩ := (List.eq_nil_or_concat w.stateLines).resolve_left h.stateLines_ne_nil
    have hmem : l ∈ w.stateLines := by rw [hsplit]; simp
    have hfront : ∀ k ∈ front, Unbroken k := fun k hk => hlines k (by rw [hsplit]; simp [hk])
    rw [Groups.stateValues, hsplit, List.concat_eq_append, stripNewlines_unlines front (h.stateLine_ne_nil l hmem)
      (h.stateLines l hmem), bareLines_unlines hfront, bareLines_last (hlines l hmem)
      (h.stateLine_ne_nil l hmem)]

theorem removeFlag_mark (f : List Char) : removeFlag (mark "Flag " ++ f) = f := by
  rw [removeFlag, if_pos (List.prefix_append _ f), List.drop_left]

theorem Groups.flagValues_eq_iff (w : Groups) :
    w.flagValues = w.flags ↔ ∀ f ∈ w.flags, Unbroken f := by
  constructor
  · intro heq f hf
    rw [← heq, Groups.flagValues, List.mem_map] at hf
    obtain ⟨l, hl, rfl⟩ := hf
    have hbody := unbroken_of_mem_bareLines hl
    rw [removeFlag]
    split
    · exact fun c hc => hbody c (List.mem_of_mem_drop hc)
    · exact hbody
  · intro hflags
    have hmarked : ∀ l ∈ w.flags.map (mark "Flag " ++ ·), Unbroken l := by
      intro l hl
      obtain ⟨f, hf, rfl⟩ := List.mem_map.mp hl
      intro c hc
      rcases List.mem_append.mp hc with hc | hc
      · have hplain : ((mark "Flag ").all fun c => !isLineBreak c) = true := by decide
        simpa using List.all_eq_true.mp hplain c hc
      · exact hflags f hf c hc
    have hlines := bareLines_unlines hmarked []
    rw [List.append_nil] at hlines
    rw [Groups.flagValues, hlines, bareLines, splitLines, splitLinesFrom, if_pos rfl, List.map_nil,
      List.append_nil, List.map_map]
    exact (List.map_congr_left fun f _ => removeFlag_mark f).trans (List.map_id' _)
/-! ## Records -/

section Records

variable {F : Type} (float : List Char → F) (isFinite : F → Bool)

/-- The groups tell the record, and agree with themselves. -/
structure Reads (w : Groups) (r : HerdOutput F) : Prop where
  test : r.test = w.test
  disposition : r.disposition = w.disposition
  states : natOf asciiDigit w.states = some r.states
  stateValues : r.stateValues = w.stateValues
  marker : r.marker = w.marker
  positive : natOf asciiDigit w.positive = some r.positive
  negative : natOf asciiDigit w.negative = some r.negative
  flags : r.flags = w.flagValues
  condition : r.condition = w.condition
  observation : r.observation = w.observation
  hash : r.hash = w.hash
  seconds : r.seconds = float w.seconds
  counted : r.states = r.stateValues.length
  distinct : r.stateValues.Nodup
  observationTest : w.observationTest = r.test
  timeTest : w.timeTest = r.test
  observationPositive : natOf asciiDigit w.observationPositive = some r.positive
  observationNegative : natOf asciiDigit w.observationNegative = some r.negative
  finite : isFinite r.seconds = true

variable {float isFinite} {w : Groups} {r : HerdOutput F} {text : List Char}

theorem evaluate_eq_ok_iff : evaluate float isFinite w = .ok r ↔ Reads float isFinite w r := by
  constructor
  · intro h
    obtain ⟨states, hstates, h⟩ := bind_eq_ok_iff.mp h
    obtain ⟨positive, hpositive, h⟩ := bind_eq_ok_iff.mp h
    obtain ⟨negative, hnegative, h⟩ := bind_eq_ok_iff.mp h
    obtain ⟨_, hcheck, h⟩ := bind_eq_ok_iff.mp h
    obtain ⟨observationPositive, hobservationPositive, h⟩ := bind_eq_ok_iff.mp h
    obtain ⟨_, hagree, h⟩ := bind_eq_ok_iff.mp h
    obtain ⟨observationNegative, hobservationNegative, h⟩ := bind_eq_ok_iff.mp h
    obtain ⟨_, hfinite, hlast⟩ := bind_eq_ok_iff.mp h
    simp only [raiseIf_eq_ok_iff, not_or, not_not, intOf, orRaise_eq_ok_iff] at *
    obtain ⟨hcounted, hdistinct, htest, htime⟩ := hcheck
    obtain ⟨rfl, hfinite⟩ := hfinite
    subst hagree
    rw [← Except.ok.inj hlast]
    exact ⟨rfl, rfl, hstates, rfl, rfl, hpositive, hnegative, rfl, rfl, rfl, rfl, rfl, hcounted, hdistinct,
      htest, htime, hobservationPositive, hobservationNegative, by simpa using hfinite⟩
  · intro h
    have hcheck : ¬ (r.states ≠ w.stateValues.length ∨ ¬ w.stateValues.Nodup ∨ w.observationTest ≠ w.test ∨
        w.timeTest ≠ w.test) := by
      have hcounted := h.counted
      have hdistinct := h.distinct
      rw [h.stateValues] at hcounted hdistinct
      simp [hcounted, hdistinct, h.observationTest, h.timeTest, h.test]
    have hfinite : ¬ (r.negative ≠ r.negative ∨ isFinite (float w.seconds) = false) := by
      simp [← h.seconds, h.finite]
    refine bind_eq_ok_iff.mpr ⟨_, orRaise_eq_ok_iff.mpr h.states, ?_⟩
    refine bind_eq_ok_iff.mpr ⟨_, orRaise_eq_ok_iff.mpr h.positive, ?_⟩
    refine bind_eq_ok_iff.mpr ⟨_, orRaise_eq_ok_iff.mpr h.negative, ?_⟩
    refine bind_eq_ok_iff.mpr ⟨(), raiseIf_eq_ok_iff.mpr hcheck, ?_⟩
    refine bind_eq_ok_iff.mpr ⟨_, orRaise_eq_ok_iff.mpr h.observationPositive, ?_⟩
    refine bind_eq_ok_iff.mpr ⟨(), raiseIf_eq_ok_iff.mpr (not_not.mpr rfl), ?_⟩
    refine bind_eq_ok_iff.mpr ⟨_, orRaise_eq_ok_iff.mpr h.observationNegative, ?_⟩
    refine bind_eq_ok_iff.mpr ⟨(), raiseIf_eq_ok_iff.mpr hfinite, congrArg Except.ok ?_⟩
    exact HerdOutput.ext h.test.symm h.disposition.symm rfl h.stateValues.symm h.marker.symm rfl rfl
      h.flags.symm h.condition.symm h.observation.symm h.hash.symm h.seconds.symm

/-- **What the parser returns.** -/
theorem parseHerdOutput_eq_ok_iff : parseHerdOutput float isFinite text = .ok r ↔
    ∃ w, Written w text ∧ Reads float isFinite w r := by
  rw [parseHerdOutput, bind_eq_ok_iff]
  simp only [orRaise_eq_ok_iff, evaluate_eq_ok_iff]
  constructor
  · rintro ⟨w, hmatch, hreads⟩
    exact ⟨w, mem_output_iff.mp (mem_of_fullmatch hmatch), hreads⟩
  · rintro ⟨w, hw, hreads⟩
    refine ⟨w, fullmatch_eq_some (mem_output_iff.mpr hw) fun v hv => ?_, hreads⟩
    have hv := mem_output_iff.mp hv
    exact hv.1.toShaped.text_inj hw.1.toShaped (hv.2.symm.trans hw.2)

/-! ## Texts of records -/

variable (float isFinite)

/-- The groups spell the record: a line for each value and each flag, and numerals of its numbers. -/
structure Spelled (w : Groups) (r : HerdOutput F) : Prop where
  test : w.test = r.test
  disposition : w.disposition = r.disposition
  states : Numeral w.states ∧ natOf asciiDigit w.states = some r.states
  stateLines : w.stateLines = r.stateValues
  marker : w.marker = r.marker
  positive : Numeral w.positive ∧ natOf asciiDigit w.positive = some r.positive
  negative : Numeral w.negative ∧ natOf asciiDigit w.negative = some r.negative
  flags : w.flags = r.flags
  condition : w.condition = r.condition
  observationTest : w.observationTest = r.test
  observation : w.observation = r.observation
  observationPositive : Numeral w.observationPositive ∧
    natOf asciiDigit w.observationPositive = some r.positive
  observationNegative : Numeral w.observationNegative ∧
    natOf asciiDigit w.observationNegative = some r.negative
  timeTest : w.timeTest = r.test
  seconds : Decimal w.seconds ∧ float w.seconds = r.seconds
  hash : w.hash = r.hash

/-- The text is the record, up to how its numbers are spelled and to a blank line at the end. -/
def Renders (text : List Char) (r : HerdOutput F) : Prop := ∃ w, Spelled float w r ∧ text = w.text

/-- A line of a record: not empty, and without a line end of any kind. -/
def SingleLine (l : List Char) : Prop := l ≠ [] ∧ Unbroken l

instance decidableSingleLine (l : List Char) : Decidable (SingleLine l) :=
  decidable_of_iff (l ≠ [] ∧ l.all (fun c => !isLineBreak c) = true) (by simp [SingleLine, Unbroken])

/-- The record can be the result of a run. -/
structure HerdOutput.Valid (r : HerdOutput F) : Prop where
  test : Token r.test
  disposition : Token r.disposition
  stateValues_ne_nil : r.stateValues ≠ []
  stateValues : ∀ l ∈ r.stateValues, SingleLine l
  marker : r.marker = mark "Ok" ∨ r.marker = mark "No"
  flags : ∀ f ∈ r.flags, SingleLine f
  condition : Line r.condition
  observation : Token r.observation
  hash : Hash r.hash
  counted : r.states = r.stateValues.length
  distinct : r.stateValues.Nodup
  finite : isFinite r.seconds = true

variable {float isFinite}

theorem unbroken_of_mem_flagValues {f : List Char} (h : f ∈ w.flagValues) : Unbroken f := by
  obtain ⟨l, hl, rfl⟩ := List.mem_map.mp h
  have hbody := unbroken_of_mem_bareLines hl
  rw [removeFlag]
  split
  · exact fun c hc => hbody c (List.mem_of_mem_drop hc)
  · exact hbody

/-- What spells a record that some groups tell has the forms of the expression. -/
theorem Spelled.shaped {v : Groups} (h : Spelled float w r) (hv : v.Shaped)
    (hreads : Reads float isFinite v r) : w.Shaped where
  test := by rw [h.test, hreads.test]; exact hv.test
  disposition := by rw [h.disposition, hreads.disposition]; exact hv.disposition
  states := h.states.1
  stateLines l hl := by
    rw [h.stateLines, hreads.stateValues] at hl
    exact newline_notMem (unbroken_of_mem_bareLines hl)
  marker := by rw [h.marker, hreads.marker]; exact hv.marker
  positive := h.positive.1
  negative := h.negative.1
  flags f hf := by
    rw [h.flags, hreads.flags] at hf
    exact newline_notMem (unbroken_of_mem_flagValues hf)
  condition := by rw [h.condition, hreads.condition]; exact hv.condition
  observationTest := by rw [h.observationTest, hreads.test]; exact hv.test
  observation := by rw [h.observation, hreads.observation]; exact hv.observation
  observationPositive := h.observationPositive.1
  observationNegative := h.observationNegative.1
  timeTest := by rw [h.timeTest, hreads.test]; exact hv.test
  seconds := h.seconds.1
  hash := by rw [h.hash, hreads.hash]; exact hv.hash

/-- What spells a record, and tells it, holds no line end in its lines. -/
theorem Spelled.unbroken (h : Spelled float w r) (hw : w.WellFormed) (hreads : Reads float isFinite w r) :
    (∀ l ∈ w.stateLines, Unbroken l) ∧ ∀ f ∈ w.flags, Unbroken f :=
  ⟨hw.stateValues_eq_iff.mp (hreads.stateValues.symm.trans h.stateLines.symm),
    w.flagValues_eq_iff.mp (hreads.flags.symm.trans h.flags.symm)⟩

theorem Spelled.wellFormed (h : Spelled float w r) (hr : r.Valid isFinite) : w.WellFormed where
  test := h.test ▸ hr.test
  disposition := h.disposition ▸ hr.disposition
  states := h.states.1
  stateLines l hl := newline_notMem (hr.stateValues l (h.stateLines ▸ hl)).2
  marker := h.marker ▸ hr.marker
  positive := h.positive.1
  negative := h.negative.1
  flags f hf := newline_notMem (hr.flags f (h.flags ▸ hf)).2
  condition := h.condition ▸ hr.condition
  observationTest := h.observationTest ▸ hr.test
  observation := h.observation ▸ hr.observation
  observationPositive := h.observationPositive.1
  observationNegative := h.observationNegative.1
  timeTest := h.timeTest ▸ hr.test
  seconds := h.seconds.1
  hash := h.hash ▸ hr.hash
  stateLines_ne_nil := h.stateLines ▸ hr.stateValues_ne_nil
  stateLine_ne_nil l hl := (hr.stateValues l (h.stateLines ▸ hl)).1
  flag_ne_nil f hf := (hr.flags f (h.flags ▸ hf)).1

theorem Spelled.reads (h : Spelled float w r) (hr : r.Valid isFinite) : Reads float isFinite w r where
  test := h.test.symm
  disposition := h.disposition.symm
  states := h.states.2
  stateValues := by
    rw [(h.wellFormed hr).stateValues_eq_iff.mpr fun l hl => (hr.stateValues l (h.stateLines ▸ hl)).2,
      h.stateLines]
  marker := h.marker.symm
  positive := h.positive.2
  negative := h.negative.2
  flags := by
    rw [w.flagValues_eq_iff.mpr fun f hf => (hr.flags f (h.flags ▸ hf)).2, h.flags]
  condition := h.condition.symm
  observation := h.observation.symm
  hash := h.hash.symm
  seconds := h.seconds.2.symm
  counted := hr.counted
  distinct := hr.distinct
  observationTest := h.observationTest
  timeTest := h.timeTest
  observationPositive := h.observationPositive.2
  observationNegative := h.observationNegative.2
  finite := hr.finite

/-- The text of a record is read back. -/
theorem Renders.parse (h : Renders float text r) (hr : r.Valid isFinite) :
    parseHerdOutput float isFinite text = .ok r := by
  obtain ⟨w, hw, rfl⟩ := h
  exact parseHerdOutput_eq_ok_iff.mpr ⟨w, ⟨hw.wellFormed hr, rfl⟩, hw.reads hr⟩

/-- **A record is read back from its text exactly when it can be the result of a run.** -/
theorem parseHerdOutput_renders_iff (h : Renders float text r) :
    parseHerdOutput float isFinite text = .ok r ↔ r.Valid isFinite := by
  refine ⟨fun hparse => ?_, h.parse⟩
  obtain ⟨w, hw, rfl⟩ := h
  obtain ⟨v, hv, hreads⟩ := parseHerdOutput_eq_ok_iff.mp hparse
  obtain rfl := (hw.shaped hv.1.toShaped hreads).text_inj hv.1.toShaped hv.2
  obtain ⟨hstates, hflags⟩ := hw.unbroken hv.1 hreads
  exact
    { test := hreads.test ▸ hv.1.test
      disposition := hreads.disposition ▸ hv.1.disposition
      stateValues_ne_nil := hw.stateLines ▸ hv.1.stateLines_ne_nil
      stateValues := fun l hl =>
        have hl : l ∈ w.stateLines := hw.stateLines ▸ hl
        ⟨hv.1.stateLine_ne_nil l hl, hstates l hl⟩
      marker := hreads.marker ▸ hv.1.marker
      flags := fun f hf =>
        have hf : f ∈ w.flags := hw.flags ▸ hf
        ⟨hv.1.flag_ne_nil f hf, hflags f hf⟩
      condition := hreads.condition ▸ hv.1.condition
      observation := hreads.observation ▸ hv.1.observation
      hash := hreads.hash ▸ hv.1.hash
      counted := hreads.counted
      distinct := hreads.distinct
      finite := hreads.finite }

theorem Reads.spelled (h : Reads float isFinite w r) (hw : w.WellFormed)
    (hstates : ∀ l ∈ w.stateLines, Unbroken l) (hflags : ∀ f ∈ w.flags, Unbroken f) :
    Spelled float w r where
  test := h.test.symm
  disposition := h.disposition.symm
  states := ⟨hw.states, h.states⟩
  stateLines := by rw [h.stateValues, hw.stateValues_eq_iff.mpr hstates]
  marker := h.marker.symm
  positive := ⟨hw.positive, h.positive⟩
  negative := ⟨hw.negative, h.negative⟩
  flags := by rw [h.flags, w.flagValues_eq_iff.mpr hflags]
  condition := h.condition.symm
  observationTest := h.observationTest
  observation := h.observation.symm
  observationPositive := ⟨hw.observationPositive, h.observationPositive⟩
  observationNegative := ⟨hw.observationNegative, h.observationNegative⟩
  timeTest := h.timeTest
  seconds := ⟨hw.seconds, h.seconds.symm⟩
  hash := h.hash.symm

/-- **What is accepted has one reading**, which names the test and the witnesses twice over and whose
values are distinct and counted.  It is the text of the record it gives, unless a state line or a flag
holds a line end that is no newline. -/
theorem parseHerdOutput_accepts (h : parseHerdOutput float isFinite text = .ok r) :
    ∃ w, Written w text ∧ (∀ v, Written v text → v = w) ∧ Reads float isFinite w r ∧
      (Renders float text r ↔ ∀ l ∈ w.stateLines ++ w.flags, Unbroken l) := by
  obtain ⟨w, hw, hreads⟩ := parseHerdOutput_eq_ok_iff.mp h
  have hunique : ∀ v, v.Shaped → text = v.text → v = w := fun v hv htext =>
    hv.text_inj hw.1.toShaped (htext.symm.trans hw.2)
  refine ⟨w, hw, fun v hv => hunique v hv.1.toShaped hv.2, hreads, ?_⟩
  rw [List.forall_mem_append]
  constructor
  · rintro ⟨v, hv, htext⟩
    obtain rfl := hunique v (hv.shaped hw.1.toShaped hreads) htext
    exact hv.unbroken hw.1 hreads
  · rintro ⟨hstates, hflags⟩
    exact ⟨w, hreads.spelled hw.1 hstates hflags, hw.2⟩

end Records

/-! ## A text for each record -/

section Records

variable {F : Type} {float : List Char → F} {r : HerdOutput F} {seconds : List Char}

/-- The groups of a record, with its numbers in plain digits. -/
def HerdOutput.groups (r : HerdOutput F) (seconds : List Char) : Groups where
  test := r.test
  disposition := r.disposition
  states := Nat.toDigits 10 r.states
  stateLines := r.stateValues
  marker := r.marker
  positive := Nat.toDigits 10 r.positive
  negative := Nat.toDigits 10 r.negative
  flags := r.flags
  condition := r.condition
  observationTest := r.test
  observation := r.observation
  observationPositive := Nat.toDigits 10 r.positive
  observationNegative := Nat.toDigits 10 r.negative
  timeTest := r.test
  seconds := seconds
  hash := r.hash
  blank := false

/-- A record has a text, as long as `int` takes its numbers. -/
theorem HerdOutput.renders (hseconds : Decimal seconds) (hfloat : float seconds = r.seconds)
    (hdigits : ∀ n ∈ [r.states, r.positive, r.negative], (Nat.toDigits 10 n).length ≤ maxDigits) :
    Renders float (r.groups seconds).text r := by
  have hnumeral : ∀ n ∈ [r.states, r.positive, r.negative], Numeral (Nat.toDigits 10 n) ∧
      natOf asciiDigit (Nat.toDigits 10 n) = some n := fun n hn =>
    ⟨numeral_toDigits n, natOf_toDigits_iff.mpr ⟨rfl, hdigits n hn⟩⟩
  refine ⟨r.groups seconds, ?_, rfl⟩
  exact
    { test := rfl
      disposition := rfl
      states := hnumeral _ (by simp)
      stateLines := rfl
      marker := rfl
      positive := hnumeral _ (by simp)
      negative := hnumeral _ (by simp)
      flags := rfl
      condition := rfl
      observationTest := rfl
      observation := rfl
      observationPositive := hnumeral _ (by simp)
      observationNegative := hnumeral _ (by simp)
      timeTest := rfl
      seconds := ⟨hseconds, hfloat⟩
      hash := rfl }

/-- The value of a decimal numeral. -/
def decimalValue (cs : List Char) : ℚ :=
  let part := (cs.dropWhile (· ≠ '.')).drop 1
  Nat.ofDigitChars 10 (cs.takeWhile (· ≠ '.')) 0 + Nat.ofDigitChars 10 part 0 / 10 ^ part.length

/-- The record of a run that saw two states, and a flag. -/
def exampleOutput : HerdOutput ℚ where
  test := ['M', 'P']
  disposition := ['A', 'l', 'l', 'o', 'w', 'e', 'd']
  states := 2
  stateValues := [['x', '=', '0', ';'], ['O', 'k']]
  marker := ['N', 'o']
  positive := 0
  negative := 12
  flags := [['F', 'l', 'a', 'g', ' ', 'r', 'a', 'c', 'e']]
  condition := ['e', 'x', 'i', 's', 't', 's']
  observation := ['N', 'e', 'v', 'e', 'r']
  hash := List.replicate 32 'a'
  seconds := 1 / 2

theorem exampleOutput_renders :
    Renders decimalValue (exampleOutput.groups ['0', '.', '5']).text exampleOutput :=
  HerdOutput.renders ⟨['0'], by decide, .inr ⟨['5'], by decide, rfl⟩⟩ (by decide +kernel)
    (by decide +kernel)

theorem exampleOutput_valid : exampleOutput.Valid fun _ => true where
  test := by decide
  disposition := by decide
  stateValues_ne_nil := by decide
  stateValues := by decide
  marker := by decide
  flags := by decide
  condition := by decide
  observation := by decide
  hash := by decide
  counted := rfl
  distinct := by decide
  finite := rfl

/-- A state that looks like a marker, and a flag that names a flag, are read back. -/
theorem parseHerdOutput_renders_iff_example :
    parseHerdOutput decimalValue (fun _ => true) (exampleOutput.groups ['0', '.', '5']).text =
      .ok exampleOutput :=
  (parseHerdOutput_renders_iff exampleOutput_renders).mpr exampleOutput_valid

theorem parseHerdOutput_accepts_example :
    ∃ w, Written w (exampleOutput.groups ['0', '.', '5']).text ∧
      (∀ v, Written v (exampleOutput.groups ['0', '.', '5']).text → v = w) ∧
      Reads decimalValue (fun _ => true) w exampleOutput ∧
      (Renders decimalValue (exampleOutput.groups ['0', '.', '5']).text exampleOutput ↔
        ∀ l ∈ w.stateLines ++ w.flags, Unbroken l) :=
  parseHerdOutput_accepts (exampleOutput_renders.parse exampleOutput_valid)

end Records

end Herd
end Concurrency
end Fragma
