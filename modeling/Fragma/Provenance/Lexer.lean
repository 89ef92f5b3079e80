import Mathlib.Data.List.Infix
import Mathlib.Data.String.Basic
import Fragma.Scan.Machine

/-!
# The preprocessing-token lexer

`fragma/provenance.py`, `_lex` and `tokenize`.  The lexer compares C sources: it
splices lines, drops comments and white space, and keeps the preprocessing tokens
together with three markers that say where a directive starts, where it ends, and
where the name of a macro is directly followed by its parameter list.

One turn of the loop is cut in two.  `scan` looks at the text in front of the
lexer and says what stands there, in the order in which the loop asks; `advance`
says what that does to the tokens and to the state.  `lexMachine` puts the two
together, and `lex` runs it after the checks and rewritings that come first.

* `normalise`, `splice`: line endings and backslash-newline pairs.
* `closeComment`, `headerBody`, `literalBody`, `wordAt`, `punctuatorAt`: the
  pieces of `scan`, each with the equation that puts the text together again.
* `scan_text`: what is scanned and what is left is the text.
* `LexState.advance`, `lexMachine`, `lex`, `tokenize`.
-/

namespace Fragma
namespace Provenance

/-- A text is the list of its characters. -/
abbrev Text := List Char

/-- Texts are compared character by character. -/
scoped instance lawfulBEq_text : LawfulBEq Text := inferInstance

/-! ## Tokens -/

/-- What a token is: ordinary code, part of a directive, or a marker. -/
inductive Kind where
  | c
  | pp
  | boundary
  deriving DecidableEq, Repr

/-- A token with its place in the spliced text. -/
structure Token where
  value : Text
  kind : Kind
  line : ℕ
  start : ℕ
  stop : ℕ
  deriving DecidableEq, Repr

/-- The marker in front of a directive. -/
def ppStart : Text := "<pp-start>".toList

/-- The marker behind a directive. -/
def ppEnd : Text := "<pp-end>".toList

/-- The marker between a macro name and the parenthesis that directly follows
it. -/
def macroFunction : Text := "<macro-function>".toList

/-- What is wrong at the place the lexer stands. -/
inductive ScanError where
  | unterminatedComment
  | preprocessorDigraph
  | strayMarker
  | unterminatedHeader
  | newlineInLiteral
  | unterminatedLiteral
  | emptyCharacter
  | unsupportedCharacter (c : Char)
  | digraph
  deriving DecidableEq, Repr

/-- The errors of the lexer; those found at a place name its line. -/
inductive LexError where
  | nulByte
  | trigraph
  | located (reason : ScanError) (line : ℕ)
  | emptySource
  deriving DecidableEq, Repr

/-! ## Before the loop -/

/-- `source.replace("\r\n", "\n").replace("\r", "\n")`. -/
def normalise : Text → Text
  | '\r' :: '\n' :: cs => '\n' :: normalise cs
  | '\r' :: cs => '\n' :: normalise cs
  | c :: cs => c :: normalise cs
  | [] => []

/-- `re.sub(r"\\\n", "", source)`: one pass, so a pair that only the removal of
another one brings together stays. -/
def splice : Text → Text
  | '\\' :: '\n' :: cs => splice cs
  | c :: cs => c :: splice cs
  | [] => []

/-- The last characters of a trigraph. -/
def trigraphEnds : Text := ['=', '/', '\'', '(', ')', '!', '<', '>', '-']

/-- `re.search(r"\?\?[=/\'()!<>-]", source)`. -/
def hasTrigraph : Text → Bool
  | '?' :: '?' :: c :: cs => c ∈ trigraphEnds || hasTrigraph ('?' :: c :: cs)
  | _ :: cs => hasTrigraph cs
  | [] => false

/-! ## What stands in front of the lexer -/

/-- One unit of the text: white space, a comment, the mark of a directive, or a
token. -/
inductive Lexeme where
  | blank (c : Char)
  | newline
  | lineComment (text : Text)
  | blockComment (body : Text)
  | directiveMark
  | header (body : Text)
  | literal (text : Text)
  | word (text : Text)
  | punctuator (text : Text)
  deriving DecidableEq, Repr

/-- The characters a unit is written with. -/
def Lexeme.text : Lexeme → Text
  | .blank c => [c]
  | .newline => ['\n']
  | .lineComment text => text
  | .blockComment body => '/' :: '*' :: (body ++ ['*', '/'])
  | .directiveMark => ['#']
  | .header body => '<' :: (body ++ ['>'])
  | .literal text => text
  | .word text => text
  | .punctuator text => text

/-- White space inside a line. -/
def isBlank (c : Char) : Bool := c ∈ [' ', '\t', '\x0b', '\x0c']

/-- The body of a block comment and what follows its first `*/`. -/
def closeComment : Text → Option (Text × Text)
  | '*' :: '/' :: cs => some ([], cs)
  | c :: cs => (closeComment cs).map fun p => (c :: p.1, p.2)
  | [] => none

/-- The body of a header name and what follows its first `>`, which has to come
before the end of the line. -/
def headerBody : Text → Option (Text × Text)
  | [] => none
  | c :: cs =>
    if c = '>' then some ([], cs)
    else if c = '\n' then none
    else (headerBody cs).map fun p => (c :: p.1, p.2)

/-- The quotes of string literals and character constants. -/
def isQuote (c : Char) : Bool := c = '"' || c = '\''

/-- `(?:u8|u|U|L)?["\']`: an encoding prefix, the quote, and what follows. -/
def literalStart : Text → Option (Text × Char × Text)
  | 'u' :: '8' :: q :: cs => if isQuote q then some (['u', '8'], q, cs) else none
  | p :: q :: cs =>
    if p ∈ ['u', 'U', 'L'] ∧ isQuote q then some ([p], q, cs)
    else if isQuote p then some ([], p, q :: cs)
    else none
  | [q] => if isQuote q then some ([], q, []) else none
  | [] => none

/-- The body of a literal and what follows its closing quote.  A backslash takes
the next character with it, whatever that is. -/
def literalBody (quote : Char) : Text → Except ScanError (Text × Text)
  | [] => .error .unterminatedLiteral
  | c :: cs =>
    if c = quote then .ok ([], cs)
    else if c = '\n' then .error .newlineInLiteral
    else if c = '\\' then
      match cs with
      | [] => .error .unterminatedLiteral
      | d :: ds => (literalBody quote ds).map fun p => (c :: d :: p.1, p.2)
    else (literalBody quote cs).map fun p => (c :: p.1, p.2)

/-- `[A-Za-z_]`. -/
def isIdentifierStart (c : Char) : Bool := c.isAlpha || c = '_'

/-- `[A-Za-z_0-9]`. -/
def isIdentifierChar (c : Char) : Bool := c.isAlphanum || c = '_'

/-- `[A-Za-z_0-9.]`. -/
def isNumberChar (c : Char) : Bool := isIdentifierChar c || c = '.'

/-- `[eEpP][+-]`: an exponent mark and its sign. -/
def isSignedExponent (e s : Char) : Bool := e ∈ ['e', 'E', 'p', 'P'] && s ∈ ['+', '-']

/-- `(?:[eEpP][+-]|[A-Za-z_0-9.])*`: how many characters continue a number. -/
def numberTail : Text → ℕ
  | e :: s :: cs =>
    if isSignedExponent e s then numberTail cs + 2
    else if isNumberChar e then numberTail (s :: cs) + 1
    else 0
  | [e] => if isNumberChar e then 1 else 0
  | [] => 0

/-- The length of the identifier or number at the start of a text, if there is
one. -/
def wordAt : Text → Option ℕ
  | [] => none
  | c :: cs =>
    if isIdentifierStart c then some (1 + (cs.takeWhile isIdentifierChar).length)
    else if c.isDigit then some (1 + numberTail cs)
    else
      match cs with
      | [] => none
      | d :: ds => if c = '.' ∧ d.isDigit then some (2 + numberTail ds) else none

/-- The punctuators, the longer ones first. -/
def punctuators : List Text :=
  ["%:%:", ">>=", "<<=", "...", "->", "++", "--", "<<", ">>", "<=", ">=", "==", "!=", "&&", "||",
    "*=", "/=", "%=", "+=", "-=", "&=", "^=", "|=", "##", "<:", ":>", "<%", "%>", "%:", "[", "]",
    "(", ")", "\x7b", "\x7d", ".", "&", "*", "+", "-", "~", "!", "/", "%", "<", ">", "^", "|", "?", ":",
    ";", "=", ",", "#"].map String.toList

/-- The alternative spellings that the lexer refuses. -/
def digraphs : List Text := ["<:", ":>", "<%", "%>", "%:", "%:%:"].map String.toList

/-- The first punctuator that the text starts with. -/
def punctuatorAt (cs : Text) : Option Text := punctuators.find? fun p => p.isPrefixOf cs

/-- The literal, identifier, number or punctuator that a text starts with, and
what follows it. -/
def tokenAt (c : Char) (cs : Text) : Except ScanError (Lexeme × Text) :=
  match literalStart (c :: cs) with
  | some (encoding, quote, content) =>
    match literalBody quote content with
    | .error e => .error e
    | .ok (body, rest) =>
      if quote = '\'' ∧ body = [] then .error .emptyCharacter
      else .ok (.literal (encoding ++ quote :: (body ++ [quote])), rest)
  | none =>
    match wordAt (c :: cs) with
    | some n => .ok (.word ((c :: cs).take n), (c :: cs).drop n)
    | none =>
      match punctuatorAt (c :: cs) with
      | none => .error (.unsupportedCharacter c)
      | some p =>
        if p ∈ digraphs then .error .digraph
        else .ok (.punctuator p, (c :: cs).drop p.length)

/-- What stands in front of the lexer, and what follows it. -/
def scan (beginning directive awaitsHeader : Bool) (c : Char) (cs : Text) :
    Except ScanError (Lexeme × Text) :=
  if isBlank c then .ok (.blank c, cs)
  else if c = '\n' then .ok (.newline, cs)
  else if c = '/' ∧ cs.head? = some '/' then
    .ok (.lineComment (c :: cs.takeWhile (· ≠ '\n')), cs.dropWhile (· ≠ '\n'))
  else if c = '/' ∧ cs.head? = some '*' then
    match closeComment cs.tail with
    | none => .error .unterminatedComment
    | some (body, rest) => .ok (.blockComment body, rest)
  else if beginning ∧ (c = '#' ∨ (c = '%' ∧ cs.head? = some ':')) then
    if c = '%' then .error .preprocessorDigraph else .ok (.directiveMark, cs)
  else if c = '#' ∧ ¬ directive then .error .strayMarker
  else if awaitsHeader ∧ c = '<' then
    -- a header name is one token, whatever looks like a comment inside it
    match headerBody cs with
    | none => .error .unterminatedHeader
    | some (body, rest) => .ok (.header body, rest)
  else tokenAt c cs

/-! ## The text is put together again -/

theorem closeComment_eq : ∀ {cs body rest : Text}, closeComment cs = some (body, rest) →
    cs = body ++ '*' :: '/' :: rest := by
  intro cs
  fun_induction closeComment cs with
  | case1 cs =>
    intro body rest h
    rw [Option.some.injEq, Prod.mk.injEq] at h
    rw [← h.1, ← h.2]
    rfl
  | case2 c cs _ ih =>
    intro body rest h
    obtain ⟨⟨b, r⟩, hbr, heq⟩ := Option.map_eq_some_iff.mp h
    rw [Prod.mk.injEq] at heq
    rw [← heq.1, ← heq.2, List.cons_append, ← ih hbr]
  | case3 => intro body rest h; exact absurd h (by simp)

theorem headerBody_eq : ∀ {cs body rest : Text}, headerBody cs = some (body, rest) →
    cs = body ++ '>' :: rest := by
  intro cs
  induction cs with
  | nil => intro body rest h; exact absurd h (by simp [headerBody])
  | cons c cs ih =>
    intro body rest h
    rw [headerBody] at h
    split_ifs at h with h1 h2
    · rw [Option.some.injEq, Prod.mk.injEq] at h
      rw [← h.1, ← h.2, h1]
      rfl
    · obtain ⟨⟨b, r⟩, hbr, heq⟩ := Option.map_eq_some_iff.mp h
      rw [Prod.mk.injEq] at heq
      rw [← heq.1, ← heq.2, List.cons_append, ← ih hbr]

theorem literalStart_eq {cs encoding content : Text} {quote : Char}
    (h : literalStart cs = some (encoding, quote, content)) :
    cs = encoding ++ quote :: content := by
  unfold literalStart at h
  split at h
  · split_ifs at h
    simp only [Option.some.injEq, Prod.mk.injEq] at h
    rw [← h.1, ← h.2.1, ← h.2.2]
    rfl
  · split_ifs at h
    · simp only [Option.some.injEq, Prod.mk.injEq] at h
      rw [← h.1, ← h.2.1, ← h.2.2]
      rfl
    · simp only [Option.some.injEq, Prod.mk.injEq] at h
      rw [← h.1, ← h.2.1, ← h.2.2]
      rfl
  · split_ifs at h
    simp only [Option.some.injEq, Prod.mk.injEq] at h
    rw [← h.1, ← h.2.1, ← h.2.2]
    rfl
  · exact absurd h (by simp)

theorem literalBody_eq {quote : Char} : ∀ {cs body rest : Text},
    literalBody quote cs = .ok (body, rest) → cs = body ++ quote :: rest := by
  intro cs
  fun_induction literalBody quote cs with
  | case1 => intro body rest h; exact absurd h (by simp)
  | case2 cs =>
    intro body rest h
    rw [Except.ok.injEq, Prod.mk.injEq] at h
    rw [← h.1, ← h.2]
    rfl
  | case3 => intro body rest h; exact absurd h (by simp)
  | case4 => intro body rest h; exact absurd h (by simp)
  | case5 d ds hq hn ih =>
    intro body rest h
    cases hr : literalBody quote ds with
    | error e =>
      rw [hr] at h
      exact absurd h (by simp [Except.map])
    | ok p =>
      rw [hr] at h
      simp only [Except.map, Except.ok.injEq, Prod.mk.injEq] at h
      rw [← h.1, ← h.2, ih hr]
      rfl
  | case6 c cs hq hn hb ih =>
    intro body rest h
    cases hr : literalBody quote cs with
    | error e =>
      rw [hr] at h
      exact absurd h (by simp [Except.map])
    | ok p =>
      rw [hr] at h
      simp only [Except.map, Except.ok.injEq, Prod.mk.injEq] at h
      rw [← h.1, ← h.2, ih hr]
      rfl

theorem wordAt_pos {cs : Text} {n : ℕ} (h : wordAt cs = some n) : 0 < n := by
  unfold wordAt at h
  split at h
  · exact absurd h (by simp)
  · split_ifs at h
    · simp only [Option.some.injEq] at h; omega
    · simp only [Option.some.injEq] at h; omega
    · split at h
      · exact absurd h (by simp)
      · split_ifs at h
        simp only [Option.some.injEq] at h; omega

theorem punctuatorAt_eq {cs p : Text} (h : punctuatorAt cs = some p) :
    p ∈ punctuators ∧ p <+: cs := by
  unfold punctuatorAt at h
  have hprefix := List.find?_some h
  exact ⟨List.mem_of_find?_eq_some h, List.isPrefixOf_iff_prefix.mp hprefix⟩

theorem punctuators_ne_nil : ∀ p ∈ punctuators, p ≠ [] := by decide

theorem tokenAt_text {c : Char} {cs rest : Text} {lexeme : Lexeme}
    (hs : tokenAt c cs = .ok (lexeme, rest)) :
    c :: cs = lexeme.text ++ rest ∧ lexeme.text ≠ [] := by
  unfold tokenAt at hs
  split at hs
  · next encoding quote content hstart =>
    split at hs
    · exact absurd hs (by simp)
    · next body rest' hbody =>
      split_ifs at hs
      rw [Except.ok.injEq, Prod.mk.injEq] at hs
      rw [← hs.1, ← hs.2, literalStart_eq hstart, literalBody_eq hbody]
      exact ⟨by simp [Lexeme.text], by simp [Lexeme.text]⟩
  · split at hs
    · next n hword =>
      rw [Except.ok.injEq, Prod.mk.injEq] at hs
      have hpos := wordAt_pos hword
      rw [← hs.1, ← hs.2]
      exact ⟨(List.take_append_drop n (c :: cs)).symm, by simp [Lexeme.text]; omega⟩
    · split at hs
      · exact absurd hs (by simp)
      · next p hp =>
        split_ifs at hs
        rw [Except.ok.injEq, Prod.mk.injEq] at hs
        obtain ⟨hmem, t, ht⟩ := punctuatorAt_eq hp
        rw [← hs.1, ← hs.2, ← ht, List.drop_left]
        exact ⟨rfl, punctuators_ne_nil p hmem⟩

/-- **What is scanned and what is left is the text**, and something is always
scanned. -/
theorem scan_text {b d h : Bool} {c : Char} {cs rest : Text} {lexeme : Lexeme}
    (hs : scan b d h c cs = .ok (lexeme, rest)) :
    c :: cs = lexeme.text ++ rest ∧ lexeme.text ≠ [] := by
  unfold scan at hs
  split_ifs at hs with h1 h2 h3 h4 h5 h6 h7 h8
  · rw [Except.ok.injEq, Prod.mk.injEq] at hs
    rw [← hs.1, ← hs.2]
    exact ⟨rfl, by simp [Lexeme.text]⟩
  · rw [Except.ok.injEq, Prod.mk.injEq] at hs
    rw [← hs.1, ← hs.2, h2]
    exact ⟨rfl, by simp [Lexeme.text]⟩
  · rw [Except.ok.injEq, Prod.mk.injEq] at hs
    rw [← hs.1, ← hs.2]
    refine ⟨?_, by simp [Lexeme.text]⟩
    rw [Lexeme.text, List.cons_append, List.takeWhile_append_dropWhile]
  · split at hs
    · exact absurd hs (by simp)
    · next body rest' hclose =>
      rw [Except.ok.injEq, Prod.mk.injEq] at hs
      have htail := closeComment_eq hclose
      obtain ⟨ds, hds⟩ := List.head?_eq_some_iff.mp h4.2
      rw [hds, List.tail_cons] at htail
      rw [← hs.1, ← hs.2, h4.1, hds, htail]
      exact ⟨by simp [Lexeme.text], by simp [Lexeme.text]⟩
  · rw [Except.ok.injEq, Prod.mk.injEq] at hs
    have hc : c = '#' := h5.2.resolve_right fun hp => h6 hp.1
    rw [← hs.1, ← hs.2, hc]
    exact ⟨rfl, by simp [Lexeme.text]⟩
  · split at hs
    · exact absurd hs (by simp)
    · next body rest' hbody =>
      rw [Except.ok.injEq, Prod.mk.injEq] at hs
      rw [← hs.1, ← hs.2, h8.2, headerBody_eq hbody]
      exact ⟨by simp [Lexeme.text], by simp [Lexeme.text]⟩
  · exact tokenAt_text hs

theorem scan_suffix {b d h : Bool} {c : Char} {cs rest : Text} {lexeme : Lexeme}
    (hs : scan b d h c cs = .ok (lexeme, rest)) : rest <:+ cs := by
  obtain ⟨heq, hne⟩ := scan_text hs
  obtain ⟨x, xs, hx⟩ := List.exists_cons_of_ne_nil hne
  rw [hx, List.cons_append, List.cons.injEq] at heq
  exact ⟨xs, heq.2.symm⟩

/-! ## The state and the loop -/

/-- The variables of the loop: the position, the line, whether only white space
was seen on the line, and the tokens of the directive that is being read. -/
structure LexState where
  i : ℕ
  line : ℕ
  beginning : Bool
  directive : Bool
  directiveTokens : List Token
  deriving DecidableEq, Repr

namespace LexState

/-- The state before the loop. -/
def initial : LexState := ⟨0, 1, true, false, []⟩

/-- A header name can follow: the directive is an `#include` so far. -/
def awaitsHeader (s : LexState) : Bool :=
  s.directive &&
    match s.directiveTokens with
    | [_, name] => name.value ∈ ["include".toList, "include_next".toList]
    | _ => false

/-- The name of a `#define` ends exactly here. -/
def opensMacro (s : LexState) : Bool :=
  s.directive &&
    match s.directiveTokens with
    | [_, name, macroName] => name.value = "define".toList && macroName.stop = s.i
    | _ => false

/-- The token that `add` makes of a text that starts here. -/
def token (s : LexState) (value : Text) (stop : ℕ) (kind : Kind) : Token :=
  ⟨value, if s.directive && kind == .c then .pp else kind, s.line, s.i, stop⟩

/-- The state after `add`. -/
def noted (s : LexState) (t : Token) : LexState :=
  { s with
    beginning := false
    directiveTokens := if s.directive then s.directiveTokens ++ [t] else s.directiveTokens }

/-- `add(value, i, i + length)` for an ordinary token, and the position behind
it. -/
def put (s : LexState) (value : Text) : List Token × LexState :=
  let t := s.token value (s.i + value.length) .c
  ([t], { s.noted t with i := s.i + value.length })

/-- What a unit of the text does: the tokens it adds, and the state behind it. -/
def advance (s : LexState) : Lexeme → List Token × LexState
  | .blank _ => ([], { s with i := s.i + 1 })
  | .newline =>
    (if s.directive then [⟨ppEnd, .boundary, s.line, s.i, s.i + 1⟩] else [],
      { i := s.i + 1, line := s.line + 1, beginning := true, directive := false,
        directiveTokens := [] })
  | .lineComment text => ([], { s with i := s.i + text.length })
  | .blockComment body =>
    -- the newlines of the comment count as lines, but end no directive
    ([], { s with i := s.i + (body.length + 4), line := s.line + body.count '\n' })
  | .directiveMark =>
    let s' := { s with directive := true }
    let t := s'.token ppStart (s.i + 1) .boundary
    ([t], { s'.noted t with i := s.i + 1 })
  | .header body => s.put ('<' :: (body ++ ['>']))
  | .literal text => s.put text
  | .word text => s.put text
  | .punctuator text =>
    if s.opensMacro ∧ text = ['('] then
      let t := s.token macroFunction s.i .boundary
      let p := (s.noted t).put text
      (t :: p.1, p.2)
    else s.put text

end LexState

/-- The loop of `_lex`. -/
def lexMachine : Scan.Machine Char LexState Token LexError where
  step s c cs :=
    match scan s.beginning s.directive s.awaitsHeader c cs with
    | .error reason => .error (.located reason s.line)
    | .ok (lexeme, rest) => .ok ((s.advance lexeme).1, (s.advance lexeme).2, rest)
  finish s := if s.directive then [⟨ppEnd, .boundary, s.line, s.i, s.i⟩] else []
  consumes := by
    intro s c cs out s' rest h
    split at h
    · exact absurd h (by simp)
    · next lexeme rest' hs =>
      simp only [Except.ok.injEq, Prod.mk.injEq] at h
      exact h.2.2 ▸ scan_suffix hs

theorem lexMachine_step_eq_ok {s s' : LexState} {c : Char} {cs rest : Text} {out : List Token} :
    lexMachine.step s c cs = .ok (out, s', rest) ↔
      ∃ lexeme, scan s.beginning s.directive s.awaitsHeader c cs = .ok (lexeme, rest) ∧
        s.advance lexeme = (out, s') := by
  unfold lexMachine
  dsimp only
  cases hs : scan s.beginning s.directive s.awaitsHeader c cs with
  | error e => simp
  | ok p =>
    obtain ⟨lexeme, rest'⟩ := p
    simp only [Except.ok.injEq, Prod.mk.injEq]
    constructor
    · rintro ⟨h1, h2, h3⟩
      exact ⟨lexeme, ⟨rfl, h3⟩, Prod.ext h1 h2⟩
    · rintro ⟨lexeme', ⟨rfl, h3⟩, h⟩
      exact ⟨congrArg Prod.fst h, congrArg Prod.snd h, h3⟩

/-- The text that the loop reads. -/
def spliced (source : Text) : Text := splice (normalise source)

/-- `_lex(source)`. -/
def lex (source : Text) : Except LexError (List Token) :=
  if '\x00' ∈ source then .error .nulByte
  else if hasTrigraph source then .error .trigraph
  else
    match lexMachine.run LexState.initial (spliced source) with
    | .error e => .error e
    | .ok tokens => if tokens = [] then .error .emptySource else .ok tokens

/-- `tokenize(source)`. -/
def tokenize (source : Text) : Except LexError (List Text) :=
  (lex source).map fun tokens => tokens.map Token.value

example : tokenize "#define F(x) 1 // c\nint f;".toList =
    .ok (["<pp-start>", "define", "F", "<macro-function>", "(", "x", ")", "1", "<pp-end>", "int",
      "f", ";"].map String.toList) := by rfl

/-- A source is accepted when the checks pass and the loop returns tokens. -/
theorem lex_eq_ok_iff {source : Text} {tokens : List Token} :
    lex source = .ok tokens ↔ '\x00' ∉ source ∧ hasTrigraph source = false ∧
      lexMachine.run LexState.initial (spliced source) = .ok tokens ∧ tokens ≠ [] := by
  unfold lex
  split_ifs with h1 h2
  · simp [h1]
  · simp [h2]
  · cases hr : lexMachine.run LexState.initial (spliced source) with
    | error e => simp
    | ok ts =>
      by_cases hne : ts = []
      · simp only [hne, if_true]
        constructor
        · intro h; exact absurd h (by simp)
        · rintro ⟨-, -, h, h'⟩
          exact absurd (Except.ok.inj h).symm h'
      · simp only [if_neg hne]
        constructor
        · intro h
          exact ⟨h1, by simpa using h2, h, by rw [← Except.ok.inj h]; exact hne⟩
        · rintro ⟨-, -, h, -⟩
          exact h

theorem tokenize_eq_ok_iff {source : Text} {values : List Text} :
    tokenize source = .ok values ↔ ∃ tokens, lex source = .ok tokens ∧
      tokens.map Token.value = values := by
  unfold tokenize
  cases lex source with
  | error e => simp [Except.map]
  | ok tokens => simp [Except.map]

end Provenance
end Fragma
