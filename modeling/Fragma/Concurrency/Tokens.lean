import Mathlib.Data.List.Find
import Fragma.Provenance.Surface
import Fragma.Python.Text

/-!
# The token comparison of the pilot

`fragma/concurrency_c2.py`, `_strip_c_comments`, `_TOKEN` and `c_tokens`.  The pilot compares
two C functions by the tokens that one pattern finds in them, after a pass of its own has
taken the comments out.  It knows no directives and no line splices, and its pattern cuts some
of the source's tokens into several.

* `stripFrom`, `stripComments`: the pass over the comments, and `stripFrom_surface`.
* `matchToken`, `findTokens`, `cTokens`: the pattern.
* `Whole`: the tokens that the pattern keeps whole, and `matchToken_word`,
  `matchToken_literal`, `matchToken_punctuator`: where it finds them again.
-/

namespace Fragma
namespace Concurrency

open Provenance Scan Python

/-- The errors of the pilot. -/
inductive C2Error where
  | unterminated
  deriving DecidableEq, Repr

/-! ## Taking the comments out -/

/-- Where the pass stands. -/
inductive StripState where
  | code
  | block
  | line
  | literal (quote : Char)
  deriving DecidableEq, Repr

/-- The state behind a code character. -/
def StripState.afterCode (c : Char) : StripState := if c ∈ quotes then .literal c else .code

/-- The loop of `_strip_c_comments`. -/
def stripFrom : StripState → Text → Except C2Error Text
  | .code, [] => .ok []
  | .line, [] => .ok []
  | .block, [] => .error .unterminated
  | .literal _, [] => .error .unterminated
  | .code, '/' :: '*' :: cs => (stripFrom .block cs).map (' ' :: ·)
  | .code, '/' :: '/' :: cs => (stripFrom .line cs).map (' ' :: ·)
  | .code, c :: cs => (stripFrom (.afterCode c) cs).map (c :: ·)
  | .block, '*' :: '/' :: cs => stripFrom .code cs
  | .block, c :: cs =>
    if c = '\n' then (stripFrom .block cs).map ('\n' :: ·) else stripFrom .block cs
  | .line, c :: cs =>
    if c = '\n' then (stripFrom .code cs).map ('\n' :: ·) else stripFrom .line cs
  | .literal quote, '\\' :: d :: cs => (stripFrom (.literal quote) cs).map ('\\' :: d :: ·)
  | .literal quote, c :: cs =>
    (stripFrom (if c = quote then .code else .literal quote) cs).map (c :: ·)

/-- `_strip_c_comments(text)`. -/
def stripComments (text : Text) : Except C2Error Text := stripFrom .code text

/-! ## The pattern -/

/-- The character classes of the interpreter.  They agree with the usual ones on ASCII. -/
structure Classes where
  isAlnum : Char → Bool
  isDecimal : Char → Bool
  alnum_ascii : ∀ c, c.toNat < 128 → isAlnum c = c.isAlphanum
  decimal_ascii : ∀ c, c.toNat < 128 → isDecimal c = c.isDigit

/-- `[0-9A-Fa-f]`. -/
def isHexDigit (c : Char) : Bool := c ∈ "0123456789ABCDEFabcdef".toList

/-- `[uUlL]`. -/
def isSuffix (c : Char) : Bool := c ∈ ['u', 'U', 'l', 'L']

/-- `(?:\\.|[^q\\])*q` behind an opening quote: how many characters it takes. -/
def quoted (quote : Char) : Text → Option ℕ
  | [] => none
  | c :: cs =>
    if c = quote then some 1
    else if c = '\\' then
      match cs with
      | [] => none
      | d :: ds => if d = '\n' then none else (quoted quote ds).map (· + 2)
    else (quoted quote cs).map (· + 1)

/-- The operators of the pattern, in its order. -/
def operators : List Text :=
  ["==", "!=", "<=", ">=", "->", "++", "--", "&&", "||", "<<", ">>", "+=", "-=", "*=", "/=", "%=",
    "&=", "|=", "^=", "<<=", ">>=", "..."].map String.toList

section Pattern

variable (k : Classes)

/-- `_TOKEN` where a text starts with `c`: how many more characters the token has.  Its
alternatives are tried in the order in which the pattern lists them. -/
def matchToken (c : Char) (cs : Text) : Option ℕ :=
  if isIdentifierStart c then some (cs.takeWhile (isWord k.isAlnum)).length
  else if c = '0' ∧ (cs.head? = some 'x' ∨ cs.head? = some 'X') ∧
      cs.tail.takeWhile isHexDigit ≠ [] then
    some (1 + (cs.tail.takeWhile isHexDigit).length)
  else if k.isDecimal c then
    some ((cs.takeWhile k.isDecimal).length +
      ((cs.dropWhile k.isDecimal).takeWhile isSuffix).length)
  else
    match (if c ∈ quotes then quoted c cs else none) with
    | some n => some n
    | none =>
      match operators.find? fun op => op.isPrefixOf (c :: cs) with
      | some op => some (op.length - 1)
      | none => if isSpace c then none else some 0

/-- `_TOKEN.findall`, as a scanner: where the pattern does not match, it moves on by one
character. -/
def tokenMachine : Machine Char Unit Text C2Error where
  step _ c cs :=
    match matchToken k c cs with
    | some n => .ok ([c :: cs.take n], (), cs.drop n)
    | none => .ok ([], (), cs)
  finish _ := []
  consumes := by
    intro _ c cs out _ rest h
    split at h
    · next n _ =>
      simp only [Except.ok.injEq, Prod.mk.injEq] at h
      exact h.2.2 ▸ List.drop_suffix n cs
    · simp only [Except.ok.injEq, Prod.mk.injEq] at h
      exact h.2.2 ▸ List.suffix_refl cs

/-- `_TOKEN.findall(text)`. -/
def findTokens (text : Text) : Except C2Error (List Text) := (tokenMachine k).run () text

/-- `c_tokens(text)`. -/
def cTokens (text : Text) : Except C2Error (List Text) := do
  let stripped ← stripComments text
  findTokens k stripped

end Pattern

/-! ## The pass on a surface -/

/-- What the pass leaves of a piece. -/
def leftOver : Piece → Text
  | .code c => [c]
  | .literal quote body => quote :: (body ++ [quote])
  | .block body => ' ' :: body.filter (· = '\n')
  | .line _ => [' ']

theorem map_map_cons (x : Char) (u : Text) (r : Except C2Error Text) :
    (r.map (u ++ ·)).map (x :: ·) = r.map (x :: u ++ ·) := by
  cases r <;> rfl

theorem stripFrom_literal {quote : Char} {body : Text} (hbody : Within quote body)
    (hquote : quote ≠ '\\') (rest : Text) :
    stripFrom (.literal quote) (body ++ quote :: rest) =
      (stripFrom .code rest).map (body ++ [quote] ++ ·) := by
  induction hbody with
  | nil =>
    rw [List.nil_append, stripFrom.eq_12 _ _ _ fun _ _ h => absurd h hquote, if_pos rfl]
    rfl
  | escape d _ ih =>
    rw [List.cons_append, List.cons_append, stripFrom.eq_11, ih]
    cases stripFrom .code rest <;> rfl
  | char hne hback _ ih =>
    rw [List.cons_append, stripFrom.eq_12 _ _ _ fun _ _ h => absurd h hback, if_neg hne, ih,
      map_map_cons]
    rfl

theorem stripFrom_block {body : Text} (hbody : ¬ ['*', '/'] <:+: body ++ ['*']) (rest : Text) :
    stripFrom .block (body ++ '*' :: '/' :: rest) =
      (stripFrom .code rest).map (body.filter (· = '\n') ++ ·) := by
  induction body with
  | nil =>
    rw [List.nil_append, stripFrom.eq_8]
    cases stripFrom .code rest <;> rfl
  | cons c body ih =>
    have hnext : ∀ ds, c = '*' → body ++ '*' :: '/' :: rest = '/' :: ds → False := by
      intro ds hc hds
      exact star_not_slash hbody hc (by rw [hds]; rfl)
    have hrest : ¬ ['*', '/'] <:+: body ++ ['*'] :=
      fun hinside => hbody (hinside.trans (List.suffix_cons c _).isInfix)
    rw [List.cons_append, stripFrom.eq_9 _ _ hnext, ih hrest]
    by_cases hc : c = '\n'
    · rw [if_pos hc, map_map_cons, hc, List.filter_cons_of_pos (by decide)]
    · rw [if_neg hc, List.filter_cons_of_neg (by simpa using hc)]

theorem stripFrom_line {body rest : Text} (hbody : '\n' ∉ body)
    (hrest : ∀ x ∈ rest.head?, x = '\n') :
    stripFrom .line (body ++ rest) = stripFrom .code rest := by
  induction body with
  | nil =>
    cases rest with
    | nil => rfl
    | cons x rest =>
      obtain rfl := hrest x rfl
      rfl
  | cons c body ih =>
    rw [List.mem_cons, not_or] at hbody
    rw [List.cons_append, stripFrom.eq_10, if_neg (Ne.symm hbody.1), ih hbody.2]

/-- **What the pass leaves of a text**: it takes the comments of the surface out. -/
theorem stripFrom_surface {cs : Text} {ps : List Piece} (h : Surface cs ps) :
    stripFrom .code cs = .ok (ps.flatMap leftOver) := by
  induction h with
  | nil => rfl
  | @code c cs ps hquote hcomment _ ih =>
    rw [stripFrom.eq_7 _ _ (fun ds hc hcs => hcomment ⟨hc, .inr (by rw [hcs]; rfl)⟩)
      (fun ds hc hcs => hcomment ⟨hc, .inl (by rw [hcs]; rfl)⟩), StripState.afterCode,
      if_neg hquote, ih]
    rfl
  | @literal quote body rest ps hquote hbody _ _ ih =>
    have hne : quote ≠ '/' ∧ quote ≠ '\\' := by
      constructor <;> rintro rfl <;> exact absurd hquote (by decide)
    rw [stripFrom.eq_7 _ _ (fun _ hc _ => hne.1 hc) (fun _ hc _ => hne.1 hc), StripState.afterCode,
      if_pos hquote, stripFrom_literal hbody hne.2, ih]
    rfl
  | block hbody _ ih =>
    rw [stripFrom.eq_5, stripFrom_block hbody, ih]
    rfl
  | line hbody hrest _ ih =>
    rw [stripFrom.eq_6, stripFrom_line hbody hrest, ih]
    rfl

/-- Where what is left of a text starts: behind a comment with a blank, and otherwise where the
text does. -/
theorem leftOver_head {cs : Text} {ps : List Piece} (h : Surface cs ps) {x : Char}
    (hx : (ps.flatMap leftOver).head? = some x) : x = ' ' ∨ cs.head? = some x := by
  cases h with
  | nil => exact absurd hx (by simp)
  | code => exact .inr hx
  | literal => exact .inr hx
  | block => exact .inl (Option.some.inj hx).symm
  | line => exact .inl (Option.some.inj hx).symm

/-- A word without blanks and quotes at the start of what is left of a text is the start of the
text. -/
theorem prefix_of_leftOver {cs p : Text} {ps : List Piece} (h : Surface cs ps)
    (hp : ∀ x ∈ p, x ∉ ' ' :: quotes) (hle : p <+: ps.flatMap leftOver) : p <+: cs := by
  induction h generalizing p with
  | nil => exact hle
  | code _ _ _ ih =>
    cases p with
    | nil => exact List.nil_prefix
    | cons y p =>
      rw [List.forall_mem_cons] at hp
      obtain ⟨rfl, hle'⟩ := List.cons_prefix_cons.mp hle
      exact List.cons_prefix_cons.mpr ⟨rfl, ih hp.2 hle'⟩
  | literal hquote _ _ _ _ =>
    cases p with
    | nil => exact List.nil_prefix
    | cons y p =>
      obtain ⟨rfl, -⟩ := List.cons_prefix_cons.mp hle
      exact absurd (List.mem_cons_of_mem _ hquote) (hp _ List.mem_cons_self)
  | block _ _ _ =>
    cases p with
    | nil => exact List.nil_prefix
    | cons y p =>
      obtain ⟨rfl, -⟩ := List.cons_prefix_cons.mp hle
      exact absurd List.mem_cons_self (hp _ List.mem_cons_self)
  | line _ _ _ _ =>
    cases p with
    | nil => exact List.nil_prefix
    | cons y p =>
      obtain ⟨rfl, -⟩ := List.cons_prefix_cons.mp hle
      exact absurd List.mem_cons_self (hp _ List.mem_cons_self)

/-! ## The pattern on one token -/

section Tokens

variable (k : Classes)

theorem findTokens_some {c : Char} {cs : Text} {n : ℕ} (h : matchToken k c cs = some n) :
    findTokens k (c :: cs) = (findTokens k (cs.drop n)).map ((c :: cs.take n) :: ·) := by
  have hstep : (tokenMachine k).step () c cs = .ok ([c :: cs.take n], (), cs.drop n) := by
    simp only [tokenMachine, h]
  exact (tokenMachine k).run_cons_of_step hstep

theorem findTokens_none {c : Char} {cs : Text} (h : matchToken k c cs = none) :
    findTokens k (c :: cs) = findTokens k cs := by
  have hstep : (tokenMachine k).step () c cs = .ok ([], (), cs) := by
    simp only [tokenMachine, h]
  rw [findTokens, (tokenMachine k).run_cons_of_step hstep, findTokens]
  cases (tokenMachine k).run () cs <;> rfl

/-- The pattern takes all of the text as one token. -/
def Whole : Text → Prop
  | [] => False
  | c :: cs => matchToken k c cs = some cs.length

instance : DecidablePred (Whole k)
  | [] => .isFalse id
  | c :: cs => inferInstanceAs (Decidable (matchToken k c cs = some cs.length))

/-- What follows a word does not continue it. -/
def EndsWord (rest : Text) : Prop :=
  ∀ x ∈ rest.head?, isWord k.isAlnum x = false ∧ k.isDecimal x = false

theorem isWord_of_isHexDigit {x : Char} (h : isHexDigit x = true) : isWord k.isAlnum x = true := by
  have hall : "0123456789ABCDEFabcdef".toList.all
      (fun x => x.toNat < 128 && x.isAlphanum) = true := by decide
  rw [isHexDigit, decide_eq_true_eq] at h
  have hx := List.all_eq_true.mp hall x h
  rw [Bool.and_eq_true, decide_eq_true_eq] at hx
  rw [isWord, k.alnum_ascii x hx.1, hx.2, Bool.true_or]

theorem isWord_of_isSuffix {x : Char} (h : isSuffix x = true) : isWord k.isAlnum x = true := by
  have hall : ['u', 'U', 'l', 'L'].all (fun x => x.toNat < 128 && x.isAlphanum) = true := by decide
  rw [isSuffix, decide_eq_true_eq] at h
  have hx := List.all_eq_true.mp hall x h
  rw [Bool.and_eq_true, decide_eq_true_eq] at hx
  rw [isWord, k.alnum_ascii x hx.1, hx.2, Bool.true_or]

/-- A class that the rest does not continue is taken as far without it. -/
theorem takeWhile_append_stop {p : Char → Bool} {u r : Text} (hr : ∀ x ∈ r.head?, p x = false) :
    (u ++ r).takeWhile p = u.takeWhile p ∧ (u ++ r).dropWhile p = u.dropWhile p ++ r := by
  induction u with
  | nil =>
    cases r with
    | nil => exact ⟨rfl, rfl⟩
    | cons x r =>
      have hx : ¬ p x = true := by simp [hr x rfl]
      exact ⟨List.takeWhile_cons_of_neg hx, List.dropWhile_cons_of_neg hx⟩
  | cons c u ih =>
    rw [List.cons_append]
    by_cases hc : p c = true
    · rw [List.takeWhile_cons_of_pos hc, List.takeWhile_cons_of_pos hc, List.dropWhile_cons_of_pos hc,
        List.dropWhile_cons_of_pos hc, ih.1, ih.2]
      exact ⟨rfl, rfl⟩
    · rw [List.takeWhile_cons_of_neg hc, List.takeWhile_cons_of_neg hc, List.dropWhile_cons_of_neg hc,
        List.dropWhile_cons_of_neg hc]
      exact ⟨rfl, rfl⟩

variable {k}

namespace EndsWord

variable {rest : Text} (h : EndsWord k rest)

include h

theorem word : ∀ x ∈ rest.head?, isWord k.isAlnum x = false := fun x hx => (h x hx).1

theorem decimal : ∀ x ∈ rest.head?, k.isDecimal x = false := fun x hx => (h x hx).2

theorem hexDigit : ∀ x ∈ rest.head?, isHexDigit x = false := fun x hx => by
  have hword := h.word x hx
  by_contra hhex
  rw [isWord_of_isHexDigit k (by simpa using hhex)] at hword
  exact absurd hword (by simp)

theorem suffix : ∀ x ∈ rest.head?, isSuffix x = false := fun x hx => by
  have hword := h.word x hx
  by_contra hsuffix
  rw [isWord_of_isSuffix k (by simpa using hsuffix)] at hword
  exact absurd hword (by simp)

/-- The mark of a hexadecimal number stands in the word or nowhere. -/
theorem hexMark {vs : Text} :
    (((vs ++ rest).head? = some 'x' ∨ (vs ++ rest).head? = some 'X') ∧
      (vs ++ rest).tail.takeWhile isHexDigit ≠ []) ↔
    ((vs.head? = some 'x' ∨ vs.head? = some 'X') ∧ vs.tail.takeWhile isHexDigit ≠ []) := by
  cases vs with
  | nil =>
    have hno : ∀ x, x = 'x' ∨ x = 'X' → rest.head? ≠ some x := by
      rintro x hx hhead
      have hword := h.word x hhead
      rcases hx with rfl | rfl
      · rw [isWord, k.alnum_ascii _ (by decide)] at hword
        exact absurd hword (by decide)
      · rw [isWord, k.alnum_ascii _ (by decide)] at hword
        exact absurd hword (by decide)
    constructor
    · rintro ⟨hhead | hhead, -⟩
      · exact absurd hhead (hno _ (.inl rfl))
      · exact absurd hhead (hno _ (.inr rfl))
    · rintro ⟨hhead | hhead, -⟩ <;> exact absurd hhead (by simp)
  | cons v vs =>
    rw [List.cons_append, List.head?_cons, List.head?_cons, List.tail_cons, List.tail_cons,
      (takeWhile_append_stop h.hexDigit).1]

end EndsWord

/-- A whole word is matched in front of what does not continue it. -/
theorem matchToken_word {c : Char} {vs rest : Text} (hwhole : Whole k (c :: vs))
    (hc : isIdentifierStart c = true ∨ c.isDigit = true) (hrest : EndsWord k rest) :
    matchToken k c (vs ++ rest) = some vs.length := by
  rw [← hwhole]
  unfold matchToken
  by_cases hident : isIdentifierStart c = true
  · rw [if_pos hident, if_pos hident, (takeWhile_append_stop hrest.word).1]
  · have hdigit := hc.resolve_left hident
    have hdecimal : k.isDecimal c = true := by
      have hascii : c.toNat < 128 := by
        rw [Char.isDigit, Bool.and_eq_true, decide_eq_true_eq, decide_eq_true_eq] at hdigit
        have := hdigit.2
        rw [UInt32.le_iff_toNat_le] at this
        exact lt_of_le_of_lt this (by decide)
      rw [k.decimal_ascii c hascii, hdigit]
    rw [if_neg hident, if_neg hident]
    by_cases hhex : c = '0' ∧ (vs.head? = some 'x' ∨ vs.head? = some 'X') ∧
        vs.tail.takeWhile isHexDigit ≠ []
    · rw [if_pos hhex, if_pos ⟨hhex.1, hrest.hexMark.mpr hhex.2⟩]
      have hne : vs ≠ [] := by
        rintro rfl
        exact absurd hhex.2.1 (by simp)
      rw [List.tail_append_of_ne_nil hne, (takeWhile_append_stop hrest.hexDigit).1]
    · rw [if_neg hhex, if_neg fun hmark => hhex ⟨hmark.1, hrest.hexMark.mp hmark.2⟩, if_pos hdecimal,
        if_pos hdecimal, (takeWhile_append_stop hrest.decimal).1,
        (takeWhile_append_stop hrest.decimal).2, (takeWhile_append_stop hrest.suffix).1]

theorem quoted_cons {quote c : Char} {cs : Text} :
    quoted quote (c :: cs) =
      if c = quote then some 1
      else if c = '\\' then
        match cs with
        | [] => none
        | d :: ds => if d = '\n' then none else (quoted quote ds).map (· + 2)
      else (quoted quote cs).map (· + 1) := by
  cases cs <;> rfl

theorem quoted_within {quote : Char} {body : Text} (hbody : Within quote body)
    (hquote : quote ∈ quotes) (hnl : '\n' ∉ body) (rest : Text) :
    quoted quote (body ++ quote :: rest) = some (body.length + 1) := by
  have hback : '\\' ≠ quote := by
    rintro rfl
    exact absurd hquote (by decide)
  induction hbody with
  | nil => rw [List.nil_append, quoted_cons, if_pos rfl]; rfl
  | escape d _ ih =>
    simp only [List.mem_cons, not_or] at hnl
    rw [List.cons_append, List.cons_append, quoted_cons, if_neg hback, if_pos rfl]
    dsimp only
    rw [if_neg (Ne.symm hnl.2.1), ih hnl.2.2]
    rfl
  | char hne hesc _ ih =>
    simp only [List.mem_cons, not_or] at hnl
    rw [List.cons_append, quoted_cons, if_neg hne, if_neg hesc, ih hnl.2]
    rfl

/-- A whole literal has no encoding prefix. -/
theorem encoding_eq_nil {encoding body : Text} {quote : Char} (henc : encoding ∈ encodings)
    (hquote : quote ∈ quotes) (hwhole : Whole k (encoding ++ quote :: (body ++ [quote]))) :
    encoding = [] := by
  cases encoding with
  | nil => rfl
  | cons e es =>
    have hall : encodings.all (fun e => e.head?.all isIdentifierStart) = true := by decide
    have hstart : ∀ e ∈ encodings, ∀ c ∈ e.head?, isIdentifierStart c = true := fun e he =>
      (Option.all_eq_true _ _).mp (List.all_eq_true.mp hall e he)
    have hword : ∀ x ∈ (quote :: (body ++ [quote])).head?, isWord k.isAlnum x = false := by
      rintro x hx
      obtain rfl := Option.some.inj hx
      simp only [quotes, List.mem_cons, List.not_mem_nil, or_false] at hquote
      rcases hquote with rfl | rfl
      · rw [isWord, k.alnum_ascii _ (by decide)]
        decide
      · rw [isWord, k.alnum_ascii _ (by decide)]
        decide
    have hmatch : matchToken k e (es ++ quote :: (body ++ [quote])) =
        some (es.takeWhile (isWord k.isAlnum)).length := by
      rw [matchToken, if_pos (hstart _ henc e rfl), (takeWhile_append_stop hword).1]
    have hlength : (es.takeWhile (isWord k.isAlnum)).length =
        (es ++ quote :: (body ++ [quote])).length := Option.some.inj (hmatch.symm.trans hwhole)
    have hle := (List.takeWhile_prefix (isWord k.isAlnum) (l := es)).length_le
    rw [List.length_append, List.length_cons] at hlength
    omega

/-- A literal is matched up to its closing quote. -/
theorem matchToken_literal {quote : Char} {body : Text} (hquote : quote ∈ quotes)
    (hbody : Within quote body) (hnl : '\n' ∉ body) (rest : Text) :
    matchToken k quote (body ++ quote :: rest) = some (body.length + 1) := by
  have hfacts : isIdentifierStart quote = false ∧ quote ≠ '0' ∧ k.isDecimal quote = false := by
    simp only [quotes, List.mem_cons, List.not_mem_nil, or_false] at hquote
    rcases hquote with rfl | rfl
    · exact ⟨by decide, by decide, by rw [k.decimal_ascii _ (by decide)]; decide⟩
    · exact ⟨by decide, by decide, by rw [k.decimal_ascii _ (by decide)]; decide⟩
  unfold matchToken
  rw [if_neg (by simp [hfacts.1]), if_neg fun h => hfacts.2.1 h.1, if_neg (by simp [hfacts.2.2]),
    if_pos hquote, quoted_within hbody hquote hnl]

/-- The characters that no token starts with. -/
def blanks : Text := [' ', '\t', '\x0b', '\x0c', '\n', '\r']

theorem matchToken_blank {c : Char} (hc : c ∈ blanks) (cs : Text) : matchToken k c cs = none := by
  have hfacts : blanks.all (fun c => !isIdentifierStart c && c ≠ '0' && !c.isDigit &&
      c.toNat < 128 && c ∉ quotes && isSpace c) = true := by decide
  have hall : operators.all (fun op => op.head?.all fun x => x ∉ blanks) = true := by decide
  have hops : ∀ op ∈ operators, ∀ x ∈ op.head?, x ∉ blanks := fun op hop x hx =>
    of_decide_eq_true ((Option.all_eq_true _ _).mp (List.all_eq_true.mp hall op hop) x hx)
  have hne : ∀ op ∈ operators, op ≠ [] := by decide
  have h := List.all_eq_true.mp hfacts c hc
  simp only [Bool.and_eq_true, Bool.not_eq_true', decide_eq_true_eq, ne_eq] at h
  have hfind : (operators.find? fun op => op.isPrefixOf (c :: cs)) = none := by
    rw [List.find?_eq_none]
    intro op hop hpre
    rw [List.isPrefixOf_iff_prefix] at hpre
    cases op with
    | nil => exact hne _ hop rfl
    | cons x op =>
      obtain ⟨rfl, -⟩ := List.cons_prefix_cons.mp hpre
      exact hops _ hop x rfl hc
  unfold matchToken
  rw [if_neg (by simp [h]), if_neg (by simp [h]),
    if_neg (by rw [k.decimal_ascii c h.1.1.2]; simp [h]), if_neg h.1.2]
  dsimp only
  rw [hfind]
  dsimp only
  rw [if_pos h.2]

theorem findTokens_blanks {u rest : Text} (hu : ∀ c ∈ u, c ∈ blanks) :
    findTokens k (u ++ rest) = findTokens k rest := by
  induction u with
  | nil => rfl
  | cons c u ih =>
    rw [List.forall_mem_cons] at hu
    rw [List.cons_append, findTokens_none k (matchToken_blank hu.1 _), ih hu.2]

/-- What the pattern's alternatives in front of the operators say about a punctuator. -/
theorem matchToken_operator {c : Char} {p : Text} (hp : p ∈ punctuators) (hc : p.head? = some c)
    (cs : Text) :
    matchToken k c cs =
      match operators.find? fun op => op.isPrefixOf (c :: cs) with
      | some op => some (op.length - 1)
      | none => some 0 := by
  have hall : punctuators.all (fun p => p.head?.all fun c => isIdentifierStart c = false ∧ c ≠ '0' ∧
      c.isDigit = false ∧ c.toNat < 128 ∧ c ∉ quotes ∧ isSpace c = false) = true := by decide
  obtain ⟨hident, hzero, hdigit, hascii, hquote, hspace⟩ := of_decide_eq_true
    ((Option.all_eq_true _ _).mp (List.all_eq_true.mp hall p hp) c hc)
  unfold matchToken
  rw [if_neg (by simp [hident]), if_neg fun h => hzero h.1,
    if_neg (by rw [k.decimal_ascii c hascii]; simp [hdigit]), if_neg hquote]
  dsimp only
  rw [if_neg (by simp [hspace])]

/-- A whole punctuator is matched where no longer operator starts. -/
theorem matchToken_punctuator {c : Char} {vs rest : Text} (hwhole : Whole k (c :: vs))
    (hp : c :: vs ∈ punctuators)
    (hlongest : ∀ op ∈ operators, op <+: c :: (vs ++ rest) → op.length ≤ (c :: vs).length) :
    matchToken k c (vs ++ rest) = some vs.length := by
  rw [← hwhole, matchToken_operator hp rfl, matchToken_operator hp rfl]
  have hfind : (operators.find? fun op => op.isPrefixOf (c :: (vs ++ rest))) =
      operators.find? fun op => op.isPrefixOf (c :: vs) := by
    refine List.find?_congr fun op hop => ?_
    rw [Bool.eq_iff_iff, List.isPrefixOf_iff_prefix, List.isPrefixOf_iff_prefix]
    constructor
    · intro hpre
      exact List.prefix_of_prefix_length_le hpre (List.prefix_append (c :: vs) rest)
        (hlongest op hop hpre)
    · intro hpre
      exact hpre.trans (List.prefix_append (c :: vs) rest)
  rw [hfind]

end Tokens

end Concurrency
end Fragma
