import Mathlib
import Fragma.Concurrency.Tokens

/-!
# The token comparison of the pilot and the source gate

What the tokens of `c_tokens` say about those of `tokenize`.  Directive marks, numbers that
are no integers, encoding prefixes, the operators `<<=`, `>>=` and `##`, header names and line
splices are where the two differ, by the pattern and by the pilot's own way with comments and
lines.  On a source without line splices all of whose tokens the pattern keeps whole, the pilot
finds the very tokens of the source gate, with a `#` for the mark in front of a directive.

* `unmarked`: what the pilot sees of a token.
* `findTokens_run`: the run of the lexer and the pattern on the surface.
* `cTokens_of_lex`, `tokenize_of_cTokens`: the comparison.
-/

namespace Fragma
namespace Concurrency

open Provenance Scan Python

/-! ## Where the lexer's tokens end -/

/-- The first punctuator that the text starts with is the longest one. -/
theorem punctuatorAt_longest {cs p q : Text} (h : punctuatorAt cs = some p) (hq : q ∈ punctuators)
    (hpre : q <+: cs) : q.length ≤ p.length := by
  have hsorted : punctuators.Pairwise fun a b => b.length ≤ a.length := by decide
  obtain ⟨-, as, bs, hsplit, has⟩ := List.find?_eq_some_iff_append.mp h
  rw [hsplit, List.mem_append, List.mem_cons] at hq
  rw [hsplit, List.pairwise_append, List.pairwise_cons] at hsorted
  rcases hq with hq | rfl | hq
  · have hno := has q hq
    rw [List.isPrefixOf_iff_prefix.mpr hpre] at hno
    exact absurd hno (by simp)
  · exact le_refl _
  · exact hsorted.2.1.1 q hq

/-- A number is read to its end. -/
theorem numberTail_stop (cs : Text) :
    ∀ x ∈ (cs.drop (numberTail cs)).head?, isIdentifierChar x = false := by
  fun_induction numberTail cs with
  | case1 e s cs _ ih => exact ih
  | case2 e s cs _ _ ih => exact ih
  | case3 e s cs _ hnumber =>
    intro x hx
    obtain rfl : e = x := by simpa using hx
    rw [isNumberChar, Bool.or_eq_true, not_or] at hnumber
    simpa using hnumber.1
  | case4 => exact fun x hx => absurd hx (by simp)
  | case5 e hnumber =>
    intro x hx
    obtain rfl : e = x := by simpa using hx
    rw [isNumberChar, Bool.or_eq_true, not_or] at hnumber
    simpa using hnumber.1
  | case6 => exact fun x hx => absurd hx (by simp)

/-- A word is read to its end. -/
theorem wordAt_stop {cs : Text} {n : ℕ} (h : wordAt cs = some n) :
    ∀ x ∈ (cs.drop n).head?, isIdentifierChar x = false := by
  cases cs with
  | nil => exact absurd h (by simp [wordAt])
  | cons c cs =>
    rw [wordAt_cons] at h
    split_ifs at h with h1 h2
    · obtain rfl := Option.some.inj h
      intro x hx
      have hdrop : cs.drop (cs.takeWhile isIdentifierChar).length = cs.dropWhile isIdentifierChar := by
        conv_lhs => rw [← List.takeWhile_append_dropWhile (p := isIdentifierChar) (l := cs)]
        rw [List.drop_left' (by rw [List.takeWhile_append_dropWhile])]
      rw [Nat.add_comm, List.drop_succ_cons, hdrop] at hx
      have hnot := List.head?_dropWhile_not isIdentifierChar cs
      rw [Option.mem_def.mp hx] at hnot
      simpa using hnot
    · obtain rfl := Option.some.inj h
      rw [Nat.add_comm, List.drop_succ_cons]
      exact numberTail_stop cs
    · cases cs with
      | nil => exact absurd h (by simp)
      | cons d ds =>
        dsimp only at h
        split_ifs at h
        obtain rfl := Option.some.inj h
        rw [Nat.add_comm, List.drop_succ_cons, List.drop_succ_cons]
        exact numberTail_stop ds

/-! ## One unit -/

/-- What the pilot sees of a token: the marks of directives and macros are not in the text. -/
def unmarked (t : Token) : Option Text :=
  if t.kind = .boundary then if t.value = ppStart then some ['#'] else none else some t.value

/-- What the pilot sees of a unit. -/
def spelled : Lexeme → List Text
  | .blank _ => []
  | .newline => []
  | .lineComment _ => []
  | .blockComment _ => []
  | .directiveMark => [['#']]
  | .header body => ['<' :: (body ++ ['>'])]
  | .literal text => [text]
  | .word text => [text]
  | .punctuator text => [text]

/-- A token that `add` makes of ordinary text is no marker. -/
theorem token_kind (s : LexState) (value : Text) (stop : ℕ) :
    (s.token value stop .c).kind ≠ .boundary := by
  cases hd : s.directive with
  | true => simp [LexState.token, hd]
  | false => simp [LexState.token, hd]

theorem unmarked_put (s : LexState) (value : Text) :
    (s.put value).1.filterMap unmarked = [value] := by
  rw [LexState.put, List.filterMap_cons, unmarked, if_neg (token_kind s value _)]
  rfl

theorem advance_punctuator (s : LexState) (text : Text) :
    s.advance (.punctuator text) =
      if s.opensMacro ∧ text = ['('] then
        (s.token macroFunction s.i .boundary ::
          ((s.noted (s.token macroFunction s.i .boundary)).put text).1,
          ((s.noted (s.token macroFunction s.i .boundary)).put text).2)
      else s.put text := rfl

theorem unmarked_advance (s : LexState) (lexeme : Lexeme) :
    (s.advance lexeme).1.filterMap unmarked = spelled lexeme := by
  cases lexeme with
  | blank c => rfl
  | newline =>
    unfold LexState.advance
    split_ifs
    · rfl
    · rfl
  | lineComment text => rfl
  | blockComment body => rfl
  | directiveMark => rfl
  | header body => exact unmarked_put s _
  | literal text => exact unmarked_put s _
  | word text => exact unmarked_put s _
  | punctuator text =>
    rw [advance_punctuator]
    split_ifs
    · have hmark : unmarked (s.token macroFunction s.i .boundary) = none := by
        have hkind : (s.token macroFunction s.i .boundary).kind = .boundary := by
          simp [LexState.token]
        have hvalue : (s.token macroFunction s.i .boundary).value ≠ ppStart :=
          show macroFunction ≠ ppStart by decide
        rw [unmarked, if_pos hkind, if_neg hvalue]
      rw [List.filterMap_cons, hmark]
      exact unmarked_put _ _
    · exact unmarked_put s _

theorem unmarked_finish (s : LexState) : (lexMachine.finish s).filterMap unmarked = [] := by
  unfold lexMachine
  dsimp only
  split_ifs <;> rfl

/-- A unit that is a token adds one, with its spelling. -/
theorem exists_token (s : LexState) {lexeme : Lexeme} (h : lexeme.IsToken) :
    ∃ t ∈ (s.advance lexeme).1, t.kind ≠ .boundary ∧ t.value = lexeme.text := by
  have hput : ∀ (s : LexState) (value : Text),
      ∃ t ∈ (s.put value).1, t.kind ≠ .boundary ∧ t.value = value := by
    intro s value
    exact ⟨_, List.mem_singleton_self _, token_kind s value _, rfl⟩
  cases lexeme with
  | header body => exact hput s _
  | literal text => exact hput s _
  | word text => exact hput s _
  | punctuator text =>
    rw [advance_punctuator]
    split_ifs
    · obtain ⟨t, ht, hkind, hvalue⟩ := hput (s.noted (s.token macroFunction s.i .boundary)) text
      exact ⟨t, List.mem_cons_of_mem _ ht, hkind, hvalue⟩
    · exact hput s _
  | blank c => exact absurd h id
  | newline => exact absurd h id
  | lineComment text => exact absurd h id
  | blockComment body => exact absurd h id
  | directiveMark => exact absurd h id

/-- A header name is never whole: the pattern has no such operator. -/
theorem header_not_whole {k : Classes} (body : Text) : ¬ Whole k ('<' :: (body ++ ['>'])) := by
  have hops : ∀ op ∈ operators, op.head? = some '<' → op.getLast? ≠ some '>' := by decide
  intro hwhole
  have hmatch : matchToken k '<' (body ++ ['>']) = some (body ++ ['>']).length := hwhole
  rw [matchToken_operator (p := ['<']) (by decide) rfl] at hmatch
  split at hmatch
  · next op hfind =>
    have hpre : op <+: '<' :: (body ++ ['>']) := List.isPrefixOf_iff_prefix.mp (by
      have hsome := List.find?_some hfind
      exact hsome)
    have hmem := List.mem_of_find?_eq_some hfind
    have hlength : op.length = ('<' :: (body ++ ['>'])).length := by
      have hne : ∀ op ∈ operators, 2 ≤ op.length := by decide
      have h2 := hne op hmem
      have h3 := Option.some.inj hmatch
      rw [List.length_cons]
      omega
    have hop := hpre.eq_of_length hlength
    refine hops op hmem (by rw [hop]; rfl) ?_
    rw [hop, ← List.cons_append, List.getLast?_concat]
  · have h3 := Option.some.inj hmatch
    simp at h3

/-- A number that starts with its point is never whole. -/
theorem point_not_whole {k : Classes} {d : Char} {ds : Text} (hd : d.isDigit = true) :
    ¬ Whole k ('.' :: d :: ds) := by
  have hops : ∀ op ∈ operators, op.head? = some '.' → op = ['.', '.', '.'] := by decide
  intro hwhole
  have hmatch : matchToken k '.' (d :: ds) = some (d :: ds).length := hwhole
  rw [matchToken_operator (p := ['.']) (by decide) rfl] at hmatch
  split at hmatch
  · next op hfind =>
    have hpre : op <+: '.' :: d :: ds := List.isPrefixOf_iff_prefix.mp (by
      have hsome := List.find?_some hfind
      exact hsome)
    have hmem := List.mem_of_find?_eq_some hfind
    have hhead : op.head? = some '.' := by
      have hne : ∀ op ∈ operators, op ≠ [] := by decide
      cases op with
      | nil => exact absurd rfl (hne _ hmem)
      | cons x op => rw [(List.cons_prefix_cons.mp hpre).1]; rfl
    rw [hops op hmem hhead] at hpre
    have hpoint : '.' = d := (List.cons_prefix_cons.mp (List.cons_prefix_cons.mp hpre).2).1
    rw [← hpoint] at hd
    exact absurd hd (by decide)
  · have h3 := Option.some.inj hmatch
    simp at h3

theorem ascii_of_isIdentifierChar {c : Char} (h : isIdentifierChar c = true) : c.toNat < 128 := by
  have hval : c.toNat = c.val.toNat := rfl
  simp only [isIdentifierChar, Char.isAlphanum, Char.isAlpha, Char.isUpper, Char.isLower,
    Char.isDigit, Bool.or_eq_true, Bool.and_eq_true, decide_eq_true_eq, ge_iff_le,
    UInt32.le_iff_toNat_le] at h
  rcases h with ((h | h) | h) | h
  · rw [hval]
    exact lt_of_le_of_lt h.2 (by decide)
  · rw [hval]
    exact lt_of_le_of_lt h.2 (by decide)
  · rw [hval]
    exact lt_of_le_of_lt h.2 (by decide)
  · rw [h]
    decide

/-- What a word starts with. -/
theorem wordAt_head {c : Char} {cs : Text} {n : ℕ} (h : wordAt (c :: cs) = some n) :
    isIdentifierStart c = true ∨ c.isDigit = true ∨
      c = '.' ∧ ∃ d ds, cs = d :: ds ∧ d.isDigit = true := by
  rw [wordAt_cons] at h
  split_ifs at h with h1 h2
  · exact .inl h1
  · exact .inr (.inl h2)
  · cases cs with
    | nil => exact absurd h (by simp)
    | cons d ds =>
      dsimp only at h
      split_ifs at h with h3
      exact .inr (.inr ⟨h3.1, d, ds, rfl, h3.2⟩)

theorem isIdentifierChar_of_start {c : Char} (h : isIdentifierStart c = true ∨ c.isDigit = true) :
    isIdentifierChar c = true := by
  rw [isIdentifierChar, Char.isAlphanum]
  rcases h with h | h
  · rw [isIdentifierStart, Bool.or_eq_true] at h
    rcases h with h | h <;> simp [h]
  · simp [h]

/-- The character in front of the lexer is one of ASCII. -/
theorem Scanned.ascii {b h : Bool} {cs rest : Text} {lexeme : Lexeme}
    (hs : Scanned b h cs lexeme rest) : ∀ x ∈ cs.head?, x.toNat < 128 := by
  intro x hx
  cases hs with
  | @blank c _ hc =>
    obtain rfl : c = x := Option.some.inj hx
    have hall : [' ', '\t', '\x0b', '\x0c'].all (fun c => c.toNat < 128) = true := by decide
    rw [Provenance.isBlank, decide_eq_true_eq] at hc
    simpa using List.all_eq_true.mp hall c hc
  | newline =>
    obtain rfl := Option.some.inj hx
    decide
  | lineComment =>
    obtain rfl := Option.some.inj hx
    decide
  | blockComment =>
    obtain rfl := Option.some.inj hx
    decide
  | directiveMark =>
    obtain rfl := Option.some.inj hx
    decide
  | header =>
    obtain rfl := Option.some.inj hx
    decide
  | @literal encoding body _ quote henc hquote =>
    cases encoding with
    | nil =>
      obtain rfl : quote = x := Option.some.inj hx
      have hall : quotes.all (fun c => c.toNat < 128) = true := by decide
      simpa using List.all_eq_true.mp hall quote (mem_quotes.mpr hquote)
    | cons e es =>
      obtain rfl : e = x := Option.some.inj hx
      have hall : encodings.all (fun e => e.all fun c => c.toNat < 128) = true := by decide
      have := List.all_eq_true.mp (List.all_eq_true.mp hall _ henc) e List.mem_cons_self
      simpa using this
  | @word _ n _ hword =>
    cases cs with
    | nil => exact absurd hx (by simp)
    | cons c cs =>
      obtain rfl : c = x := Option.some.inj hx
      rcases wordAt_head hword with hc | hc | ⟨rfl, -⟩
      · exact ascii_of_isIdentifierChar (isIdentifierChar_of_start (.inl hc))
      · exact ascii_of_isIdentifierChar (isIdentifierChar_of_start (.inr hc))
      · decide
  | @punctuator c ds p _ _ _ hp _ =>
    obtain rfl : c = x := Option.some.inj hx
    obtain ⟨hmem, r, hr⟩ := punctuatorAt_eq hp
    have hall : punctuators.all (fun p => p.all fun c => c.toNat < 128) = true := by decide
    cases p with
    | nil => exact absurd rfl (punctuators_ne_nil _ hmem)
    | cons y p =>
      obtain rfl : y = c := (List.cons.inj hr).1
      have := List.all_eq_true.mp (List.all_eq_true.mp hall _ hmem) y List.mem_cons_self
      simpa using this

/-! ## The pattern on the surface -/

section Run

variable {k : Classes}

/-- What is left behind a unit, up to the returns of the source: its first character. -/
theorem leftOver_rest {raw rest : Text} {ps : List Piece} (hsurface : Surface raw ps)
    (hraw : LineEnds raw rest) {x : Char} (hx : (ps.flatMap leftOver).head? = some x) :
    x = ' ' ∨ x = '\r' ∨ rest.head? = some x :=
  (leftOver_head hsurface hx).imp id hraw.head

/-- Behind a word the pilot sees no character of a word either. -/
theorem endsWord_rest {raw rest : Text} {ps : List Piece} (hsurface : Surface raw ps)
    (hraw : LineEnds raw rest) (hascii : ∀ x ∈ rest.head?, x.toNat < 128)
    (hstop : ∀ x ∈ rest.head?, isIdentifierChar x = false) :
    EndsWord k (ps.flatMap leftOver) := by
  have hfalse : ∀ x : Char, x.toNat < 128 → isIdentifierChar x = false →
      isWord k.isAlnum x = false ∧ k.isDecimal x = false := by
    intro x hx hchar
    rw [isIdentifierChar, Bool.or_eq_false_iff] at hchar
    refine ⟨?_, ?_⟩
    · rw [isWord, k.alnum_ascii x hx, hchar.1, hchar.2]
      rfl
    · rw [k.decimal_ascii x hx]
      rw [Char.isAlphanum, Bool.or_eq_false_iff] at hchar
      exact hchar.1.2
  intro x hx
  rcases leftOver_rest hsurface hraw hx with rfl | rfl | hhead
  · exact hfalse _ (by decide) (by decide)
  · exact hfalse _ (by decide) (by decide)
  · exact hfalse x (hascii x hhead) (hstop x hhead)

/-- The start of a line is written the same way in the normal form. -/
theorem prefix_of_lineEnds {raw rest q : Text} (hraw : LineEnds raw rest)
    (hq : ∀ x ∈ q, x ≠ '\r' ∧ x ≠ '\n') (hpre : q <+: raw) : q <+: rest := by
  induction hraw generalizing q with
  | nil => exact hpre
  | crlf _ _ =>
    cases q with
    | nil => exact List.nil_prefix
    | cons x q => exact absurd (List.cons_prefix_cons.mp hpre).1 (hq x List.mem_cons_self).1
  | char _ _ ih =>
    cases q with
    | nil => exact List.nil_prefix
    | cons x q =>
      obtain ⟨heq, hpre'⟩ := List.cons_prefix_cons.mp hpre
      exact List.cons_prefix_cons.mpr ⟨heq, ih (fun y hy => hq y (List.mem_cons_of_mem _ hy)) hpre'⟩

/-- An operator that the pilot could see behind a punctuator is there for the lexer. -/
theorem operator_of_leftOver {raw rest p op : Text} {ps : List Piece} (hsurface : Surface raw ps)
    (hraw : LineEnds raw rest) (hp : p ≠ []) (hop : op ∈ operators)
    (hpre : op <+: p ++ ps.flatMap leftOver) (hlong : p.length ≤ op.length) : op <+: p ++ rest := by
  have hall : operators.all (fun op => op.tail.all fun x =>
      x ∉ ' ' :: quotes ∧ x ≠ '\r' ∧ x ≠ '\n') = true := by decide
  have htail : ∀ op ∈ operators, ∀ x ∈ op.tail, x ∉ ' ' :: quotes ∧ x ≠ '\r' ∧ x ≠ '\n' :=
    fun op hop x hx => of_decide_eq_true (List.all_eq_true.mp (List.all_eq_true.mp hall op hop) x hx)
  have hcut : p <+: op :=
    List.prefix_of_prefix_length_le (List.prefix_append _ _) hpre hlong
  obtain ⟨q, rfl⟩ := hcut
  rw [List.prefix_append_right_inj] at hpre ⊢
  have hq : ∀ x ∈ q, x ∉ ' ' :: quotes ∧ x ≠ '\r' ∧ x ≠ '\n' := by
    intro x hx
    refine htail _ hop x ?_
    rw [List.tail_append_of_ne_nil hp]
    exact List.mem_append_right _ hx
  exact prefix_of_lineEnds hraw (fun x hx => (hq x hx).2)
    (prefix_of_leftOver hsurface (fun x hx => (hq x hx).1) hpre)

/-- The mark of a directive is a token of its own for the pilot. -/
theorem matchToken_mark (cs : Text) : matchToken k '#' cs = some 0 := by
  have hops : ∀ op ∈ operators, op ≠ [] ∧ op.head? ≠ some '#' := by decide
  have hfind : (operators.find? fun op => op.isPrefixOf ('#' :: cs)) = none := by
    rw [List.find?_eq_none]
    intro op hop hpre
    rw [List.isPrefixOf_iff_prefix] at hpre
    cases op with
    | nil => exact (hops _ hop).1 rfl
    | cons x op => exact (hops _ hop).2 (by rw [(List.cons_prefix_cons.mp hpre).1]; rfl)
  rw [matchToken_operator (p := ['#']) (by decide) rfl, hfind]

/-- **One unit**: what the pattern finds in its pieces, whatever follows. -/
theorem findTokens_unit {b h : Bool} {cs rest raw : Text} {lexeme : Lexeme} {ps qs : List Piece}
    (hs : Scanned b h cs lexeme rest) (hcovers : Covers lexeme ps) (hraw : LineEnds raw rest)
    (hsurface : Surface raw qs) (hascii : ∀ x ∈ rest.head?, x.toNat < 128)
    (hwhole : lexeme.IsToken → Whole k lexeme.text) :
    findTokens k (ps.flatMap leftOver ++ qs.flatMap leftOver) =
      (findTokens k (qs.flatMap leftOver)).map (spelled lexeme ++ ·) := by
  have hskip : ∀ r : Except C2Error (List Text), r = r.map ([] ++ ·) := by
    intro r
    cases r <;> rfl
  have hcodes : ∀ u : Text, (u.map Piece.code).flatMap leftOver = u := by
    intro u
    induction u with
    | nil => rfl
    | cons c u ih => rw [List.map_cons, List.flatMap_cons, ih]; rfl
  cases hcovers with
  | blank c =>
    cases hs with
    | blank hc =>
      have hmem : c ∈ blanks := by
        rw [Provenance.isBlank, decide_eq_true_eq] at hc
        exact List.mem_append_left ['\n', '\r'] hc
      exact (findTokens_none k (matchToken_blank hmem _)).trans (hskip _)
  | newline => exact (findTokens_none k (matchToken_blank (by decide) _)).trans (hskip _)
  | returned =>
    have hends : ['\r', '\n'].all (· ∈ blanks) = true := by decide
    exact (findTokens_blanks fun c hc =>
      of_decide_eq_true (List.all_eq_true.mp hends c hc)).trans (hskip _)
  | lineComment _ => exact (findTokens_none k (matchToken_blank (by decide) _)).trans (hskip _)
  | @blockComment body raw' _ =>
    have hblank : ∀ c ∈ (' ' :: raw'.filter (· = '\n')), c ∈ blanks := by
      intro c hc
      rcases List.mem_cons.mp hc with rfl | hc
      · decide
      · have hnl : c = '\n' := by simpa using (List.mem_filter.mp hc).2
        rw [hnl]
        decide
    rw [List.flatMap_singleton]
    exact (findTokens_blanks hblank).trans (hskip _)
  | directiveMark =>
    exact findTokens_some k (matchToken_mark _)
  | header body => exact absurd (hwhole trivial) (header_not_whole body)
  | @literal encoding body quote henc hquote hbody hnl =>
    obtain rfl := encoding_eq_nil henc hquote (hwhole trivial)
    have hmatch := matchToken_literal (k := k) hquote hbody hnl (qs.flatMap leftOver)
    have htext : ([].map Piece.code ++ [Piece.literal quote body]).flatMap leftOver ++
        qs.flatMap leftOver = quote :: (body ++ quote :: qs.flatMap leftOver) := by
      simp [leftOver]
    rw [htext, findTokens_some k hmatch]
    have htake : (body ++ quote :: qs.flatMap leftOver).take (body.length + 1) = body ++ [quote] := by
      rw [List.take_append]
      simp
    have hdrop : (body ++ quote :: qs.flatMap leftOver).drop (body.length + 1) =
        qs.flatMap leftOver := by
      rw [List.drop_append]
      simp
    rw [htake, hdrop]
    rfl
  | word text =>
    rw [hcodes]
    cases hs with
    | @word _ n hstart hword =>
      have hpos := wordAt_pos hword
      cases cs with
      | nil => exact absurd hword (by simp [wordAt])
      | cons c cs =>
        obtain ⟨m, rfl⟩ : ∃ m, n = m + 1 := ⟨n - 1, by omega⟩
        have hwhole' : Whole k (c :: cs.take m) := hwhole trivial
        have hstop : EndsWord k (qs.flatMap leftOver) :=
          endsWord_rest hsurface hraw hascii (wordAt_stop hword)
        have hc : isIdentifierStart c = true ∨ c.isDigit = true := by
          rcases wordAt_head hword with hc | hc | ⟨rfl, d, ds, rfl, hd⟩
          · exact .inl hc
          · exact .inr hc
          · cases m with
            | zero =>
              -- a number that starts with its point has a digit behind it
              rw [wordAt_cons, if_neg (by decide), if_neg (by decide)] at hword
              dsimp only at hword
              rw [if_pos ⟨rfl, hd⟩] at hword
              have := Option.some.inj hword
              omega
            | succ m => exact absurd hwhole' (point_not_whole hd)
        have hmatch := matchToken_word hwhole' hc hstop
        rw [List.take_succ_cons, List.cons_append, findTokens_some k hmatch, List.take_left,
          List.drop_left]
        rfl
  | punctuator text =>
    rw [hcodes]
    cases hs with
    | @punctuator c ds _ hcomment hstart hword hp hdigraph =>
      obtain ⟨hmem, r, hr⟩ := punctuatorAt_eq hp
      have hdrop : (c :: ds).drop text.length = r := by rw [← hr, List.drop_left]
      rw [hdrop] at hraw hascii
      cases text with
      | nil => exact absurd rfl (punctuators_ne_nil _ hmem)
      | cons y vs =>
        have hsub : ∀ op ∈ operators, op ∈ punctuators := by decide
        have hlongest : ∀ op ∈ operators, op <+: y :: (vs ++ qs.flatMap leftOver) →
            op.length ≤ (y :: vs).length := by
          intro op hop hpre
          by_contra hlong
          have hthere := operator_of_leftOver (p := y :: vs) hsurface hraw (by simp) hop hpre
            (by omega)
          rw [hr] at hthere
          exact hlong (punctuatorAt_longest hp (hsub op hop) hthere)
        have hmatch := matchToken_punctuator (hwhole trivial) hmem hlongest
        rw [List.cons_append, findTokens_some k hmatch, List.take_left, List.drop_left]
        rfl

/-- **The run of the lexer and the pattern on the surface** find the same tokens. -/
theorem findTokens_run (s : LexState) (cs : Text) (ls : List Lexeme)
    (h : lexemeMachine.run s cs = .ok ls) (hpair : ¬ linePair <:+: cs)
    (hwhole : ∀ t ∈ s.replay ls, t.kind ≠ .boundary → Whole k t.value) {raw : Text}
    (hraw : LineEnds raw cs) :
    ∃ ps, Surface raw ps ∧
      findTokens k (ps.flatMap leftOver) = .ok ((s.replay ls).filterMap unmarked) := by
  refine (lexemeMachine.run_induction (P := fun s cs ls => (∀ x ∈ cs.head?, x.toNat < 128) ∧
    (¬ linePair <:+: cs → (∀ t ∈ s.replay ls, t.kind ≠ .boundary → Whole k t.value) →
      ∀ raw, LineEnds raw cs → ∃ ps, Surface raw ps ∧
        findTokens k (ps.flatMap leftOver) = .ok ((s.replay ls).filterMap unmarked)))
    ?_ ?_ s cs ls h).2 hpair hwhole raw hraw
  · intro s
    refine ⟨fun x hx => absurd hx (by simp), fun _ _ raw hraw => ?_⟩
    cases hraw
    refine ⟨[], .nil, ?_⟩
    show findTokens k [] = .ok ((lexMachine.finish s).filterMap unmarked)
    rw [unmarked_finish]
    rfl
  · rintro s a as out s' rest later hstep ⟨hascii, ih⟩
    obtain ⟨lexeme, hscan, rfl, rfl⟩ := lexemeMachine_step hstep
    have hscanned := scanned_of_scan hscan
    refine ⟨Scanned.ascii hscanned, fun hpair hwhole raw hraw => ?_⟩
    -- the unit's own token is whole, and so are the later ones
    have hunit : lexeme.IsToken → Whole k lexeme.text := by
      intro htoken
      obtain ⟨t, ht, hkind, hvalue⟩ := exists_token s htoken
      rw [← hvalue]
      exact hwhole t (List.mem_append_left _ ht) hkind
    have hplain : ∀ body, lexeme = .header body → PlainHeader body := by
      rintro body rfl
      exact absurd (hunit trivial) (header_not_whole body)
    obtain ⟨ps, raw', hcovers, hrest, hsurface⟩ := exists_covers hscanned hraw hpair hplain
    have hsuffix : rest <:+: a :: as := ((scan_suffix hscan).trans (List.suffix_cons a as)).isInfix
    obtain ⟨qs, hqs, hfound⟩ := ih (fun hinside => hpair (hinside.trans hsuffix))
      (fun t ht => hwhole t (List.mem_append_right _ ht)) raw' hrest
    refine ⟨ps ++ qs, hsurface _ hqs, ?_⟩
    rw [List.flatMap_append, findTokens_unit hscanned hcovers hrest hqs hascii hunit, hfound,
      List.singleton_append, LexState.replay_cons, List.filterMap_append, unmarked_advance]
    rfl

/-! ## The comparison -/

/-- **Where the pattern keeps every token whole, the pilot sees the tokens of the source
gate.** -/
theorem cTokens_of_lex {source : Text} {tokens : List Token} (h : lex source = .ok tokens)
    (hsource : Unspliced source)
    (hwhole : ∀ t ∈ tokens, t.kind ≠ .boundary → Whole k t.value) :
    cTokens k source = .ok (tokens.filterMap unmarked) := by
  obtain ⟨ls, hls, rfl⟩ := lexemes_of_lex h
  have htext : spliced source = normalise source := splice_eq_self hsource.splice
  rw [lexemes, htext] at hls
  obtain ⟨ps, hsurface, hfound⟩ := findTokens_run _ _ _ hls hsource.splice hwhole
    hsource.returns.lineEnds
  rw [cTokens, stripComments, stripFrom_surface hsurface]
  exact hfound

/-- **The token comparison of the pilot is as strong as the source gate** on sources without
line splices whose tokens the pattern keeps whole: equal tokens of the pilot are equal tokens
of the gate, up to the marks of directives, and equal altogether where there is no directive. -/
theorem tokenize_of_cTokens {a b : Text} {ta tb : List Token} (ha : lex a = .ok ta)
    (hb : lex b = .ok tb) (hua : Unspliced a) (hub : Unspliced b)
    (hwa : ∀ t ∈ ta, t.kind ≠ .boundary → Whole k t.value)
    (hwb : ∀ t ∈ tb, t.kind ≠ .boundary → Whole k t.value)
    (heq : cTokens k a = cTokens k b) :
    ta.filterMap unmarked = tb.filterMap unmarked ∧
      ((∀ t ∈ ta ++ tb, t.kind ≠ .boundary) → tokenize a = tokenize b) := by
  rw [cTokens_of_lex ha hua hwa, cTokens_of_lex hb hub hwb] at heq
  have hsame := Except.ok.inj heq
  refine ⟨hsame, fun hno => ?_⟩
  have hvalues : ∀ ts : List Token, (∀ t ∈ ts, t.kind ≠ .boundary) →
      ts.filterMap unmarked = ts.map Token.value := by
    intro ts hts
    induction ts with
    | nil => rfl
    | cons t ts ih =>
      rw [List.forall_mem_cons] at hts
      rw [List.filterMap_cons, unmarked, if_neg hts.1, ih hts.2]
      rfl
  rw [List.forall_mem_append] at hno
  rw [hvalues ta hno.1, hvalues tb hno.2] at hsame
  rw [tokenize, tokenize, ha, hb]
  exact congrArg Except.ok hsame

end Run

/-- The classes of ASCII. -/
def asciiClasses : Classes where
  isAlnum := Char.isAlphanum
  isDecimal := Char.isDigit
  alnum_ascii _ _ := rfl
  decimal_ascii _ _ := rfl

/-- The text is accepted, has no directive, and the pattern keeps its tokens whole. -/
def keptWhole (source : Text) : Bool :=
  match lex source with
  | .ok ts => ts.all fun t => t.kind ≠ .boundary && decide (Whole asciiClasses t.value)
  | .error _ => false

theorem exists_of_keptWhole {source : Text} (h : keptWhole source = true) :
    ∃ ts, lex source = .ok ts ∧ (∀ t ∈ ts, t.kind ≠ .boundary → Whole asciiClasses t.value) ∧
      ∀ t ∈ ts, t.kind ≠ .boundary := by
  unfold keptWhole at h
  split at h
  · next ts hlex =>
    have hall : ∀ t ∈ ts, t.kind ≠ .boundary ∧ Whole asciiClasses t.value := by
      simpa using h
    exact ⟨ts, hlex, fun t ht _ => (hall t ht).2, fun t ht => (hall t ht).1⟩
  · exact absurd h (by simp)

theorem tokenize_of_cTokens_literal :
    tokenize "int f(void) \x7b return \"//\"; \x7d".toList =
      tokenize "int f(void)\n\x7b return /* \" */ \"//\" ; \x7d".toList := by
  obtain ⟨ta, ha, hwa, hna⟩ := @exists_of_keptWhole
    "int f(void) \x7b return \"//\"; \x7d".toList (by decide +kernel)
  obtain ⟨tb, hb, hwb, hnb⟩ := @exists_of_keptWhole
    "int f(void)\n\x7b return /* \" */ \"//\" ; \x7d".toList (by decide +kernel)
  exact (tokenize_of_cTokens ha hb
    (unspliced_of_notMem (by decide +kernel) (by decide +kernel))
    (unspliced_of_notMem (by decide +kernel) (by decide +kernel)) hwa hwb
    (by decide +kernel)).2 (List.forall_mem_append.mpr ⟨hna, hnb⟩)

/-- The two texts are told apart by the source gate and not by the pilot. -/
def conflated (a b : Text) : Bool :=
  match tokenize a, tokenize b, cTokens asciiClasses a, cTokens asciiClasses b with
  | .ok va, .ok vb, .ok ca, .ok cb => va ≠ vb && ca = cb
  | _, _, _, _ => false

/-- The pilot does not see the end of a directive, the tokens that its pattern cuts, the name of
an included header, line splices, and the end of a line at a lone carriage return. -/
theorem cTokens_conflates :
    ([("#define A\nB", "#define A B"), ("return 1.5;", "return 1 . 5;"), ("a <<= b;", "a << = b;"),
      ("f(u8\"x\");", "f(u8 \"x\");"), ("#define A x##y\n", "#define A x# #y\n"),
      ("#include <a b>\n", "#include <a  b>\n"), ("in\\\nt x;", "in \\\nt x;"),
      ("x // y\rz", "x // y")].all fun p => conflated p.1.toList p.2.toList) = true := by
  decide +kernel

end Concurrency
end Fragma
