import Fragma.Provenance.FixedPoint
import Fragma.Scan.Surface

/-!
# The lexer and the surface of its text

What a source that the lexer accepts looks like to a scanner of its physical lines.  Without
line splices, and with every carriage return in front of a newline, the source is the text
that the lexer reads up to these returns, and each unit of the lexer covers pieces of the
surface: its comments are the comments, its literals the literals, and everything else is
code.  Only the name in an include directive may hide a quote or a comment opener.

* `Scanned`, `scanned_of_scan`: everything that `scan` can find, with what it checked.
* `LineEnds`: a text and what `normalise` makes of it.
* `Covers`, `exists_covers`: the pieces of one unit.
* `lexemeMachine`, `lexemes`: the units that the lexer goes through, comments included.
* `run_surface`, `lexemes_surface`: the surface of an accepted source.
-/

namespace Fragma
namespace Provenance

open Scan

/-! ## Everything that `scan` can find -/

/-- A unit stands in front of the lexer, with what follows it. -/
inductive Scanned (beginning awaitsHeader : Bool) : Text → Lexeme → Text → Prop where
  | blank {c : Char} {cs : Text} : isBlank c = true →
      Scanned beginning awaitsHeader (c :: cs) (.blank c) cs
  | newline {cs : Text} : Scanned beginning awaitsHeader ('\n' :: cs) .newline cs
  | lineComment {body rest : Text} : '\n' ∉ body → (∀ x ∈ rest.head?, x = '\n') →
      Scanned beginning awaitsHeader ('/' :: '/' :: (body ++ rest))
        (.lineComment ('/' :: '/' :: body)) rest
  | blockComment {body rest : Text} : ¬ commentEnd <:+: body ++ ['*'] →
      Scanned beginning awaitsHeader ('/' :: '*' :: (body ++ '*' :: '/' :: rest))
        (.blockComment body) rest
  | directiveMark {cs : Text} : beginning = true →
      Scanned beginning awaitsHeader ('#' :: cs) .directiveMark cs
  | header {body rest : Text} : awaitsHeader = true → '>' ∉ body → '\n' ∉ body →
      Scanned beginning awaitsHeader ('<' :: (body ++ '>' :: rest)) (.header body) rest
  | literal {encoding body rest : Text} {quote : Char} : encoding ∈ encodings →
      isQuote quote = true → literalBody quote (body ++ quote :: rest) = .ok (body, rest) →
      Scanned beginning awaitsHeader (encoding ++ quote :: (body ++ quote :: rest))
        (.literal (encoding ++ quote :: (body ++ [quote]))) rest
  | word {cs : Text} {n : ℕ} : literalStart cs = none → wordAt cs = some n →
      Scanned beginning awaitsHeader cs (.word (cs.take n)) (cs.drop n)
  | punctuator {c : Char} {cs p : Text} : ¬ OpensComment c cs → literalStart (c :: cs) = none →
      wordAt (c :: cs) = none → punctuatorAt (c :: cs) = some p → p ∉ digraphs →
      Scanned beginning awaitsHeader (c :: cs) (.punctuator p) ((c :: cs).drop p.length)

theorem scanned_of_tokenAt {b h : Bool} {c : Char} {cs rest : Text} {lexeme : Lexeme}
    (hcomment : ¬ OpensComment c cs) (hs : tokenAt c cs = .ok (lexeme, rest)) :
    Scanned b h (c :: cs) lexeme rest := by
  unfold tokenAt at hs
  split at hs
  · next encoding quote content hstart =>
    obtain ⟨htext, henc, hquote⟩ := literalStart_eq_some_iff.mp hstart
    split at hs
    · exact absurd hs (by simp)
    · next body rest' hbody =>
      split_ifs at hs
      obtain ⟨rfl, rfl⟩ := Prod.mk.inj (Except.ok.inj hs)
      have hcontent := literalBody_eq hbody
      rw [htext, hcontent]
      exact .literal henc hquote (hcontent ▸ hbody)
  · next hstart =>
    split at hs
    · next n hword =>
      obtain ⟨rfl, rfl⟩ := Prod.mk.inj (Except.ok.inj hs)
      exact .word hstart hword
    · next hword =>
      split at hs
      · exact absurd hs (by simp)
      · next p hp =>
        split_ifs at hs with hdigraph
        obtain ⟨rfl, rfl⟩ := Prod.mk.inj (Except.ok.inj hs)
        exact .punctuator hcomment hstart hword hp hdigraph

/-- **What `scan` finds**, with everything it checked on the way. -/
theorem scanned_of_scan {b d h : Bool} {c : Char} {cs rest : Text} {lexeme : Lexeme}
    (hs : scan b d h c cs = .ok (lexeme, rest)) : Scanned b h (c :: cs) lexeme rest := by
  unfold scan at hs
  split_ifs at hs with h1 h2 h3 h4 h5 h6 h7 h8
  · obtain ⟨rfl, rfl⟩ := Prod.mk.inj (Except.ok.inj hs)
    exact .blank h1
  · obtain ⟨rfl, rfl⟩ := Prod.mk.inj (Except.ok.inj hs)
    rw [h2]
    exact .newline
  · obtain ⟨rfl, rfl⟩ := Prod.mk.inj (Except.ok.inj hs)
    obtain ⟨rfl, hhead⟩ := h3
    obtain ⟨ds, rfl⟩ := List.head?_eq_some_iff.mp hhead
    rw [List.takeWhile_cons_of_pos (by decide), List.dropWhile_cons_of_pos (by decide)]
    have hsplit : ds.takeWhile (· ≠ '\n') ++ ds.dropWhile (· ≠ '\n') = ds :=
      List.takeWhile_append_dropWhile
    have hcomment := @Scanned.lineComment b h (ds.takeWhile (· ≠ '\n')) (ds.dropWhile (· ≠ '\n'))
      (fun hmem => by simpa using List.mem_takeWhile_imp hmem)
      fun x hx => head?_dropWhile_newline ds hx
    rwa [hsplit] at hcomment
  · split at hs
    · exact absurd hs (by simp)
    · next body rest' hclose =>
      obtain ⟨rfl, rfl⟩ := Prod.mk.inj (Except.ok.inj hs)
      obtain ⟨rfl, hhead⟩ := h4
      obtain ⟨ds, rfl⟩ := List.head?_eq_some_iff.mp hhead
      obtain ⟨htail, hno⟩ := closeComment_eq_some_iff.mp hclose
      rw [List.tail_cons] at htail
      rw [htail]
      exact .blockComment hno
  · obtain ⟨rfl, rfl⟩ := Prod.mk.inj (Except.ok.inj hs)
    rw [h5.2.resolve_right fun hp => h6 hp.1]
    exact .directiveMark h5.1
  · split at hs
    · exact absurd hs (by simp)
    · next body rest' hbody =>
      obtain ⟨rfl, rfl⟩ := Prod.mk.inj (Except.ok.inj hs)
      obtain ⟨rfl, hgt, hnl⟩ := headerBody_eq_some_iff.mp hbody
      rw [h8.2]
      exact .header h8.1 hgt hnl
  · refine scanned_of_tokenAt ?_ hs
    rintro ⟨rfl, hhead | hhead⟩
    · exact h3 ⟨rfl, hhead⟩
    · exact h4 ⟨rfl, hhead⟩

/-! ## Line endings -/

/-- A text and what `normalise` makes of it, when every carriage return of the text stands in
front of a newline. -/
inductive LineEnds : Text → Text → Prop where
  | nil : LineEnds [] []
  | crlf {raw cs : Text} : LineEnds raw cs → LineEnds ('\r' :: '\n' :: raw) ('\n' :: cs)
  | char {c : Char} {raw cs : Text} : c ≠ '\r' → LineEnds raw cs → LineEnds (c :: raw) (c :: cs)

/-- Every carriage return stands in front of a newline. -/
def PairedReturns (raw : Text) : Prop := ∀ a b, raw = a ++ '\r' :: b → b.head? = some '\n'

theorem PairedReturns.tail {c : Char} {raw : Text} (h : PairedReturns (c :: raw)) :
    PairedReturns raw := fun a b hraw => h (c :: a) b (by rw [hraw]; rfl)

theorem PairedReturns.lineEnds {raw : Text} (h : PairedReturns raw) :
    LineEnds raw (normalise raw) := by
  fun_induction normalise raw with
  | case1 cs ih => exact .crlf (ih h.tail.tail)
  | case2 cs hne _ =>
    obtain ⟨ds, rfl⟩ := List.head?_eq_some_iff.mp (h [] cs rfl)
    exact absurd rfl (hne ds)
  | case3 c cs _ hc ih => exact .char hc (ih h.tail)
  | case4 => exact .nil

namespace LineEnds

/-- The returns are what a text has besides. -/
theorem filter {raw cs : Text} (h : LineEnds raw cs) : raw.filter (· ≠ '\r') = cs := by
  induction h with
  | nil => rfl
  | crlf _ ih => simpa using ih
  | char hc _ ih => simpa [hc] using ih

/-- What has no newline was written the same way. -/
theorem of_append {x raw cs : Text} (hx : '\n' ∉ x) (h : LineEnds raw (x ++ cs)) :
    ∃ raw', raw = x ++ raw' ∧ LineEnds raw' cs := by
  induction x generalizing raw with
  | nil => exact ⟨raw, rfl, h⟩
  | cons c x ih =>
    rw [List.mem_cons, not_or] at hx
    cases h with
    | crlf => exact absurd rfl hx.1
    | char _ h =>
      obtain ⟨raw', rfl, hrest⟩ := ih hx.2 h
      exact ⟨raw', rfl, hrest⟩

/-- A text is cut where its normal form is. -/
theorem append {x raw cs : Text} (h : LineEnds raw (x ++ cs)) :
    ∃ u raw', raw = u ++ raw' ∧ LineEnds u x ∧ LineEnds raw' cs := by
  induction x generalizing raw with
  | nil => exact ⟨[], raw, rfl, .nil, h⟩
  | cons c x ih =>
    cases h with
    | crlf h =>
      obtain ⟨u, raw', rfl, hu, hrest⟩ := ih h
      exact ⟨'\r' :: '\n' :: u, raw', rfl, .crlf hu, hrest⟩
    | char hc h =>
      obtain ⟨u, raw', rfl, hu, hrest⟩ := ih h
      exact ⟨c :: u, raw', rfl, .char hc hu, hrest⟩

theorem concat {u x raw cs : Text} (hu : LineEnds u x) (h : LineEnds raw cs) :
    LineEnds (u ++ raw) (x ++ cs) := by
  induction hu with
  | nil => exact h
  | crlf _ ih => exact .crlf ih
  | char hc _ ih => exact .char hc ih

/-- The returns of a text are not those of its normal form. -/
theorem return_notMem {raw cs : Text} (h : LineEnds raw cs) : '\r' ∉ cs := by
  rw [← h.filter, List.mem_filter]
  exact fun hmem => absurd hmem.2 (by decide)

/-- The first characters of a text and of its normal form. -/
theorem head {raw cs : Text} (h : LineEnds raw cs) {x : Char} (hx : raw.head? = some x) :
    x = '\r' ∨ cs.head? = some x := by
  cases h with
  | nil => exact absurd hx (by simp)
  | crlf => exact Or.inl (Option.some.inj hx).symm
  | char => exact Or.inr hx

/-- A pair of neighbours that are no line ending was a pair before. -/
theorem infix_of_infix {raw cs : Text} {a b : Char} (h : LineEnds raw cs) (ha : a ≠ '\r')
    (ha' : a ≠ '\n') (hb : b ≠ '\r') (hpair : [a, b] <:+: raw) : [a, b] <:+: cs := by
  induction h with
  | nil => exact hpair
  | @crlf raw cs _ ih =>
    rcases List.infix_cons_iff.mp hpair with hp | hi
    · exact absurd (List.cons_prefix_cons.mp hp).1 ha
    rcases List.infix_cons_iff.mp hi with hp | hi
    · exact absurd (List.cons_prefix_cons.mp hp).1 ha'
    · exact (ih hi).trans (List.suffix_cons _ _).isInfix
  | @char c raw cs hc h ih =>
    rcases List.infix_cons_iff.mp hpair with hp | hi
    · obtain ⟨rfl, t, rfl⟩ := List.cons_prefix_cons.mp hp
      rcases h.head rfl with heq | hhead
      · exact absurd heq hb
      · obtain ⟨ds, rfl⟩ := List.head?_eq_some_iff.mp hhead
        exact ⟨[], ds, rfl⟩
    · exact (ih hi).trans (List.suffix_cons _ _).isInfix

end LineEnds

/-! ## The pieces of one unit -/

/-- A header name hides no quote and no comment opener. -/
def PlainHeader (body : Text) : Prop :=
  (∀ c ∈ body, c ∉ quotes) ∧ ¬ ['/', '/'] <:+: body ∧ ¬ ['/', '*'] <:+: body

/-- The pieces that a unit is made of. -/
inductive Covers : Lexeme → List Piece → Prop where
  | blank (c : Char) : Covers (.blank c) [.code c]
  | newline : Covers .newline [.code '\n']
  | returned : Covers .newline [.code '\r', .code '\n']
  | lineComment {body raw : Text} : raw.filter (· ≠ '\r') = body →
      Covers (.lineComment ('/' :: '/' :: body)) [.line raw]
  | blockComment {body raw : Text} : raw.filter (· ≠ '\r') = body →
      Covers (.blockComment body) [.block raw]
  | directiveMark : Covers .directiveMark [.code '#']
  | header (body : Text) : Covers (.header body) (('<' :: (body ++ ['>'])).map .code)
  | literal {encoding body : Text} {quote : Char} : encoding ∈ encodings → quote ∈ quotes →
      Within quote body → '\n' ∉ body →
      Covers (.literal (encoding ++ quote :: (body ++ [quote])))
        (encoding.map .code ++ [.literal quote body])
  | word (text : Text) : Covers (.word text) (text.map .code)
  | punctuator (text : Text) : Covers (.punctuator text) (text.map .code)

theorem mem_quotes {c : Char} : c ∈ quotes ↔ isQuote c = true := by
  simp [quotes, isQuote]

theorem within_of_literalBody {quote : Char} {cs body rest : Text}
    (h : literalBody quote cs = .ok (body, rest)) : Within quote body := by
  fun_induction literalBody quote cs generalizing body rest with
  | case1 => exact absurd h (by simp)
  | case2 cs =>
    rw [← (Prod.mk.inj (Except.ok.inj h)).1]
    exact .nil
  | case3 => exact absurd h (by simp)
  | case4 => exact absurd h (by simp)
  | case5 d ds _ _ ih =>
    cases hr : literalBody quote ds with
    | error e => exact absurd h (by simp [hr, Except.map])
    | ok p =>
      rw [hr] at h
      rw [← (Prod.mk.inj (Except.ok.inj h)).1]
      exact .escape d (ih hr)
  | case6 c cs hq _ hb ih =>
    cases hr : literalBody quote cs with
    | error e => exact absurd h (by simp [hr, Except.map])
    | ok p =>
      rw [hr] at h
      rw [← (Prod.mk.inj (Except.ok.inj h)).1]
      exact .char hq hb (ih hr)

/-- Code without a slash is cut into its characters. -/
theorem codes_of_notMem {u cs : Text} {ps : List Piece} (hquote : ∀ c ∈ u, c ∉ quotes)
    (hslash : '/' ∉ u) (h : Surface cs ps) : Surface (u ++ cs) (u.map .code ++ ps) := by
  refine h.codes hquote ?_
  rintro a c b rfl ⟨rfl, -⟩
  exact hslash (by simp)

theorem word_codes {cs : Text} {n : ℕ} (h : wordAt cs = some n) :
    (∀ c ∈ cs.take n, c ∉ quotes) ∧ '/' ∉ cs.take n := by
  have hno : ∀ x ∈ cs.take n, x ∉ '/' :: quotes := by
    intro x hx hmem
    have hchar := wordAt_chars h x hx
    simp only [quotes, List.mem_cons, List.not_mem_nil, or_false] at hmem
    rcases hmem with rfl | rfl | rfl <;> exact absurd hchar (by decide)
  exact ⟨fun c hc hquote => hno c hc (List.mem_cons_of_mem _ hquote),
    fun hmem => hno _ hmem List.mem_cons_self⟩

theorem punctuators_codes : ∀ p ∈ punctuators, (∀ c ∈ p, c ∉ quotes ∧ c ≠ '\n') ∧
    ('/' ∈ p → p = ['/'] ∨ p = ['/', '=']) := by
  have hcodes : punctuators.all (fun p => p.all fun c => c ∉ quotes ∧ c ≠ '\n') = true := by decide
  have hslash : ∀ p ∈ punctuators, '/' ∈ p → p = ['/'] ∨ p = ['/', '='] := by decide
  exact fun p hp => ⟨fun c hc =>
    of_decide_eq_true (List.all_eq_true.mp (List.all_eq_true.mp hcodes p hp) c hc), hslash p hp⟩

theorem encodings_codes : ∀ e ∈ encodings, (∀ c ∈ e, c ∉ quotes) ∧ '/' ∉ e ∧ '\n' ∉ e := by
  have hcodes : encodings.all (fun e => e.all fun c => c ∉ quotes) = true := by decide
  have hrest : ∀ e ∈ encodings, '/' ∉ e ∧ '\n' ∉ e := by decide
  exact fun e he => ⟨fun c hc =>
    of_decide_eq_true (List.all_eq_true.mp (List.all_eq_true.mp hcodes e he) c hc), hrest e he⟩

/-- A punctuator is cut into its characters: a slash that is one opens no comment. -/
theorem punctuator_codes {c : Char} {ds p raw : Text} {cs : Text} {ps : List Piece}
    (hcomment : ¬ OpensComment c ds) (hp : p ∈ punctuators) (htext : c :: ds = p ++ cs)
    (hraw : LineEnds raw cs) (h : Surface raw ps) : Surface (p ++ raw) (p.map .code ++ ps) := by
  obtain ⟨hchars, hslash⟩ := punctuators_codes p hp
  by_cases hmem : '/' ∈ p
  · rcases hslash hmem with rfl | rfl
    · obtain ⟨rfl, rfl⟩ := List.cons.inj htext
      refine .code (by decide) ?_ h
      rintro ⟨-, hhead⟩
      refine hcomment ⟨rfl, hhead.imp (fun hx => ?_) fun hx => ?_⟩
      · exact (hraw.head hx).resolve_left (by decide)
      · exact (hraw.head hx).resolve_left (by decide)
    · refine .code (by decide) ?_ (.code (by decide) ?_ h)
      · rintro ⟨-, hhead | hhead⟩
        · exact absurd (Option.some.inj hhead) (by decide)
        · exact absurd (Option.some.inj hhead) (by decide)
      · rintro ⟨heq, -⟩
        exact absurd heq (by decide)
  · exact codes_of_notMem (fun x hx => (hchars x hx).1) hmem h

/-- A header name that hides nothing is cut into its characters. -/
theorem header_codes {body raw : Text} {ps : List Piece} (hplain : PlainHeader body)
    (h : Surface raw ps) :
    Surface ('<' :: (body ++ '>' :: raw)) (('<' :: (body ++ ['>'])).map .code ++ ps) := by
  obtain ⟨hquote, hline, hblock⟩ := hplain
  have hsplit : '<' :: (body ++ '>' :: raw) = ('<' :: (body ++ ['>'])) ++ raw := by simp
  rw [hsplit]
  refine h.codes ?_ ?_
  · intro c hc
    simp only [List.mem_cons, List.mem_append, List.not_mem_nil, or_false] at hc
    rcases hc with rfl | hc | rfl
    · decide
    · exact hquote c hc
    · decide
  · rintro a c b hcut ⟨rfl, hhead⟩
    -- the slash stands in the name, so what follows it is the name or the closing bracket
    cases a with
    | nil => exact absurd (List.cons.inj hcut).1 (by decide)
    | cons x a =>
      obtain ⟨-, hcut⟩ := List.cons.inj hcut
      rcases List.eq_nil_or_concat b with rfl | ⟨b, y, rfl⟩
      · exact absurd (List.append_inj_right' hcut rfl) (by decide)
      · have hcut' : body ++ ['>'] = (a ++ '/' :: b) ++ [y] := by simpa using hcut
        obtain ⟨hbody, hy⟩ := List.append_inj' hcut' rfl
        obtain rfl : '>' = y := by simpa using hy
        rw [List.concat_eq_append, List.append_assoc] at hhead
        cases b with
        | nil =>
          rcases hhead with hhead | hhead
          · exact absurd (Option.some.inj hhead) (by decide)
          · exact absurd (Option.some.inj hhead) (by decide)
        | cons z b =>
          rcases hhead with hhead | hhead
          · obtain rfl : z = '/' := by simpa using hhead
            exact hline ⟨a, b, by rw [hbody]; simp⟩
          · obtain rfl : z = '*' := by simpa using hhead
            exact hblock ⟨a, b, by rw [hbody]; simp⟩

/-- **A unit covers pieces of the surface**, whatever pieces follow it. -/
theorem exists_covers {b h : Bool} {cs rest raw : Text} {lexeme : Lexeme}
    (hs : Scanned b h cs lexeme rest) (hraw : LineEnds raw cs) (hpair : ¬ linePair <:+: cs)
    (hplain : ∀ body, lexeme = .header body → PlainHeader body) :
    ∃ ps raw', Covers lexeme ps ∧ LineEnds raw' rest ∧
      ∀ ps', Surface raw' ps' → Surface raw (ps ++ ps') := by
  cases hs with
  | @blank c _ hc =>
    have hsafe : c ∉ '\n' :: '/' :: quotes := by
      intro hmem
      simp only [quotes, List.mem_cons, List.not_mem_nil, or_false] at hmem
      rcases hmem with rfl | rfl | rfl | rfl <;> exact absurd hc (by decide)
    simp only [List.mem_cons, not_or] at hsafe
    obtain ⟨raw', rfl, hrest⟩ := LineEnds.of_append (x := [c]) (by simpa using Ne.symm hsafe.1) hraw
    exact ⟨_, raw', .blank c, hrest, fun _ h => .code hsafe.2.2 (fun ho => hsafe.2.1 ho.1) h⟩
  | newline =>
    cases hraw with
    | @crlf raw' _ hrest =>
      refine ⟨_, raw', .returned, hrest, fun _ h => ?_⟩
      exact .code (by decide) (fun ho => absurd ho.1 (by decide))
        (.code (by decide) (fun ho => absurd ho.1 (by decide)) h)
    | @char _ raw' _ _ hrest =>
      exact ⟨_, raw', .newline, hrest,
        fun _ h => .code (by decide) (fun ho => absurd ho.1 (by decide)) h⟩
  | @lineComment body _ hbody hhead =>
    obtain ⟨raw₁, rfl, hraw₁⟩ := LineEnds.of_append (x := '/' :: '/' :: body)
      (by simp [hbody]) hraw
    have hno : '\r' ∉ body := fun hmem => hraw.return_notMem (by simp [hmem])
    have hfilter : body.filter (· ≠ '\r') = body :=
      List.filter_eq_self.mpr fun x hx => by
        rw [decide_eq_true_eq]
        rintro rfl
        exact hno hx
    cases hraw₁ with
    | nil => exact ⟨_, [], .lineComment hfilter, .nil, fun _ h => .line hbody hhead h⟩
    | @crlf raw' rest hrest =>
      -- the return in front of the newline is still in the comment
      refine ⟨[.line (body ++ ['\r'])], '\n' :: raw', .lineComment ?_, .char (by decide) hrest,
        fun _ h => ?_⟩
      · rw [List.filter_append, hfilter]
        simp
      · have hnl : '\n' ∉ body ++ ['\r'] := by simp [hbody]
        have hline := Surface.line hnl (by simp) h
        simpa using hline
    | @char c raw' rest hc hrest =>
      obtain rfl := hhead c rfl
      exact ⟨_, '\n' :: raw', .lineComment hfilter, .char hc hrest, fun _ h => .line hbody (by simp) h⟩
  | @blockComment body _ hno =>
    have hsplit : '/' :: '*' :: (body ++ '*' :: '/' :: rest) =
        ['/', '*'] ++ (body ++ (['*', '/'] ++ rest)) := by simp
    rw [hsplit] at hraw
    obtain ⟨raw₁, rfl, hraw₁⟩ := LineEnds.of_append (by decide) hraw
    obtain ⟨u, raw₂, rfl, hu, hraw₂⟩ := hraw₁.append
    obtain ⟨raw', rfl, hrest⟩ := LineEnds.of_append (by decide) hraw₂
    refine ⟨_, raw', .blockComment hu.filter, hrest, fun _ h => .block ?_ h⟩
    have hstar : LineEnds (u ++ ['*']) (body ++ ['*']) := hu.concat (.char (by decide) .nil)
    exact fun hinfix => hno (hstar.infix_of_infix (by decide) (by decide) (by decide) hinfix)
  | directiveMark _ =>
    obtain ⟨raw', rfl, hrest⟩ := LineEnds.of_append (x := ['#']) (by decide) hraw
    exact ⟨_, raw', .directiveMark, hrest,
      fun _ h => .code (by decide) (fun ho => absurd ho.1 (by decide)) h⟩
  | @header body _ _ _ hnl =>
    have hsplit : '<' :: (body ++ '>' :: rest) = ('<' :: (body ++ ['>'])) ++ rest := by simp
    rw [hsplit] at hraw
    obtain ⟨raw', rfl, hrest⟩ := LineEnds.of_append (by simp [hnl]) hraw
    refine ⟨_, raw', .header body, hrest, fun _ h => ?_⟩
    have hcodes := header_codes (hplain body rfl) h
    simpa using hcodes
  | @literal encoding body _ quote henc hquote hbody =>
    have hinfix : body <:+: encoding ++ quote :: (body ++ quote :: rest) :=
      ⟨encoding ++ [quote], quote :: rest, by simp⟩
    have hnl : '\n' ∉ body := fun hmem =>
      hpair ((literalBody_newline hbody hmem).trans hinfix)
    have hq : '\n' ≠ quote := by
      rintro rfl
      exact absurd hquote (by decide)
    obtain ⟨hchars, hslash, hencnl⟩ := encodings_codes encoding henc
    have hsplit : encoding ++ quote :: (body ++ quote :: rest) =
        (encoding ++ quote :: (body ++ [quote])) ++ rest := by simp
    rw [hsplit] at hraw
    obtain ⟨raw', rfl, hrest⟩ := LineEnds.of_append (by simp [hencnl, hnl, hq]) hraw
    refine ⟨_, raw', .literal henc (mem_quotes.mpr hquote) (within_of_literalBody hbody) hnl, hrest,
      fun _ h => ?_⟩
    have hcodes := codes_of_notMem hchars hslash
      (.literal (mem_quotes.mpr hquote) (within_of_literalBody hbody) hnl h)
    simpa using hcodes
  | @word _ n _ hword =>
    obtain ⟨hchars, hslash⟩ := word_codes hword
    rw [← List.take_append_drop n cs] at hraw
    have hnl : '\n' ∉ cs.take n := fun hmem =>
      absurd (wordAt_chars hword _ hmem) (by decide)
    obtain ⟨raw', rfl, hrest⟩ := LineEnds.of_append hnl hraw
    exact ⟨_, raw', .word _, hrest, fun _ h => codes_of_notMem hchars hslash h⟩
  | @punctuator c ds p hcomment _ _ hp _ =>
    obtain ⟨hmem, r, hr⟩ := punctuatorAt_eq hp
    have hdrop : (c :: ds).drop p.length = r := by rw [← hr, List.drop_left]
    rw [hdrop]
    rw [← hr] at hraw
    obtain ⟨raw', rfl, hrest⟩ :=
      LineEnds.of_append (fun h => ((punctuators_codes p hmem).1 _ h).2 rfl) hraw
    exact ⟨_, raw', .punctuator p, hrest,
      fun _ h => punctuator_codes hcomment hmem hr.symm hrest h⟩

/-! ## The units of a run -/

/-- The loop of `_lex`, with the units it goes through in place of the tokens. -/
def lexemeMachine : Machine Char LexState Lexeme LexError where
  step s c cs :=
    match scan s.beginning s.directive s.awaitsHeader c cs with
    | .error reason => .error (.located reason s.line)
    | .ok (lexeme, rest) => .ok ([lexeme], (s.advance lexeme).2, rest)
  finish _ := []
  consumes := by
    intro s c cs out s' rest h
    split at h
    · exact absurd h (by simp)
    · next lexeme rest' hs =>
      simp only [Except.ok.injEq, Prod.mk.injEq] at h
      exact h.2.2 ▸ scan_suffix hs

/-- The units of a source. -/
def lexemes (source : Text) : Except LexError (List Lexeme) :=
  lexemeMachine.run LexState.initial (spliced source)

/-- The tokens that the units add from a state on. -/
def LexState.replay (s : LexState) : List Lexeme → List Token
  | [] => lexMachine.finish s
  | l :: ls => (s.advance l).1 ++ (s.advance l).2.replay ls

@[simp] theorem LexState.replay_nil (s : LexState) : s.replay [] = lexMachine.finish s := rfl

@[simp] theorem LexState.replay_cons (s : LexState) (l : Lexeme) (ls : List Lexeme) :
    s.replay (l :: ls) = (s.advance l).1 ++ (s.advance l).2.replay ls := rfl

theorem lexemeMachine_step {s s' : LexState} {c : Char} {cs rest : Text} {out : List Lexeme}
    (h : lexemeMachine.step s c cs = .ok (out, s', rest)) :
    ∃ lexeme, scan s.beginning s.directive s.awaitsHeader c cs = .ok (lexeme, rest) ∧
      out = [lexeme] ∧ s' = (s.advance lexeme).2 := by
  unfold lexemeMachine at h
  dsimp only at h
  split at h
  · exact absurd h (by simp)
  · next lexeme rest' hs =>
    simp only [Except.ok.injEq, Prod.mk.injEq] at h
    exact ⟨lexeme, h.2.2 ▸ hs, h.1.symm, h.2.1.symm⟩

/-- **The tokens of a run are what its units add.** -/
theorem run_lexemes (s : LexState) (cs : Text) (ts : List Token) (h : lexMachine.run s cs = .ok ts) :
    ∃ ls, lexemeMachine.run s cs = .ok ls ∧ ts = s.replay ls := by
  refine lexMachine.run_induction (P := fun s cs ts => ∃ ls, lexemeMachine.run s cs = .ok ls ∧
    ts = s.replay ls) (fun q => ⟨[], rfl, rfl⟩) ?_ s cs ts h
  rintro q a as out q' rest later hstep ⟨ls, hls, rfl⟩
  obtain ⟨lexeme, hscan, hadvance⟩ := lexMachine_step_eq_ok.mp hstep
  have hunit : lexemeMachine.step q a as = .ok ([lexeme], (q.advance lexeme).2, rest) := by
    unfold lexemeMachine
    dsimp only
    rw [hscan]
  refine ⟨lexeme :: ls, ?_, ?_⟩
  · rw [lexemeMachine.run_cons_of_step hunit, hadvance, hls]
    rfl
  · rw [LexState.replay, hadvance]

/-- The units of an accepted source, and the tokens they add. -/
theorem lexemes_of_lex {source : Text} {tokens : List Token} (h : lex source = .ok tokens) :
    ∃ ls, lexemes source = .ok ls ∧ tokens = LexState.initial.replay ls :=
  run_lexemes _ _ _ (lex_eq_ok_iff.mp h).2.2.1

/-- **The surface of what a run reads.** -/
theorem run_surface (s : LexState) (cs : Text) (ls : List Lexeme)
    (h : lexemeMachine.run s cs = .ok ls) (hpair : ¬ linePair <:+: cs)
    (hplain : ∀ body, .header body ∈ ls → PlainHeader body) {raw : Text} (hraw : LineEnds raw cs) :
    ∃ pss, List.Forall₂ Covers ls pss ∧ Surface raw pss.flatten := by
  refine lexemeMachine.run_induction (P := fun _ cs ls => ¬ linePair <:+: cs →
    (∀ body, Lexeme.header body ∈ ls → PlainHeader body) → ∀ raw, LineEnds raw cs →
      ∃ pss, List.Forall₂ Covers ls pss ∧ Surface raw pss.flatten) ?_ ?_ s cs ls h hpair hplain raw
    hraw
  · intro _ _ _ raw hraw
    cases hraw
    exact ⟨[], .nil, .nil⟩
  · intro q a as out q' rest later hstep ih hpair hplain raw hraw
    obtain ⟨lexeme, hscan, rfl, -⟩ := lexemeMachine_step hstep
    obtain ⟨ps, raw', hcovers, hrest, hsurface⟩ := exists_covers (scanned_of_scan hscan) hraw hpair
      fun body hbody => hplain body (by rw [hbody]; exact List.mem_cons_self)
    have hsuffix : rest <:+: a :: as := ((scan_suffix hscan).trans (List.suffix_cons a as)).isInfix
    obtain ⟨pss, hforall, hpss⟩ := ih (fun hinside => hpair (hinside.trans hsuffix))
      (fun body hbody => hplain body (List.mem_cons_of_mem _ hbody)) raw' hrest
    exact ⟨ps :: pss, .cons hcovers hforall, hsurface _ hpss⟩

/-- The source is read line by line as it stands: it has no line splices, and its carriage
returns belong to line endings. -/
structure Unspliced (source : Text) : Prop where
  splice : ¬ linePair <:+: normalise source
  returns : PairedReturns source

theorem unspliced_of_notMem {source : Text} (hpair : ¬ linePair <:+: source)
    (hreturn : '\r' ∉ source) : Unspliced source where
  splice := by rwa [normalise_eq_self hreturn]
  returns := by
    rintro a b rfl
    exact absurd (by simp) hreturn

/-- **The surface of an accepted source.** -/
theorem lexemes_surface {source : Text} {ls : List Lexeme} (h : lexemes source = .ok ls)
    (hsource : Unspliced source) (hplain : ∀ body, .header body ∈ ls → PlainHeader body) :
    ∃ pss, List.Forall₂ Covers ls pss ∧ Surface source pss.flatten := by
  have htext : spliced source = normalise source := splice_eq_self hsource.splice
  rw [lexemes, htext] at h
  exact run_surface _ _ _ h hsource.splice hplain hsource.returns.lineEnds

end Provenance
end Fragma
