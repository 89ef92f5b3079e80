import Fragma.Provenance.Rendering

/-!
# Lexing is a fixed point on its own output

A source is lexed, its tokens are written down, and that is lexed again.  Two kinds of
values do not survive this.  A literal or a header name can spell a trigraph that a
backslash-newline pair kept apart in the source, and the lexer refuses every text with a
trigraph.  A literal can have a backslash in front of a newline where the removal of
another pair brought the two together, and the rendering is spliced once more.

* `Shaped`, `run_shaped`: the characters of a value, and where it can have a
  newline or a question mark.
* `spliced_render`, `hasTrigraph_render`: the checks and rewritings that come first leave
  the rendering alone.
* `tokenize_fixedPoint`: **the rendering has the tokens of the source** if no value has such
  a pair or a trigraph; `keeps_of_fixedPoint`: only then.
-/

namespace Fragma
namespace Provenance

/-! ## What a value looks like -/

/-- A backslash in front of a newline. -/
def linePair : Text := ['\\', '\n']

/-- A newline in a value has a backslash in front of it, and a question mark is the end
of no longer value than itself. -/
structure Shaped (v : Text) : Prop where
  newline : '\n' ∈ v → linePair <:+: v
  question : v.getLast? = some '?' → v = ['?']

theorem literalBody_newline {quote : Char} {cs body rest : Text}
    (h : literalBody quote cs = .ok (body, rest)) (hmem : '\n' ∈ body) : linePair <:+: body := by
  fun_induction literalBody quote cs generalizing body rest with
  | case1 => exact absurd h (by simp)
  | case2 cs =>
    rw [← (Prod.mk.inj (Except.ok.inj h)).1] at hmem
    exact absurd hmem List.not_mem_nil
  | case3 => exact absurd h (by simp)
  | case4 => exact absurd h (by simp)
  | case5 d ds hq hn ih =>
    cases hr : literalBody quote ds with
    | error e =>
      rw [hr] at h
      exact absurd h (by simp [Except.map])
    | ok p =>
      rw [hr] at h
      obtain ⟨rfl, -⟩ := Prod.mk.inj (Except.ok.inj h)
      rcases List.mem_cons.mp hmem with heq | hmem
      · exact absurd heq (by decide)
      · rcases List.mem_cons.mp hmem with rfl | hmem
        · exact ⟨[], p.1, rfl⟩
        · exact (ih hr hmem).trans ((List.suffix_cons _ _).trans (List.suffix_cons _ _)).isInfix
  | case6 c cs hq hn hb ih =>
    cases hr : literalBody quote cs with
    | error e =>
      rw [hr] at h
      exact absurd h (by simp [Except.map])
    | ok p =>
      rw [hr] at h
      obtain ⟨rfl, -⟩ := Prod.mk.inj (Except.ok.inj h)
      rcases List.mem_cons.mp hmem with heq | hmem
      · exact absurd heq.symm hn
      · exact (ih hr hmem).trans (List.suffix_cons _ _).isInfix

theorem numberTail_chars (cs : Text) :
    ∀ x ∈ cs.take (numberTail cs), isNumberChar x = true ∨ x ∈ ['+', '-'] := by
  fun_induction numberTail cs with
  | case1 e s cs hsigned ih =>
    rw [isSignedExponent, Bool.and_eq_true, decide_eq_true_eq, decide_eq_true_eq] at hsigned
    have he : isNumberChar e = true := by
      have := hsigned.1
      simp only [List.mem_cons, List.not_mem_nil, or_false] at this
      rcases this with rfl | rfl | rfl | rfl <;> rfl
    rw [List.take_succ_cons, List.take_succ_cons, List.forall_mem_cons, List.forall_mem_cons]
    exact ⟨Or.inl he, Or.inr hsigned.2, ih⟩
  | case2 e s cs _ hnumber ih =>
    rw [List.take_succ_cons, List.forall_mem_cons]
    exact ⟨Or.inl hnumber, ih⟩
  | case3 => exact fun x hx => absurd hx (by simp)
  | case4 e hnumber => exact fun x hx => Or.inl (by simp at hx; rw [hx, hnumber])
  | case5 => exact fun x hx => absurd hx (by simp)
  | case6 => exact fun x hx => absurd hx (by simp)

/-- The characters of an identifier or a number. -/
theorem wordAt_chars {cs : Text} {n : ℕ} (h : wordAt cs = some n) :
    ∀ x ∈ cs.take n, isNumberChar x = true ∨ x ∈ ['+', '-'] := by
  have hident : ∀ x, isIdentifierChar x = true → isNumberChar x = true := fun x hx => by
    rw [isNumberChar, hx, Bool.true_or]
  cases cs with
  | nil => exact absurd h (by simp [wordAt])
  | cons c cs =>
    rw [wordAt_cons] at h
    split_ifs at h with h1 h2
    · obtain rfl := Option.some.inj h
      rw [Nat.add_comm, List.take_succ_cons, List.forall_mem_cons]
      refine ⟨Or.inl (hident c ?_), fun x hx => Or.inl (hident x ?_)⟩
      · rw [isIdentifierStart, Bool.or_eq_true] at h1
        rw [isIdentifierChar, Char.isAlphanum]
        rcases h1 with h1 | h1 <;> simp [h1]
      · rw [← List.prefix_iff_eq_take.mp (List.takeWhile_prefix _)] at hx
        exact List.mem_takeWhile_imp hx
    · obtain rfl := Option.some.inj h
      rw [Nat.add_comm, List.take_succ_cons, List.forall_mem_cons]
      refine ⟨Or.inl (hident c ?_), numberTail_chars cs⟩
      simp [isIdentifierChar, Char.isAlphanum, h2]
    · cases cs with
      | nil => exact absurd h (by simp)
      | cons d ds =>
        dsimp only at h
        split_ifs at h with h3
        obtain rfl := Option.some.inj h
        rw [Nat.add_comm, List.take_succ_cons, List.take_succ_cons, List.forall_mem_cons,
          List.forall_mem_cons]
        refine ⟨Or.inl (by rw [h3.1]; rfl), Or.inl (hident d ?_), numberTail_chars ds⟩
        simp [isIdentifierChar, Char.isAlphanum, h3.2]

theorem punctuators_shaped : ∀ p ∈ punctuators, '\n' ∉ p ∧ (p.getLast? = some '?' → p = ['?']) := by
  decide

theorem encodings_newline : ∀ e ∈ encodings, '\n' ∉ e := by decide

theorem shaped_literal {encoding body : Text} {quote : Char} (henc : encoding ∈ encodings)
    (hquote : isQuote quote = true) (hbody : '\n' ∈ body → linePair <:+: body) :
    Shaped (encoding ++ quote :: (body ++ [quote])) := by
  have hq : quote ≠ '\n' ∧ quote ≠ '?' := by
    constructor <;> rintro rfl <;> exact absurd hquote (by decide)
  have hinfix : body <:+: encoding ++ quote :: (body ++ [quote]) :=
    ⟨encoding ++ [quote], [quote], by simp⟩
  refine ⟨fun hmem => ?_, fun hlast => ?_⟩
  · rw [List.mem_append, List.mem_cons, List.mem_append, List.mem_singleton] at hmem
    rcases hmem with h | h | h | h
    · exact absurd h (encodings_newline encoding henc)
    · exact absurd h.symm hq.1
    · exact (hbody h).trans hinfix
    · exact absurd h.symm hq.1
  · rw [← List.cons_append, ← List.append_assoc, List.getLast?_concat, Option.some.injEq] at hlast
    exact absurd hlast hq.2

theorem shaped_word {cs : Text} {n : ℕ} (h : wordAt cs = some n) : Shaped (cs.take n) := by
  have hno : ∀ x, x = '\n' ∨ x = '?' → x ∉ cs.take n := by
    rintro x hx hmem
    rcases wordAt_chars h x hmem with hc | hc
    · rcases hx with rfl | rfl <;> exact absurd hc (by decide)
    · rcases hx with rfl | rfl <;> exact absurd hc (by decide)
  refine ⟨fun hmem => absurd hmem (hno _ (Or.inl rfl)), fun hlast => ?_⟩
  exact absurd (List.mem_of_getLast? hlast) (hno _ (Or.inr rfl))

/-- **What a token is spelled like.** -/
theorem scan_shaped {b d h : Bool} {c : Char} {cs rest : Text} {lexeme : Lexeme}
    (hs : scan b d h c cs = .ok (lexeme, rest)) (htoken : lexeme.IsToken) :
    Shaped lexeme.text := by
  unfold scan at hs
  split_ifs at hs with h1 h2 h3 h4 h5 h6 h7 h8
  · rw [← (Prod.mk.inj (Except.ok.inj hs)).1] at htoken
    exact absurd htoken id
  · rw [← (Prod.mk.inj (Except.ok.inj hs)).1] at htoken
    exact absurd htoken id
  · rw [← (Prod.mk.inj (Except.ok.inj hs)).1] at htoken
    exact absurd htoken id
  · split at hs
    · exact absurd hs (by simp)
    · rw [← (Prod.mk.inj (Except.ok.inj hs)).1] at htoken
      exact absurd htoken id
  · rw [← (Prod.mk.inj (Except.ok.inj hs)).1] at htoken
    exact absurd htoken id
  · split at hs
    · exact absurd hs (by simp)
    · next body rest' hbody =>
      obtain ⟨rfl, -⟩ := Prod.mk.inj (Except.ok.inj hs)
      obtain ⟨-, -, hnl⟩ := headerBody_eq_some_iff.mp hbody
      refine ⟨fun hmem => ?_, fun hlast => ?_⟩
      · simp only [Lexeme.text, List.mem_cons, List.mem_append, List.not_mem_nil, or_false] at hmem
        rcases hmem with h | h | h
        · exact absurd h (by decide)
        · exact absurd h hnl
        · exact absurd h (by decide)
      · rw [Lexeme.text, ← List.cons_append, List.getLast?_concat, Option.some.injEq] at hlast
        exact absurd hlast (by decide)
  · unfold tokenAt at hs
    split at hs
    · next encoding quote content hstart =>
      obtain ⟨-, henc, hquote⟩ := literalStart_eq_some_iff.mp hstart
      split at hs
      · exact absurd hs (by simp)
      · next body rest' hbody =>
        split_ifs at hs
        rw [← (Prod.mk.inj (Except.ok.inj hs)).1]
        exact shaped_literal henc hquote (literalBody_newline hbody)
    · split at hs
      · next n hword =>
        rw [← (Prod.mk.inj (Except.ok.inj hs)).1]
        exact shaped_word hword
      · split at hs
        · exact absurd hs (by simp)
        · next p hp =>
          split_ifs at hs
          rw [← (Prod.mk.inj (Except.ok.inj hs)).1]
          obtain ⟨hnl, hlast⟩ := punctuators_shaped p (punctuatorAt_eq hp).1
          exact ⟨fun hmem => absurd hmem hnl, hlast⟩

theorem mem_advance {s : LexState} {lexeme : Lexeme} {t : Token} (ht : t ∈ (s.advance lexeme).1)
    (hkind : t.kind ≠ .boundary) : lexeme.IsToken ∧ t.value = lexeme.text := by
  cases lexeme with
  | blank c => exact absurd ht List.not_mem_nil
  | newline =>
    unfold LexState.advance at ht
    dsimp only at ht
    split_ifs at ht
    · exact absurd (congrArg Token.kind (List.mem_singleton.mp ht)) hkind
    · exact absurd ht List.not_mem_nil
  | lineComment text => exact absurd ht List.not_mem_nil
  | blockComment body => exact absurd ht List.not_mem_nil
  | directiveMark =>
    refine absurd (congrArg Token.kind (List.mem_singleton.mp ht)) fun h => hkind (h.trans ?_)
    simp [LexState.token]
  | header body => exact ⟨trivial, congrArg Token.value (List.mem_singleton.mp ht)⟩
  | literal text => exact ⟨trivial, congrArg Token.value (List.mem_singleton.mp ht)⟩
  | word text => exact ⟨trivial, congrArg Token.value (List.mem_singleton.mp ht)⟩
  | punctuator text =>
    unfold LexState.advance at ht
    dsimp only at ht
    split_ifs at ht
    · rcases List.mem_cons.mp ht with rfl | ht
      · exact absurd (by simp [LexState.token]) hkind
      · exact ⟨trivial, congrArg Token.value (List.mem_singleton.mp ht)⟩
    · exact ⟨trivial, congrArg Token.value (List.mem_singleton.mp ht)⟩

/-- **What the tokens of a run are spelled like**, with the characters of its text. -/
theorem run_shaped (s : LexState) (cs : Text) (ts : List Token)
    (hrun : lexMachine.run s cs = .ok ts) :
    ∀ t ∈ ts, t.kind ≠ .boundary → Shaped t.value ∧ ∀ x ∈ t.value, x ∈ cs := by
  refine lexMachine.run_induction (P := fun _ cs ts => ∀ t ∈ ts, t.kind ≠ .boundary →
    Shaped t.value ∧ ∀ x ∈ t.value, x ∈ cs) ?_ ?_ s cs ts hrun
  · intro s t ht hkind
    unfold lexMachine at ht
    dsimp only at ht
    split_ifs at ht
    · exact absurd (congrArg Token.kind (List.mem_singleton.mp ht)) hkind
    · exact absurd ht List.not_mem_nil
  · intro s c cs out s₁ rest later hstep hlater t ht hkind
    obtain ⟨lexeme, hscan, hadv⟩ := lexMachine_step_eq_ok.mp hstep
    obtain ⟨htext, -⟩ := scan_text hscan
    rcases List.mem_append.mp ht with ht | ht
    · rw [← (Prod.mk.inj hadv).1] at ht
      obtain ⟨htoken, hvalue⟩ := mem_advance ht hkind
      rw [hvalue, htext]
      exact ⟨scan_shaped hscan htoken, fun x hx => List.mem_append_left _ hx⟩
    · obtain ⟨hshaped, hchars⟩ := hlater t ht hkind
      refine ⟨hshaped, fun x hx => ?_⟩
      rw [htext]
      exact List.mem_append_right _ (hchars x hx)

/-! ## The rendering is left alone -/

/-- The characters of a rendering are those of the values and of the separators. -/
theorem mem_renderFrom {adjacent : Bool} {ts : List (Text × Kind)} {x : Char}
    (h : x ∈ renderFrom adjacent ts) :
    x ∈ [' ', '\n', '#'] ∨ ∃ t ∈ ts, t.2 ≠ .boundary ∧ x ∈ t.1 := by
  have hpiece : ∀ t : Text × Kind, x ∈ piece t → x ∈ [' ', '\n', '#'] ∨
      t.2 ≠ .boundary ∧ x ∈ t.1 := by
    rintro ⟨v, kind⟩ hx
    cases kind with
    | c => exact Or.inr ⟨by simp, hx⟩
    | pp => exact Or.inr ⟨by simp, hx⟩
    | boundary =>
      rw [piece] at hx
      split_ifs at hx
      · exact Or.inl (List.mem_cons_of_mem _ hx)
      · exact Or.inl (by rw [List.mem_singleton.mp hx]; decide)
      · exact absurd hx List.not_mem_nil
  have hmore : ∀ {t : Text × Kind} {ts : List (Text × Kind)},
      (x ∈ [' ', '\n', '#'] ∨ ∃ t ∈ ts, t.2 ≠ .boundary ∧ x ∈ t.1) →
        x ∈ [' ', '\n', '#'] ∨ ∃ t' ∈ t :: ts, t'.2 ≠ .boundary ∧ x ∈ t'.1 := by
    rintro t ts (h | ⟨t', ht', h⟩)
    · exact Or.inl h
    · exact Or.inr ⟨t', List.mem_cons_of_mem _ ht', h⟩
  induction ts generalizing adjacent with
  | nil => exact absurd h List.not_mem_nil
  | cons t ts ih =>
    have hput : x ∈ piece t ++ renderFrom false ts →
        x ∈ [' ', '\n', '#'] ∨ ∃ t' ∈ t :: ts, t'.2 ≠ .boundary ∧ x ∈ t'.1 := by
      intro hx
      rcases List.mem_append.mp hx with hx | hx
      · exact (hpiece t hx).imp_right fun h => ⟨t, List.mem_cons_self, h⟩
      · exact hmore (ih hx)
    rw [renderFrom] at h
    split_ifs at h
    · exact hmore (ih h)
    · exact hput h
    · rcases List.mem_cons.mp h with rfl | h
      · exact Or.inl List.mem_cons_self
      · exact hput h

/-- A pair that the second text does not continue is in one of the texts. -/
theorem pair_infix_append {a b : Char} {u r : Text} (hr : ∀ x ∈ r.head?, x ≠ b)
    (h : [a, b] <:+: u ++ r) : [a, b] <:+: u ∨ [a, b] <:+: r := by
  induction u with
  | nil => exact Or.inr h
  | cons c u ih =>
    rw [List.cons_append] at h
    rcases List.infix_cons_iff.mp h with hp | hi
    · obtain ⟨rfl, hb⟩ := List.cons_prefix_cons.mp hp
      cases u with
      | nil =>
        obtain ⟨t, ht⟩ := hb
        rw [List.nil_append] at ht
        exact absurd rfl (hr b (by rw [← ht]; rfl))
      | cons d u =>
        rw [List.cons_append, List.cons_prefix_cons] at hb
        exact Or.inl ⟨[], u, by rw [hb.1]; rfl⟩
    · exact (ih hi).imp_left fun h => h.trans (List.suffix_cons c u).isInfix

/-- A value does not make a trigraph with what is rendered behind it. -/
theorem hasTrigraph_append_apart {v r : Text} (hv : hasTrigraph v = false)
    (hlast : v.getLast? = some '?' → v.length ≤ 1) (hr : Apart r) (hrest : hasTrigraph r = false) :
    hasTrigraph (v ++ r) = false := by
  have hhead : ∀ c, hasTrigraph (c :: r) = false := by
    intro c
    rw [← Bool.not_eq_true, hasTrigraph_iff]
    rintro ⟨e, he, hi⟩
    rcases List.infix_cons_iff.mp hi with hp | hi
    · obtain ⟨t, ht⟩ := (List.cons_prefix_cons.mp hp).2
      rcases hr '?' (by rw [← ht]; rfl) with h | h <;> exact absurd h (by decide)
    · rw [← Bool.not_eq_true, hasTrigraph_iff] at hrest
      exact hrest ⟨e, he, hi⟩
  induction v with
  | nil => exact hrest
  | cons c v ih =>
    cases v with
    | nil => exact hhead c
    | cons d v =>
      have hno : (d :: v).getLast? ≠ some '?' := by
        intro h
        have := hlast (by rw [getLast?_cons_ne_nil (by simp)]; exact h)
        simp at this
      have htail : hasTrigraph (d :: v) = false :=
        hasTrigraph_of_isInfix (List.suffix_cons c _).isInfix hv
      have ih := ih htail fun h => absurd h hno
      rw [← Bool.not_eq_true, hasTrigraph_iff] at *
      rintro ⟨e, he, hi⟩
      rw [List.cons_append] at hi
      rcases List.infix_cons_iff.mp hi with hp | hi
      · rw [List.cons_append, List.cons_prefix_cons, List.cons_prefix_cons] at hp
        obtain ⟨rfl, rfl, hp⟩ := hp
        cases v with
        | nil => exact hno rfl
        | cons x v =>
          rw [List.cons_append, List.cons_prefix_cons] at hp
          exact hv ⟨e, he, [], v, by rw [hp.1]; rfl⟩
      · exact ih ⟨e, he, hi⟩

/-- The values that the rendering keeps. -/
def Keeps (v : Text) : Prop := ¬ linePair <:+: v ∧ hasTrigraph v = false

theorem keeps_cons {x : Char} {r : Text} (hback : x ≠ '\\') (hquestion : x ≠ '?') (h : Keeps r) :
    Keeps (x :: r) := by
  obtain ⟨hpair, htri⟩ := h
  rw [← Bool.not_eq_true, hasTrigraph_iff] at htri
  refine ⟨fun hi => ?_, ?_⟩
  · rcases List.infix_cons_iff.mp hi with hp | hi
    · exact hback (List.cons_prefix_cons.mp hp).1.symm
    · exact hpair hi
  · rw [← Bool.not_eq_true, hasTrigraph_iff]
    rintro ⟨e, he, hi⟩
    rcases List.infix_cons_iff.mp hi with hp | hi
    · exact hquestion (List.cons_prefix_cons.mp hp).1.symm
    · exact htri ⟨e, he, hi⟩

theorem Keeps.of_infix {u v : Text} (h : u <:+: v) (hv : Keeps v) : Keeps u :=
  ⟨fun hi => hv.1 (hi.trans h), hasTrigraph_of_isInfix h hv.2⟩

/-- A value in front of what is rendered behind it. -/
theorem keeps_append {v r : Text} (hv : Keeps v) (hshaped : Shaped v) (hr : Keeps r)
    (hapart : Apart r) : Keeps (v ++ r) := by
  have hhead : ∀ x ∈ r.head?, x ≠ '\n' := by
    intro x hx
    rcases hapart x hx with rfl | rfl <;> decide
  refine ⟨fun hi => ?_, hasTrigraph_append_apart hv.2 (fun h => ?_) hapart hr.2⟩
  · rcases pair_infix_append hhead hi with h | h
    · exact hv.1 h
    · exact hr.1 h
  · exact (congrArg List.length (hshaped.question h)).le

/-- **Nothing in a rendering is rewritten or refused**, if nothing in the values is. -/
theorem keeps_renderFrom {d : Bool} {dv : List Text} {ts : List (Text × Kind)}
    (h : Stream d dv ts)
    (hvalues : ∀ t ∈ ts, t.2 ≠ .boundary → Keeps t.1 ∧ Shaped t.1) :
    Keeps (renderFrom false ts) ∧ Apart (renderFrom false ts) := by
  have hspace : ∀ {r : Text}, Keeps r → Keeps (' ' :: r) ∧ Apart (' ' :: r) := fun hr =>
    ⟨keeps_cons (by decide) (by decide) hr, apart_space _⟩
  have hput : ∀ {v : Text} {kind : Kind} {ts : List (Text × Kind)}, kind ≠ .boundary →
      (∀ t ∈ (v, kind) :: ts, t.2 ≠ .boundary → Keeps t.1 ∧ Shaped t.1) →
      Keeps (renderFrom false ts) ∧ Apart (renderFrom false ts) →
      Keeps (renderFrom false ((v, kind) :: ts)) ∧ Apart (renderFrom false ((v, kind) :: ts)) := by
    intro v kind ts hkind hvalues hrest
    obtain ⟨hv, hshaped⟩ := hvalues (v, kind) List.mem_cons_self hkind
    have hview : (v, kind) ≠ (macroFunction, .boundary) := fun h => hkind (congrArg Prod.snd h)
    have hpiece : piece (v, kind) = v := by
      cases kind with
      | c => rfl
      | pp => rfl
      | boundary => exact absurd rfl hkind
    rw [renderFrom, if_neg hview, hpiece]
    exact hspace (keeps_append hv hshaped hrest.1 hrest.2)
  induction h with
  | done => exact ⟨⟨by decide, rfl⟩, fun x hx => absurd hx (by simp [renderFrom])⟩
  | code _ _ ih =>
    exact hput (by decide) hvalues (ih fun t ht => hvalues t (List.mem_cons_of_mem _ ht))
  | start _ ih =>
    have hrest := (ih fun t ht => hvalues t (List.mem_cons_of_mem _ ht)).1
    exact hspace (keeps_cons (x := '\n') (by decide) (by decide)
      (keeps_cons (x := '#') (by decide) (by decide) hrest))
  | inside _ _ ih =>
    exact hput (by decide) hvalues (ih fun t ht => hvalues t (List.mem_cons_of_mem _ ht))
  | header _ _ ih =>
    exact hput (by decide) hvalues (ih fun t ht => hvalues t (List.mem_cons_of_mem _ ht))
  | parameters _ ih =>
    have hrest := (ih fun t ht =>
      hvalues t (List.mem_cons_of_mem _ (List.mem_cons_of_mem _ ht))).1
    refine ⟨keeps_cons (x := '(') (by decide) (by decide) hrest, fun x hx => Or.inr ?_⟩
    exact (Option.mem_some_iff.mp hx).symm
  | stop _ ih =>
    have hrest := (ih fun t ht => hvalues t (List.mem_cons_of_mem _ ht)).1
    exact hspace (keeps_cons (x := '\n') (by decide) (by decide) hrest)

theorem mem_normalise {cs : Text} {x : Char} (h : x ∈ normalise cs) :
    x ≠ '\r' ∧ (x ∈ cs ∨ x = '\n') := by
  fun_induction normalise cs with
  | case1 cs ih =>
    rcases List.mem_cons.mp h with rfl | h
    · exact ⟨by decide, Or.inr rfl⟩
    · exact (ih h).imp_right fun h => h.imp_left fun h => by simp [h]
  | case2 cs _ ih =>
    rcases List.mem_cons.mp h with rfl | h
    · exact ⟨by decide, Or.inr rfl⟩
    · exact (ih h).imp_right fun h => h.imp_left (List.mem_cons_of_mem _)
  | case3 c cs _ hcr ih =>
    rcases List.mem_cons.mp h with rfl | h
    · exact ⟨hcr, Or.inl List.mem_cons_self⟩
    · exact (ih h).imp_right fun h => h.imp_left (List.mem_cons_of_mem _)
  | case4 => exact absurd h List.not_mem_nil

theorem mem_splice {cs : Text} {x : Char} (h : x ∈ splice cs) : x ∈ cs := by
  fun_induction splice cs with
  | case1 cs ih => exact List.mem_cons_of_mem _ (List.mem_cons_of_mem _ (ih h))
  | case2 c cs _ ih =>
    rcases List.mem_cons.mp h with rfl | h
    · exact List.mem_cons_self
    · exact List.mem_cons_of_mem _ (ih h)
  | case3 => exact h

/-! ## The fixed point -/

/-- The rendering of a source is lexed as it is written. -/
theorem tokenize_render {source : Text} {tokens : List Token} (h : lex source = .ok tokens)
    (hkeeps : ∀ t ∈ tokens, Keeps t.value) :
    tokenize (render tokens) = .ok (tokens.map Token.value) := by
  obtain ⟨hnul, -, hrun, hne⟩ := lex_eq_ok_iff.mp h
  have hshaped := run_shaped _ _ _ hrun
  have hmem : ∀ x ∈ render tokens, x ≠ '\r' ∧ x ≠ '\x00' := by
    intro x hx
    rcases mem_renderFrom hx with hx | ⟨t, ht, hkind, hx⟩
    · simp only [List.mem_cons, List.not_mem_nil, or_false] at hx
      rcases hx with rfl | rfl | rfl <;> decide
    · obtain ⟨token, htoken, rfl⟩ := List.mem_map.mp ht
      obtain ⟨hcr, hsource⟩ := mem_normalise (mem_splice ((hshaped token htoken hkind).2 x hx))
      refine ⟨hcr, ?_⟩
      rintro rfl
      rcases hsource with hsource | hsource
      · exact hnul hsource
      · exact absurd hsource (by decide)
  have hspace : render tokens <:+: restText tokens := by
    rw [restText, render]
    cases tokens.map Token.view with
    | nil => exact List.infix_rfl
    | cons t ts =>
      rw [renderFrom, renderFrom]
      by_cases ht : t = (macroFunction, .boundary)
      · rw [if_pos ht, if_pos ht]
      · rw [if_neg ht, if_neg ht]
        exact (List.suffix_cons ' ' _).isInfix
  have hrest : Keeps (restText tokens) := by
    refine (keeps_renderFrom (lex_stream h) fun t ht hkind => ?_).1
    obtain ⟨token, htoken, rfl⟩ := List.mem_map.mp ht
    exact ⟨hkeeps token htoken, (hshaped token htoken hkind).1⟩
  obtain ⟨hpair, htri⟩ := Keeps.of_infix hspace hrest
  have hspliced : spliced (render tokens) = render tokens := by
    rw [spliced, normalise_eq_self fun hx => (hmem _ hx).1 rfl, splice_eq_self hpair]
  obtain ⟨ts', hrun', hvalues⟩ := readsBack_initial h
  refine tokenize_eq_ok_iff.mpr ⟨ts', lex_eq_ok_iff.mpr
    ⟨fun hx => (hmem _ hx).2 rfl, htri, by rw [hspliced, hrun'], ?_⟩, hvalues⟩
  rintro rfl
  exact hne (List.map_eq_nil_iff.mp hvalues.symm)

/-- A value stands in the rendering. -/
theorem infix_renderFrom {adjacent : Bool} {ts : List (Text × Kind)} {t : Text × Kind}
    (ht : t ∈ ts) (hkind : t.2 ≠ .boundary) : t.1 <:+: renderFrom adjacent ts := by
  have hpiece : piece t = t.1 := by
    obtain ⟨v, kind⟩ := t
    cases kind with
    | c => rfl
    | pp => rfl
    | boundary => exact absurd rfl hkind
  induction ts generalizing adjacent with
  | nil => exact absurd ht List.not_mem_nil
  | cons t' ts ih =>
    rw [renderFrom]
    rcases List.mem_cons.mp ht with rfl | ht
    · rw [if_neg fun h => hkind (congrArg Prod.snd h), hpiece]
      split_ifs
      · exact (List.prefix_append _ _).isInfix
      · exact (List.prefix_append _ _).isInfix.trans (List.suffix_cons _ _).isInfix
    · split_ifs
      · exact ih ht
      · exact (ih ht).trans (List.suffix_append _ _).isInfix
      · exact ((ih ht).trans (List.suffix_append _ _).isInfix).trans (List.suffix_cons _ _).isInfix

theorem mem_markers_of_stream {d : Bool} {dv : List Text} {ts : List (Text × Kind)}
    (h : Stream d dv ts) {t : Text × Kind} (ht : t ∈ ts) (hkind : t.2 = .boundary) :
    t.1 ∈ markers := by
  induction h with
  | done => exact absurd ht List.not_mem_nil
  | code _ _ ih =>
    rcases List.mem_cons.mp ht with rfl | ht
    · exact absurd hkind (by simp)
    · exact ih ht
  | start _ ih =>
    rcases List.mem_cons.mp ht with rfl | ht
    · exact List.mem_cons_self
    · exact ih ht
  | inside _ _ ih =>
    rcases List.mem_cons.mp ht with rfl | ht
    · exact absurd hkind (by simp)
    · exact ih ht
  | header _ _ ih =>
    rcases List.mem_cons.mp ht with rfl | ht
    · exact absurd hkind (by simp)
    · exact ih ht
  | parameters _ ih =>
    rcases List.mem_cons.mp ht with rfl | ht
    · exact List.mem_cons_of_mem _ (List.mem_cons_of_mem _ List.mem_cons_self)
    · rcases List.mem_cons.mp ht with rfl | ht
      · exact absurd hkind (by simp)
      · exact ih ht
  | stop _ ih =>
    rcases List.mem_cons.mp ht with rfl | ht
    · exact List.mem_cons_of_mem _ List.mem_cons_self
    · exact ih ht

theorem markers_keep : ∀ v ∈ markers, ¬ linePair <:+: v ∧ hasTrigraph v = false ∧ '\n' ∉ v := by
  decide

theorem keeps_of_boundary {source : Text} {tokens : List Token} (h : lex source = .ok tokens)
    {t : Token} (ht : t ∈ tokens) (hkind : t.kind = .boundary) :
    Keeps t.value ∧ '\n' ∉ t.value := by
  have hv := mem_markers_of_stream (lex_stream h) (List.mem_map_of_mem (f := Token.view) ht) hkind
  obtain ⟨hpair, htri, hnl⟩ := markers_keep _ hv
  exact ⟨⟨hpair, htri⟩, hnl⟩

/-- **Lexing is a fixed point on its own output, up to two kinds of values.**  If no value of
an accepted source has a backslash in front of a newline or spells a trigraph, the values
have no newline, and their rendering is accepted with the same values. -/
theorem tokenize_fixedPoint {source : Text} {tokens : List Token} (h : lex source = .ok tokens)
    (hkeeps : ∀ t ∈ tokens, ¬ ['\\', '\n'] <:+: t.value ∧ hasTrigraph t.value = false) :
    (∀ t ∈ tokens, '\n' ∉ t.value) ∧
      tokenize (render tokens) = .ok (tokens.map Token.value) := by
  refine ⟨fun t ht hmem => ?_, tokenize_render h hkeeps⟩
  by_cases hkind : t.kind = .boundary
  · exact (keeps_of_boundary h ht hkind).2 hmem
  · have hshaped := run_shaped _ _ _ (lex_eq_ok_iff.mp h).2.2.1
    exact (hkeeps t ht).1 ((hshaped t ht hkind).1.newline hmem)

theorem tokenize_fixedPoint_null :
    (∀ t ∈ [(⟨ppStart, .boundary, 1, 0, 1⟩ : Token), ⟨ppEnd, .boundary, 1, 1, 1⟩],
        '\n' ∉ t.value) ∧
      tokenize (render [⟨ppStart, .boundary, 1, 0, 1⟩, ⟨ppEnd, .boundary, 1, 1, 1⟩]) =
        .ok [ppStart, ppEnd] :=
  @tokenize_fixedPoint ['#'] [⟨ppStart, .boundary, 1, 0, 1⟩, ⟨ppEnd, .boundary, 1, 1, 1⟩]
    (by decide +kernel) (by decide)

/-- A trigraph that is put together by splicing is accepted in the source and refused in
the rendering. -/
theorem fixedPoint_trigraph :
    ¬ ∀ (source : Text) (tokens : List Token), lex source = .ok tokens →
      (∀ t ∈ tokens, '\n' ∉ t.value) ∧
        tokenize (render tokens) = .ok (tokens.map Token.value) := by
  intro h
  have hlex : lex ['"', '?', '\\', '\n', '?', '=', '"'] =
      .ok [⟨['"', '?', '?', '=', '"'], .c, 1, 0, 5⟩] := by decide +kernel
  have hrefused : tokenize (render [⟨['"', '?', '?', '=', '"'], .c, 1, 0, 5⟩]) ≠
      .ok [['"', '?', '?', '=', '"']] := by decide +kernel
  exact hrefused (h _ _ hlex).2

/-- The exceptions are real: a source with such a value is no fixed point. -/
theorem keeps_of_fixedPoint {source : Text} {tokens : List Token} (h : lex source = .ok tokens)
    (hnewline : ∀ t ∈ tokens, '\n' ∉ t.value)
    (hrender : tokenize (render tokens) = .ok (tokens.map Token.value)) :
    ∀ t ∈ tokens, Keeps t.value := by
  intro t ht
  refine ⟨fun hi => hnewline t ht (hi.subset (by simp [linePair])), ?_⟩
  by_contra htri
  rw [Bool.not_eq_false] at htri
  by_cases hkind : t.kind = .boundary
  · exact absurd htri (by rw [(keeps_of_boundary h ht hkind).1.2]; decide)
  · have hinfix : t.value <:+: render tokens :=
      infix_renderFrom (List.mem_map_of_mem (f := Token.view) ht) hkind
    obtain ⟨ts', hlex, -⟩ := tokenize_eq_ok_iff.mp hrender
    have hno := hasTrigraph_of_isInfix hinfix (lex_eq_ok_iff.mp hlex).2.1
    exact absurd htri (by rw [hno]; decide)

end Provenance
end Fragma
