import Fragma.Provenance.Comments
import Fragma.Provenance.Decoding

/-!
# Tokens written down and read again

The canonical rendering of a sequence of tokens: their values with one space between
them, a newline and `#` for the start of a directive, a newline for its end, and no space
between the name of a macro and the parenthesis of its parameters.

The loop of the lexer reads from the rendering what it was made of.

* `render`: the rendering.
* `scan_apart`: a token is the same in front of every text that begins like a rendering.
* `Follows`, `Rendered`: the two states, and what is true of the tokens behind them; one
  lemma for each unit.
* `run_render`: **the loop reads the rendering back.**
-/

namespace Fragma
namespace Provenance

/-! ## The rendering -/

/-- How one token is written; the mark between a macro and its parameters is not. -/
def piece : Text × Kind → Text
  | (v, .boundary) => if v = ppStart then ['\n', '#'] else if v = ppEnd then ['\n'] else []
  | (v, _) => v

/-- The tokens, with a space in front of each one that is not adjacent to what is
before it. -/
def renderFrom (adjacent : Bool) : List (Text × Kind) → Text
  | [] => []
  | t :: ts =>
    if t = (macroFunction, .boundary) then renderFrom true ts
    else if adjacent then piece t ++ renderFrom false ts
    else ' ' :: (piece t ++ renderFrom false ts)

/-- The canonical rendering. -/
def render (tokens : List Token) : Text := renderFrom true (tokens.map Token.view)

example : (lex "#define F(x) 1 // c\nint f;".toList).map render =
    .ok "\n# define F( x ) 1 \n int f ;".toList := by rfl

/-- The text is empty or begins with a space or a parenthesis. -/
def Apart (r : Text) : Prop := ∀ x ∈ r.head?, x = ' ' ∨ x = '('

theorem Apart.stops {r : Text} (h : Apart r) : Stops r := by
  intro x hx
  rcases h x hx with rfl | rfl <;> decide

theorem apart_space (r : Text) : Apart (' ' :: r) := by
  intro x hx
  rw [List.head?_cons, Option.mem_some_iff] at hx
  exact Or.inl hx.symm

/-! ## A token in front of a rendering -/

/-- The unit is a token. -/
def Lexeme.IsToken : Lexeme → Prop
  | .header _ => True
  | .literal _ => True
  | .word _ => True
  | .punctuator _ => True
  | _ => False

/-- The alternative spelling of `#` is no token. -/
theorem tokenAt_percent_colon (cs : Text) : tokenAt '%' (':' :: cs) = .error .digraph := by
  have hword : wordAt ('%' :: ':' :: cs) = none := rfl
  have hstart : literalStart ('%' :: ':' :: cs) = none := rfl
  have hpunct : punctuatorAt ('%' :: ':' :: cs) = some "%:%:".toList ∨
      punctuatorAt ('%' :: ':' :: cs) = some "%:".toList := by
    by_cases h : ['%', ':'] <+: cs
    · obtain ⟨t, rfl⟩ := h
      exact Or.inl rfl
    · refine Or.inr ?_
      have hno : ("%:%:".toList.isPrefixOf ('%' :: ':' :: cs)) = false := by
        rw [← Bool.not_eq_true, List.isPrefixOf_iff_prefix]
        exact fun hp => h (List.cons_prefix_cons.mp (List.cons_prefix_cons.mp hp).2).2
      unfold punctuatorAt punctuators
      rw [List.map_cons, List.find?_cons_of_neg (by rw [hno]; decide)]
      rfl
  unfold tokenAt
  rw [hstart, hword]
  dsimp only
  rcases hpunct with h | h <;> rw [h] <;> rfl

/-- **A token does not depend on what follows it**, as long as that is apart from it.
Nor does it matter to it whether only white space was seen on the line. -/
theorem scan_apart {b b' d h : Bool} {c : Char} {u r r' : Text} {lexeme : Lexeme}
    (hs : scan b d h c (u ++ r) = .ok (lexeme, r)) (htoken : lexeme.IsToken)
    (hb' : b' = true → d = false) (hr' : Apart r') :
    scan b' d h c (u ++ r') = .ok (lexeme, r') := by
  have hhead : ∀ y, y ∈ ['/', '*', ':'] → (u ++ r').head? = some y →
      (u ++ r).head? = some y := by
    intro y hy hhead
    cases u with
    | cons a u => exact hhead
    | nil =>
      rcases hr' y hhead with rfl | rfl
      · exact absurd hy (by decide)
      · exact absurd hy (by decide)
  unfold scan at hs ⊢
  split_ifs at hs with h1 h2 h3 h4 h5 h6 h7 h8
  · rw [← (Prod.mk.inj (Except.ok.inj hs)).1] at htoken
    exact absurd htoken id
  · rw [← (Prod.mk.inj (Except.ok.inj hs)).1] at htoken
    exact absurd htoken id
  · rw [← (Prod.mk.inj (Except.ok.inj hs)).1] at htoken
    exact absurd htoken id
  · split at hs
    · exact absurd hs (by simp)
    · rw [← (Prod.mk.inj (Except.ok.inj hs)).1] at htoken
      exact absurd htoken id
  · rw [← (Prod.mk.inj (Except.ok.inj hs)).1] at htoken
    exact absurd htoken id
  · have hc : ¬ (b' = true ∧ (c = '#' ∨ c = '%' ∧ (u ++ r').head? = some ':')) := by
      rintro ⟨-, rfl | ⟨rfl, -⟩⟩
      · exact absurd h8.2 (by decide)
      · exact absurd h8.2 (by decide)
    rw [if_neg h1, if_neg h2, if_neg fun hh => h3 ⟨hh.1, hhead _ (by decide) hh.2⟩,
      if_neg fun hh => h4 ⟨hh.1, hhead _ (by decide) hh.2⟩, if_neg hc, if_neg h7, if_pos h8]
    split at hs
    · exact absurd hs (by simp)
    · next body rest hbody =>
      obtain ⟨rfl, rfl⟩ := Prod.mk.inj (Except.ok.inj hs)
      obtain ⟨heq, hgt, hnl⟩ := headerBody_eq_some_iff.mp hbody
      have hu : u = body ++ ['>'] := by
        refine (List.append_left_inj rest).mp ?_
        rw [heq]
        simp
      have hnew : headerBody (u ++ r') = some (body, r') :=
        headerBody_eq_some_iff.mpr ⟨by rw [hu]; simp, hgt, hnl⟩
      rw [hnew]
  · have hc : ¬ (b' = true ∧ (c = '#' ∨ c = '%' ∧ (u ++ r').head? = some ':')) := by
      rintro ⟨hb, rfl | ⟨rfl, hcolon⟩⟩
      · exact h7 ⟨rfl, by simp [hb' hb]⟩
      · obtain ⟨t, ht⟩ := List.head?_eq_some_iff.mp (hhead _ (by decide) hcolon)
        rw [ht, tokenAt_percent_colon] at hs
        exact absurd hs (by simp)
    rw [if_neg h1, if_neg h2, if_neg fun hh => h3 ⟨hh.1, hhead _ (by decide) hh.2⟩,
      if_neg fun hh => h4 ⟨hh.1, hhead _ (by decide) hh.2⟩, if_neg hc, if_neg h7, if_neg h8]
    exact tokenAt_append (v := []) hr'.stops hs

/-! ## Reading the rendering -/

/-- The state `s'` in front of a rendering belongs to the state `s` in front of the
source: both are in one directive with the same values, and a macro name that ends where
the first one is ends where the second one is. -/
structure Follows (s s' : LexState) : Prop where
  directive : s'.directive = s.directive
  values : s'.directiveTokens.map Token.value = s.directiveTokens.map Token.value
  opens : s.opensMacro = true → s'.opensMacro = true
  behind : Behind s
  behind' : Behind s'
  settled : Settled s
  settled' : Settled s'

theorem follows_initial : Follows LexState.initial LexState.initial :=
  ⟨rfl, rfl, id, initial_behind, initial_behind, ⟨fun _ => rfl, fun _ => rfl⟩,
    ⟨fun _ => rfl, fun _ => rfl⟩⟩

/-- Moving on in the source is moving away from the name of a macro. -/
theorem Follows.moved {s s₁ s' : LexState} (h : Follows s s') (hm : Moved s s₁)
    (hset : Settled s₁) : Follows s₁ s' where
  directive := h.directive.trans hm.2.1.symm
  values := by rw [h.values, hm.2.2.1]
  opens := fun ho => absurd ho (by rw [hm.opensMacro h.behind]; decide)
  behind := hm.behind h.behind
  behind' := h.behind'
  settled := hset
  settled' := h.settled'

/-- A token that is read at both places. -/
theorem Follows.put {s s' : LexState} (hd : s'.directive = s.directive)
    (hv : s'.directiveTokens.map Token.value = s.directiveTokens.map Token.value)
    (hb : Behind s) (hb' : Behind s') (hset : Settled s) (hset' : Settled s') (value : Text) :
    Follows (s.put value).2 (s'.put value).2 := by
  obtain ⟨-, halike⟩ := put_alike ['('] hd hv hb hb' value
  exact ⟨halike.directive, halike.values, fun ho => by rw [halike.opens rfl, ho], halike.behind,
    halike.behind', settled_put hset value, settled_put hset' value⟩

/-- The state behind a blank. -/
def LexState.blanked (s : LexState) : LexState := { s with i := s.i + 1 }

theorem moved_blanked (s : LexState) : Moved s s.blanked := ⟨rfl, rfl, rfl, Nat.lt_succ_self _⟩

/-- What the loop reads from a rendering that begins with a space. -/
theorem run_space (s : LexState) (cs : Text) :
    lexMachine.run s (' ' :: cs) = lexMachine.run s.blanked cs := by
  rw [lexMachine.run_cons_of_step (blank_step s cs)]
  show (lexMachine.run s.blanked cs).map _ = _
  cases lexMachine.run s.blanked cs with
  | error e => rfl
  | ok ts => rfl

/-- What the loop reads from `ts`, rendered, has the values of `ts`. -/
def ReadsBack (s' : LexState) (cs : Text) (ts : List Token) : Prop :=
  ∃ ts', lexMachine.run s' cs = .ok ts' ∧ ts'.map Token.value = ts.map Token.value

theorem readsBack_step {s' s₁ : LexState} {c : Char} {cs rest : Text} {out out' later : List Token}
    (hstep : lexMachine.step s' c cs = .ok (out', s₁, rest))
    (hout : out'.map Token.value = out.map Token.value) (h : ReadsBack s₁ rest later) :
    ReadsBack s' (c :: cs) (out ++ later) := by
  obtain ⟨ts', hrun, hvalues⟩ := h
  refine ⟨out' ++ ts', by rw [lexMachine.run_cons_of_step hstep, hrun]; rfl, ?_⟩
  rw [List.map_append, List.map_append, hout, hvalues]

/-- What is rendered from the tokens that are left. -/
abbrev restText (ts : List Token) : Text := renderFrom false (ts.map Token.view)

/-- An ordinary token is written with its value. -/
theorem renderFrom_put (adjacent : Bool) (s : LexState) (value : Text) (later : List Token) :
    renderFrom adjacent (((s.put value).1 ++ later).map Token.view) =
      if adjacent then value ++ restText later else ' ' :: (value ++ restText later) := by
  have hkind : (s.token value (s.i + value.length) .c).kind ≠ .boundary := by
    unfold LexState.token
    dsimp only
    split_ifs <;> decide
  have hview : (s.token value (s.i + value.length) .c).view ≠ (macroFunction, .boundary) :=
    fun h => hkind (congrArg Prod.snd h)
  have hpiece : piece (s.token value (s.i + value.length) .c).view = value := by
    unfold LexState.token Token.view
    dsimp only
    split_ifs <;> rfl
  rw [LexState.put, List.singleton_append, List.map_cons, renderFrom, if_neg hview, hpiece]

theorem restText_put (s : LexState) (value : Text) (later : List Token) :
    restText ((s.put value).1 ++ later) = ' ' :: (value ++ restText later) :=
  renderFrom_put false s value later

/-- An ordinary token in front of what is read back. -/
theorem readsBack_put {s s' : LexState} {c : Char} {u r : Text} {lexeme : Lexeme}
    {later : List Token} (h : Follows s s')
    (hscan : scan s.beginning s.directive s.awaitsHeader c (u ++ r) = .ok (lexeme, r))
    (htoken : lexeme.IsToken) (htext : c :: u = lexeme.text)
    (hput : ∀ q : LexState, q.opensMacro = false → q.advance lexeme = q.put lexeme.text)
    (hapart : Apart (restText later))
    (hlater : ∀ s₁, Follows (s.put lexeme.text).2 s₁ → ReadsBack s₁ (restText later) later) :
    ReadsBack s' (restText ((s.put lexeme.text).1 ++ later)) ((s.put lexeme.text).1 ++ later) := by
  have hmoved := moved_blanked s'
  have hbegin : s'.blanked.beginning = true → s.directive = false :=
    fun hb => h.directive.symm.trans (h.settled'.1 hb)
  have hnew := scan_apart hscan htoken hbegin hapart
  have hstep : lexMachine.step s'.blanked c (u ++ restText later) =
      .ok ((s'.blanked.put lexeme.text).1, (s'.blanked.put lexeme.text).2, restText later) := by
    have hheader : s'.blanked.awaitsHeader = s.awaitsHeader :=
      awaitsHeader_congr h.directive h.values
    refine lexMachine_step_eq_ok.mpr ⟨lexeme, ?_, hput _ (hmoved.opensMacro h.behind')⟩
    rw [hheader]
    exact h.directive ▸ hnew
  have hfollows : Follows (s.put lexeme.text).2 (s'.blanked.put lexeme.text).2 :=
    @Follows.put s s'.blanked h.directive h.values h.behind (hmoved.behind h.behind') h.settled
      h.settled' lexeme.text
  have hread : ReadsBack s'.blanked (c :: (u ++ restText later))
      ((s.put lexeme.text).1 ++ later) := readsBack_step hstep rfl (hlater _ hfollows)
  rw [restText_put, ← htext, ReadsBack, run_space, htext]
  rwa [← List.cons_append, htext] at hread

/-- The parenthesis behind the name of a macro, in front of what is read back. -/
theorem readsBack_parameters {s s' : LexState} {r : Text} {later : List Token}
    (h : Follows s s') (hopens : s.opensMacro = true)
    (hscan : scan s.beginning s.directive s.awaitsHeader '(' r = .ok (.punctuator ['('], r))
    (hapart : Apart (restText later))
    (hlater : ∀ s₁, Follows (s.advance (.punctuator ['('])).2 s₁ →
      ReadsBack s₁ (restText later) later) :
    ReadsBack s' ('(' :: restText later) ((s.advance (.punctuator ['('])).1 ++ later) := by
  have hbegin : s'.beginning = true → s.directive = false :=
    fun hb => h.directive.symm.trans (h.settled'.1 hb)
  have hnew := scan_apart (u := []) hscan trivial hbegin hapart
  have hstep : lexMachine.step s' '(' (restText later) =
      .ok ((s'.advance (.punctuator ['('])).1, (s'.advance (.punctuator ['('])).2,
        restText later) := by
    refine lexMachine_step_eq_ok.mpr ⟨.punctuator ['('], ?_, rfl⟩
    rw [awaitsHeader_congr (s := s) h.directive h.values]
    exact h.directive ▸ hnew
  have hadvance : ∀ q : LexState, q.opensMacro = true → q.advance (.punctuator ['(']) =
      (q.token macroFunction q.i .boundary ::
        ((q.noted (q.token macroFunction q.i .boundary)).put ['(']).1,
        ((q.noted (q.token macroFunction q.i .boundary)).put ['(']).2) := by
    intro q hq
    rw [LexState.advance, if_pos ⟨hq, rfl⟩]
  have halike := place_alike (s.token macroFunction s.i .boundary)
    (s'.token macroFunction s'.i .boundary) ['('] h.directive h.values h.behind h.behind' rfl
    (Nat.le_refl _) (Nat.le_refl _)
  have hfollows :
      Follows ((s.noted (s.token macroFunction s.i .boundary)).put ['(']).2
        ((s'.noted (s'.token macroFunction s'.i .boundary)).put ['(']).2 :=
    Follows.put halike.directive halike.values halike.behind halike.behind'
      (settled_noted h.settled _) (settled_noted h.settled' _) ['(']
  refine readsBack_step hstep ?_ (hlater _ ?_)
  · rw [hadvance s hopens, hadvance s' (h.opens hopens)]
    rfl
  · rw [hadvance s hopens, hadvance s' (h.opens hopens)]
    exact hfollows

/-- What is true of the tokens behind a place: their rendering is apart from what is in
front of it, and the loop reads them from it. -/
def Rendered (s : LexState) (ts : List Token) : Prop :=
  Apart (restText ts) ∧ ∀ s', Follows s s' → ReadsBack s' (restText ts) ts

/-- A unit that adds no token changes nothing. -/
theorem rendered_skip {s : LexState} (lexeme : Lexeme) {later : List Token}
    (hskip : Moved s (s.advance lexeme).2) (h : Rendered (s.advance lexeme).2 later) :
    Rendered s later :=
  ⟨h.1, fun s' hs' => h.2 s' (hs'.moved hskip (settled_advance hs'.settled lexeme))⟩

theorem rendered_put {s : LexState} {c : Char} {u r : Text} {lexeme : Lexeme} {later : List Token}
    (hscan : scan s.beginning s.directive s.awaitsHeader c (u ++ r) = .ok (lexeme, r))
    (htoken : lexeme.IsToken) (htext : c :: u = lexeme.text)
    (hput : ∀ q : LexState, q.opensMacro = false → q.advance lexeme = q.put lexeme.text)
    (h : Rendered (s.put lexeme.text).2 later) :
    Rendered s ((s.put lexeme.text).1 ++ later) := by
  refine ⟨?_, fun s' hs' => readsBack_put hs' hscan htoken htext hput h.1 h.2⟩
  rw [restText_put]
  exact apart_space _

/-- The end of a line, which ends a directive. -/
theorem rendered_newline {s : LexState} {later : List Token}
    (h : Rendered (s.advance .newline).2 later) : Rendered s ((s.advance .newline).1 ++ later) := by
  have hfollows : ∀ q : LexState, Follows (s.advance .newline).2 (q.advance .newline).2 := fun q =>
    ⟨rfl, rfl, id, fun t ht => absurd ht List.not_mem_nil, fun t ht => absurd ht List.not_mem_nil,
      ⟨fun _ => rfl, fun _ => rfl⟩, ⟨fun _ => rfl, fun _ => rfl⟩⟩
  by_cases hd : s.directive = true
  · have hout : (s.advance .newline).1 = [⟨ppEnd, .boundary, s.line, s.i, s.i + 1⟩] := if_pos hd
    rw [hout]
    refine ⟨apart_space _, fun s' hs' => ?_⟩
    show ReadsBack s' (' ' :: '\n' :: restText later) _
    rw [ReadsBack, run_space]
    refine readsBack_step (newline_step s'.blanked _) ?_ (h.2 _ (hfollows s'.blanked))
    have hd' : s'.blanked.directive = true := hs'.directive.trans hd
    rw [LexState.advance, hd', if_pos rfl]
    rfl
  · have hout : (s.advance .newline).1 = [] := if_neg hd
    rw [hout, List.nil_append]
    refine ⟨h.1, fun s' hs' => h.2 s' ?_⟩
    have hd' : s.directive = false := by simpa using hd
    have hvalues := hs'.values
    rw [hs'.settled.2 hd'] at hvalues
    refine ⟨hs'.directive.trans hd', hvalues, fun ho => ?_,
      fun t ht => absurd ht List.not_mem_nil, hs'.behind', ⟨fun _ => rfl, fun _ => rfl⟩,
      hs'.settled'⟩
    exact absurd ho (by simp [LexState.advance, LexState.opensMacro])

/-- The start of a directive, on a line of its own. -/
theorem rendered_directiveMark {s : LexState} {later : List Token} (hbegin : s.beginning = true)
    (h : Rendered (s.advance .directiveMark).2 later) :
    Rendered s ((s.advance .directiveMark).1 ++ later) := by
  refine ⟨apart_space _, fun s' hs' => ?_⟩
  have hd : s.directive = false := hs'.settled.1 hbegin
  have hd' : s'.directive = false := hs'.directive.trans hd
  show ReadsBack s' (' ' :: '\n' :: '#' :: restText later) _
  rw [ReadsBack, run_space]
  set q := (s'.blanked.advance .newline).2 with hq
  have hnewline : lexMachine.step s'.blanked '\n' ('#' :: restText later) =
      .ok ([], q, '#' :: restText later) := by
    rw [newline_step]
    have hout : (s'.blanked.advance .newline).1 = [] := if_neg (by simp [LexState.blanked, hd'])
    rw [hout]
  have hmark : lexMachine.step q '#' (restText later) =
      .ok ((q.advance .directiveMark).1, (q.advance .directiveMark).2, restText later) :=
    lexMachine_step_eq_ok.mpr ⟨.directiveMark, rfl, rfl⟩
  have halike := @place_alike { s with directive := true } { q with directive := true }
    (({ s with directive := true } : LexState).token ppStart (s.i + 1) .boundary)
    (({ q with directive := true } : LexState).token ppStart (q.i + 1) .boundary) ['('] rfl
    (by rw [hs'.settled.2 hd]; rfl) hs'.behind (fun t ht => absurd ht List.not_mem_nil) rfl
    (Nat.le_succ _) (Nat.le_succ _)
  have hfollows : Follows (s.advance .directiveMark).2 (q.advance .directiveMark).2 :=
    ⟨halike.directive, halike.values, fun ho => (halike.opens rfl).trans ho, halike.behind,
      halike.behind', settled_advance hs'.settled .directiveMark,
      settled_advance ⟨fun _ => rfl, fun _ => rfl⟩ .directiveMark⟩
  obtain ⟨ts', hrun, hvalues⟩ := readsBack_step hmark rfl (h.2 _ hfollows)
  exact ⟨[] ++ ts', by rw [lexMachine.run_cons_of_step hnewline, hrun]; rfl, hvalues⟩

/-- A punctuator, with the mark in front of it where it opens the parameters of a
macro. -/
theorem rendered_punctuator {s : LexState} {c : Char} {u r text : Text} {later : List Token}
    (hscan : scan s.beginning s.directive s.awaitsHeader c (u ++ r) = .ok (.punctuator text, r))
    (htext : c :: u = text) (h : Rendered (s.advance (.punctuator text)).2 later) :
    Rendered s ((s.advance (.punctuator text)).1 ++ later) := by
  by_cases hopens : s.opensMacro = true ∧ text = ['(']
  · obtain ⟨hopens, rfl⟩ := hopens
    rw [List.cons.injEq] at htext
    obtain ⟨rfl, rfl⟩ := htext
    have hrest : restText ((s.advance (.punctuator ['('])).1 ++ later) = '(' :: restText later := by
      have hmark : (s.token macroFunction s.i .boundary).view = (macroFunction, .boundary) := by
        simp [LexState.token, Token.view]
      rw [LexState.advance, if_pos ⟨hopens, rfl⟩, restText, List.cons_append, List.map_cons, hmark,
        renderFrom, if_pos rfl, renderFrom_put, if_pos rfl]
      rfl
    refine ⟨?_, fun s' hs' => ?_⟩
    · rw [hrest]
      intro x hx
      rw [List.head?_cons, Option.mem_some_iff] at hx
      exact Or.inr hx.symm
    · rw [hrest]
      exact readsBack_parameters hs' hopens hscan h.1 h.2
  · have hput : s.advance (.punctuator text) = s.put text := if_neg hopens
    rw [hput] at h ⊢
    refine rendered_put hscan trivial htext (fun q hq => ?_) h
    exact if_neg fun ho => absurd ho.1 (by rw [hq]; decide)

/-- The end of the text, which ends a directive, too. -/
theorem rendered_finish (s : LexState) : Rendered s (lexMachine.finish s) := by
  by_cases hd : s.directive = true
  · have hfinish : lexMachine.finish s = [⟨ppEnd, .boundary, s.line, s.i, s.i⟩] := if_pos hd
    rw [hfinish]
    refine ⟨apart_space _, fun s' hs' => ?_⟩
    show ReadsBack s' (' ' :: '\n' :: []) _
    have hd' : s'.blanked.directive = true := hs'.directive.trans hd
    have hout : (s'.blanked.advance .newline).1.map Token.value = [ppEnd] := by
      rw [LexState.advance, hd', if_pos rfl]
      rfl
    rw [ReadsBack, run_space, lexMachine.run_cons_of_step (newline_step s'.blanked [])]
    refine ⟨(s'.blanked.advance .newline).1 ++ [], rfl, ?_⟩
    rw [List.append_nil, hout]
    rfl
  · have hfinish : ∀ q : LexState, q.directive = s.directive → lexMachine.finish q = [] :=
      fun q hq => if_neg (hq ▸ hd)
    rw [hfinish s rfl]
    refine ⟨fun x hx => absurd hx (Option.not_mem_none x), fun s' hs' => ⟨[], ?_, rfl⟩⟩
    show lexMachine.run s' [] = _
    rw [lexMachine.run_nil, hfinish s' hs'.directive]

/-- **The loop reads from the rendering what it read from the source.** -/
theorem run_render (s : LexState) (cs : Text) (ts : List Token)
    (hrun : lexMachine.run s cs = .ok ts) : Rendered s ts := by
  refine lexMachine.run_induction (P := fun s _ ts => Rendered s ts) ?_ ?_ s cs ts hrun
  · exact rendered_finish
  · intro s c cs out s₁ rest later hstep hlater
    obtain ⟨lexeme, hscan, hadv⟩ := lexMachine_step_eq_ok.mp hstep
    obtain ⟨htext, hne⟩ := scan_text hscan
    have hfits := scan_fits hscan
    obtain ⟨rfl, rfl⟩ := Prod.mk.inj hadv.symm
    obtain ⟨u, hu, rfl⟩ : ∃ u, c :: u = lexeme.text ∧ cs = u ++ rest := by
      obtain ⟨d, u, hdu⟩ := List.exists_cons_of_ne_nil hne
      rw [hdu, List.cons_append, List.cons.injEq] at htext
      exact ⟨u, by rw [hdu, htext.1], htext.2⟩
    cases lexeme with
    | blank b =>
      exact rendered_skip (.blank b) ⟨rfl, rfl, rfl, Nat.lt_succ_self _⟩ hlater
    | lineComment text =>
      exact rendered_skip (.lineComment text)
        ⟨rfl, rfl, rfl, Nat.lt_add_of_pos_right (List.length_pos_of_ne_nil hne)⟩ hlater
    | blockComment body =>
      exact rendered_skip (.blockComment body)
        ⟨rfl, rfl, rfl, Nat.lt_add_of_pos_right (Nat.succ_pos _)⟩ hlater
    | newline => exact rendered_newline hlater
    | directiveMark => exact rendered_directiveMark hfits hlater
    | header body => exact rendered_put hscan trivial hu (fun _ _ => rfl) hlater
    | literal text => exact rendered_put hscan trivial hu (fun _ _ => rfl) hlater
    | word text => exact rendered_put hscan trivial hu (fun _ _ => rfl) hlater
    | punctuator text => exact rendered_punctuator hscan hu hlater

/-- The rendering begins with the first token itself. -/
theorem readsBack_initial {source : Text} {tokens : List Token} (h : lex source = .ok tokens) :
    ReadsBack LexState.initial (render tokens) tokens := by
  obtain ⟨-, -, hrun, hne⟩ := lex_eq_ok_iff.mp h
  obtain ⟨ts, hread, hvalues⟩ := (run_render _ _ _ hrun).2 _ follows_initial
  have hspace : restText tokens = ' ' :: render tokens := by
    have hstream := lex_stream h
    obtain ⟨t, ts, rfl⟩ := List.exists_cons_of_ne_nil hne
    have hfirst : t.view ≠ (macroFunction, .boundary) := by
      intro heq
      rw [List.map_cons, heq] at hstream
      cases hstream
    rw [restText, render, List.map_cons, renderFrom, renderFrom, if_neg hfirst, if_neg hfirst]
    rfl
  rw [hspace, run_space] at hread
  have halike : Alike LexState.initial.blanked LexState.initial (render tokens) :=
    ⟨rfl, rfl, rfl, fun _ => rfl, fun t ht => absurd ht List.not_mem_nil, initial_behind⟩
  obtain ⟨ts', hread', hvalues'⟩ := run_alike halike hread
  exact ⟨ts', hread', hvalues'.trans hvalues⟩

end Provenance
end Fragma
