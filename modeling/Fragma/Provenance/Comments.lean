import Fragma.Provenance.Locality
import Fragma.Provenance.Splicing

/-!
# Comments do not change the tokens

An annotated copy of a C source differs from it in comments.  Here a comment is put
into a source at a place between its units, and the tokens stay what they were.

The place is given by cutting the source in two, `s₁ ++ s₂`.  It is a good one when
the lexer comes to stand in front of `s₂` (`Stands`), with two exceptions for block
comments: the end of a line comment, where the new text would belong to that
comment, and the place between the name of a macro and the parenthesis behind it.

* `Alike`, `run_alike`: two states that differ in their position only read the same
  token values.
* `lex_insert`: a text that the lexer skips may be put in at such a place.
* `tokenize_insert_comment`: so comments may.
-/

namespace Fragma
namespace Provenance

/-! ## States that differ in their place -/

/-- Every token of the directive ends at or before the current place. -/
def Behind (s : LexState) : Prop := ∀ t ∈ s.directiveTokens, t.stop ≤ s.i

/-- The second state is the first one, further on. -/
def Moved (s s' : LexState) : Prop :=
  s'.beginning = s.beginning ∧ s'.directive = s.directive ∧
    s'.directiveTokens = s.directiveTokens ∧ s.i < s'.i

/-- Two states that read the same tokens from `rest`: they may differ in where they
stand, as long as a parenthesis means the same to both. -/
structure Alike (s s' : LexState) (rest : Text) : Prop where
  beginning : s'.beginning = s.beginning
  directive : s'.directive = s.directive
  values : s'.directiveTokens.map Token.value = s.directiveTokens.map Token.value
  opens : rest.head? = some '(' → s'.opensMacro = s.opensMacro
  behind : Behind s
  behind' : Behind s'

/-- The tokens of a directive by whose values a header name may follow. -/
def headerAwaited : List Text → Bool
  | [_, name] => name ∈ ["include".toList, "include_next".toList]
  | _ => false

theorem awaitsHeader_congr {s s' : LexState} (hd : s'.directive = s.directive)
    (hv : s'.directiveTokens.map Token.value = s.directiveTokens.map Token.value) :
    s'.awaitsHeader = s.awaitsHeader := by
  have key : ∀ r : LexState, r.awaitsHeader = (r.directive &&
      headerAwaited (r.directiveTokens.map Token.value)) := by
    intro r
    unfold LexState.awaitsHeader
    rcases r.directiveTokens with _ | ⟨_, _ | ⟨_, _ | _⟩⟩ <;> rfl
  rw [key, key, hd, hv]

/-- A state that has moved past its tokens does not open a macro. -/
theorem opensMacro_eq_false {s : LexState} (h : ∀ t ∈ s.directiveTokens, t.stop < s.i) :
    s.opensMacro = false := by
  unfold LexState.opensMacro
  split
  · next _ name macroName heq =>
    have hlt := h macroName (by rw [heq]; simp)
    rw [decide_eq_false (Nat.ne_of_lt hlt)]
    simp
  · simp

theorem Moved.opensMacro {s s' : LexState} (h : Moved s s') (hb : Behind s) :
    s'.opensMacro = false :=
  opensMacro_eq_false fun t ht => Nat.lt_of_le_of_lt (hb t (h.2.2.1 ▸ ht)) h.2.2.2

theorem Moved.behind {s s' : LexState} (h : Moved s s') (hb : Behind s) : Behind s' :=
  fun t ht => Nat.le_of_lt (Nat.lt_of_le_of_lt (hb t (h.2.2.1 ▸ ht)) h.2.2.2)

/-- Two moved states are alike, whatever follows. -/
theorem Moved.alike {s s₁ s₂ : LexState} (h₁ : Moved s s₁) (h₂ : Moved s s₂) (hb : Behind s)
    (rest : Text) : Alike s₁ s₂ rest where
  beginning := h₂.1.trans h₁.1.symm
  directive := h₂.2.1.trans h₁.2.1.symm
  values := by rw [h₁.2.2.1, h₂.2.2.1]
  opens _ := by rw [h₁.opensMacro hb, h₂.opensMacro hb]
  behind := h₁.behind hb
  behind' := h₂.behind hb

/-- A state and a moved one are alike when no parenthesis belongs to a macro
name. -/
theorem Moved.alike_self {s s' : LexState} {rest : Text} (h : Moved s s') (hb : Behind s)
    (hopen : ¬ (s.opensMacro = true ∧ rest.head? = some '(')) : Alike s s' rest where
  beginning := h.1
  directive := h.2.1
  values := by rw [h.2.2.1]
  opens hhead := by
    rw [h.opensMacro hb]
    by_contra hs
    exact hopen ⟨by simpa using Ne.symm hs, hhead⟩
  behind := hb
  behind' := h.behind hb

/-- A token that ends at the current place opens a macro when it is the third one
of a `#define`. -/
theorem opensMacro_append (s : LexState) (ts : List Token) (t : Token)
    (h : s.directiveTokens = ts ++ [t]) (ht : t.stop = s.i) :
    s.opensMacro = (s.directive &&
      match ts.map Token.value with
      | [_, name] => decide (name = "define".toList)
      | _ => false) := by
  unfold LexState.opensMacro
  rw [h]
  rcases ts with _ | ⟨_, _ | ⟨_, _ | ⟨_, ts⟩⟩⟩
  · rfl
  · rfl
  · simp [ht]
  · cases ts <;> rfl

theorem behind_place {s : LexState} {t : Token} (hb : Behind s) (ht : s.i ≤ t.stop) :
    Behind { s.noted t with i := t.stop } := by
  intro t' ht'
  unfold LexState.noted at ht'
  dsimp only at ht' ⊢
  split_ifs at ht' with hd
  · rcases List.mem_append.mp ht' with hmem | hmem
    · exact (hb t' hmem).trans ht
    · rw [List.mem_singleton.mp hmem]
  · exact (hb t' ht').trans ht

/-- Noting tokens with one value that end at the new places makes states alike. -/
theorem place_alike {s s' : LexState} (t t' : Token) (rest : Text)
    (hd : s'.directive = s.directive)
    (hv : s'.directiveTokens.map Token.value = s.directiveTokens.map Token.value)
    (hb : Behind s) (hb' : Behind s') (ht : t'.value = t.value) (hs : s.i ≤ t.stop)
    (hs' : s'.i ≤ t'.stop) :
    Alike { s.noted t with i := t.stop } { s'.noted t' with i := t'.stop } rest := by
  refine ⟨rfl, hd, ?_, fun _ => ?_, behind_place hb hs, behind_place hb' hs'⟩
  · unfold LexState.noted
    dsimp only
    rw [hd]
    split_ifs
    · rw [List.map_append, List.map_append, hv, List.map_singleton, List.map_singleton, ht]
    · exact hv
  · cases hdir : s.directive with
    | false =>
      rw [hdir] at hd
      simp [LexState.opensMacro, LexState.noted, hdir, hd]
    | true =>
      rw [hdir] at hd
      have h₁ := opensMacro_append { s.noted t with i := t.stop } s.directiveTokens t (by simp [LexState.noted, hdir]) rfl
      have h₂ := opensMacro_append { s'.noted t' with i := t'.stop } s'.directiveTokens t' (by simp [LexState.noted, hd]) rfl
      rw [h₁, h₂, hv]
      simp only [LexState.noted, hdir, hd]

theorem put_alike {s s' : LexState} (rest : Text) (hd : s'.directive = s.directive)
    (hv : s'.directiveTokens.map Token.value = s.directiveTokens.map Token.value)
    (hb : Behind s) (hb' : Behind s') (value : Text) :
    (s'.put value).1.map Token.value = (s.put value).1.map Token.value ∧
      Alike (s.put value).2 (s'.put value).2 rest :=
  ⟨rfl, place_alike (s.token value (s.i + value.length) .c)
    (s'.token value (s'.i + value.length) .c) rest hd hv hb hb' rfl (Nat.le_add_right _ _)
    (Nat.le_add_right _ _)⟩

/-- Alike states stay alike over one unit, and add the same values. -/
theorem advance_alike {s s' : LexState} {rest mid : Text} {lexeme : Lexeme}
    (h : Alike s s' mid) (hmid : mid = lexeme.text ++ rest) (hne : lexeme.text ≠ []) :
    (s'.advance lexeme).1.map Token.value = (s.advance lexeme).1.map Token.value ∧
      Alike (s.advance lexeme).2 (s'.advance lexeme).2 rest := by
  have hskip : ∀ (n : ℕ) (m m' : ℕ), 0 < n →
      Alike { s with i := s.i + n, line := m } { s' with i := s'.i + n, line := m' } rest := by
    intro n m m' hn
    have h₁ : Moved s { s with i := s.i + n, line := m } := ⟨rfl, rfl, rfl, by simpa using hn⟩
    have h₂ : Moved s' { s' with i := s'.i + n, line := m' } := ⟨rfl, rfl, rfl, by simpa using hn⟩
    exact ⟨h.beginning, h.directive, h.values,
      fun _ => by rw [h₁.opensMacro h.behind, h₂.opensMacro h.behind'], h₁.behind h.behind,
      h₂.behind h.behind'⟩
  have hput := fun value => put_alike rest h.directive h.values h.behind h.behind' value
  cases lexeme with
  | blank c => exact ⟨rfl, hskip 1 _ _ (by decide)⟩
  | newline =>
    refine ⟨?_, rfl, rfl, rfl, fun _ => rfl, by simp [LexState.advance, Behind],
      by simp [LexState.advance, Behind]⟩
    simp only [LexState.advance, h.directive]
    split_ifs <;> rfl
  | lineComment text => exact ⟨rfl, hskip _ _ _ (List.length_pos_of_ne_nil hne)⟩
  | blockComment body => exact ⟨rfl, hskip _ _ _ (Nat.succ_pos _)⟩
  | directiveMark =>
    let d : LexState := { s with directive := true }
    let d' : LexState := { s' with directive := true }
    exact ⟨rfl, place_alike (s := d) (d.token ppStart (s.i + 1) .boundary)
      (d'.token ppStart (s'.i + 1) .boundary) _ rfl h.values h.behind h.behind' rfl
      (Nat.le_succ _) (Nat.le_succ _)⟩
  | header body => exact hput _
  | literal text => exact hput _
  | word text => exact hput _
  | punctuator text =>
    simp only [LexState.advance]
    by_cases htext : text = ['(']
    · have hopen : s'.opensMacro = s.opensMacro := h.opens (by rw [hmid, Lexeme.text, htext]; rfl)
      rw [hopen]
      split_ifs
      · have hn := place_alike (s.token macroFunction s.i .boundary)
          (s'.token macroFunction s'.i .boundary) rest h.directive h.values h.behind h.behind' rfl
          (Nat.le_refl _) (Nat.le_refl _)
        obtain ⟨hout, halike⟩ :=
          put_alike rest hn.directive hn.values hn.behind hn.behind' text
        exact ⟨congrArg (macroFunction :: ·) hout, halike⟩
      · exact hput text
    · rw [if_neg fun hc => htext hc.2, if_neg fun hc => htext hc.2]
      exact hput text

/-- **States that differ in their place only read the same token values.** -/
theorem run_alike {s s' : LexState} {rest : Text} {ts : List Token} (h : Alike s s' rest)
    (hr : lexMachine.run s rest = .ok ts) :
    ∃ ts', lexMachine.run s' rest = .ok ts' ∧ ts'.map Token.value = ts.map Token.value := by
  refine lexMachine.run_congr Token.value (R := Alike) ?_ ?_ s s' rest ts h hr
  · intro q q' hq
    simp only [lexMachine, hq.directive]
    split_ifs <;> rfl
  · intro q q' c cs out q₁ rest hq hstep
    obtain ⟨lexeme, hscan, hadv⟩ := lexMachine_step_eq_ok.mp hstep
    obtain ⟨htext, hne⟩ := scan_text hscan
    obtain ⟨hout, halike⟩ := advance_alike hq htext hne
    rw [hadv] at hout halike
    refine ⟨(q'.advance lexeme).1, (q'.advance lexeme).2, ?_, hout, halike⟩
    rw [lexMachine_step_eq_ok]
    refine ⟨lexeme, ?_, rfl⟩
    rw [hq.beginning, hq.directive, awaitsHeader_congr hq.directive hq.values]
    exact hscan

/-- Every state that the loop comes to is at or behind its tokens. -/
theorem behind_step {s s' : LexState} {c : Char} {cs rest : Text} {out : List Token}
    (hb : Behind s) (hs : lexMachine.step s c cs = .ok (out, s', rest)) : Behind s' := by
  obtain ⟨lexeme, hscan, hadv⟩ := lexMachine_step_eq_ok.mp hs
  obtain ⟨htext, hne⟩ := scan_text hscan
  have hself : Alike s s (c :: cs) := ⟨rfl, rfl, rfl, fun _ => rfl, hb, hb⟩
  have := (advance_alike hself htext hne).2.behind
  rwa [hadv] at this

/-! ## Texts that the lexer passes over -/

/-- Whatever its state, the lexer passes over `J` in front of `rest`: it adds no
token and only moves on. -/
def Skips (J rest : Text) : Prop :=
  ∀ s, ∃ s', lexMachine.Steps s (J ++ rest) [] s' rest ∧ Moved s s'

theorem blank_step (s : LexState) (cs : Text) :
    lexMachine.step s ' ' cs = .ok ([], { s with i := s.i + 1 }, cs) :=
  lexMachine_step_eq_ok.mpr ⟨.blank ' ', rfl, rfl⟩

theorem newline_step (s : LexState) (cs : Text) :
    lexMachine.step s '\n' cs = .ok ((s.advance .newline).1, (s.advance .newline).2, cs) :=
  lexMachine_step_eq_ok.mpr ⟨.newline, rfl, rfl⟩

/-- A line comment is passed over up to the end of its line. -/
theorem lineComment_step (s : LexState) {text rest : Text} (htext : '\n' ∉ text)
    (hrest : ∀ c, rest.head? = some c → c = '\n') :
    lexMachine.step s '/' ('/' :: (text ++ rest)) =
      .ok ([], { s with i := s.i + (text.length + 2) }, rest) := by
  have hall : ∀ a ∈ '/' :: text, decide (a ≠ '\n') = true := by
    intro a ha
    rw [decide_eq_true_eq]
    rintro rfl
    exact htext (List.mem_of_ne_of_mem (by decide) ha)
  have hstop : rest.takeWhile (· ≠ '\n') = [] ∧ rest.dropWhile (· ≠ '\n') = rest := by
    cases rest with
    | nil => exact ⟨rfl, rfl⟩
    | cons c rest =>
      rw [hrest c rfl]
      exact ⟨by simp, by simp⟩
  refine lexMachine_step_eq_ok.mpr ⟨.lineComment ('/' :: '/' :: text), ?_, rfl⟩
  unfold scan
  rw [if_neg (by decide), if_neg (by decide), if_pos ⟨rfl, rfl⟩, ← List.cons_append,
    List.takeWhile_append_of_pos hall, List.dropWhile_append_of_pos hall, hstop.1, hstop.2,
    List.append_nil]

theorem blockComment_step (s : LexState) {body rest : Text} (hbody : ¬ commentEnd <:+: body) :
    lexMachine.step s '/' ('*' :: (body ++ '*' :: '/' :: rest)) =
      .ok ([], { s with i := s.i + (body.length + 4), line := s.line + body.count '\n' }, rest) := by
  refine lexMachine_step_eq_ok.mpr ⟨.blockComment body, ?_, rfl⟩
  have hclose : closeComment (body ++ '*' :: '/' :: rest) = some (body, rest) := by
    rw [closeComment_eq_some_iff]
    refine ⟨rfl, fun hinfix => ?_⟩
    obtain ⟨a, b, hab⟩ := hinfix
    rcases List.eq_nil_or_concat b with rfl | ⟨b, x, rfl⟩
    · have := congrArg List.getLast? hab
      simp [commentEnd] at this
    · rw [List.concat_eq_append, ← List.append_assoc] at hab
      exact hbody ⟨a, b, List.append_inj_left' hab rfl⟩
  unfold scan
  rw [if_neg (by decide), if_neg (by decide), if_neg (by simp), if_pos ⟨rfl, rfl⟩, List.tail_cons,
    hclose]

theorem blockComment_skips {body rest : Text} (hbody : ¬ commentEnd <:+: body) :
    Skips (' ' :: '/' :: '*' :: (body ++ ['*', '/', ' '])) rest := by
  intro s
  have htext : ' ' :: '/' :: '*' :: (body ++ ['*', '/', ' ']) ++ rest =
      ' ' :: '/' :: '*' :: (body ++ '*' :: '/' :: ' ' :: rest) := by simp
  have hsteps := ((Scan.Machine.Steps.single (blank_step s _)).trans
    (Scan.Machine.Steps.single (blockComment_step _ hbody))).trans
      (Scan.Machine.Steps.single (blank_step _ rest))
  rw [← htext] at hsteps
  refine ⟨_, hsteps, rfl, rfl, rfl, ?_⟩
  dsimp only
  omega

theorem lineComment_skips {text rest : Text} (htext : '\n' ∉ text)
    (hrest : ∀ c, rest.head? = some c → c = '\n') : Skips (' ' :: '/' :: '/' :: text) rest := by
  intro s
  have hsteps := (Scan.Machine.Steps.single (blank_step s _)).trans
    (Scan.Machine.Steps.single (lineComment_step _ htext hrest))
  refine ⟨_, hsteps, rfl, rfl, rfl, ?_⟩
  dsimp only
  omega

/-! ## Putting a text in -/

/-- Two ways to alike states in front of one text. -/
theorem run_of_alike {s q q' : LexState} {cs cs' rest : Text} {out out' ts : List Token}
    (h : lexMachine.Steps s cs out q rest) (h' : lexMachine.Steps s cs' out' q' rest)
    (hout : out'.map Token.value = out.map Token.value) (halike : Alike q q' rest)
    (hrun : lexMachine.run s cs = .ok ts) :
    ∃ ts', lexMachine.run s cs' = .ok ts' ∧ ts'.map Token.value = ts.map Token.value := by
  rw [Scan.Machine.run_of_steps h] at hrun
  cases hr : lexMachine.run q rest with
  | error e =>
    rw [hr] at hrun
    exact absurd hrun (by simp [Except.map])
  | ok later =>
    rw [hr] at hrun
    obtain ⟨later', hr', hlater⟩ := run_alike halike hr
    refine ⟨out' ++ later', by rw [Scan.Machine.run_of_steps h', hr']; rfl, ?_⟩
    rw [← Except.ok.inj hrun, List.map_append, List.map_append, hout, hlater]

theorem initial_behind : Behind LexState.initial := fun _ h => absurd h List.not_mem_nil

theorem steps_behind {q : LexState} {cs rest : Text} {out : List Token}
    (h : lexMachine.Steps LexState.initial cs out q rest) : Behind q :=
  h.invariant (fun _ _ _ _ _ _ hb hs => behind_step hb hs) initial_behind

/-- A text that is passed over goes in where the lexer stands. -/
theorem run_insert {X S J : Text} {q : LexState} {out ts : List Token}
    (h : lexMachine.Steps LexState.initial (X ++ S) out q S) (hJ : J.head? = some ' ')
    (hskip : Skips J S)
    (hline : ∀ s₁ out₁ mid, lexMachine.Steps LexState.initial (X ++ S) out₁ s₁ mid →
      NotCommented mid S)
    (hopen : ¬ (q.opensMacro = true ∧ S.head? = some '('))
    (hrun : lexMachine.run LexState.initial (X ++ S) = .ok ts) :
    ∃ ts', lexMachine.run LexState.initial (X ++ (J ++ S)) = .ok ts' ∧
      ts'.map Token.value = ts.map Token.value := by
  have hhead : (J ++ S).head? = some ' ' := by
    obtain ⟨t, rfl⟩ := List.head?_eq_some_iff.mp hJ
    rfl
  obtain ⟨q', hsteps, hmoved⟩ := hskip q
  exact run_of_alike h ((steps_append h rfl (Or.inl hhead) fun _ => hline).trans hsteps)
    (by rw [List.append_nil]) (hmoved.alike_self (steps_behind h) hopen) hrun

/-- It also goes in between two newlines that were one line ending. -/
theorem run_insert_newline {X U J : Text} {q : LexState} {out ts : List Token}
    (h : lexMachine.Steps LexState.initial (X ++ '\n' :: U) out q ('\n' :: U))
    (hskip : Skips J ('\n' :: U))
    (hrun : lexMachine.run LexState.initial (X ++ '\n' :: U) = .ok ts) :
    ∃ ts', lexMachine.run LexState.initial (X ++ '\n' :: (J ++ '\n' :: U)) = .ok ts' ∧
      ts'.map Token.value = ts.map Token.value := by
  have hseal : Seals ('\n' :: U) ('\n' :: (J ++ '\n' :: U)) := Or.inr ⟨rfl, Or.inr rfl⟩
  have hfirst := steps_append h rfl hseal fun hsp => absurd hsp (by simp)
  obtain ⟨q₁, hsteps, hmoved⟩ := hskip (q.advance .newline).2
  refine run_of_alike (h.trans (Scan.Machine.Steps.single (newline_step q U)))
    (((hfirst.trans (Scan.Machine.Steps.single (newline_step q _))).trans hsteps).trans
      (Scan.Machine.Steps.single (newline_step q₁ U))) ?_ ?_ hrun
  · -- the second newline is on a line of its own, so it ends no directive
    have hdir : q₁.directive = false := hmoved.2.1
    simp [LexState.advance, hdir]
  · exact ⟨rfl, rfl, rfl, fun _ => rfl, fun _ ht => absurd ht List.not_mem_nil,
      fun _ ht => absurd ht List.not_mem_nil⟩

/-- A line comment can be made longer. -/
theorem run_insert_lineComment {X S text more : Text} {q : LexState} {out ts : List Token}
    (h : lexMachine.Steps LexState.initial (X ++ S) out q ('/' :: '/' :: (text ++ S)))
    (htext : '\n' ∉ text) (hmore : '\n' ∉ more) (hS : ∀ c, S.head? = some c → c = '\n')
    (hrun : lexMachine.run LexState.initial (X ++ S) = .ok ts) :
    ∃ ts', lexMachine.run LexState.initial (X ++ (more ++ S)) = .ok ts' ∧
      ts'.map Token.value = ts.map Token.value := by
  obtain ⟨Y, hY⟩ := h.suffix
  have hX : X = Y ++ '/' :: '/' :: text := by
    refine (List.append_left_inj S).mp ?_
    rw [← hY]
    simp
  have hseal : Seals ('/' :: '/' :: (text ++ S)) ('/' :: '/' :: ((text ++ more) ++ S)) :=
    Or.inr ⟨rfl, Or.inl rfl⟩
  have hfirst := steps_append h hY.symm hseal fun hsp => absurd hsp (by simp)
  have hnew : X ++ (more ++ S) = Y ++ '/' :: '/' :: ((text ++ more) ++ S) := by
    rw [hX]
    simp
  have hboth : '\n' ∉ text ++ more := by
    rw [List.mem_append, not_or]
    exact ⟨htext, hmore⟩
  rw [hnew]
  refine run_of_alike (h.trans (Scan.Machine.Steps.single (lineComment_step q htext hS)))
    (hfirst.trans (Scan.Machine.Steps.single (lineComment_step q hboth hS))) rfl ?_ hrun
  have hmoved : ∀ n, Moved q { q with i := q.i + (n + 2) } := by
    intro n
    refine ⟨rfl, rfl, rfl, ?_⟩
    dsimp only
    omega
  exact (hmoved _).alike (hmoved _) (steps_behind h) S

/-! ## Trigraphs -/

theorem hasTrigraph_iff {cs : Text} :
    hasTrigraph cs = true ↔ ∃ e ∈ trigraphEnds, ['?', '?', e] <:+: cs := by
  fun_induction hasTrigraph cs with
  | case1 c cs ih =>
    rw [Bool.or_eq_true, decide_eq_true_eq, ih]
    constructor
    · rintro (hc | ⟨e, he, hi⟩)
      · exact ⟨c, hc, [], cs, rfl⟩
      · exact ⟨e, he, hi.trans (List.suffix_cons '?' _).isInfix⟩
    · rintro ⟨e, he, hi⟩
      rcases List.infix_cons_iff.mp hi with hp | hi
      · simp only [List.cons_prefix_cons] at hp
        exact Or.inl (hp.2.2.1 ▸ he)
      · exact Or.inr ⟨e, he, hi⟩
  | case2 c cs hne ih =>
    rw [ih]
    refine exists_congr fun e => and_congr_right fun _ => ⟨fun hi => ?_, fun hi => ?_⟩
    · exact hi.trans (List.suffix_cons c cs).isInfix
    · rcases List.infix_cons_iff.mp hi with ⟨t, ht⟩ | hi
      · rw [List.cons_append, List.cons.injEq] at ht
        exact absurd ht.2.symm (hne e t ht.1.symm)
      · exact hi
  | case3 => simp

/-- An infix that avoids the entry between two texts is in one of them. -/
theorem infix_of_infix_append {α : Type*} {p u t : List α} {x : α} (hp : p ≠ []) (hx : x ∉ p)
    (h : p <:+: u ++ x :: t) : p <:+: u ∨ p <:+: t := by
  induction u with
  | nil =>
    rw [List.nil_append] at h
    rcases List.infix_cons_iff.mp h with hpre | hi
    · obtain ⟨a, p, rfl⟩ := List.exists_cons_of_ne_nil hp
      exact absurd (List.mem_cons.mpr (Or.inl (List.cons_prefix_cons.mp hpre).1.symm)) hx
    · exact Or.inr hi
  | cons a u ih =>
    rw [List.cons_append] at h
    rcases List.infix_cons_iff.mp h with hpre | hi
    · rw [← List.cons_append] at hpre
      exact Or.inl (prefix_of_prefix_append hx hpre).isInfix
    · exact (ih hi).imp_left fun h => h.trans (List.suffix_cons a u).isInfix

/-- A character that is in no trigraph keeps them apart. -/
theorem hasTrigraph_append_cons {u t : Text} {x : Char} (hx : x ∉ '?' :: trigraphEnds)
    (hu : hasTrigraph u = false) (ht : hasTrigraph t = false) :
    hasTrigraph (u ++ x :: t) = false := by
  rw [← Bool.not_eq_true, hasTrigraph_iff] at *
  rintro ⟨e, he, hi⟩
  have hxp : x ∉ ['?', '?', e] := by
    rw [List.mem_cons, not_or] at hx
    simp only [List.mem_cons, List.not_mem_nil, or_false, not_or]
    exact ⟨hx.1, hx.1, fun heq => hx.2 (heq ▸ he)⟩
  rcases infix_of_infix_append (by simp) hxp hi with h | h
  · exact hu ⟨e, he, h⟩
  · exact ht ⟨e, he, h⟩

/-! ## Putting a comment in -/

/-- A text that may be written into a comment: it has no NUL, no trigraph, no
backslash in front of a line ending, and no `*/`. -/
structure CommentText (c : Text) : Prop where
  noNul : '\x00' ∉ c
  noTrigraph : hasTrigraph c = false
  noPair : ¬ ['\\', '\n'] <:+: c ∧ ¬ ['\\', '\r'] <:+: c
  noEnd : ¬ commentEnd <:+: c

/-- A text as a block comment between two spaces. -/
def blockComment (c : Text) : Text := " /*".toList ++ c ++ "*/ ".toList

/-- A text as a line comment behind a space. -/
def lineComment (c : Text) : Text := " //".toList ++ c

/-- The lexer, reading `s₁ ++ s₂`, comes to stand in front of `s₂` in the state `q`:
the place between the halves is in no token, comment, literal or backslash-newline
pair. -/
structure Stands (s₁ s₂ : Text) (q : LexState) : Prop where
  reached : ∃ out, lexMachine.Steps LexState.initial (spliced (s₁ ++ s₂)) out q (spliced s₂)
  uncut : ¬ CutsPair s₁ s₂

/-- The place is in a line comment or at its end: no newline is between the slashes
and the place. -/
def InLineComment (s₁ s₂ : Text) : Prop :=
  ¬ CutsLineEnding s₁ s₂ ∧ ∃ q out text, '\n' ∉ text ∧
    lexMachine.Steps LexState.initial (spliced (s₁ ++ s₂)) out q
      ('/' :: '/' :: (text ++ spliced s₂))

/-- The place is between the name of a macro and the parenthesis of its parameter
list. -/
def BeforeParameters (q : LexState) (s₂ : Text) : Prop :=
  q.opensMacro = true ∧ (spliced s₂).head? = some '('

/-- The place is at the end of a line. -/
def EndsLine (s₂ : Text) : Prop := ∀ c, s₂.head? = some c → c = '\n' ∨ c = '\r'

theorem EndsLine.spliced {s₂ : Text} (h : EndsLine s₂) :
    ∀ c, (spliced s₂).head? = some c → c = '\n' := by
  intro c hc
  cases s₂ with
  | nil => exact absurd hc (by simp [Provenance.spliced, normalise, splice])
  | cons d ds =>
    have hhead : ∃ t, normalise (d :: ds) = '\n' :: t := by
      rcases h d rfl with rfl | rfl
      · exact ⟨_, normalise_cons (by decide)⟩
      · by_cases hds : ds.head? = some '\n'
        · obtain ⟨t, rfl⟩ := List.head?_eq_some_iff.mp hds
          exact ⟨_, normalise.eq_1 t⟩
        · exact ⟨_, normalise_cr hds⟩
    obtain ⟨t, ht⟩ := hhead
    rw [Provenance.spliced, ht, splice.eq_2 _ _ (fun _ h _ => absurd h (by decide))] at hc
    exact (Option.some.inj hc).symm

/-- In a text for comments, splicing has nothing to do. -/
theorem CommentText.spliced {c : Text} (hc : CommentText c) : spliced c = normalise c := by
  refine splice_eq_self fun h => ?_
  exact (infix_normalise (by decide) h).elim hc.noPair.1 fun h => hc.noPair.2 h.2

theorem CommentText.normalise_noEnd {c : Text} (hc : CommentText c) :
    ¬ commentEnd <:+: normalise c := fun h =>
  (infix_normalise (by decide) h).elim hc.noEnd fun h => absurd h.1 (by decide)

theorem spliced_blockComment {c : Text} (hc : CommentText c) :
    spliced (blockComment c) = ' ' :: '/' :: '*' :: (normalise c ++ ['*', '/', ' ']) := by
  rw [blockComment, spliced_append, spliced_append, hc.spliced]
  · rfl
  · exact fun h => absurd h.1 (by decide)
  · rintro (h | h)
    · exact absurd h.1 (by decide)
    · exact absurd (h.1.mem (by simp)) (by decide : '\\' ∉ " /*".toList)
  · exact fun h => absurd h.2 (by decide)
  · rintro (h | h)
    · exact absurd h.2 (by decide)
    · exact absurd h.2 (by decide)

theorem spliced_lineComment {c : Text} (hc : CommentText c) :
    spliced (lineComment c) = ' ' :: '/' :: '/' :: normalise c := by
  rw [lineComment, spliced_append, hc.spliced]
  · rfl
  · exact fun h => absurd h.1 (by decide)
  · rintro (h | h)
    · exact absurd h.1 (by decide)
    · exact absurd (h.1.mem (by simp)) (by decide : '\\' ∉ " //".toList)

/-- A text that starts with a space is spliced apart from what is in front of it. -/
theorem spliced_insert {s₁ s₂ J : Text} (hfirst : J.head? = some ' ')
    (hle : ¬ CutsLineEnding J s₂) (hpair : ¬ CutsPair J s₂) :
    spliced (s₁ ++ (J ++ s₂)) = spliced s₁ ++ (spliced J ++ spliced s₂) := by
  obtain ⟨t, rfl⟩ := List.head?_eq_some_iff.mp hfirst
  rw [spliced_append, spliced_append hle hpair]
  · exact fun h => absurd h.2 (by simp)
  · rintro (h | h)
    · exact absurd h.2 (by simp)
    · exact absurd h.2 (by simp)

/-- **A text that is passed over goes in** where the lexer stands, outside line
comments and not in front of the parameters of a macro. -/
theorem run_insert_text {s₁ s₂ J : Text} {q : LexState} {ts : List Token} (hq : Stands s₁ s₂ q)
    (hfirst : J.head? = some ' ') (hle : ¬ CutsLineEnding J s₂) (hpair : ¬ CutsPair J s₂)
    (hskip : Skips (spliced J) (spliced s₂)) (hline : ¬ InLineComment s₁ s₂)
    (hopen : ¬ BeforeParameters q s₂)
    (hrun : lexMachine.run LexState.initial (spliced (s₁ ++ s₂)) = .ok ts) :
    ∃ ts', lexMachine.run LexState.initial (spliced (s₁ ++ (J ++ s₂))) = .ok ts' ∧
      ts'.map Token.value = ts.map Token.value := by
  obtain ⟨out, hsteps⟩ := hq.reached
  rw [spliced_insert hfirst hle hpair]
  by_cases hcut : CutsLineEnding s₁ s₂
  · obtain ⟨a, b, hboth, h₁, h₂⟩ := spliced_of_cutsLineEnding hcut hq.uncut
    rw [hboth] at hsteps hrun
    rw [h₂] at hsteps hskip ⊢
    rw [h₁, List.append_assoc, List.singleton_append]
    exact run_insert_newline hsteps hskip hrun
  · have hboth := spliced_append hcut hq.uncut
    have hJ : (spliced J).head? = some ' ' := by
      obtain ⟨t, rfl⟩ := List.head?_eq_some_iff.mp hfirst
      rw [spliced_cons (by decide) (by decide)]
      rfl
    rw [hboth] at hsteps hrun
    refine run_insert hsteps hJ hskip (fun s out' mid hmid text htext heq => ?_) hopen hrun
    refine hline ⟨hcut, s, out', text, htext, ?_⟩
    rw [hboth, ← heq]
    exact hmid

/-- A text whose run adds the same values as another one has its tokens. -/
theorem tokenize_of_run {s s' : Text} {values : List Text} (h : tokenize s = .ok values)
    (hnul : '\x00' ∉ s') (htri : hasTrigraph s' = false)
    (hrun : ∀ ts, lexMachine.run LexState.initial (spliced s) = .ok ts →
      ∃ ts', lexMachine.run LexState.initial (spliced s') = .ok ts' ∧
        ts'.map Token.value = ts.map Token.value) :
    tokenize s' = .ok values := by
  obtain ⟨tokens, hlex, hvalues⟩ := tokenize_eq_ok_iff.mp h
  obtain ⟨-, -, hr, hne⟩ := lex_eq_ok_iff.mp hlex
  obtain ⟨ts', hr', hts'⟩ := hrun tokens hr
  refine tokenize_eq_ok_iff.mpr ⟨ts', lex_eq_ok_iff.mpr ⟨hnul, htri, hr', ?_⟩, hts'.trans hvalues⟩
  rintro rfl
  exact hne (List.map_eq_nil_iff.mp hts'.symm)

theorem hasTrigraph_of_isInfix {u cs : Text} (h : u <:+: cs) (hcs : hasTrigraph cs = false) :
    hasTrigraph u = false := by
  rw [← Bool.not_eq_true, hasTrigraph_iff] at *
  rintro ⟨e, he, hi⟩
  exact hcs ⟨e, he, hi.trans h⟩

theorem hasTrigraph_blockComment {s₁ s₂ c : Text} (h : hasTrigraph (s₁ ++ s₂) = false)
    (hc : CommentText c) : hasTrigraph (s₁ ++ (blockComment c ++ s₂)) = false := by
  have h₁ := hasTrigraph_of_isInfix (List.prefix_append s₁ s₂).isInfix h
  have h₂ := hasTrigraph_of_isInfix (List.suffix_append s₁ s₂).isInfix h
  have htext : s₁ ++ (blockComment c ++ s₂) =
      s₁ ++ ' ' :: (['/'] ++ '*' :: (c ++ '*' :: (['/'] ++ ' ' :: s₂))) := by
    simp [blockComment]
  rw [htext]
  refine hasTrigraph_append_cons (by decide) h₁ (hasTrigraph_append_cons (by decide) rfl ?_)
  exact hasTrigraph_append_cons (by decide) hc.noTrigraph
    (hasTrigraph_append_cons (by decide) rfl h₂)

theorem hasTrigraph_lineComment {s₁ s₂ c : Text} (h : hasTrigraph (s₁ ++ s₂) = false)
    (hc : CommentText c) (hend : EndsLine s₂) :
    hasTrigraph (s₁ ++ (lineComment c ++ s₂)) = false := by
  have h₁ := hasTrigraph_of_isInfix (List.prefix_append s₁ s₂).isInfix h
  have hrest : hasTrigraph (c ++ s₂) = false := by
    cases s₂ with
    | nil =>
      rw [List.append_nil]
      exact hc.noTrigraph
    | cons x t =>
      have ht : t <:+: s₁ ++ x :: t := ⟨s₁ ++ [x], [], by simp⟩
      refine hasTrigraph_append_cons ?_ hc.noTrigraph (hasTrigraph_of_isInfix ht h)
      rcases hend x rfl with rfl | rfl <;> decide
  exact hasTrigraph_append_cons (u := s₁) (t := '/' :: '/' :: (c ++ s₂)) (by decide) h₁ hrest

/-- **A comment does not change the tokens.**  Any text that may stand in a comment
can be put in as a block comment where the lexer stands, except at the end of a line
comment and in front of the parameters of a macro; and as a line comment at the end
of a line, also of one that ends in a line comment, if it has no newline itself and
does not end in a backslash. -/
theorem tokenize_insert_comment {s₁ s₂ c : Text} {values : List Text} {q : LexState}
    (h : tokenize (s₁ ++ s₂) = .ok values) (hq : Stands s₁ s₂ q) (hc : CommentText c) :
    (¬ InLineComment s₁ s₂ → ¬ BeforeParameters q s₂ →
        tokenize (s₁ ++ (blockComment c ++ s₂)) = .ok values) ∧
      (EndsLine s₂ → '\n' ∉ c → '\r' ∉ c → c.getLast? ≠ some '\\' →
        tokenize (s₁ ++ (lineComment c ++ s₂)) = .ok values) := by
  obtain ⟨tokens, hlex, -⟩ := tokenize_eq_ok_iff.mp h
  obtain ⟨hnul, htri, -, -⟩ := lex_eq_ok_iff.mp hlex
  rw [List.mem_append, not_or] at hnul
  constructor
  · intro hline hopen
    have hlast : (blockComment c).getLast? = some ' ' := by
      rw [blockComment, List.getLast?_append]
      rfl
    refine tokenize_of_run h ?_ (hasTrigraph_blockComment htri hc) fun ts hrun => ?_
    · simp [blockComment, hnul, hc.noNul]
    · refine run_insert_text hq rfl ?_ ?_ ?_ hline hopen hrun
      · exact fun hcut => absurd (hlast.symm.trans hcut.1) (by decide)
      · rintro (hcut | ⟨⟨t, ht⟩, -⟩)
        · exact absurd (hlast.symm.trans hcut.1) (by decide)
        · rw [← ht] at hlast
          exact absurd hlast (by simp)
      · rw [spliced_blockComment hc]
        exact blockComment_skips hc.normalise_noEnd
  · intro hend hnl hcr hback
    have hJ : spliced (lineComment c) = ' ' :: '/' :: '/' :: c := by
      rw [spliced_lineComment hc, normalise_eq_self hcr]
    refine tokenize_of_run h ?_ (hasTrigraph_lineComment htri hc hend) fun ts hrun => ?_
    · simp [lineComment, hnul, hc.noNul]
    · have hle : ¬ CutsLineEnding (lineComment c) s₂ := by
        intro hcut
        have := List.mem_of_getLast? hcut.1
        simp [lineComment, hcr] at this
      have hpair : ¬ CutsPair (lineComment c) s₂ := by
        rintro (⟨hl, -⟩ | ⟨hs, -⟩)
        · rcases List.eq_nil_or_concat c with rfl | ⟨t, x, rfl⟩
          · exact absurd hl (by decide)
          · refine hback ?_
            rw [← hl, lineComment, List.concat_eq_append, ← List.append_assoc,
              List.getLast?_concat, List.getLast?_concat]
        · have := hs.mem (List.mem_cons_of_mem _ (List.mem_singleton.mpr rfl))
          simp [lineComment, hcr] at this
      by_cases hline : InLineComment s₁ s₂
      · obtain ⟨hcut, q₀, out, text, htext, hsteps⟩ := hline
        rw [spliced_insert rfl hle hpair, hJ]
        rw [spliced_append hcut hq.uncut] at hsteps hrun
        exact run_insert_lineComment hsteps htext (by simpa using hnl) hend.spliced hrun
      · refine run_insert_text hq rfl hle hpair ?_ hline ?_ hrun
        · rw [hJ]
          exact lineComment_skips hnl hend.spliced
        · exact fun hopen => absurd (hend.spliced _ hopen.2) (by decide)

/-- A comment goes between the name of an object-like macro and the newline that ends
its directive. -/
theorem tokenize_insert_comment_define :
    tokenize ("#define A".toList ++ (blockComment "@ok".toList ++ "\nint a;".toList)) =
        .ok (["<pp-start>", "define", "A", "<pp-end>", "int", "a", ";"].map String.toList) ∧
      tokenize ("#define A".toList ++ (lineComment "@ok".toList ++ "\nint a;".toList)) =
        .ok (["<pp-start>", "define", "A", "<pp-end>", "int", "a", ";"].map String.toList) := by
  have h : tokenize ("#define A".toList ++ "\nint a;".toList) =
      .ok (["<pp-start>", "define", "A", "<pp-end>", "int", "a", ";"].map String.toList) := by rfl
  have hq : Stands "#define A".toList "\nint a;".toList
      ⟨9, 1, false, true, [⟨ppStart, .boundary, 1, 0, 1⟩, ⟨"define".toList, .pp, 1, 1, 7⟩,
        ⟨"A".toList, .pp, 1, 8, 9⟩]⟩ := by
    refine ⟨⟨_, .head rfl (.head rfl (.head rfl (.head rfl (.refl _ _))))⟩, ?_⟩
    rintro (hcut | hcut)
    · exact absurd hcut.1 (by decide)
    · exact absurd hcut.1 (by decide)
  have hc : CommentText "@ok".toList :=
    ⟨by decide, by rfl, by decide, by decide⟩
  obtain ⟨hblock, hline⟩ := tokenize_insert_comment h hq hc
  refine ⟨hblock ?_ ?_, hline ?_ (by decide) (by decide) (by decide)⟩
  · rintro ⟨-, q, out, text, -, hsteps⟩
    have hmem : '/' ∈ spliced ("#define A".toList ++ "\nint a;".toList) :=
      hsteps.suffix.mem (List.mem_cons_self)
    exact absurd hmem (by decide)
  · exact fun hopen => absurd hopen.2 (by decide)
  · intro c hcc
    exact Or.inl (Option.some.inj hcc).symm

end Provenance
end Fragma
