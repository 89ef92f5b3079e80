import Fragma.Provenance.Locality

/-!
# The values of the tokens determine their kinds

The comparison of two sources is made on token values; kinds and places are thrown
away.  A header name can be spelled like a marker, `#include <pp-end>`, so a value
alone does not tell what its token is.  The whole sequence does.

* `Stream`: the sequences of values and kinds that the loop can add, as the runs of an
  automaton whose states are the directives that have been read in part.
* `lex_stream`: what the lexer returns is such a sequence.
* `Stream.unique`: a sequence of values belongs to at most one of them.
* `lex_view_eq`: sources with the same values have the same kinds.
-/

namespace Fragma
namespace Provenance

/-- The names of directives that take a header name. -/
def includeNames : List Text := ["include".toList, "include_next".toList]

/-- The values of the markers. -/
def markers : List Text := [ppStart, ppEnd, macroFunction]

/-- What the kind of a token is known from: its value and its kind. -/
def Token.view (t : Token) : Text × Kind := (t.value, t.kind)

/-! ## The automaton -/

/-- The values and kinds that the loop can add from a state: whether a directive is
being read, and the values of its tokens so far. -/
inductive Stream : Bool → List Text → List (Text × Kind) → Prop where
  | done : Stream false [] []
  | code {v : Text} {ts : List (Text × Kind)} : v ∉ markers → Stream false [] ts →
      Stream false [] ((v, .c) :: ts)
  | start {ts : List (Text × Kind)} : Stream true [ppStart] ts →
      Stream false [] ((ppStart, .boundary) :: ts)
  | inside {dv : List Text} {v : Text} {ts : List (Text × Kind)} : v ∉ markers →
      Stream true (dv ++ [v]) ts → Stream true dv ((v, .pp) :: ts)
  | header {first name v : Text} {ts : List (Text × Kind)} : name ∈ includeNames →
      Stream true [first, name, v] ts → Stream true [first, name] ((v, .pp) :: ts)
  | parameters {first name : Text} {ts : List (Text × Kind)} :
      Stream true [first, "define".toList, name, macroFunction, ['(']] ts →
        Stream true [first, "define".toList, name]
          ((macroFunction, .boundary) :: (['('], .pp) :: ts)
  | stop {dv : List Text} {ts : List (Text × Kind)} : Stream false [] ts →
      Stream true dv ((ppEnd, .boundary) :: ts)

/-- The first marker of a directive in a sequence of values: where one starts or
where one ends. -/
def firstBorder (vs : List Text) : Option Text := vs.find? fun v => v = ppStart ∨ v = ppEnd

theorem firstBorder_cons_of_not_mem {v : Text} {vs : List Text} (hv : v ∉ markers) :
    firstBorder (v :: vs) = firstBorder vs := by
  simp only [markers, List.mem_cons, List.not_mem_nil, or_false, not_or] at hv
  rw [firstBorder, List.find?_cons_of_neg (by simp [hv])]
  rfl

/-- Outside directives, no directive ends before one starts. -/
theorem firstBorder_code {ts : List (Text × Kind)} (h : Stream false [] ts) :
    firstBorder (ts.map Prod.fst) ≠ some ppEnd := by
  generalize hd : false = d at h
  generalize hdv : [] = dv at h
  induction h with
  | done => exact fun h => absurd h (by simp [firstBorder])
  | code hv _ ih =>
    rw [List.map_cons, firstBorder_cons_of_not_mem hv]
    exact ih hd hdv
  | start _ _ =>
    rw [List.map_cons, firstBorder, List.find?_cons_of_pos (by simp)]
    decide
  | inside => exact absurd hd (by decide)
  | header => exact absurd hd (by decide)
  | parameters => exact absurd hd (by decide)
  | stop => exact absurd hd (by decide)

/-- Behind the header name of an `#include`, the directive ends before another one
starts. -/
theorem firstBorder_included {first name v : Text} {dv : List Text} {ts : List (Text × Kind)}
    (hname : name ∈ includeNames) (h : Stream true (first :: name :: v :: dv) ts) :
    firstBorder (ts.map Prod.fst) = some ppEnd := by
  generalize hd : true = d at h
  generalize hdv : first :: name :: v :: dv = dv' at h
  induction h generalizing dv with
  | done => exact absurd hd (by decide)
  | code => exact absurd hd (by decide)
  | start => exact absurd hd (by decide)
  | inside hw _ ih =>
    rw [List.map_cons, firstBorder_cons_of_not_mem hw]
    exact @ih (dv ++ [_]) hd (by rw [← hdv]; rfl)
  | header => exact absurd hdv (by simp)
  | parameters =>
    simp only [List.cons.injEq] at hdv
    rw [hdv.2.1] at hname
    exact absurd hname (by decide)
  | stop => rfl

/-- **A sequence of values has at most one reading.** -/
theorem Stream.unique {d : Bool} {dv : List Text} {xs ys : List (Text × Kind)}
    (h : Stream d dv xs) (h' : Stream d dv ys) (hv : xs.map Prod.fst = ys.map Prod.fst) :
    xs = ys := by
  have not_start : ∀ {v : Text}, v ∉ markers → v ≠ ppStart := by
    rintro v hv rfl
    exact hv (by decide)
  have not_end : ∀ {v : Text}, v ∉ markers → v ≠ ppEnd := by
    rintro v hv rfl
    exact hv (by decide)
  have hmac : ∀ {v : Text}, v ∉ markers → v ≠ macroFunction := by
    rintro v hv rfl
    exact hv (by decide)
  induction h generalizing ys with
  | done => exact (List.map_eq_nil_iff.mp hv.symm).symm
  | code hord _ ih =>
    cases h' with
    | done => exact absurd hv (by simp)
    | code _ hrest =>
      simp only [List.map_cons, List.cons.injEq] at hv
      obtain ⟨rfl, hv⟩ := hv
      rw [ih hrest hv]
    | start =>
      simp only [List.map_cons, List.cons.injEq] at hv
      exact absurd hv.1 (not_start hord)
  | start _ ih =>
    cases h' with
    | done => exact absurd hv (by simp)
    | code hord _ =>
      simp only [List.map_cons, List.cons.injEq] at hv
      exact absurd hv.1.symm (not_start hord)
    | start hrest =>
      simp only [List.map_cons, List.cons.injEq] at hv
      rw [ih hrest hv.2]
  | inside hord hin ih =>
    cases h' with
    | inside _ hrest =>
      simp only [List.map_cons, List.cons.injEq] at hv
      obtain ⟨rfl, hv⟩ := hv
      rw [ih hrest hv]
    | header _ hrest =>
      simp only [List.map_cons, List.cons.injEq] at hv
      obtain ⟨rfl, hv⟩ := hv
      rw [ih hrest hv]
    | parameters =>
      simp only [List.map_cons, List.cons.injEq] at hv
      exact absurd hv.1 (hmac hord)
    | stop =>
      simp only [List.map_cons, List.cons.injEq] at hv
      exact absurd hv.1 (not_end hord)
  | header hname hin ih =>
    cases h' with
    | inside _ hrest =>
      simp only [List.map_cons, List.cons.injEq] at hv
      obtain ⟨rfl, hv⟩ := hv
      rw [ih hrest hv]
    | header _ hrest =>
      simp only [List.map_cons, List.cons.injEq] at hv
      obtain ⟨rfl, hv⟩ := hv
      rw [ih hrest hv]
    | stop hrest =>
      -- a header spelled like the end marker: what follows tells them apart
      simp only [List.map_cons, List.cons.injEq] at hv
      have hborder := firstBorder_included hname hin
      rw [hv.2] at hborder
      exact absurd hborder (firstBorder_code hrest)
  | parameters _ ih =>
    cases h' with
    | inside hord _ =>
      simp only [List.map_cons, List.cons.injEq] at hv
      exact absurd hv.1.symm (hmac hord)
    | parameters hrest =>
      simp only [List.map_cons, List.cons.injEq] at hv
      rw [ih hrest hv.2.2]
    | stop =>
      simp only [List.map_cons, List.cons.injEq] at hv
      exact absurd hv.1 (by decide)
  | stop hcode ih =>
    cases h' with
    | inside hord _ =>
      simp only [List.map_cons, List.cons.injEq] at hv
      exact absurd hv.1.symm (not_end hord)
    | header hname hrest =>
      simp only [List.map_cons, List.cons.injEq] at hv
      have hborder := firstBorder_included hname hrest
      rw [← hv.2] at hborder
      exact absurd hborder (firstBorder_code hcode)
    | parameters =>
      simp only [List.map_cons, List.cons.injEq] at hv
      exact absurd hv.1 (by decide)
    | stop hrest =>
      simp only [List.map_cons, List.cons.injEq] at hv
      rw [ih hrest hv.2]

/-! ## The loop runs the automaton -/

/-- When each unit is found: a directive starts at the beginning of a line, a header
name where one is awaited, and nothing else is spelled like a marker. -/
def Lexeme.Fits (beginning awaitsHeader : Bool) : Lexeme → Prop
  | .directiveMark => beginning = true
  | .header _ => awaitsHeader = true
  | .literal text => text ∉ markers
  | .word text => text ∉ markers
  | .punctuator text => text ∉ markers
  | _ => True

theorem markers_head : ∀ v ∈ markers, v.head? = some '<' ∧ v ∉ punctuators := by decide

theorem not_mem_markers_of_head {v : Text} {c : Char} (h : v.head? = some c) (hc : c ≠ '<') :
    v ∉ markers := by
  intro hv
  rw [(markers_head v hv).1, Option.some.injEq] at h
  exact hc h.symm

theorem literal_not_marker {encoding content : Text} {quote : Char} (henc : encoding ∈ encodings)
    (hquote : isQuote quote = true) : encoding ++ quote :: content ∉ markers := by
  have hne : quote ≠ '<' := by
    rintro rfl
    exact absurd hquote (by decide)
  simp only [encodings, List.mem_cons, List.not_mem_nil, or_false] at henc
  rcases henc with rfl | rfl | rfl | rfl | rfl
  · exact not_mem_markers_of_head rfl hne
  · exact not_mem_markers_of_head rfl (by decide)
  · exact not_mem_markers_of_head rfl (by decide)
  · exact not_mem_markers_of_head rfl (by decide)
  · exact not_mem_markers_of_head rfl (by decide)

theorem word_not_marker {c : Char} {cs : Text} {n : ℕ} (h : wordAt (c :: cs) = some n) :
    (c :: cs).take n ∉ markers := by
  have hpos := wordAt_pos h
  have hhead : ((c :: cs).take n).head? = some c := by
    obtain ⟨m, rfl⟩ : ∃ m, n = m + 1 := ⟨n - 1, by omega⟩
    rfl
  refine not_mem_markers_of_head hhead ?_
  rintro rfl
  cases cs with
  | nil => exact absurd h (by simp [wordAt_cons, show isIdentifierStart '<' = false from rfl])
  | cons d ds =>
    rw [wordAt_cons, if_neg (by decide), if_neg (by decide)] at h
    dsimp only at h
    rw [if_neg fun hd => absurd hd.1 (by decide)] at h
    exact absurd h (by simp)

theorem tokenAt_fits {b h : Bool} {c : Char} {cs rest : Text} {lexeme : Lexeme}
    (hs : tokenAt c cs = .ok (lexeme, rest)) : lexeme.Fits b h := by
  unfold tokenAt at hs
  split at hs
  · next encoding quote content hstart =>
    obtain ⟨-, henc, hquote⟩ := literalStart_eq_some_iff.mp hstart
    split at hs
    · exact absurd hs (by simp)
    · split_ifs at hs
      rw [Except.ok.injEq, Prod.mk.injEq] at hs
      rw [← hs.1]
      exact literal_not_marker henc hquote
  · split at hs
    · next n hword =>
      rw [Except.ok.injEq, Prod.mk.injEq] at hs
      rw [← hs.1]
      exact word_not_marker hword
    · split at hs
      · exact absurd hs (by simp)
      · next p hp =>
        split_ifs at hs
        rw [Except.ok.injEq, Prod.mk.injEq] at hs
        rw [← hs.1]
        exact fun hmem => (markers_head p hmem).2 (punctuatorAt_eq hp).1

theorem scan_fits {b d h : Bool} {c : Char} {cs rest : Text} {lexeme : Lexeme}
    (hs : scan b d h c cs = .ok (lexeme, rest)) : lexeme.Fits b h := by
  unfold scan at hs
  split_ifs at hs with h1 h2 h3 h4 h5 h6 h7 h8
  · rw [Except.ok.injEq, Prod.mk.injEq] at hs
    rw [← hs.1]
    trivial
  · rw [Except.ok.injEq, Prod.mk.injEq] at hs
    rw [← hs.1]
    trivial
  · rw [Except.ok.injEq, Prod.mk.injEq] at hs
    rw [← hs.1]
    trivial
  · split at hs
    · exact absurd hs (by simp)
    · rw [Except.ok.injEq, Prod.mk.injEq] at hs
      rw [← hs.1]
      trivial
  · rw [Except.ok.injEq, Prod.mk.injEq] at hs
    rw [← hs.1]
    exact h5.1
  · split at hs
    · exact absurd hs (by simp)
    · rw [Except.ok.injEq, Prod.mk.injEq] at hs
      rw [← hs.1]
      exact h8.1
  · exact tokenAt_fits hs

/-- What holds of the state in front of each unit: at the beginning of a line no
directive is being read, and outside directives there are no tokens of one. -/
def Settled (s : LexState) : Prop :=
  (s.beginning = true → s.directive = false) ∧ (s.directive = false → s.directiveTokens = [])

/-- The automaton reads `ts` from the state. -/
def Reads (s : LexState) (ts : List Token) : Prop :=
  Stream s.directive (s.directiveTokens.map Token.value) (ts.map Token.view)

theorem settled_noted {s : LexState} (hset : Settled s) (t : Token) : Settled (s.noted t) := by
  refine ⟨fun hb => absurd hb Bool.false_ne_true, fun hd => ?_⟩
  have hd' : s.directive = false := hd
  simp [LexState.noted, hd', hset.2 hd']

theorem settled_put {s : LexState} (hset : Settled s) (value : Text) : Settled (s.put value).2 :=
  settled_noted hset _

/-- An ordinary token in front of what the automaton reads. -/
theorem reads_put {s : LexState} {value : Text} {later : List Token} (hset : Settled s)
    (hvalue : value ∉ markers) (h : Reads (s.put value).2 later) :
    Reads s ((s.put value).1 ++ later) := by
  cases hd : s.directive with
  | false =>
    simp only [Reads, LexState.put, LexState.noted, LexState.token, Token.view, hd, hset.2 hd,
      Bool.false_and, Bool.false_eq_true, if_false, List.map_nil, List.singleton_append,
      List.map_cons] at h ⊢
    exact .code hvalue h
  | true =>
    simp only [Reads, LexState.put, LexState.noted, LexState.token, Token.view, hd, BEq.rfl,
      Bool.true_and, if_true, List.map_append, List.map_cons, List.map_nil,
      List.singleton_append] at h ⊢
    exact .inside hvalue h

theorem settled_advance {s : LexState} (hset : Settled s) (lexeme : Lexeme) :
    Settled (s.advance lexeme).2 := by
  cases lexeme with
  | blank c => exact hset
  | newline => exact ⟨fun _ => rfl, fun _ => rfl⟩
  | lineComment text => exact hset
  | blockComment body => exact hset
  | directiveMark =>
    exact ⟨fun hb => absurd hb Bool.false_ne_true, fun hd => absurd hd Bool.true_eq_false_eq_False⟩
  | header body => exact settled_put hset _
  | literal text => exact settled_put hset _
  | word text => exact settled_put hset _
  | punctuator text =>
    unfold LexState.advance
    dsimp only
    split_ifs
    · exact settled_put (settled_noted hset _) _
    · exact settled_put hset _

theorem awaitsHeader_eq_true {s : LexState} (h : s.awaitsHeader = true) :
    s.directive = true ∧ ∃ first name, s.directiveTokens = [first, name] ∧
      name.value ∈ includeNames := by
  unfold LexState.awaitsHeader at h
  rw [Bool.and_eq_true] at h
  obtain ⟨hd, h⟩ := h
  split at h
  · next first name heq => exact ⟨hd, first, name, heq, of_decide_eq_true h⟩
  · exact absurd h (by decide)

theorem opensMacro_eq_true {s : LexState} (h : s.opensMacro = true) :
    s.directive = true ∧ ∃ first name macroName, s.directiveTokens = [first, name, macroName] ∧
      name.value = "define".toList := by
  unfold LexState.opensMacro at h
  rw [Bool.and_eq_true] at h
  obtain ⟨hd, h⟩ := h
  split at h
  · next first name macroName heq =>
    rw [Bool.and_eq_true, decide_eq_true_eq] at h
    exact ⟨hd, first, name, macroName, heq, h.1⟩
  · exact absurd h (by decide)

/-- What a unit adds in front of what the automaton reads. -/
theorem reads_advance {s : LexState} (lexeme : Lexeme) (later : List Token) (hset : Settled s)
    (hfits : lexeme.Fits s.beginning s.awaitsHeader) (h : Reads (s.advance lexeme).2 later) :
    Reads s ((s.advance lexeme).1 ++ later) := by
  cases lexeme with
  | blank c => exact h
  | newline =>
    unfold LexState.advance Reads at h ⊢
    dsimp only at h ⊢
    cases hd : s.directive with
    | false =>
      rw [hset.2 hd]
      exact h
    | true => exact .stop h
  | lineComment text => exact h
  | blockComment body => exact h
  | directiveMark =>
    have hd := hset.1 hfits
    simp only [LexState.advance, LexState.noted, LexState.token, Reads, hset.2 hd] at h
    rw [Reads, hd, hset.2 hd]
    exact .start h
  | header body =>
    obtain ⟨hd, first, name, htokens, hname⟩ := awaitsHeader_eq_true hfits
    simp only [LexState.advance, Reads, LexState.put, LexState.noted, LexState.token, Token.view,
      hd, htokens, BEq.rfl, Bool.true_and, if_true, List.map_cons, List.map_nil,
      List.cons_append, List.nil_append] at h ⊢
    exact .header hname h
  | literal text => exact reads_put hset hfits h
  | word text => exact reads_put hset hfits h
  | punctuator text =>
    unfold LexState.advance at h ⊢
    dsimp only at h ⊢
    split_ifs at h ⊢ with hopen
    · obtain ⟨hd, first, name, macroName, htokens, hname⟩ := opensMacro_eq_true hopen.1
      simp only [Reads, LexState.put, LexState.noted, LexState.token, Token.view, hd, htokens,
        hopen.2, hname, BEq.rfl, Bool.true_and, if_true, List.map_cons, List.map_nil,
        List.cons_append, List.nil_append] at h ⊢
      exact .parameters h
    · exact reads_put hset hfits h

/-- **What the lexer returns is a run of the automaton.** -/
theorem lex_stream {source : Text} {tokens : List Token} (h : lex source = .ok tokens) :
    Stream false [] (tokens.map Token.view) := by
  obtain ⟨-, -, hrun, -⟩ := lex_eq_ok_iff.mp h
  refine lexMachine.run_induction (P := fun s _ ts => Settled s → Reads s ts) ?_ ?_
    LexState.initial (spliced source) tokens hrun ⟨fun _ => rfl, fun _ => rfl⟩
  · intro s hset
    unfold lexMachine Reads
    dsimp only
    split_ifs with hd
    · rw [hd]
      exact .stop .done
    · have hd' : s.directive = false := by simpa using hd
      rw [hd', hset.2 hd']
      exact .done
  · intro s c cs out s' rest later hstep ih hset
    obtain ⟨lexeme, hscan, hadv⟩ := lexMachine_step_eq_ok.mp hstep
    have hset' := settled_advance hset lexeme
    have hreads := reads_advance lexeme later hset (scan_fits hscan)
    rw [hadv] at hset' hreads
    exact hreads (ih hset')

/-- **Sources with the same values have the same kinds.** -/
theorem lex_view_eq {a b : Text} {ta tb : List Token} (ha : lex a = .ok ta) (hb : lex b = .ok tb)
    (hv : ta.map Token.value = tb.map Token.value) : ta.map Token.view = tb.map Token.view := by
  refine (lex_stream ha).unique (lex_stream hb) ?_
  rw [List.map_map, List.map_map]
  exact hv

end Provenance
end Fragma
