import Fragma.Python.Lines
import Fragma.Python.Text
import Fragma.Replay.Mapper

/-!
# Normalising linemarkers

`fragma/replay.py`, `normalize_linemarkers`.  A linemarker of a preprocessed text names
the file that the lines behind it come from.  The filename of an absolute or a synthetic
linemarker is replaced by its identity; every other line stays as it is.  A line that looks
like a linemarker is left alone inside a comment or a literal, which a scanner of its own
keeps track of, line by line.

* `lineMarker`: the pattern, and `lineMarker_eq_some_iff`.
* `ScanState.advance`: the scanner.
* `normalizeLines`, `normalizeLinemarkers`.
* `located`, `rewriteLine_eq`: the lines that can be changed, and what becomes of them.
* `normalizeLinemarkers_idem`: a second pass changes nothing.
-/

namespace Fragma
namespace Replay

open Python

/-! ## The pattern -/

/-- The decimal digits of the interpreter's character table. -/
structure Decimals where
  isDecimal : Char → Bool
  ascii : ∀ c, isDecimal c = true → c.toNat < 128 → isDigit c = true
  notSpace : ∀ c, isDecimal c = true → isSpace c = false

/-- The digits of ASCII. -/
def asciiDecimals : Decimals where
  isDecimal := isDigit
  ascii _ h _ := h
  notSpace c h := by
    have hmem : c ∈ ['0', '1', '2', '3', '4', '5', '6', '7', '8', '9'] := by
      simpa [isDigit] using h
    simp only [List.mem_cons, List.not_mem_nil, or_false] at hmem
    rcases hmem with rfl | rfl | rfl | rfl | rfl | rfl | rfl | rfl | rfl | rfl <;> decide

/-- A pattern `p+`, as much of it as there is, and what follows. -/
def plus (p : Char → Bool) (cs : List Char) : Option (List Char × List Char) :=
  if cs.takeWhile p = [] then none else some (cs.takeWhile p, cs.dropWhile p)

/-- `(?:line\s+)?`. -/
def lineWord : List Char → Option (List Char × List Char)
  | 'l' :: 'i' :: 'n' :: 'e' :: cs =>
    (plus isSpace cs).map fun r => ('l' :: 'i' :: 'n' :: 'e' :: r.1, r.2)
  | cs => some ([], cs)

/-- `#\s+(?:line\s+)?\d+\s+` in front of a quote, and what follows the quote. -/
def markerHead (t : Decimals) : List Char → Option (List Char × List Char)
  | '#' :: cs => do
    let (s, cs) ← plus isSpace cs
    let (w, cs) ← lineWord cs
    let (d, cs) ← plus t.isDecimal cs
    let (s', cs) ← plus isSpace cs
    match cs with
    | '"' :: cs => some ('#' :: (s ++ (w ++ (d ++ s'))), cs)
    | _ => none
  | _ => none

/-- `[^"\\\n]`. -/
def isPathChar (c : Char) : Bool := c ≠ '"' && c ≠ '\\' && c ≠ '\n'

/-- `LINE_MARKER.fullmatch(body)`: what stands in front of the filename, the filename, and
what follows it. -/
def lineMarker (t : Decimals) (body : List Char) : Option (List Char × List Char × List Char) := do
  let (head, cs) ← markerHead t body
  let (path, cs) ← plus isPathChar cs
  match cs with
  | '"' :: tail => if '\n' ∈ tail then none else some (head, path, tail)
  | _ => none

theorem plus_eq_some_iff {p : Char → Bool} {cs a b : List Char} :
    plus p cs = some (a, b) ↔
      cs = a ++ b ∧ a ≠ [] ∧ (∀ c ∈ a, p c = true) ∧ ∀ c ∈ b.head?, p c = false := by
  unfold plus
  constructor
  · intro h
    split_ifs at h with hne
    obtain ⟨rfl, rfl⟩ := Prod.mk.inj (Option.some.inj h)
    refine ⟨List.takeWhile_append_dropWhile.symm, hne, fun c hc => List.mem_takeWhile_imp hc, ?_⟩
    intro c hc
    have hhead := List.head?_dropWhile_not p cs
    rw [Option.mem_def.mp hc] at hhead
    simpa using hhead
  · rintro ⟨rfl, hne, ha, hb⟩
    have htake : (a ++ b).takeWhile p = a := by
      rw [List.takeWhile_append_of_pos ha]
      cases b with
      | nil => simp
      | cons c b =>
        have hc : p c = false := hb c rfl
        rw [List.takeWhile_cons_of_neg (by simp [hc]), List.append_nil]
    have hdrop : (a ++ b).dropWhile p = b := by
      have hsplit := List.takeWhile_append_dropWhile (p := p) (l := a ++ b)
      rw [htake] at hsplit
      exact List.append_cancel_left hsplit
    rw [htake, hdrop, if_neg hne]

/-- What stands in front of the quote of a filename. -/
def MarkerHead (t : Decimals) (head : List Char) : Prop :=
  ∃ s w d s', head = '#' :: (s ++ (w ++ (d ++ s'))) ∧ (s ≠ [] ∧ ∀ c ∈ s, isSpace c = true) ∧
    (w = [] ∨ ∃ s'', w = 'l' :: 'i' :: 'n' :: 'e' :: s'' ∧ s'' ≠ [] ∧ ∀ c ∈ s'', isSpace c = true) ∧
    (d ≠ [] ∧ ∀ c ∈ d, t.isDecimal c = true) ∧ (s' ≠ [] ∧ ∀ c ∈ s', isSpace c = true)

theorem lineWord_eq {cs w r : List Char} (h : lineWord cs = some (w, r)) :
    cs = w ++ r ∧ (w = [] ∨
      ∃ s, w = 'l' :: 'i' :: 'n' :: 'e' :: s ∧ s ≠ [] ∧ ∀ c ∈ s, isSpace c = true) := by
  unfold lineWord at h
  split at h
  · obtain ⟨⟨s, r'⟩, hs, heq⟩ := Option.map_eq_some_iff.mp h
    obtain ⟨rfl, rfl⟩ := Prod.mk.inj heq
    obtain ⟨rfl, hne, hspace, -⟩ := plus_eq_some_iff.mp hs
    exact ⟨rfl, .inr ⟨s, rfl, hne, hspace⟩⟩
  · obtain ⟨rfl, rfl⟩ := Prod.mk.inj (Option.some.inj h)
    exact ⟨rfl, .inl rfl⟩

theorem lineWord_of_head {r : List Char} (h : r.head? ≠ some 'l') : lineWord r = some ([], r) := by
  unfold lineWord
  split
  · exact absurd rfl h
  · rfl

/-- No other character of ASCII is a decimal digit. -/
theorem Decimals.eq_false (t : Decimals) {c : Char} (hascii : c.toNat < 128)
    (hc : isDigit c = false) : t.isDecimal c = false := by
  by_contra h
  have hdigit := t.ascii c (by simpa using h) hascii
  rw [hc] at hdigit
  exact absurd hdigit (by simp)

theorem not_isSpace_of_decimal {t : Decimals} {d r : List Char} (hne : d ≠ [])
    (hd : ∀ c ∈ d, t.isDecimal c = true) : ∀ c ∈ (d ++ r).head?, isSpace c = false := by
  intro c hc
  cases d with
  | nil => exact absurd rfl hne
  | cons x d =>
    obtain rfl : x = c := by simpa using hc
    exact t.notSpace x (hd x List.mem_cons_self)

/-- **The start of a linemarker** is in front of its first quote. -/
theorem markerHead_eq_some_iff {t : Decimals} {cs head r : List Char} :
    markerHead t cs = some (head, r) ↔ cs = head ++ '"' :: r ∧ MarkerHead t head := by
  constructor
  · intro h
    unfold markerHead at h
    split at h
    · simp only [Option.bind_eq_bind, Option.bind_eq_some_iff, Prod.exists] at h
      obtain ⟨s, r₁, h₁, w, r₂, h₂, d, r₃, h₃, s', r₄, h₄, h₅⟩ := h
      split at h₅
      · obtain ⟨rfl, rfl⟩ := Prod.mk.inj (Option.some.inj h₅)
        obtain ⟨rfl, hs, hspace, -⟩ := plus_eq_some_iff.mp h₁
        obtain ⟨rfl, hw⟩ := lineWord_eq h₂
        obtain ⟨rfl, hd, hdigit, -⟩ := plus_eq_some_iff.mp h₃
        obtain ⟨rfl, hs', hspace', -⟩ := plus_eq_some_iff.mp h₄
        exact ⟨by simp, s, w, d, s', rfl, ⟨hs, hspace⟩, hw, ⟨hd, hdigit⟩, hs', hspace'⟩
      · exact absurd h₅ (by simp)
    · exact absurd h (by simp)
  · rintro ⟨rfl, s, w, d, s', rfl, ⟨hs, hspace⟩, hw, ⟨hd, hdigit⟩, hs', hspace'⟩
    have hquote : ∀ c ∈ ('"' :: r).head?, isSpace c = false := by
      intro c hc
      obtain rfl : '"' = c := by simpa using hc
      decide
    have h₄ : plus isSpace (s' ++ '"' :: r) = some (s', '"' :: r) :=
      plus_eq_some_iff.mpr ⟨rfl, hs', hspace', hquote⟩
    have h₃ : plus t.isDecimal (d ++ (s' ++ '"' :: r)) = some (d, s' ++ '"' :: r) := by
      refine plus_eq_some_iff.mpr ⟨rfl, hd, hdigit, fun c hc => ?_⟩
      cases s' with
      | nil => exact absurd rfl hs'
      | cons x s' =>
        obtain rfl : x = c := by simpa using hc
        by_contra hdec
        have hspace := t.notSpace x (by simpa using hdec)
        rw [hspace' x List.mem_cons_self] at hspace
        exact absurd hspace (by simp)
    have hdhead := not_isSpace_of_decimal (r := s' ++ '"' :: r) hd hdigit
    have h₂ : lineWord (w ++ (d ++ (s' ++ '"' :: r))) = some (w, d ++ (s' ++ '"' :: r)) := by
      rcases hw with rfl | ⟨s'', rfl, hs'', hspace''⟩
      · refine lineWord_of_head fun hl => ?_
        cases d with
        | nil => exact absurd rfl hd
        | cons x d =>
          obtain rfl : x = 'l' := by simpa using hl
          have hx := hdigit 'l' List.mem_cons_self
          rw [t.eq_false (by decide) (by decide)] at hx
          exact absurd hx (by simp)
      · show (plus isSpace (s'' ++ _)).map _ = _
        rw [plus_eq_some_iff.mpr ⟨rfl, hs'', hspace'', hdhead⟩]
        rfl
    have h₁ : plus isSpace (s ++ (w ++ (d ++ (s' ++ '"' :: r)))) =
        some (s, w ++ (d ++ (s' ++ '"' :: r))) := by
      refine plus_eq_some_iff.mpr ⟨rfl, hs, hspace, fun c hc => ?_⟩
      rcases hw with rfl | ⟨s'', rfl, -, -⟩
      · exact hdhead c hc
      · obtain rfl : 'l' = c := by simpa using hc
        decide
    have hassoc : '#' :: (s ++ (w ++ (d ++ s'))) ++ '"' :: r =
        '#' :: (s ++ (w ++ (d ++ (s' ++ '"' :: r)))) := by simp
    rw [hassoc]
    show (plus isSpace (s ++ (w ++ (d ++ (s' ++ '"' :: r)))) >>= _) = _
    rw [h₁]
    show (lineWord (w ++ (d ++ (s' ++ '"' :: r))) >>= _) = _
    rw [h₂]
    show (plus t.isDecimal (d ++ (s' ++ '"' :: r)) >>= _) = _
    rw [h₃]
    show (plus isSpace (s' ++ '"' :: r) >>= _) = _
    rw [h₄]
    rfl

/-- A filename of a linemarker. -/
def PathText (path : List Char) : Prop := path ≠ [] ∧ ∀ c ∈ path, isPathChar c = true

/-- **The lines that match the pattern.** -/
theorem lineMarker_eq_some_iff {t : Decimals} {body head path tail : List Char} :
    lineMarker t body = some (head, path, tail) ↔
      body = head ++ '"' :: (path ++ '"' :: tail) ∧ MarkerHead t head ∧ PathText path ∧
        '\n' ∉ tail := by
  unfold lineMarker
  simp only [Option.bind_eq_bind, Option.bind_eq_some_iff, Prod.exists]
  constructor
  · rintro ⟨h, r, hhead, p, r', hpath, hrest⟩
    split at hrest
    · split_ifs at hrest with hline
      simp only [Option.some.injEq, Prod.mk.injEq] at hrest
      obtain ⟨rfl, rfl, rfl⟩ := hrest
      obtain ⟨rfl, hmarker⟩ := markerHead_eq_some_iff.mp hhead
      obtain ⟨rfl, hne, hchars, -⟩ := plus_eq_some_iff.mp hpath
      exact ⟨rfl, hmarker, ⟨hne, hchars⟩, hline⟩
    · exact absurd hrest (by simp)
  · rintro ⟨rfl, hmarker, ⟨hne, hchars⟩, hline⟩
    refine ⟨head, _, markerHead_eq_some_iff.mpr ⟨rfl, hmarker⟩, path, '"' :: tail,
      plus_eq_some_iff.mpr ⟨rfl, hne, hchars, ?_⟩, if_neg hline⟩
    intro c hc
    obtain rfl : '"' = c := by simpa using hc
    decide

/-! ## The scanner -/

/-- Where the scanner of the lines is. -/
inductive ScanState where
  | code
  | comment
  | literal (quote : Char)
  deriving DecidableEq, Repr

/-- The scanner over one line.  A line comment takes the rest of the line; a backslash in a
literal takes the next character, whatever that is. -/
def ScanState.advance : ScanState → List Char → ScanState
  | s, [] => s
  | .comment, '*' :: '/' :: cs => ScanState.code.advance cs
  | .comment, _ :: cs => ScanState.comment.advance cs
  | .literal q, '\\' :: _ :: cs => (ScanState.literal q).advance cs
  | .literal q, ['\\'] => .literal q
  | .literal q, c :: cs => if c = q then ScanState.code.advance cs else (ScanState.literal q).advance cs
  | .code, '/' :: '/' :: _ => .code
  | .code, '/' :: '*' :: cs => ScanState.comment.advance cs
  | .code, c :: cs =>
    if c = '"' ∨ c = '\'' then (ScanState.literal c).advance cs else ScanState.code.advance cs

/-! ## Rewriting -/

/-- A line without its newline, and the newline. -/
def cutNewline (line : List Char) : List Char × List Char :=
  if line.getLast? = some '\n' then (line.dropLast, ['\n']) else (line, [])

/-- One turn of the loop: the line that is appended. -/
def rewriteLine (t : Decimals) (m : Mapper) (state : ScanState) (line : List Char) :
    Except ReplayError (List Char) :=
  match lineMarker t (cutNewline line).1 with
  | some (head, path, tail) =>
    if state = .code then
      if path.head? = some '/' ∨ path.head? = some '<' then
        match m.path (String.ofList path) with
        | .error e => .error e
        | .ok mapped => .ok (head ++ jsonString mapped.toList ++ tail ++ (cutNewline line).2)
      else .ok line
    else .ok line
  | none => .ok line

/-- The loop over the lines. -/
def normalizeLines (t : Decimals) (m : Mapper) :
    ScanState → List (List Char) → Except ReplayError (List (List Char))
  | _, [] => .ok []
  | state, line :: rest =>
    match rewriteLine t m state line with
    | .error e => .error e
    | .ok line' => (normalizeLines t m (state.advance line) rest).map (line' :: ·)

/-- `normalize_linemarkers(text, mapper)`. -/
def normalizeLinemarkers (t : Decimals) (m : Mapper) (text : List Char) :
    Except ReplayError (List Char) :=
  (normalizeLines t m .code (splitLines text)).map List.flatten

/-! ## The lines that can be changed -/

/-- An absolute or synthetic linemarker: what stands in front of its filename, the filename,
and the rest of the line. -/
def located (t : Decimals) (line : List Char) : Option (List Char × List Char × List Char) :=
  match lineMarker t (cutNewline line).1 with
  | some (head, path, tail) =>
    if path.head? = some '/' ∨ path.head? = some '<' then
      some (head, path, tail ++ (cutNewline line).2)
    else none
  | none => none

theorem append_cutNewline (line : List Char) : (cutNewline line).1 ++ (cutNewline line).2 = line := by
  unfold cutNewline
  split_ifs with h
  · obtain ⟨l, rfl⟩ := List.getLast?_eq_some_iff.mp h
    rw [List.dropLast_concat]
  · exact List.append_nil line

/-- Outside of comments and literals the located lines are rewritten, and nothing else is. -/
theorem rewriteLine_eq (t : Decimals) (m : Mapper) (state : ScanState) (line : List Char) :
    rewriteLine t m state line =
      match located t line with
      | some (head, path, tail) =>
        if state = .code then
          (m.path (String.ofList path)).map fun mapped => head ++ (jsonString mapped.toList ++ tail)
        else .ok line
      | none => .ok line := by
  unfold rewriteLine located
  cases lineMarker t (cutNewline line).1 with
  | none => rfl
  | some r =>
    obtain ⟨head, path, tail⟩ := r
    dsimp only
    by_cases hpath : path.head? = some '/' ∨ path.head? = some '<'
    · rw [if_pos hpath, if_pos hpath]
      dsimp only
      split_ifs
      · cases m.path (String.ofList path) with
        | error e => rfl
        | ok mapped => simp [Except.map]
      · rfl
    · rw [if_neg hpath, if_neg hpath, ite_self]

/-- **The located lines.** -/
theorem located_eq_some {t : Decimals} {line head path tail : List Char}
    (h : located t line = some (head, path, tail)) :
    line = head ++ '"' :: (path ++ '"' :: tail) ∧ MarkerHead t head ∧ PathText path ∧
      (path.head? = some '/' ∨ path.head? = some '<') ∧ '\n' ∉ tail.dropLast := by
  unfold located at h
  split at h
  · next head' path' tail' hm =>
    split_ifs at h with hpath
    simp only [Option.some.injEq, Prod.mk.injEq] at h
    obtain ⟨rfl, rfl, rfl⟩ := h
    obtain ⟨hbody, hhead, htext, hline⟩ := lineMarker_eq_some_iff.mp hm
    refine ⟨?_, hhead, htext, hpath, ?_⟩
    · refine (append_cutNewline line).symm.trans ?_
      rw [hbody]
      simp
    · unfold cutNewline
      split_ifs
      · rwa [List.dropLast_concat]
      · rw [List.append_nil]
        exact fun hmem => hline (List.mem_of_mem_dropLast hmem)
  · exact absurd h (by simp)

theorem located_mk {t : Decimals} {head path tail : List Char} (hhead : MarkerHead t head)
    (htext : PathText path) (hpath : path.head? = some '/' ∨ path.head? = some '<')
    (hline : '\n' ∉ tail.dropLast) :
    located t (head ++ '"' :: (path ++ '"' :: tail)) = some (head, path, tail) := by
  have hcut : cutNewline (head ++ '"' :: (path ++ '"' :: tail)) =
      (head ++ '"' :: (path ++ '"' :: (cutNewline tail).1), (cutNewline tail).2) := by
    have hlast : (head ++ '"' :: (path ++ '"' :: tail)).getLast? = ('"' :: tail).getLast? := by
      simp [List.getLast?_append, List.getLast?_cons]
    unfold cutNewline
    rw [hlast]
    rcases List.eq_nil_or_concat tail with rfl | ⟨l, c, rfl⟩
    · rw [if_neg (by decide), if_neg (by decide)]
    · rw [List.concat_eq_append, List.getLast?_concat, ← List.cons_append, List.getLast?_concat]
      split_ifs
      · have hassoc : head ++ '"' :: (path ++ ('"' :: l ++ [c])) =
            head ++ '"' :: (path ++ '"' :: l) ++ [c] := by simp
        rw [hassoc, List.dropLast_concat, List.dropLast_concat]
      · rfl
  have htail : '\n' ∉ (cutNewline tail).1 := by
    unfold cutNewline
    rcases List.eq_nil_or_concat tail with rfl | ⟨l, c, rfl⟩
    · decide
    · rw [List.concat_eq_append, List.dropLast_concat] at hline
      rw [List.concat_eq_append, List.getLast?_concat]
      split_ifs with hc
      · rwa [List.dropLast_concat]
      · intro hmem
        rcases List.mem_append.mp hmem with hmem | hmem
        · exact hline hmem
        · exact hc (by rw [List.mem_singleton.mp hmem])
  unfold located
  rw [hcut, lineMarker_eq_some_iff.mpr ⟨rfl, hhead, htext, htail⟩]
  dsimp only
  rw [if_pos hpath, append_cutNewline]

/-- The start of a linemarker has no quote. -/
theorem MarkerHead.plain {t : Decimals} {head : List Char} (h : MarkerHead t head) :
    ∀ c ∈ head, c ≠ '"' ∧ c ≠ '\'' ∧ c ≠ '/' ∧ c ≠ '\\' := by
  obtain ⟨s, w, d, s', rfl, ⟨-, hs⟩, hw, ⟨-, hd⟩, -, hs'⟩ := h
  have hspace : ∀ c : Char, isSpace c = true → c ≠ '"' ∧ c ≠ '\'' ∧ c ≠ '/' ∧ c ≠ '\\' := by
    intro c hc
    refine ⟨?_, ?_, ?_, ?_⟩ <;> · rintro rfl; exact absurd hc (by decide)
  have hdigit : ∀ c : Char, t.isDecimal c = true → c ≠ '"' ∧ c ≠ '\'' ∧ c ≠ '/' ∧ c ≠ '\\' := by
    intro c hc
    refine ⟨?_, ?_, ?_, ?_⟩ <;>
      · rintro rfl
        rw [t.eq_false (by decide) (by decide)] at hc
        exact absurd hc (by simp)
  intro c hc
  simp only [List.mem_cons, List.mem_append] at hc
  rcases hc with rfl | hc | hc | hc | hc
  · decide
  · exact hspace c (hs c hc)
  · rcases hw with rfl | ⟨s'', rfl, -, hs''⟩
    · exact absurd hc (by simp)
    · simp only [List.mem_cons] at hc
      rcases hc with rfl | rfl | rfl | rfl | hc
      · decide
      · decide
      · decide
      · decide
      · exact hspace c (hs'' c hc)
  · exact hdigit c (hd c hc)
  · exact hspace c (hs' c hc)

/-! ## The scanner passes over a filename -/

theorem advance_code_cons {c : Char} (hq : c ≠ '"') (hq' : c ≠ '\'') (hs : c ≠ '/')
    (cs : List Char) : ScanState.code.advance (c :: cs) = ScanState.code.advance cs := by
  rw [ScanState.advance.eq_def]
  split <;> simp_all

theorem advance_literal_cons {q c : Char} (hq : c ≠ q) (hb : c ≠ '\\') (cs : List Char) :
    (ScanState.literal q).advance (c :: cs) = (ScanState.literal q).advance cs := by
  rw [ScanState.advance.eq_def]
  split <;> simp_all

theorem advance_literal_pair (q d : Char) (cs : List Char) :
    (ScanState.literal q).advance ('\\' :: d :: cs) = (ScanState.literal q).advance cs := rfl

theorem advance_code_plain {cs : List Char}
    (h : ∀ c ∈ cs, c ≠ '"' ∧ c ≠ '\'' ∧ c ≠ '/' ∧ c ≠ '\\') (r : List Char) :
    ScanState.code.advance (cs ++ r) = ScanState.code.advance r := by
  induction cs with
  | nil => rfl
  | cons c cs ih =>
    obtain ⟨hq, hq', hs, -⟩ := h c List.mem_cons_self
    rw [List.cons_append, advance_code_cons hq hq' hs]
    exact ih fun d hd => h d (List.mem_cons_of_mem c hd)

theorem advance_literal_pathText {cs : List Char} (h : ∀ c ∈ cs, isPathChar c = true)
    (r : List Char) :
    (ScanState.literal '"').advance (cs ++ r) = (ScanState.literal '"').advance r := by
  induction cs with
  | nil => rfl
  | cons c cs ih =>
    have hc := h c List.mem_cons_self
    simp only [isPathChar, Bool.and_eq_true, decide_eq_true_eq, ne_eq] at hc
    rw [List.cons_append, advance_literal_cons hc.1.1 hc.1.2]
    exact ih fun d hd => h d (List.mem_cons_of_mem c hd)

theorem advance_literal_jsonUnit (n : ℕ) (r : List Char) :
    (ScanState.literal '"').advance (jsonUnit n ++ r) = (ScanState.literal '"').advance r := by
  have hdigit := hexDigit_plain
  show (ScanState.literal '"').advance ('\\' :: 'u' :: hexDigit (n / 4096 % 16) ::
    hexDigit (n / 256 % 16) :: hexDigit (n / 16 % 16) :: hexDigit (n % 16) :: r) = _
  rw [advance_literal_pair, advance_literal_cons (hdigit _).1 (hdigit _).2.1, advance_literal_cons (hdigit _).1 (hdigit _).2.1,
    advance_literal_cons (hdigit _).1 (hdigit _).2.1, advance_literal_cons (hdigit _).1 (hdigit _).2.1]

/-- A JSON string is one literal. -/
theorem advance_literal_escaped {c : Char} {s : List Char} (h : Escaped c s) (r : List Char) :
    (ScanState.literal '"').advance (s ++ r) = (ScanState.literal '"').advance r := by
  cases h with
  | plain _ hq hb => exact advance_literal_cons hq hb r
  | pair _ => rfl
  | unit n => exact advance_literal_jsonUnit n r
  | units n k => rw [List.append_assoc, advance_literal_jsonUnit, advance_literal_jsonUnit]

theorem advance_literal_json (s r : List Char) :
    (ScanState.literal '"').advance (s.flatMap jsonChar ++ r) =
      (ScanState.literal '"').advance r := by
  induction s with
  | nil => rfl
  | cons c s ih =>
    rw [List.flatMap_cons, List.append_assoc, advance_literal_escaped (escaped_jsonChar c), ih]

/-- **A linemarker does not change the state of the scanner** up to what follows its
filename, whatever that is. -/
theorem advance_marker {t : Decimals} {head path : List Char} (hhead : MarkerHead t head)
    (htext : PathText path) (tail : List Char) :
    ScanState.code.advance (head ++ '"' :: (path ++ '"' :: tail)) = ScanState.code.advance tail := by
  rw [advance_code_plain hhead.plain]
  show (ScanState.literal '"').advance (path ++ '"' :: tail) = _
  rw [advance_literal_pathText htext.2]
  rfl

theorem advance_jsonString {t : Decimals} {head : List Char} (hhead : MarkerHead t head)
    (text tail : List Char) :
    ScanState.code.advance (head ++ (jsonString text ++ tail)) = ScanState.code.advance tail := by
  rw [advance_code_plain hhead.plain]
  show (ScanState.literal '"').advance (text.flatMap jsonChar ++ ['"'] ++ tail) = _
  rw [List.append_assoc, advance_literal_json]
  rfl

/-! ## A second pass -/

/-- A text that does not start like the filename of a located linemarker. -/
def NoFilename (q : String) : Prop :=
  q ≠ "" ∧ q.toList.head? ≠ some '/' ∧ q.toList.head? ≠ some '<'

/-- The identities of a mapper do not look like filenames. -/
def Mapper.Proper (m : Mapper) : Prop :=
  ∀ p q, m.path p = .ok q → NoFilename q

theorem append_quote_inj {a a' x y : List Char} (ha : ∀ c ∈ a, c ≠ '"') (ha' : ∀ c ∈ a', c ≠ '"')
    (h : a ++ '"' :: x = a' ++ '"' :: y) : a = a' ∧ x = y := by
  induction a generalizing a' with
  | nil =>
    cases a' with
    | nil => exact ⟨rfl, (List.cons.inj h).2⟩
    | cons c a' => exact absurd (List.cons.inj h).1.symm (ha' c List.mem_cons_self)
  | cons c a ih =>
    cases a' with
    | nil => exact absurd (List.cons.inj h).1 (ha c List.mem_cons_self)
    | cons d a' =>
      rw [List.cons_append, List.cons_append, List.cons.injEq] at h
      obtain ⟨rfl, hrest⟩ := ih (fun x hx => ha x (List.mem_cons_of_mem c hx))
        (fun x hx => ha' x (List.mem_cons_of_mem d hx)) h.2
      exact ⟨by rw [h.1], hrest⟩

theorem head?_escaped {c : Char} {s : List Char} (h : Escaped c s) :
    s.head? = some c ∨ s.head? = some '\\' := by
  cases h with
  | plain _ _ _ => exact .inl rfl
  | pair _ => exact .inr rfl
  | unit n => exact .inr rfl
  | units n k => exact .inr rfl

/-- A rewritten linemarker is no absolute or synthetic one. -/
theorem located_rewritten {t : Decimals} {head text tail : List Char} (hhead : MarkerHead t head)
    (hne : text ≠ []) (hslash : text.head? ≠ some '/') (hangle : text.head? ≠ some '<') :
    located t (head ++ (jsonString text ++ tail)) = none := by
  cases hloc : located t (head ++ (jsonString text ++ tail)) with
  | none => rfl
  | some r =>
    obtain ⟨head', path, tail'⟩ := r
    obtain ⟨heq, hhead', ⟨hpne, hchars⟩, hpath, -⟩ := located_eq_some hloc
    have hassoc : head ++ (jsonString text ++ tail) =
        head ++ '"' :: (text.flatMap jsonChar ++ '"' :: tail) := by simp [jsonString]
    rw [hassoc] at heq
    obtain ⟨-, hrest⟩ := append_quote_inj (fun c hc => (hhead.plain c hc).1)
      (fun c hc => (hhead'.plain c hc).1) heq
    cases text with
    | nil => exact absurd rfl hne
    | cons c text =>
    cases path with
    | nil => exact absurd rfl hpne
    | cons d path =>
    -- the first character is written as itself or as an escape
    have hd : d = c ∨ d = '\\' := by
      have hfirst := congrArg List.head? hrest
      rw [List.flatMap_cons, List.append_assoc, List.cons_append, List.head?_cons,
        List.head?_append] at hfirst
      rcases head?_escaped (escaped_jsonChar c) with hc | hc
      · rw [hc] at hfirst
        exact .inl (Option.some.inj hfirst).symm
      · rw [hc] at hfirst
        exact .inr (Option.some.inj hfirst).symm
    rcases hd with rfl | rfl
    · rcases hpath with hpath | hpath
      · exact absurd hpath hslash
      · exact absurd hpath hangle
    · exact absurd (hchars _ List.mem_cons_self) (by decide)

/-- What one turn does to a line: nothing, or the filename of a linemarker is replaced. -/
theorem rewriteLine_cases {t : Decimals} {m : Mapper} {state : ScanState} {line line' : List Char}
    (h : rewriteLine t m state line = .ok line') :
    (line' = line ∧ (state = .code → located t line = none)) ∨
      ∃ head path tail mapped, state = .code ∧ located t line = some (head, path, tail) ∧
        m.path (String.ofList path) = .ok mapped ∧
        line' = head ++ (jsonString mapped.toList ++ tail) := by
  rw [rewriteLine_eq] at h
  cases hloc : located t line with
  | none =>
    rw [hloc] at h
    exact .inl ⟨(Except.ok.inj h).symm, fun _ => rfl⟩
  | some r =>
    obtain ⟨head, path, tail⟩ := r
    rw [hloc] at h
    dsimp only at h
    split_ifs at h with hcode
    · cases hp : m.path (String.ofList path) with
      | error e =>
        rw [hp] at h
        exact absurd h (by simp [Except.map])
      | ok mapped =>
        rw [hp] at h
        exact .inr ⟨head, path, tail, mapped, hcode, rfl, hp, (Except.ok.inj h).symm⟩
    · exact .inl ⟨(Except.ok.inj h).symm, fun hstate => absurd hstate hcode⟩

theorem unbroken_json (text : List Char) : Unbroken (text.flatMap jsonChar) := by
  intro c hc
  obtain ⟨d, -, hd⟩ := List.mem_flatMap.mp hc
  exact (escaped_jsonChar d).unbroken c hd

/-- A filename of a line can be replaced by another text on one line. -/
theorem reworded_filename {t : Decimals} {head path path' tail : List Char} {ls : List (List Char)}
    (hls : Lines ls) (hmem : head ++ '"' :: (path ++ '"' :: tail) ∈ ls) (hhead : MarkerHead t head)
    (hpath : Unbroken path') :
    Reworded (head ++ '"' :: (path ++ '"' :: tail)) (head ++ '"' :: (path' ++ '"' :: tail)) := by
  have hfront : Unbroken head := hls.unbroken hmem rfl (by decide)
  refine .inr ⟨head ++ '"' :: path, head ++ '"' :: path', '"', tail, by simp, by simp, by decide, ?_,
    ?_⟩
  · intro c hc
    rcases List.mem_append.mp hc with hc | hc
    · exact hfront c hc
    rcases List.mem_cons.mp hc with rfl | hc
    · decide
    · exact hpath c hc
  · obtain ⟨s, w, d, s', rfl, -⟩ := hhead
    rfl

theorem rewriteLine_reworded {t : Decimals} {m : Mapper} {state : ScanState}
    {line line' : List Char} {ls : List (List Char)} (hls : Lines ls) (hmem : line ∈ ls)
    (h : rewriteLine t m state line = .ok line') : Reworded line line' := by
  rcases rewriteLine_cases h with ⟨rfl, -⟩ | ⟨head, path, tail, mapped, -, hloc, -, rfl⟩
  · exact .inl rfl
  · obtain ⟨rfl, hhead, -, -, -⟩ := located_eq_some hloc
    have hassoc : head ++ (jsonString mapped.toList ++ tail) =
        head ++ '"' :: (mapped.toList.flatMap jsonChar ++ '"' :: tail) := by simp [jsonString]
    rw [hassoc]
    exact reworded_filename hls hmem hhead (unbroken_json _)

/-- The scanner is in the same state behind the line that is appended. -/
theorem advance_rewriteLine {t : Decimals} {m : Mapper} {state : ScanState}
    {line line' : List Char} (h : rewriteLine t m state line = .ok line') :
    state.advance line' = state.advance line := by
  rcases rewriteLine_cases h with ⟨rfl, -⟩ | ⟨head, path, tail, mapped, rfl, hloc, -, rfl⟩
  · rfl
  · obtain ⟨rfl, hhead, htext, -, -⟩ := located_eq_some hloc
    rw [advance_jsonString hhead, advance_marker hhead htext]

/-- A line that was appended stays as it is. -/
theorem rewriteLine_idem {t : Decimals} {m : Mapper} (hm : m.Proper) {state : ScanState}
    {line line' : List Char} (h : rewriteLine t m state line = .ok line') :
    rewriteLine t m state line' = .ok line' := by
  rcases rewriteLine_cases h with ⟨rfl, -⟩ | ⟨head, path, tail, mapped, -, hloc, hp, rfl⟩
  · exact h
  · obtain ⟨-, hhead, -, -, -⟩ := located_eq_some hloc
    obtain ⟨hne, hslash, hangle⟩ := hm _ _ hp
    rw [rewriteLine_eq, located_rewritten hhead (by simpa using hne) hslash hangle]

/-- What a run of the loop does to its lines. -/
inductive Rewrites (t : Decimals) (m : Mapper) :
    ScanState → List (List Char) → List (List Char) → Prop
  | nil (state : ScanState) : Rewrites t m state [] []
  | cons {state : ScanState} {line line' : List Char} {rest rest' : List (List Char)}
      (hline : rewriteLine t m state line = .ok line')
      (hrest : Rewrites t m (state.advance line) rest rest') :
      Rewrites t m state (line :: rest) (line' :: rest')

theorem normalizeLines_eq_ok_iff {t : Decimals} {m : Mapper} {lines : List (List Char)} :
    ∀ {state : ScanState} {out : List (List Char)},
      normalizeLines t m state lines = .ok out ↔ Rewrites t m state lines out := by
  induction lines with
  | nil =>
    intro state out
    rw [normalizeLines, Except.ok.injEq]
    constructor
    · rintro rfl
      exact .nil state
    · rintro ⟨⟩
      rfl
  | cons line rest ih =>
    intro state out
    rw [normalizeLines]
    constructor
    · intro h
      cases hline : rewriteLine t m state line with
      | error e =>
        rw [hline] at h
        exact absurd h (by simp)
      | ok line' =>
        rw [hline] at h
        dsimp only at h
        cases hrest : normalizeLines t m (state.advance line) rest with
        | error e =>
          rw [hrest] at h
          exact absurd h (by simp [Except.map])
        | ok rest' =>
          rw [hrest] at h
          rw [← Except.ok.inj h]
          exact .cons hline (ih.mp hrest)
    · rintro ⟨⟩
      rename_i line' rest' hline hrest
      rw [hline, ih.mpr hrest]
      rfl

theorem Rewrites.idem {t : Decimals} {m : Mapper} (hm : m.Proper) {state : ScanState}
    {lines out : List (List Char)} (h : Rewrites t m state lines out) : Rewrites t m state out out := by
  induction h with
  | nil state => exact .nil state
  | cons hline _ ih =>
    refine .cons (rewriteLine_idem hm hline) ?_
    rw [advance_rewriteLine hline]
    exact ih

theorem Rewrites.reworded {t : Decimals} {m : Mapper} {ls : List (List Char)} (hls : Lines ls)
    {state : ScanState} {lines out : List (List Char)} (h : Rewrites t m state lines out) :
    (∀ l ∈ lines, l ∈ ls) → List.Forall₂ Reworded lines out := by
  induction h with
  | nil => exact fun _ => .nil
  | cons hline _ ih =>
    exact fun hmem => .cons (rewriteLine_reworded hls (hmem _ List.mem_cons_self) hline)
      (ih fun l hl => hmem l (List.mem_cons_of_mem _ hl))

/-- **The lines of the normalised text** are the lines that were appended. -/
theorem Rewrites.splitLines {t : Decimals} {m : Mapper} {text : List Char}
    {out : List (List Char)} (h : Rewrites t m .code (splitLines text) out) :
    Python.splitLines out.flatten = out := by
  have hlines := lines_splitLines text
  exact splitLines_flatten (hlines.reworded (h.reworded hlines fun _ hl => hl))

/-- **The normalised texts**, line by line. -/
theorem normalizeLinemarkers_eq_ok_iff {t : Decimals} {m : Mapper} {text out : List Char} :
    normalizeLinemarkers t m text = .ok out ↔
      Rewrites t m .code (splitLines text) (splitLines out) := by
  unfold normalizeLinemarkers
  constructor
  · intro h
    cases hlines : normalizeLines t m .code (splitLines text) with
    | error e =>
      rw [hlines] at h
      exact absurd h (by simp [Except.map])
    | ok lines =>
      rw [hlines] at h
      have hrewrites := normalizeLines_eq_ok_iff.mp hlines
      rw [← Except.ok.inj h, hrewrites.splitLines]
      exact hrewrites
  · intro h
    rw [normalizeLines_eq_ok_iff.mpr h]
    exact congrArg Except.ok (flatten_splitLines out)

/-- **A second pass changes nothing.** -/
theorem normalizeLinemarkers_idem {t : Decimals} {m : Mapper} (hm : m.Proper)
    {text out : List Char} (h : normalizeLinemarkers t m text = .ok out) :
    normalizeLinemarkers t m out = .ok out :=
  normalizeLinemarkers_eq_ok_iff.mpr ((normalizeLinemarkers_eq_ok_iff.mp h).idem hm)

/-! ## Line by line -/

/-- The state of the scanner behind some lines. -/
def scanLines (state : ScanState) (lines : List (List Char)) : ScanState :=
  lines.foldl ScanState.advance state

theorem Rewrites.length_eq {t : Decimals} {m : Mapper} {state : ScanState}
    {lines out : List (List Char)} (h : Rewrites t m state lines out) :
    out.length = lines.length := by
  induction h with
  | nil => rfl
  | cons _ _ ih => rw [List.length_cons, List.length_cons, ih]

theorem Rewrites.getElem? {t : Decimals} {m : Mapper} {state : ScanState}
    {lines out : List (List Char)} (h : Rewrites t m state lines out) :
    ∀ {k : ℕ} {line line' : List Char}, lines[k]? = some line → out[k]? = some line' →
      rewriteLine t m (scanLines state (lines.take k)) line = .ok line' := by
  induction h with
  | nil => intro k line line' hk; exact absurd hk (by simp)
  | cons hline _ ih =>
    intro k l l' hk hk'
    cases k with
    | zero =>
      rw [List.getElem?_cons_zero, Option.some.injEq] at hk hk'
      rw [← hk, ← hk']
      exact hline
    | succ k =>
      rw [List.getElem?_cons_succ] at hk hk'
      exact ih hk hk'

/-! ## Identities are no filenames -/

theorem noFilename_append {a : String} {c : Char} (h : a.toList.head? = some c) (hslash : c ≠ '/')
    (hangle : c ≠ '<') (b : String) : NoFilename (a ++ b) := by
  have hhead : (a ++ b).toList.head? = some c := by
    rw [String.toList_append, List.head?_append, h]
    rfl
  refine ⟨?_, ?_, ?_⟩
  · rintro hnil
    rw [hnil] at hhead
    exact absurd hhead (by simp)
  · rw [hhead]
    simpa using hslash
  · rw [hhead]
    simpa using hangle

theorem noFilename_role {role : String} (h : IsRoleName role) (b : String) :
    NoFilename (role ++ b) := by
  obtain ⟨hne, hall⟩ := h
  obtain ⟨c, cs, hc⟩ := List.exists_cons_of_ne_nil hne
  have hchar : isRoleChar c = true := List.all_eq_true.mp hall c (by rw [hc]; simp)
  refine noFilename_append (c := c) (by rw [hc]; rfl) ?_ ?_ b
  · rintro rfl
    exact absurd hchar (by decide)
  · rintro rfl
    exact absurd hchar (by decide)

/-- The identity of an absolute path. -/
def Mapper.identityOf (m : Mapper) (p : String) : String :=
  (m.aliases.lookup (Posix.normpath p)).getD (m.identity (Posix.PurePath.parse (Posix.normpath p)))

/-- The branches of `Mapper.path`. -/
theorem Mapper.path_eq (m : Mapper) {p : String} (hne : p ≠ "") :
    m.path p =
      if p.toList.head? = some '<' ∧ p.toList.getLast? = some '>' then
        if p ∈ ["<built-in>", "<command-line>", "<stdin>"] then .ok ("synthetic:" ++ p)
        else .error ⟨"unrecognized synthetic source path"⟩
      else if (Posix.PurePath.parse p).IsAbsolute then .ok (m.identityOf p)
      else .error ⟨"normalization requires an absolute source path: " ++ p⟩ := by
  unfold Mapper.path require identityOf
  rw [if_pos hne]
  split_ifs
  · rfl
  · rfl
  · cases m.aliases.lookup (Posix.normpath p) with
    | none => rfl
    | some other => rfl
  · rfl

/-- A mapper whose roles are named and whose aliases are no filenames. -/
theorem Mapper.proper_of_roles {m : Mapper} (hroles : ∀ b ∈ m.roots, IsRoleName b.1)
    (halias : ∀ a ∈ m.aliases, NoFilename a.2) : m.Proper := by
  intro p q h
  by_cases hne : p = ""
  · rw [hne] at h
    exact absurd h (by simp [Mapper.path, require, bind, Except.bind])
  rw [m.path_eq hne] at h
  split_ifs at h
  · rw [← Except.ok.inj h]
    exact noFilename_append (c := 's') (by decide) (by decide) (by decide) p
  · rw [← Except.ok.inj h, Mapper.identityOf]
    cases hother : m.aliases.lookup (Posix.normpath p) with
    | some other =>
      obtain ⟨l₁, l₂, hsplit, -⟩ := List.lookup_eq_some_iff.mp hother
      exact halias (Posix.normpath p, other) (by rw [hsplit]; simp)
    | none =>
      rw [Option.getD_none, Mapper.identity]
      cases hbest : m.best (Posix.PurePath.parse (Posix.normpath p)) with
      | none => exact noFilename_append (c := 'a') (by decide) (by decide) (by decide) _
      | some c =>
        obtain ⟨b, hb, -, rfl, -⟩ := m.best_eq_some hbest
        show NoFilename (b.1 ++ ":" ++ _)
        rw [String.append_assoc]
        exact noFilename_role (hroles b hb) _

end Replay
end Fragma
