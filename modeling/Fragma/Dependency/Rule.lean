import Mathlib.Data.Finset.Max
import Mathlib.Data.Prod.Lex
import Fragma.Dependency.Names

/-!
# A make rule, read back

The rule lists the names of the files behind its target, each behind one or more gaps, and ends with a
newline.  A reader removes the line breaks and splits the rest.

* `Prerequisite`, `listText`: the rule as the compiler writes it.
* `Cut`, `cut_splice`, `cut_undouble`: what is left of it without the line breaks.
* `Between`, `Behind`: what holds between two names and behind one, whatever has been read.
* `origin_of_cut`, `split_of_plain`: **every word has an origin**, and plain names are read back.
-/

namespace Fragma
namespace Dependency

open Provenance Python Shlex

/-! ## The rule -/

/-- What separates two names: a blank, or a blank at the end of a line that goes on. -/
inductive Gap where
  | blank
  | broken
  deriving DecidableEq, Repr

def Gap.text : Gap → Text
  | .blank => [' ']
  | .broken => [' ', '\\', '\n']

/-- A file of the rule: the gaps in front of it, and its name. -/
structure Prerequisite where
  gaps : List Gap
  name : Text
  gaps_ne_nil : gaps ≠ []
  name_ne_nil : name ≠ []
  newline_notMem : '\n' ∉ name

/-- The files of the rule and the end of its line. -/
def listText (ds : List Prerequisite) : Text :=
  ds.flatMap (fun d => d.gaps.flatMap Gap.text ++ quote d.name) ++ ['\n']

/-- `fragma:` -/
def target : Text := ['f', 'r', 'a', 'g', 'm', 'a', ':']

/-- The rule for that target. -/
def ruleText (ds : List Prerequisite) : Text := target ++ listText ds

/-- Names behind blanks, as they are left without the line breaks. -/
def lexed (ps : List (ℕ × Text)) : Text :=
  ps.flatMap fun p => List.replicate p.1 ' ' ++ escapeFrom 0 p.2

/-- The names with the number of gaps in front of them. -/
def pieces (f : Text → Text) (ds : List Prerequisite) : List (ℕ × Text) :=
  ds.map fun d => (d.gaps.length, f d.name)

/-- What is left of a rule without its line breaks: the newline behind the last name goes with a
backslash at its end. -/
def Cut (f : Text → Text) (ds : List Prerequisite) (text : Text) : Prop :=
  (∀ d ∈ ds.getLast?, (f d.name).getLast? ≠ some '\\') ∧ text = lexed (pieces f ds) ++ ['\n'] ∨
    ∃ front d name, ds = front ++ [d] ∧ f d.name = name ++ ['\\'] ∧
      text = lexed (pieces f front ++ [(d.gaps.length, name)])

variable {ds : List Prerequisite} {ps : List (ℕ × Text)}

theorem lexed_append (ps qs : List (ℕ × Text)) : lexed (ps ++ qs) = lexed ps ++ lexed qs :=
  List.flatMap_append

theorem splice_gaps (gaps : List Gap) (rest : Text) :
    splice (gaps.flatMap Gap.text ++ rest) = List.replicate gaps.length ' ' ++ splice rest := by
  induction gaps with
  | nil => rfl
  | cons g gaps ih =>
    have hspace : ∀ cs, splice (' ' :: cs) = ' ' :: splice cs := fun cs =>
      splice.eq_2 _ _ fun _ h _ => absurd h (by decide)
    rw [List.flatMap_cons, List.append_assoc, List.length_cons, List.replicate_succ, List.cons_append, ← ih]
    cases g with
    | blank => exact hspace _
    | broken => exact (hspace _).trans (congrArg _ (splice.eq_1 _))

theorem splice_of_notMem {cs : Text} (h : '\n' ∉ cs) : splice cs = cs :=
  splice_eq_self fun hi => h (hi.subset (by simp))

theorem mem_doubled {c : Char} {cs : Text} : c ∈ doubled cs ↔ c ∈ cs := by
  fun_induction doubled cs with
  | case1 => rfl
  | case2 cs ih => simp [ih]
  | case3 d cs hd ih => simp [ih]

theorem newline_notMem_quote (d : Prerequisite) : '\n' ∉ quote d.name := fun h => by
  rcases mem_escapeFrom h with h | h
  · exact absurd h (by decide)
  · exact d.newline_notMem (mem_doubled.mp h)

theorem doubled_ne_nil {cs : Text} (h : cs ≠ []) : doubled cs ≠ [] := by
  obtain ⟨c, cs, rfl⟩ := List.exists_cons_of_ne_nil h
  rw [doubled]
  split_ifs <;> simp

theorem getLast?_escapeFrom (k : ℕ) (cs : Text) : (escapeFrom k cs).getLast? = cs.getLast? := by
  fun_induction escapeFrom k cs with
  | case1 => rfl
  | case2 k c cs hc ih => simp [List.getLast?_cons, ih]
  | case3 k cs hc ih => simp [List.getLast?_cons, ih]
  | case4 k c cs hc hhash ih => simp [List.getLast?_cons, ih]

theorem getLast?_doubled (cs : Text) : (doubled cs).getLast? = cs.getLast? := by
  fun_induction doubled cs with
  | case1 => rfl
  | case2 cs ih => simp [List.getLast?_cons, ih]
  | case3 c cs hc ih => simp [List.getLast?_cons, ih]

theorem doubled_append (cs ds : Text) : doubled (cs ++ ds) = doubled cs ++ doubled ds := by
  induction cs with
  | nil => rfl
  | cons c cs ih =>
    rw [List.cons_append, doubled, doubled, ih]
    split_ifs <;> rfl

/-- The names of a part of the rule. -/
theorem splice_names (ds : List Prerequisite) {rest : Text} (hrest : rest.head? ≠ some '\n') :
    splice (ds.flatMap (fun d => d.gaps.flatMap Gap.text ++ quote d.name) ++ rest) =
      lexed (pieces doubled ds) ++ splice rest := by
  induction ds with
  | nil => rfl
  | cons d ds ih =>
    have hhead : (ds.flatMap (fun d => d.gaps.flatMap Gap.text ++ quote d.name) ++ rest).head? ≠
        some '\n' := by
      cases ds with
      | nil => exact hrest
      | cons d' ds =>
        obtain ⟨g, gaps, hg⟩ := List.exists_cons_of_ne_nil d'.gaps_ne_nil
        rw [List.flatMap_cons, hg]
        cases g <;> simp [Gap.text]
    rw [List.flatMap_cons, List.append_assoc, List.append_assoc, splice_gaps,
      splice_append fun h => hhead h.2, ih, splice_of_notMem (newline_notMem_quote d)]
    simp [lexed, pieces, quote]

/-- **The rule without its line breaks.** -/
theorem cut_splice (hne : ds ≠ []) : Cut doubled ds (splice (listText ds)) := by
  obtain ⟨front, d, rfl⟩ := (List.eq_nil_or_concat' ds).resolve_left hne
  obtain ⟨g, gaps, hg⟩ := List.exists_cons_of_ne_nil d.gaps_ne_nil
  have hhead : (d.gaps.flatMap Gap.text ++ (quote d.name ++ ['\n'])).head? ≠ some '\n' := by
    rw [hg]
    cases g <;> simp [Gap.text]
  have hfront : splice (listText (front ++ [d])) = lexed (pieces doubled front) ++
      (List.replicate d.gaps.length ' ' ++ splice (quote d.name ++ ['\n'])) := by
    rw [← splice_gaps, ← splice_names front hhead]
    simp [listText]
  rw [hfront]
  by_cases hlast : d.name.getLast? = some '\\'
  · obtain ⟨name, hname⟩ := List.getLast?_eq_some_iff.mp hlast
    refine .inr ⟨front, d, doubled name, rfl, by rw [hname, doubled_append]; rfl, ?_⟩
    have hwritten : quote d.name = escapeFrom 0 (doubled name) ++ ['\\'] := by
      rw [quote, hname, doubled_append]
      exact escapeFrom_concat_backslash 0 (doubled name)
    have hquote : quote d.name ++ ['\n'] = escapeFrom 0 (doubled name) ++ ['\\', '\n'] := by
      rw [hwritten, List.append_assoc]
      rfl
    have hnotMem : '\n' ∉ escapeFrom 0 (doubled name) := fun h =>
      newline_notMem_quote d (hwritten ▸ List.mem_append_left _ h)
    rw [hquote, splice_append (by simp), splice_of_notMem hnotMem, lexed_append]
    simp [lexed, splice]
  · refine .inl ⟨by simpa [getLast?_doubled] using hlast, ?_⟩
    have hquote : ¬ ((quote d.name).getLast? = some '\\' ∧ ['\n'].head? = some '\n') := fun h =>
      hlast (by rw [← h.1, quote, getLast?_escapeFrom, getLast?_doubled])
    have hpieces : pieces doubled (front ++ [d]) =
        pieces doubled front ++ [(d.gaps.length, doubled d.name)] := by simp [pieces]
    rw [splice_append hquote, splice_of_notMem (newline_notMem_quote d), hpieces, lexed_append]
    simp [lexed, quote, splice]

theorem undouble_lexed (ps : List (ℕ × Text)) (rest : Text) :
    undouble (lexed (ps.map fun p => (p.1, doubled p.2)) ++ rest) = lexed ps ++ undouble rest := by
  have hblanks : ∀ (k : ℕ) (t : Text),
      undouble (List.replicate k ' ' ++ t) = List.replicate k ' ' ++ undouble t := by
    intro k t
    induction k with
    | zero => rfl
    | succ k ih => rw [List.replicate_succ, List.cons_append, undouble_cons (by decide), ih]; rfl
  induction ps with
  | nil => rfl
  | cons p ps ih =>
    rw [lexed, List.map_cons, List.flatMap_cons, List.append_assoc, List.append_assoc, hblanks,
      undouble_escapeFrom]
    refine (congrArg _ (congrArg _ ih)).trans ?_
    simp [lexed]

/-- The same with halved dollar signs. -/
theorem cut_undouble (hne : ds ≠ []) : Cut id ds (undouble (splice (listText ds))) := by
  have hpieces : ∀ ds : List Prerequisite,
      pieces doubled ds = (pieces id ds).map fun p => (p.1, doubled p.2) := fun ds => by simp [pieces]
  rcases cut_splice hne with ⟨hlast, htext⟩ | ⟨front, d, name, hds, hname, htext⟩
  · refine .inl ⟨fun d hd => by rw [id, ← getLast?_doubled]; exact hlast d hd, ?_⟩
    rw [htext, hpieces, undouble_lexed]
    rfl
  · have hlast : d.name.getLast? = some '\\' := by
      rw [← getLast?_doubled, hname, List.getLast?_concat]
    obtain ⟨half, hhalf⟩ := List.getLast?_eq_some_iff.mp hlast
    have hdouble : name = doubled half := by
      rw [hhalf, doubled_append] at hname
      exact (List.append_inj' hname rfl).1.symm
    refine .inr ⟨front, d, half, hds, hhalf, ?_⟩
    have hmap : pieces doubled front ++ [(d.gaps.length, doubled half)] =
        (pieces id front ++ [(d.gaps.length, half)]).map fun p => (p.1, doubled p.2) := by
      rw [hpieces, List.map_append]
      rfl
    have hundouble := undouble_lexed (pieces id front ++ [(d.gaps.length, half)]) []
    rw [List.append_nil] at hundouble
    rw [htext, hdouble, hmap, hundouble]
    simp [undouble]

/-! ## The lexer on a rule -/

/-- The words that were read have origins. -/
def Known (names : List Text) (s : Lexer) : Prop := ∀ w ∈ s.words, ∃ n ∈ names, Origin n w

/-- In front of a name: between two words, or inside one with more blanks than a name that is not
plain. -/
structure Between (names : List Text) (s : Lexer) : Prop where
  known : Known names s
  place : Idle s ∨ (s.mode = .word ∨ s.mode = .single ∨ s.mode = .double) ∧
    ∃ n ∈ names, ¬ Plain n ∧ n.count ' ' < s.token.count ' '

/-- Behind a name: at the end of a word that has an origin, or inside one that is not over. -/
structure Behind (names : List Text) (s : Lexer) : Prop where
  known : Known names s
  place : s.mode = .word ∧ (∃ n ∈ names, Origin n s.token) ∨
    ¬ s.mode.Open ∧ ∃ n ∈ names, ¬ Plain n ∧ n.count ' ' ≤ s.token.count ' '

variable {names : List Text} {s : Lexer} {name : Text}

theorem between_start (names : List Text) : Between names .start :=
  ⟨fun _ h => absurd h List.not_mem_nil, .inl ⟨rfl, rfl, rfl⟩⟩

/-- The word at the end of which the lexer stands. -/
theorem Known.emit (h : Known names s) {n : Text} (hn : n ∈ names) (horigin : Origin n s.token) :
    ∀ w ∈ s.emit, ∃ n ∈ names, Origin n w := by
  intro w hw
  unfold Lexer.emit at hw
  split_ifs at hw
  · rcases List.mem_append.mp hw with hw | hw
    · exact h w hw
    · rw [List.mem_singleton.mp hw]
      exact ⟨n, hn, horigin⟩
  · exact h w hw

/-- A word with more blanks than a name that is not plain has that name as its origin. -/
theorem origin_of_count {n w : Text} (hp : ¬ Plain n) (h : n.count ' ' < w.count ' ') : Origin n w :=
  .inr ⟨hp, .inl h⟩

theorem Between.blank (h : Between names s) : Between names (s.read ' ') := by
  rcases h.place with hidle | ⟨hmode | hmode, n, hn, hp, hcount⟩
  · rw [read_blank (.inl hidle.1) rfl]
    refine ⟨?_, .inl ⟨rfl, rfl, rfl⟩⟩
    have hemit : s.emit = s.words := if_neg (by simp [hidle.2.1, hidle.2.2])
    exact fun w hw => h.known w (hemit ▸ hw)
  · rw [read_blank (.inr hmode) rfl]
    exact ⟨h.known.emit hn (origin_of_count hp hcount), .inl ⟨rfl, rfl, rfl⟩⟩
  · have hopen : ¬ (s.mode.Open ∧ isWhitespace ' ' = true) := by
      rcases hmode with hmode | hmode <;> simp [hmode, Mode.Open]
    have hgrown := grown_read hopen
    refine ⟨fun w hw => h.known w (hgrown.words ▸ hw), .inr ⟨?_, n, hn, hp, ?_⟩⟩
    · rw [mode_read]
      rcases hmode with hmode | hmode <;> simp [hmode, Mode.next]
    · rw [hgrown.blanks]
      omega

theorem Behind.blank (h : Behind names s) : Between names (s.read ' ') := by
  rcases h.place with ⟨hmode, n, hn, horigin⟩ | ⟨hopen, n, hn, hp, hcount⟩
  · rw [read_blank (.inr hmode) rfl]
    exact ⟨h.known.emit hn horigin, .inl ⟨rfl, rfl, rfl⟩⟩
  · have hgrown := grown_read (s := s) (c := ' ') fun hc => hopen hc.1
    refine ⟨fun w hw => h.known w (hgrown.words ▸ hw), .inr ⟨?_, n, hn, hp, ?_⟩⟩
    · rw [mode_read]
      simp only [Mode.Open, not_or] at hopen
      cases hm : s.mode <;> simp_all [Mode.next]
    · rw [hgrown.blanks]
      simp
      omega

theorem Between.blanks (h : Between names s) (k : ℕ) :
    Between names ((List.replicate k ' ').foldl Lexer.read s) := by
  induction k with
  | zero => exact h
  | succ k ih => rw [List.replicate_succ', List.foldl_append]; exact ih.blank

theorem Behind.blanks (h : Behind names s) {k : ℕ} (hk : k ≠ 0) :
    Between names ((List.replicate k ' ').foldl Lexer.read s) := by
  obtain ⟨k, rfl⟩ := Nat.exists_eq_succ_of_ne_zero hk
  rw [List.replicate_succ, List.foldl_cons]
  exact h.blank.blanks k

theorem Between.settled (h : Between names s) : Settled 0 s.mode := by
  rcases h.place with hidle | ⟨hmode | hmode | hmode, -⟩
  · exact .inr (.inl ⟨rfl, .inl (.inl hidle.1)⟩)
  · exact .inr (.inl ⟨rfl, .inl (.inr hmode)⟩)
  · exact .inl hmode
  · exact .inr (.inl ⟨rfl, .inr hmode⟩)

/-- A name that is read inside a word does not end it. -/
theorem Between.inside (h : Between names s) (hidle : ¬ Idle s) (hline : OnLine name) :
    Known names ((escapeFrom 0 name).foldl Lexer.read s) ∧
      ((escapeFrom 0 name).foldl Lexer.read s).mode ≠ .space ∧
      ∃ n ∈ names, ¬ Plain n ∧
        n.count ' ' < ((escapeFrom 0 name).foldl Lexer.read s).token.count ' ' := by
  obtain ⟨hmode, n, hn, hp, hcount⟩ := h.place.resolve_left hidle
  have hgrown := (grown_escapeFrom hline 0 h.settled).1
  refine ⟨fun w hw => h.known w (hgrown.words ▸ hw), ?_, n, hn, hp, ?_⟩
  · by_cases hnil : name = []
    · subst hnil
      rcases hmode with hmode | hmode | hmode <;> simp [escapeFrom, hmode]
    · exact hgrown.inside (escapeFrom_ne_nil hnil)
  · have := hgrown.blanks
    omega

theorem Between.readName (h : Between names s) (hmem : name ∈ names) (hne : name ≠ []) (hline : OnLine name) :
    Behind names ((escapeFrom 0 name).foldl Lexer.read s) := by
  by_cases hidle : Idle s
  · by_cases hp : Plain name
    · rw [hidle.plain hline.1 hne hp]
      exact ⟨h.known, .inl ⟨rfl, name, hmem, .inl ⟨hp, rfl⟩⟩⟩
    · have hgrown := hidle.grown hline
      refine ⟨fun w hw => h.known w (hgrown.words ▸ hw), ?_⟩
      by_cases hmode : ((escapeFrom 0 name).foldl Lexer.read s).mode = .word
      · exact .inl ⟨hmode, name, hmem, .inr ⟨hp, (hidle.falls hline hmode).2 hp⟩⟩
      · refine .inr ⟨not_or.mpr ⟨hgrown.inside (escapeFrom_ne_nil hne), hmode⟩, name, hmem, hp, ?_⟩
        rw [hgrown.blanks, hidle.2.1, count_escapeFrom (by decide)]
        simp
  · obtain ⟨hknown, hspace, n, hn, hp, hcount⟩ := h.inside hidle hline
    refine ⟨hknown, ?_⟩
    by_cases hmode : ((escapeFrom 0 name).foldl Lexer.read s).mode = .word
    · exact .inl ⟨hmode, n, hn, origin_of_count hp hcount⟩
    · exact .inr ⟨not_or.mpr ⟨hspace, hmode⟩, n, hn, hp, hcount.le⟩

/-- The last name, of which a backslash at the end is lost. -/
theorem Between.readLast (h : Between names s) (hmem : name ++ ['\\'] ∈ names) (hline : OnLine name)
    {words : List Text} (hfinish : ((escapeFrom 0 name).foldl Lexer.read s).finish = .ok words) :
    ∀ w ∈ words, ∃ n ∈ names, Origin n w := by
  obtain ⟨hopen, rfl⟩ := finish_eq_ok_iff.mp hfinish
  by_cases hidle : Idle s
  · by_cases hnil : name = []
    · subst hnil
      have hemit : s.emit = s.words := if_neg (by simp [hidle.2.1, hidle.2.2])
      exact fun w hw => h.known w (hemit ▸ hw)
    · have hgrown := hidle.grown hline
      have hmode := hopen.resolve_left (hgrown.inside (escapeFrom_ne_nil hnil))
      have hknown : Known names ((escapeFrom 0 name).foldl Lexer.read s) := fun w hw =>
        h.known w (hgrown.words ▸ hw)
      exact hknown.emit hmem (.inr ⟨not_plain_concat name, (hidle.falls hline hmode).1⟩)
  · obtain ⟨hknown, -, n, hn, hp, hcount⟩ := h.inside hidle hline
    exact hknown.emit hn (origin_of_count hp hcount)

/-- The newline behind the last name, where the lexer does not wait. -/
theorem Behind.newline (h : Behind names s) (hwait : s.mode ≠ .escaped ∧ s.mode ≠ .escapedDouble)
    {words : List Text} (hfinish : (s.read '\n').finish = .ok words) :
    ∀ w ∈ words, ∃ n ∈ names, Origin n w := by
  obtain ⟨hopen, rfl⟩ := finish_eq_ok_iff.mp hfinish
  rcases h.place with ⟨hmode, n, hn, horigin⟩ | ⟨hquoted, -⟩
  · rw [read_blank (.inr hmode) rfl]
    exact h.known.emit hn horigin
  · rw [mode_read] at hopen
    simp only [Mode.Open, not_or] at hquoted
    cases hm : s.mode <;> simp_all [Mode.next, Mode.Open]

/-- In front of a gap. -/
def Ready (names : List Text) (s : Lexer) : Prop := Between names s ∨ Behind names s

theorem Ready.blanks (h : Ready names s) {k : ℕ} (hk : k ≠ 0) :
    Between names ((List.replicate k ' ').foldl Lexer.read s) := by
  rcases h with h | h
  · exact h.blanks k
  · exact h.blanks hk

theorem lexed_concat (f : Text → Text) (front : List Prerequisite) (k : ℕ) (name : Text) :
    (lexed (pieces f front ++ [(k, name)])).foldl Lexer.read s =
      (escapeFrom 0 name).foldl Lexer.read
        ((List.replicate k ' ').foldl Lexer.read ((lexed (pieces f front)).foldl Lexer.read s)) := by
  rw [lexed_append, List.foldl_append]
  simp [lexed]

theorem pieces_concat (f : Text → Text) (front : List Prerequisite) (d : Prerequisite) :
    pieces f (front ++ [d]) = pieces f front ++ [(d.gaps.length, f d.name)] := by simp [pieces]

/-- The names of a part of the rule. -/
theorem ready_pieces {f : Text → Text} (hds : ∀ d ∈ ds, f d.name ∈ names ∧ f d.name ≠ [] ∧ OnLine (f d.name)) :
    Ready names ((lexed (pieces f ds)).foldl Lexer.read .start) := by
  induction ds using List.reverseRecOn with
  | nil => exact .inl (between_start names)
  | append_singleton front d ih =>
    obtain ⟨hmem, hne, hline⟩ := hds d (by simp)
    have hfront := ih fun e he => hds e (List.mem_append_left _ he)
    rw [pieces_concat, lexed_concat]
    have hgaps : d.gaps.length ≠ 0 := fun h => d.gaps_ne_nil (List.length_eq_zero_iff.mp h)
    exact .inr ((hfront.blanks hgaps).readName hmem hne hline)

/-- **Every word that is read has an origin among the names.** -/
theorem origin_of_cut {f : Text → Text} {text : Text} {words : List Text} (hne : ds ≠ [])
    (hcut : Cut f ds text) (hds : ∀ d ∈ ds, f d.name ∈ names ∧ f d.name ≠ [] ∧ OnLine (f d.name))
    (h : split text = .ok words) : ∀ w ∈ words, ∃ n ∈ names, Origin n w := by
  obtain ⟨front, d, rfl⟩ := (List.eq_nil_or_concat' ds).resolve_left hne
  obtain ⟨hmem, hne', hline⟩ := hds d (by simp)
  have hgaps : d.gaps.length ≠ 0 := fun h => d.gaps_ne_nil (List.length_eq_zero_iff.mp h)
  have hready : Ready names ((lexed (pieces f front)).foldl Lexer.read .start) :=
    ready_pieces fun e he => hds e (List.mem_append_left _ he)
  have hbetween := hready.blanks hgaps
  rcases hcut with ⟨hlast, rfl⟩ | ⟨front', d', name, hsame, hname, rfl⟩
  · rw [split, pieces_concat, List.foldl_append, lexed_concat, List.foldl_cons, List.foldl_nil] at h
    obtain ⟨-, j, hsettled, hend⟩ := grown_escapeFrom hline 0 hbetween.settled
    have hj : j = 0 := by
      have hlast' : (f d.name).getLast? ≠ some '\\' := by simpa using hlast
      exact hend.resolve_right (not_or.mpr ⟨hne', hlast'⟩)
    refine (hbetween.readName hmem hne' hline).newline ?_ h
    rw [hj] at hsettled
    constructor <;> intro hm <;> simp [hm, Settled, Mode.Open] at hsettled
  · obtain ⟨rfl, hd⟩ := List.append_inj' hsame rfl
    obtain rfl := (List.cons.inj hd).1
    rw [split, lexed_concat] at h
    have hname' : OnLine name := by
      rw [hname] at hline
      exact ⟨fun hm => hline.1 (List.mem_append_left _ hm), fun hm => hline.2 (List.mem_append_left _ hm)⟩
    exact hbetween.readLast (hname ▸ hmem) hname' h

/-! ## Plain names -/

/-- The lexer behind words that it has read as they are, the last of them not yet put away. -/
def Done (words : List Text) (s : Lexer) : Prop :=
  words = [] ∧ s = .start ∨
    ∃ front last, words = front ++ [last] ∧ last ≠ [] ∧ s = ⟨.word, last, false, front⟩

theorem Done.emit {words : List Text} (h : Done words s) : s.mode.Open ∧ s.emit = words := by
  rcases h with ⟨rfl, rfl⟩ | ⟨front, last, rfl, hne, rfl⟩
  · exact ⟨.inl rfl, rfl⟩
  · exact ⟨.inr rfl, if_pos (.inl hne)⟩

theorem Done.blanks {words : List Text} (h : Done words s) {k : ℕ} (hk : k ≠ 0) :
    (List.replicate k ' ').foldl Lexer.read s = ⟨.space, [], false, words⟩ := by
  obtain ⟨k, rfl⟩ := Nat.exists_eq_succ_of_ne_zero hk
  have hidle : ∀ k : ℕ, (List.replicate k ' ').foldl Lexer.read ⟨.space, [], false, words⟩ =
      ⟨.space, [], false, words⟩ := by
    intro k
    induction k with
    | zero => rfl
    | succ k ih =>
      rw [List.replicate_succ, List.foldl_cons, read_blank (.inl rfl) rfl]
      exact ih
  rw [List.replicate_succ, List.foldl_cons, read_blank h.emit.1 rfl, h.emit.2]
  exact hidle k

/-- Plain names, read one after another. -/
theorem done_pieces {f : Text → Text}
    (hds : ∀ d ∈ ds, f d.name ≠ [] ∧ '\n' ∉ f d.name ∧ Plain (f d.name)) :
    Done (ds.map fun d => f d.name) ((lexed (pieces f ds)).foldl Lexer.read .start) := by
  induction ds using List.reverseRecOn with
  | nil => exact .inl ⟨rfl, rfl⟩
  | append_singleton front d ih =>
    obtain ⟨hne, hline, hp⟩ := hds d (by simp)
    have hfront := ih fun e he => hds e (List.mem_append_left _ he)
    have hgaps : d.gaps.length ≠ 0 := fun h => d.gaps_ne_nil (List.length_eq_zero_iff.mp h)
    have hidle : Idle ⟨.space, [], false, front.map fun d => f d.name⟩ := ⟨rfl, rfl, rfl⟩
    rw [pieces_concat, lexed_concat, hfront.blanks hgaps, hidle.plain hline hne hp]
    exact .inr ⟨_, _, by simp, hne, rfl⟩

/-- **Plain names are read back.** -/
theorem split_of_plain {f : Text → Text} {text : Text} (hcut : Cut f ds text)
    (hds : ∀ d ∈ ds, f d.name ≠ [] ∧ '\n' ∉ f d.name ∧ Plain (f d.name)) :
    split text = .ok (ds.map fun d => f d.name) := by
  rcases hcut with ⟨-, rfl⟩ | ⟨front, d, name, rfl, hname, -⟩
  · have hdone := done_pieces hds
    rw [split, List.foldl_append, List.foldl_cons, List.foldl_nil, read_blank hdone.emit.1 rfl,
      hdone.emit.2]
    rfl
  · exact absurd (hname ▸ (hds d (by simp)).2.2) (not_plain_concat name)

end Dependency
end Fragma
