import Mathlib
import Fragma.Provenance.Splicing
import Fragma.Python.Shlex

/-!
# File names in a make rule, read back by a shell lexer

The compiler writes the names of the files it read into a make rule, with the escapes of make; the
repository reads the rule with `shlex`.  The two agree on blanks, and on little else: make has no
quotation marks, and it leaves a backslash alone that stands in front of nothing it escapes.

* `quote`: a name as the compiler writes it.
* `Plain`: the names that the lexer reads back.
* `Grown`, `grown_escapeFrom`: the lexer stays inside one word while it reads a name.
* `foldl_plain`, `foldl_lost`: what it has read behind a name that is plain, and behind one that is not.
-/

namespace Fragma
namespace Dependency

open Provenance Python Shlex

/-! ## Names as they are written -/

/-- The escapes of make in a name, behind `k` backslashes: a blank gets a backslash and doubles those in
front of it, and `#` gets one. -/
def escapeFrom (k : ℕ) : Text → Text
  | [] => []
  | c :: cs =>
    if c = ' ' ∨ c = '\t' then List.replicate k '\\' ++ '\\' :: c :: escapeFrom 0 cs
    else if c = '#' then '\\' :: c :: escapeFrom 0 cs
    else c :: escapeFrom (if c = '\\' then k + 1 else 0) cs

/-- The dollar signs of a name doubled. -/
def doubled : Text → Text
  | [] => []
  | c :: cs => if c = '$' then '$' :: '$' :: doubled cs else c :: doubled cs

/-- A name as the compiler writes it. -/
def quote (name : Text) : Text := escapeFrom 0 (doubled name)

/-- `text.replace("$$", "$")` -/
def undouble : Text → Text
  | '$' :: '$' :: cs => '$' :: undouble cs
  | c :: cs => c :: undouble cs
  | [] => []

/-- Behind `k` backslashes, the lexer reads the name back: no quotation mark, no carriage return, and
backslashes in front of a blank only, or a single one in front of `#`. -/
def PlainFrom (k : ℕ) : Text → Prop
  | [] => k = 0
  | c :: cs =>
    if c = ' ' ∨ c = '\t' then PlainFrom 0 cs
    else if c = '#' then k ≤ 1 ∧ PlainFrom 0 cs
    else if c = '\\' then PlainFrom (k + 1) cs
    else k = 0 ∧ c ≠ '\'' ∧ c ≠ '"' ∧ c ≠ '\r' ∧ PlainFrom 0 cs

instance decidablePlainFrom : ∀ (k : ℕ) (cs : Text), Decidable (PlainFrom k cs)
  | k, [] => inferInstanceAs (Decidable (k = 0))
  | k, c :: cs =>
    have := decidablePlainFrom 0 cs
    have := decidablePlainFrom (k + 1) cs
    inferInstanceAs (Decidable (if c = ' ' ∨ c = '\t' then _ else _))

/-- The names that the lexer reads back. -/
def Plain (name : Text) : Prop := PlainFrom 0 name

instance (name : Text) : Decidable (Plain name) := inferInstanceAs (Decidable (PlainFrom _ _))

/-- A name of a file in a text: it fits on a line. -/
def OnLine (name : Text) : Prop := '\n' ∉ name ∧ '\r' ∉ name

/-- A quotation mark. -/
def isMark (c : Char) : Bool := c = '\'' || c = '"'

/-- The quotation marks of a text. -/
def marks (cs : Text) : ℕ := cs.countP isMark

/-! ## What the escapes add -/

theorem countP_escapeFrom {p : Char → Bool} (hp : p '\\' = false) (k : ℕ) (cs : Text) :
    (escapeFrom k cs).countP p = cs.countP p := by
  fun_induction escapeFrom k cs with
  | case1 => rfl
  | case2 k c cs hc ih => simp [List.countP_cons, List.countP_replicate, ih, hp]
  | case3 k cs hc ih => simp [List.countP_cons, ih, hp]
  | case4 k c cs hc hhash ih => simp [List.countP_cons, ih]

theorem count_escapeFrom {x : Char} (hx : x ≠ '\\') (k : ℕ) (cs : Text) :
    (escapeFrom k cs).count x = cs.count x :=
  countP_escapeFrom (by simpa using hx.symm) k cs

theorem marks_escapeFrom (k : ℕ) (cs : Text) : marks (escapeFrom k cs) = marks cs :=
  countP_escapeFrom (by decide) k cs

theorem mem_escapeFrom {x : Char} {k : ℕ} {cs : Text} (h : x ∈ escapeFrom k cs) :
    x = '\\' ∨ x ∈ cs := by
  by_cases hx : x = '\\'
  · exact Or.inl hx
  · rw [← List.one_le_count_iff, count_escapeFrom hx] at h
    exact Or.inr (List.one_le_count_iff.mp h)

theorem escapeFrom_concat_backslash (k : ℕ) (cs : Text) :
    escapeFrom k (cs ++ ['\\']) = escapeFrom k cs ++ ['\\'] := by
  fun_induction escapeFrom k cs with
  | case1 k => simp [escapeFrom]
  | case2 k c cs hc ih => simp [escapeFrom, hc, ih]
  | case3 k cs hc ih => simp [escapeFrom, ih]
  | case4 k c cs hc hhash ih => simp [escapeFrom, hc, hhash, ih]

theorem escapeFrom_ne_nil {k : ℕ} {cs : Text} (h : cs ≠ []) : escapeFrom k cs ≠ [] := by
  obtain ⟨c, cs, rfl⟩ := List.exists_cons_of_ne_nil h
  rw [escapeFrom]
  split_ifs <;> simp

theorem undouble_cons {c : Char} (hc : c ≠ '$') (cs : Text) : undouble (c :: cs) = c :: undouble cs :=
  undouble.eq_2 _ _ fun _ h _ => hc h

/-- Doubled dollar signs are halved again. -/
theorem undouble_escapeFrom (k : ℕ) (cs rest : Text) :
    undouble (escapeFrom k (doubled cs) ++ rest) = escapeFrom k cs ++ undouble rest := by
  have hreplicate : ∀ (k : ℕ) (t : Text),
      undouble (List.replicate k '\\' ++ t) = List.replicate k '\\' ++ undouble t := by
    intro k t
    induction k with
    | zero => rfl
    | succ k ih => rw [List.replicate_succ, List.cons_append, undouble_cons (by decide), ih]; rfl
  induction cs generalizing k with
  | nil => rfl
  | cons c cs ih =>
    by_cases hdollar : c = '$'
    · subst hdollar
      simp [doubled, escapeFrom, undouble, ih]
    · rw [doubled, if_neg hdollar, escapeFrom, escapeFrom]
      split_ifs with hblank hhash
      · rw [List.append_assoc, hreplicate, List.cons_append, undouble_cons (by decide),
          List.cons_append, undouble_cons hdollar, ih, List.append_assoc]
        rfl
      · rw [List.cons_append, undouble_cons (by decide), List.cons_append, undouble_cons hdollar, ih]
        rfl
      · rw [List.cons_append, undouble_cons hdollar, ih]
        rfl
      · rw [List.cons_append, undouble_cons hdollar, ih]
        rfl

/-! ## What the lexer counts -/

/-- Inside a quotation, or behind one in the same word. -/
def opened (s : Lexer) : ℕ := if s.quoted = true ∨ s.mode.Quoting then 1 else 0

/-- A run of the lexer that stays inside one word: blanks are kept, marks may go, and a quotation costs
one. -/
structure Grown (s t : Lexer) (text : Text) : Prop where
  words : t.words = s.words
  blanks : t.token.count ' ' = s.token.count ' ' + text.count ' '
  marks : marks t.token + opened t ≤ marks s.token + opened s + marks text
  opened : opened s ≤ opened t
  inside : text ≠ [] → t.mode ≠ .space

theorem Grown.refl (s : Lexer) : Grown s s [] where
  words := rfl
  blanks := by simp
  marks := by simp [Dependency.marks]
  opened := Nat.le_refl _
  inside h := absurd rfl h

theorem marks_append (a b : Text) : marks (a ++ b) = marks a + marks b := List.countP_append

theorem Grown.trans {s t u : Lexer} {a b : Text} (h : Grown s t a) (h' : Grown t u b)
    (hb : b ≠ []) : Grown s u (a ++ b) where
  words := h'.words.trans h.words
  blanks := by rw [h'.blanks, h.blanks, List.count_append, Nat.add_assoc]
  marks := by
    have := h.marks
    have := h'.marks
    rw [marks_append]
    omega
  opened := h.opened.trans h'.opened
  inside _ := h'.inside hb

theorem kept_blanks {m : Mode} {c : Char} (h : ¬ (m.Open ∧ isWhitespace c = true)) :
    (m.kept c).count ' ' = [c].count ' ' := by
  by_cases hc : c = ' '
  · subst hc
    have hopen : ¬ m.Open := fun hm => h ⟨hm, rfl⟩
    cases m with
    | space => exact absurd (.inl rfl) hopen
    | word => exact absurd (.inr rfl) hopen
    | single => rfl
    | double => rfl
    | escaped => rfl
    | escapedDouble => rfl
  · cases m with
    | escaped => rfl
    | _ =>
      simp only [Mode.kept]
      split_ifs <;> simp [hc]

theorem grown_read {s : Lexer} {c : Char} (h : ¬ (s.mode.Open ∧ isWhitespace c = true)) :
    Grown s (s.read c) [c] := by
  rw [read_of_not_blank h]
  refine ⟨rfl, ?_, ?_, ?_, fun _ => ?_⟩
  · rw [List.count_append, kept_blanks h]
  · obtain ⟨m, token, quoted, words⟩ := s
    simp only [marks_append, opened]
    cases m <;> cases quoted <;> simp [Mode.next, Mode.kept, Mode.Quoting, marks] <;> grind [isMark]
  · obtain ⟨m, token, quoted, words⟩ := s
    simp only [opened]
    cases m <;> cases quoted <;> simp [Mode.next, Mode.Quoting]
  · obtain ⟨m, token, quoted, words⟩ := s
    cases m <;> simp_all [Mode.next, Mode.Open] <;> grind

/-! ## Backslashes in front of a blank -/

/-- The lexer behind `k` backslashes of a name: outside single marks it waits for the character that the
last one escapes just when their number is odd. -/
def Settled (k : ℕ) (m : Mode) : Prop :=
  m = .single ∨ (k % 2 = 0 ∧ (m.Open ∨ m = .double)) ∨ (k % 2 = 1 ∧ (m = .escaped ∨ m = .escapedDouble))

theorem Settled.next_backslash {k : ℕ} {m : Mode} (h : Settled k m) : Settled (k + 1) (m.next '\\') := by
  rcases h with rfl | ⟨hk, (rfl | rfl) | rfl⟩ | ⟨hk, rfl | rfl⟩
  · exact .inl rfl
  · exact .inr (.inr ⟨by omega, .inl rfl⟩)
  · exact .inr (.inr ⟨by omega, .inl rfl⟩)
  · exact .inr (.inr ⟨by omega, .inr rfl⟩)
  · exact .inr (.inl ⟨by omega, .inl (.inr rfl)⟩)
  · exact .inr (.inl ⟨by omega, .inr rfl⟩)

/-- Any other character ends the run of backslashes, a white space only where it is escaped. -/
theorem Settled.next {k : ℕ} {m : Mode} {c : Char} (h : Settled k m) (hc : c ≠ '\\') :
    Settled 0 (m.next c) := by
  rcases h with rfl | ⟨hk, (rfl | rfl) | rfl⟩ | ⟨hk, rfl | rfl⟩
  · by_cases hm : c = '\''
    · exact .inr (.inl ⟨rfl, .inl (.inr (by simp [Mode.next, hm]))⟩)
    · exact .inl (by simp [Mode.next, hm])
  · simp only [Mode.next]
    split_ifs <;> simp [Settled, Mode.Open]
  · simp only [Mode.next]
    split_ifs <;> simp [Settled, Mode.Open]
  · simp only [Mode.next]
    split_ifs <;> simp [Settled, Mode.Open]
  · exact .inr (.inl ⟨rfl, .inl (.inr rfl)⟩)
  · exact .inr (.inl ⟨rfl, .inr rfl⟩)

theorem Settled.not_open {k : ℕ} {m : Mode} (h : Settled k m) (hk : k % 2 = 1) : ¬ m.Open := by
  rcases h with rfl | ⟨hk', -⟩ | ⟨-, rfl | rfl⟩
  · simp [Mode.Open]
  · omega
  · simp [Mode.Open]
  · simp [Mode.Open]

theorem grown_replicate {s : Lexer} {k : ℕ} (h : Settled k s.mode) (j : ℕ) :
    Grown s ((List.replicate j '\\').foldl Lexer.read s) (List.replicate j '\\') ∧
      Settled (k + j) ((List.replicate j '\\').foldl Lexer.read s).mode := by
  induction j with
  | zero => exact ⟨.refl s, h⟩
  | succ j ih =>
    rw [List.replicate_succ', List.foldl_append]
    refine ⟨ih.1.trans (grown_read (by simp [isWhitespace])) (by simp), ?_⟩
    rw [List.foldl_cons, List.foldl_nil, mode_read]
    exact ih.2.next_backslash

/-- A name stays inside one word, and only backslashes at its end leave the lexer waiting. -/
theorem grown_escapeFrom {cs : Text} (hcs : OnLine cs) (k : ℕ) {s : Lexer} (h : Settled k s.mode) :
    Grown s ((escapeFrom k cs).foldl Lexer.read s) (escapeFrom k cs) ∧
      ∃ j, Settled j ((escapeFrom k cs).foldl Lexer.read s).mode ∧
        (j = 0 ∨ cs = [] ∨ cs.getLast? = some '\\') := by
  induction cs generalizing k s with
  | nil => exact ⟨.refl s, k, h, .inr (.inl rfl)⟩
  | cons c cs ih =>
    have htail : OnLine cs :=
      ⟨fun hm => hcs.1 (List.mem_cons_of_mem c hm), fun hm => hcs.2 (List.mem_cons_of_mem c hm)⟩
    -- one piece of the written name, and the rest of it
    have hstep : ∀ (piece : Text) (j : ℕ), piece ≠ [] →
        Grown s (piece.foldl Lexer.read s) piece → Settled j (piece.foldl Lexer.read s).mode →
        (cs = [] → j = 0 ∨ c = '\\') →
        Grown s ((piece ++ escapeFrom j cs).foldl Lexer.read s) (piece ++ escapeFrom j cs) ∧
          ∃ i, Settled i ((piece ++ escapeFrom j cs).foldl Lexer.read s).mode ∧
            (i = 0 ∨ c :: cs = [] ∨ (c :: cs).getLast? = some '\\') := by
      intro piece j hne hgrown hsettled hlast
      rw [List.foldl_append]
      by_cases hnil : cs = []
      · subst hnil
        simp only [escapeFrom, List.append_nil, List.foldl_nil]
        refine ⟨hgrown, j, hsettled, ?_⟩
        rcases hlast rfl with hj | rfl
        · exact .inl hj
        · exact .inr (.inr rfl)
      · obtain ⟨hrest, i, hi, hend⟩ := ih htail j hsettled
        refine ⟨hgrown.trans hrest (escapeFrom_ne_nil hnil), i, hi, ?_⟩
        rcases hend with hend | hend | hend
        · exact .inl hend
        · exact absurd hend hnil
        · exact .inr (.inr (by rwa [getLast?_cons_ne_nil hnil]))
    by_cases hblank : c = ' ' ∨ c = '\t'
    · obtain ⟨hgrown, hsettled⟩ := grown_replicate h (k + 1)
      have hodd := hsettled.not_open (by omega)
      have hpiece : escapeFrom k (c :: cs) =
          (List.replicate (k + 1) '\\' ++ [c]) ++ escapeFrom 0 cs := by
        rw [escapeFrom, if_pos hblank, List.replicate_succ']
        simp
      rw [hpiece]
      refine hstep (List.replicate (k + 1) '\\' ++ [c]) 0 (by simp) ?_ ?_ fun _ => .inl rfl
      · rw [List.foldl_append]
        exact hgrown.trans (grown_read fun hc => hodd hc.1) (by simp)
      · rw [List.foldl_append, List.foldl_cons, List.foldl_nil, mode_read]
        refine hsettled.next ?_
        rcases hblank with rfl | rfl <;> decide
    by_cases hhash : c = '#'
    · have hpiece : escapeFrom k (c :: cs) = ['\\', c] ++ escapeFrom 0 cs := by
        rw [escapeFrom, if_neg hblank, if_pos hhash]
        rfl
      have hback : ¬ (s.mode.Open ∧ isWhitespace '\\' = true) := by simp [isWhitespace]
      have hhere : ¬ ((s.read '\\').mode.Open ∧ isWhitespace c = true) := by simp [isWhitespace, hhash]
      rw [hpiece]
      refine hstep ['\\', c] 0 (by simp) ((grown_read hback).trans (grown_read hhere) (by simp)) ?_
        fun _ => .inl rfl
      rw [List.foldl_cons, List.foldl_cons, List.foldl_nil, mode_read, mode_read]
      exact h.next_backslash.next (by rw [hhash]; decide)
    have hwhite : isWhitespace c = false := by
      refine isWhitespace_eq_false_iff.mpr ⟨fun hc => hblank (.inl hc), fun hc => hblank (.inr hc), ?_, ?_⟩
      · exact fun hc => hcs.2 (hc ▸ List.mem_cons_self)
      · exact fun hc => hcs.1 (hc ▸ List.mem_cons_self)
    have hpiece : escapeFrom k (c :: cs) =
        [c] ++ escapeFrom (if c = '\\' then k + 1 else 0) cs := by
      rw [escapeFrom, if_neg hblank, if_neg hhash]
      rfl
    rw [hpiece]
    refine hstep [c] _ (by simp) (grown_read (by simp [hwhite])) ?_ fun _ => ?_
    · rw [List.foldl_cons, List.foldl_nil, mode_read]
      split_ifs with hback
      · rw [hback]
        exact h.next_backslash
      · exact h.next hback
    · by_cases hback : c = '\\'
      · exact .inr hback
      · exact .inl (if_neg hback)

/-! ## A name outside quotation marks -/

/-- The lexer outside quotation marks, behind `k` backslashes of which it has kept every second one. -/
def pending (m : Mode) (token : Text) (k : ℕ) (words : List Text) : Lexer :=
  ⟨if k = 0 then m else if k % 2 = 1 then .escaped else .word,
    token ++ List.replicate (k / 2) '\\', false, words⟩

section Pending

variable {m : Mode} {token : Text} {k : ℕ} {words : List Text} {c : Char}

theorem settled_pending (hm : m.Open) : Settled k (pending m token k words).mode := by
  unfold pending
  rcases Nat.mod_two_eq_zero_or_one k with hk | hk
  · refine .inr (.inl ⟨hk, .inl ?_⟩)
    by_cases h0 : k = 0
    · simpa [h0] using hm
    · simp [h0, hk, Mode.Open]
  · refine .inr (.inr ⟨hk, .inl ?_⟩)
    have h0 : k ≠ 0 := by omega
    simp [h0, hk]

theorem opened_pending (hm : m.Open) : opened (pending m token k words) = 0 := by
  unfold opened pending
  rcases hm with rfl | rfl <;> split_ifs <;> simp_all [Mode.Quoting]

theorem read_pending_backslash (hm : m.Open) :
    (pending m token k words).read '\\' = pending m token (k + 1) words := by
  rcases Nat.mod_two_eq_zero_or_one k with hk | hk
  · have hmode : (pending m token k words).mode.Open := by
      by_cases h0 : k = 0
      · simpa [pending, h0] using hm
      · simp [pending, h0, hk, Mode.Open]
    rw [read_backslash hmode]
    have hodd : (k + 1) % 2 = 1 := by omega
    have hhalf : (k + 1) / 2 = k / 2 := by omega
    simp [pending, hodd, hhalf]
  · have h0 : k ≠ 0 := by omega
    have hmode : (pending m token k words).mode = .escaped := by simp [pending, h0, hk]
    rw [read_escaped hmode]
    have heven : (k + 1) % 2 = 0 := by omega
    have hhalf : (k + 1) / 2 = k / 2 + 1 := by omega
    simp [pending, heven, hhalf, List.replicate_succ']

theorem foldl_pending_replicate (hm : m.Open) (j : ℕ) :
    (List.replicate j '\\').foldl Lexer.read (pending m token k words) = pending m token (k + j) words := by
  induction j with
  | zero => rfl
  | succ j ih => rw [List.replicate_succ', List.foldl_append, ih]; exact read_pending_backslash hm

/-- The character behind a run of backslashes is kept when the last one escapes it, or when it means
nothing to the lexer. -/
theorem read_pending (hm : m.Open) (hback : c ≠ '\\')
    (h : k % 2 = 1 ∨ isWhitespace c = false ∧ isMark c = false) :
    (pending m token k words).read c =
      pending .word (token ++ List.replicate (k / 2) '\\' ++ [c]) 0 words := by
  rcases Nat.mod_two_eq_zero_or_one k with hk | hk
  · have hmode : (pending m token k words).mode.Open := by
      by_cases h0 : k = 0
      · simpa [pending, h0] using hm
      · simp [pending, h0, hk, Mode.Open]
    obtain ⟨hwhite, hmark⟩ := h.resolve_left (by omega)
    simp only [isMark, Bool.or_eq_false_iff, decide_eq_false_iff_not] at hmark
    rw [read_plain hmode hwhite hback hmark.1 hmark.2]
    simp [pending]
  · have h0 : k ≠ 0 := by omega
    have hmode : (pending m token k words).mode = .escaped := by simp [pending, h0, hk]
    rw [read_escaped hmode]
    simp [pending]

/-- A blank with its escapes gives back the backslashes in front of it. -/
theorem foldl_pending_blank (hm : m.Open) (hback : c ≠ '\\') (rest : Text) :
    (List.replicate k '\\' ++ '\\' :: c :: rest).foldl Lexer.read (pending m token k words) =
      rest.foldl Lexer.read (pending .word (token ++ List.replicate k '\\' ++ [c]) 0 words) := by
  have hhalf : (k + k + 1) / 2 = k := by omega
  rw [List.foldl_append, foldl_pending_replicate hm, List.foldl_cons, read_pending_backslash hm,
    List.foldl_cons, read_pending hm hback (.inl (by omega)), hhalf]

/-- `#` with its escape. -/
theorem foldl_pending_hash (hm : m.Open) (rest : Text) :
    ('\\' :: '#' :: rest).foldl Lexer.read (pending m token k words) =
      rest.foldl Lexer.read
        (pending .word (token ++ List.replicate ((k + 1) / 2) '\\' ++ ['#']) 0 words) := by
  rw [List.foldl_cons, read_pending_backslash hm, List.foldl_cons,
    read_pending hm (by decide) (.inr (by decide))]

/-- **A plain name is read back.** -/
theorem foldl_plain {cs : Text} (hm : m.Open) (hline : '\n' ∉ cs) (h : PlainFrom k cs) :
    (escapeFrom k cs).foldl Lexer.read (pending m token k words) =
      pending (if cs = [] then m else .word) (token ++ List.replicate k '\\' ++ cs) 0 words := by
  induction cs generalizing m token k with
  | nil =>
    rw [PlainFrom] at h
    simp [h, escapeFrom]
  | cons c cs ih =>
    have hword : Mode.word.Open := .inr rfl
    obtain ⟨hnewline, htail⟩ := not_or.mp (List.mem_cons.not.mp hline)
    rw [PlainFrom] at h
    rw [if_neg (List.cons_ne_nil c cs)]
    split_ifs at h with hblank hhash hback
    · have hne : c ≠ '\\' := by rcases hblank with rfl | rfl <;> decide
      rw [escapeFrom, if_pos hblank, foldl_pending_blank hm hne, ih hword htail h]
      simp
    · have hhalf : (k + 1) / 2 = k := by omega
      rw [escapeFrom, if_neg hblank, if_pos hhash, hhash, foldl_pending_hash hm,
        ih hword htail h.2, hhalf]
      simp
    · have hcs : cs ≠ [] := by
        rintro rfl
        exact absurd h (Nat.succ_ne_zero k)
      rw [escapeFrom, if_neg hblank, if_neg hhash, if_pos hback, List.foldl_cons, hback,
        read_pending_backslash hm, ih hm htail h, if_neg hcs]
      simp [List.replicate_succ']
    · obtain ⟨rfl, hsingle, hdouble, hcr, hrest⟩ := h
      have hwhite : isWhitespace c = false := isWhitespace_eq_false_iff.mpr
        ⟨fun hc => hblank (.inl hc), fun hc => hblank (.inr hc), hcr, Ne.symm hnewline⟩
      have hmark : isMark c = false := by simp [isMark, hsingle, hdouble]
      rw [escapeFrom, if_neg hblank, if_neg hhash, if_neg hback, List.foldl_cons,
        read_pending hm hback (.inr ⟨hwhite, hmark⟩), ih hword htail hrest]
      simp

/-- What is lost of a name outside quotation marks are backslashes, and one at least where the name is
not plain. -/
theorem foldl_lost {cs : Text} (hm : m.Open) (hcs : OnLine cs)
    (h : opened ((escapeFrom k cs).foldl Lexer.read (pending m token k words)) = 0) :
    ((escapeFrom k cs).foldl Lexer.read (pending m token k words)).token.count '\\' ≤
        token.count '\\' + k + cs.count '\\' ∧
      (¬ PlainFrom k cs →
        ((escapeFrom k cs).foldl Lexer.read (pending m token k words)).mode = .escaped ∨
        ((escapeFrom k cs).foldl Lexer.read (pending m token k words)).token.count '\\' <
          token.count '\\' + k + cs.count '\\') := by
  induction cs generalizing m token k with
  | nil =>
    have hcount : (pending m token k words).token.count '\\' = token.count '\\' + k / 2 := by
      simp [pending]
    rw [escapeFrom, List.foldl_nil, hcount]
    refine ⟨by simp; omega, fun hp => .inr ?_⟩
    rw [PlainFrom] at hp
    simp
    omega
  | cons c cs ih =>
    have hword : Mode.word.Open := .inr rfl
    have htail : OnLine cs :=
      ⟨fun hm => hcs.1 (List.mem_cons_of_mem c hm), fun hm => hcs.2 (List.mem_cons_of_mem c hm)⟩
    rw [PlainFrom]
    by_cases hblank : c = ' ' ∨ c = '\t'
    · have hne : c ≠ '\\' := by rcases hblank with rfl | rfl <;> decide
      rw [if_pos hblank]
      rw [escapeFrom, if_pos hblank, foldl_pending_blank hm hne] at h ⊢
      have key := ih hword htail h
      have hcount : (token ++ List.replicate k '\\' ++ [c]).count '\\' = token.count '\\' + k := by
        simp [hne]
      rw [hcount] at key
      rw [List.count_cons_of_ne hne]
      simpa using key
    rw [if_neg hblank]
    by_cases hhash : c = '#'
    · subst hhash
      rw [if_pos rfl]
      rw [escapeFrom, if_neg hblank, if_pos rfl, foldl_pending_hash hm] at h ⊢
      have key := ih hword htail h
      have hcount : (token ++ List.replicate ((k + 1) / 2) '\\' ++ ['#']).count '\\' =
          token.count '\\' + (k + 1) / 2 := by simp
      rw [hcount] at key
      rw [List.count_cons_of_ne (by decide)]
      refine ⟨by omega, fun hp => ?_⟩
      by_cases hk : k ≤ 1
      · rcases key.2 fun h => hp ⟨hk, h⟩ with hmode | hlt
        · exact .inl hmode
        · exact .inr (by omega)
      · exact .inr (by omega)
    rw [if_neg hhash]
    by_cases hback : c = '\\'
    · subst hback
      rw [if_pos rfl]
      rw [escapeFrom, if_neg hblank, if_neg hhash, if_pos rfl, List.foldl_cons,
        read_pending_backslash hm] at h ⊢
      have key := ih hm htail h
      rw [List.count_cons_self]
      refine ⟨by omega, fun hp => ?_⟩
      rcases key.2 hp with hmode | hlt
      · exact .inl hmode
      · exact .inr (by omega)
    rw [if_neg hback]
    rw [escapeFrom, if_neg hblank, if_neg hhash, if_neg hback, List.foldl_cons] at h ⊢
    have hcr : c ≠ '\r' := fun hc => hcs.2 (hc ▸ List.mem_cons_self)
    have hwhite : isWhitespace c = false := isWhitespace_eq_false_iff.mpr
      ⟨fun hc => hblank (.inl hc), fun hc => hblank (.inr hc), hcr,
        fun hc => hcs.1 (hc ▸ List.mem_cons_self)⟩
    by_cases hkept : k % 2 = 1 ∨ isMark c = false
    · rw [read_pending hm hback (hkept.imp_right fun hmark => ⟨hwhite, hmark⟩)] at h ⊢
      have key := ih hword htail h
      have hcount : (token ++ List.replicate (k / 2) '\\' ++ [c]).count '\\' =
          token.count '\\' + k / 2 := by simp [hback]
      rw [hcount] at key
      rw [List.count_cons_of_ne hback]
      refine ⟨by omega, fun hp => ?_⟩
      by_cases hk : k = 0
      · have hmark := hkept.resolve_left (by omega)
        simp only [isMark, Bool.or_eq_false_iff, decide_eq_false_iff_not] at hmark
        rcases key.2 fun hrest => hp ⟨hk, hmark.1, hmark.2, hcr, hrest⟩ with hmode | hlt
        · exact .inl hmode
        · exact .inr (by omega)
      · exact .inr (by omega)
    · -- the mark opens a quotation, and the word stays marked
      obtain ⟨heven, hmark⟩ := not_or.mp hkept
      have hmode : (pending m token k words).mode.Open := by
        by_cases h0 : k = 0
        · simpa [pending, h0] using hm
        · simp [pending, h0, heven, Mode.Open]
      have hopens : opened ((pending m token k words).read c) = 1 := by
        have hquoting : ((pending m token k words).read c).mode.Quoting := by
          rw [mode_read]
          simp only [isMark, Bool.or_eq_false_iff, decide_eq_false_iff_not, not_and_or, not_not] at hmark
          rcases hmode with hmode | hmode <;> rcases hmark with rfl | rfl <;>
            simp [hmode, Mode.next, Mode.Quoting, isWhitespace]
        rw [opened, if_pos (.inr hquoting)]
      have hgrown := (grown_escapeFrom htail 0 (s := (pending m token k words).read c)
        (by rw [mode_read]; exact (settled_pending hm).next hback)).1.opened
      omega

end Pending

/-! ## Whole names -/

/-- A word that comes from a name that is not plain, or from several of which the first is not: it has
more blanks, or less of what the lexer takes away. -/
def Falls (name word : Text) : Prop :=
  name.count ' ' < word.count ' ' ∨
    (name.count ' ' = word.count ' ' ∧ marks word ≤ marks name ∧
      (marks word < marks name ∨ word.count '\\' < name.count '\\'))

/-- A word that was read for a name. -/
def Origin (name word : Text) : Prop := Plain name ∧ word = name ∨ ¬ Plain name ∧ Falls name word

/-- The lexer between two words. -/
def Idle (s : Lexer) : Prop := s.mode = .space ∧ s.token = [] ∧ s.quoted = false

theorem Idle.eq_pending {s : Lexer} (h : Idle s) : s = pending .space [] 0 s.words := by
  obtain ⟨mode, token, quoted, words⟩ := s
  obtain ⟨rfl, rfl, rfl⟩ := h
  rfl

variable {s : Lexer} {name : Text}

/-- A whole name, read from between two words. -/
theorem Idle.grown (h : Idle s) (hline : OnLine name) :
    Grown s ((escapeFrom 0 name).foldl Lexer.read s) (escapeFrom 0 name) := by
  refine (grown_escapeFrom hline 0 (s := s) ?_).1
  rw [h.1]
  exact .inr (.inl ⟨rfl, .inl (.inl rfl)⟩)

theorem Idle.opened (h : Idle s) : opened s = 0 := by
  rw [h.eq_pending]
  exact opened_pending (.inl rfl)

/-- The word that stands behind a name, where the lexer does not wait. -/
theorem Idle.falls (h : Idle s) (hline : OnLine name)
    (hmode : ((escapeFrom 0 name).foldl Lexer.read s).mode = .word) :
    Falls (name ++ ['\\']) ((escapeFrom 0 name).foldl Lexer.read s).token ∧
      (¬ Plain name → Falls name ((escapeFrom 0 name).foldl Lexer.read s).token) := by
  have hgrown := h.grown hline
  have hblanks := hgrown.blanks
  have hmarks := hgrown.marks
  rw [h.2.1, count_escapeFrom (by decide), List.count_nil, Nat.zero_add] at hblanks
  rw [h.2.1, marks_escapeFrom, h.opened, show marks ([] : Text) = 0 from rfl, Nat.zero_add] at hmarks
  have hblank' : (name ++ ['\\']).count ' ' = name.count ' ' := by simp
  have hmark' : marks (name ++ ['\\']) = marks name := by rw [marks_append]; rfl
  have hback' : (name ++ ['\\']).count '\\' = name.count '\\' + 1 := by simp
  by_cases hopened : Dependency.opened ((escapeFrom 0 name).foldl Lexer.read s) = 0
  · have hlost := hopened
    rw [h.eq_pending] at hlost
    have key := foldl_lost (.inl rfl) hline hlost
    rw [← h.eq_pending, List.count_nil] at key
    refine ⟨.inr ⟨by omega, by omega, .inr (by omega)⟩, fun hp => .inr ⟨by omega, by omega, .inr ?_⟩⟩
    rcases key.2 hp with hescaped | hlt
    · rw [hmode] at hescaped
      exact absurd hescaped (by decide)
    · omega
  · exact ⟨.inr ⟨by omega, by omega, .inl (by omega)⟩, fun _ => .inr ⟨by omega, by omega, .inl (by omega)⟩⟩

/-- A plain name, read from between two words. -/
theorem Idle.plain (h : Idle s) (hline : '\n' ∉ name) (hne : name ≠ []) (hp : Plain name) :
    (escapeFrom 0 name).foldl Lexer.read s = ⟨.word, name, false, s.words⟩ := by
  rw [h.eq_pending, foldl_plain (.inl rfl) hline hp, if_neg hne]
  simp [pending]

/-- A name with a backslash at its end is not plain. -/
theorem not_plain_concat (name : Text) : ¬ Plain (name ++ ['\\']) := by
  have h : ∀ k, ¬ PlainFrom k (name ++ ['\\']) := by
    induction name with
    | nil => simp [PlainFrom]
    | cons c cs ih =>
      intro k
      rw [List.cons_append, PlainFrom]
      split_ifs with hblank hhash hback
      · exact ih 0
      · exact fun hp => ih 0 hp.2
      · exact ih (k + 1)
      · exact fun hp => ih 0 hp.2.2.2.2
  exact h 0

end Dependency
end Fragma
