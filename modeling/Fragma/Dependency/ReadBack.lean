import Fragma.Dependency.Readers
import Fragma.Provenance.FixedPoint

/-!
# What is read back of a rule

No file that the compiler consumed may be lost or replaced when its rule is read back.  The two readers
keep that for the names that the lexer reads back and that have no dollar sign, and where the lexer
refuses the rule.

* `countP_tailText`, `plain_iff_components`: what the path of a name keeps of it.
* `plain_of_words`: **words that are the files of the names come from plain names**, because every other
  word has an origin of greater rank.
* `ReadsBack`: no file of the rule is lost or replaced.
* `readsBack_iff`: **when that holds, whatever the files are.**
-/

namespace Fragma
namespace Dependency

open Provenance Python Shlex Posix

/-! ## What the path of a name keeps -/

/-- The parts of a path without its slashes. -/
def tailText (P : PurePath) : Text := P.tail.flatMap Component.text

theorem countP_intercalate {p : Char → Bool} (hslash : p '/' = false) (parts : List Text) :
    (['/'].intercalate parts).countP p = (parts.map (List.countP p)).sum := by
  induction parts with
  | nil => rfl
  | cons part parts ih =>
    cases parts with
    | nil => simp [List.intercalate]
    | cons part' parts =>
      rw [List.intercalate_cons_cons, List.countP_append, List.countP_append, ih]
      simp [hslash]

theorem slash_notMem_splitOn (name : Text) : ∀ part ∈ name.splitOn '/', '/' ∉ part := by
  induction name with
  | nil => simp
  | cons c cs ih =>
    rw [List.splitOn_cons_eq_if_modifyHead]
    obtain ⟨first, rest, hsplit⟩ := List.exists_cons_of_ne_nil (List.splitOn_ne_nil '/' cs)
    rw [hsplit] at ih ⊢
    obtain ⟨hfirst, hrest⟩ := List.forall_mem_cons.mp ih
    by_cases hc : c = '/'
    · rw [if_pos (by simpa using hc)]
      exact List.forall_mem_cons.mpr ⟨List.not_mem_nil, ih⟩
    · rw [if_neg (by simpa using hc), List.modifyHead_cons]
      exact List.forall_mem_cons.mpr ⟨by simp [hfirst, Ne.symm hc], hrest⟩

/-- A part that is no component is empty or a dot. -/
theorem nil_or_dot_of_ofText?_eq_none {part : Text} (hslash : '/' ∉ part)
    (h : Component.ofText? part = none) : part = [] ∨ part = ['.'] := by
  unfold Component.ofText? at h
  split_ifs at h with hpart
  tauto

theorem text_of_ofText?_eq_some {part : Text} {c : Component} (h : Component.ofText? part = some c) :
    c.text = part := by
  unfold Component.ofText? at h
  split_ifs at h
  rw [← Option.some.inj h]

/-- The characters of a name are those of its parts, except for slashes and dots. -/
theorem countP_tailText {p : Char → Bool} (hslash : p '/' = false) (hdot : p '.' = false) (name : Text) :
    (tailText (.parseChars name)).countP p = name.countP p := by
  have hparts : ∀ parts : List Text, (∀ part ∈ parts, '/' ∉ part) →
      ((parts.filterMap Component.ofText?).flatMap Component.text).countP p =
        (parts.map (List.countP p)).sum := by
    intro parts hparts
    induction parts with
    | nil => rfl
    | cons part parts ih =>
      have hrest := ih fun q hq => hparts q (List.mem_cons_of_mem _ hq)
      rw [List.filterMap_cons, List.map_cons, List.sum_cons]
      cases hpart : Component.ofText? part with
      | none =>
        rcases nil_or_dot_of_ofText?_eq_none (hparts part List.mem_cons_self) hpart with rfl | rfl <;>
          simp [hrest, hdot]
      | some c => simp [hrest, text_of_ofText?_eq_some hpart]
  refine (hparts _ (slash_notMem_splitOn name)).trans ?_
  rw [← countP_intercalate hslash, List.intercalate_splitOn]

theorem plainFrom_append_slash (k : ℕ) (cs rest : Text) :
    PlainFrom k (cs ++ '/' :: rest) ↔ PlainFrom k cs ∧ PlainFrom 0 rest := by
  induction cs generalizing k with
  | nil => simp [PlainFrom]
  | cons c cs ih =>
    rw [List.cons_append, PlainFrom, PlainFrom]
    split_ifs
    · exact ih 0
    · rw [ih, and_assoc]
    · exact ih (k + 1)
    · simp only [ih, and_assoc]

theorem plain_intercalate (parts : List Text) :
    Plain (['/'].intercalate parts) ↔ ∀ part ∈ parts, Plain part := by
  induction parts with
  | nil => simp [Plain, PlainFrom]
  | cons part parts ih =>
    cases parts with
    | nil => simp [List.intercalate]
    | cons part' parts =>
      rw [List.intercalate_cons_cons, List.append_assoc, List.singleton_append, Plain,
        plainFrom_append_slash, List.forall_mem_cons, ← ih]
      rfl

/-- A name is plain when its parts are. -/
theorem plain_iff_components (name : Text) :
    Plain name ↔ ∀ c ∈ (PurePath.parseChars name).tail, Plain c.text := by
  have hparts : Plain name ↔ ∀ part ∈ name.splitOn '/', Plain part := by
    rw [← plain_intercalate, List.intercalate_splitOn]
  rw [hparts]
  constructor
  · intro h c hc
    obtain ⟨part, hmem, hpart⟩ := List.mem_filterMap.mp hc
    rw [text_of_ofText?_eq_some hpart]
    exact h part hmem
  · intro h part hmem
    cases hpart : Component.ofText? part with
    | none =>
      rcases nil_or_dot_of_ofText?_eq_none (slash_notMem_splitOn name part hmem) hpart with rfl | rfl
      · decide
      · decide
    | some c =>
      rw [← text_of_ofText?_eq_some hpart]
      exact h c (List.mem_filterMap.mpr ⟨part, hmem, hpart⟩)

theorem plain_iff_of_tail_eq {n m : Text}
    (h : (PurePath.parseChars n).tail = (PurePath.parseChars m).tail) : Plain n ↔ Plain m := by
  rw [plain_iff_components, plain_iff_components, h]

theorem countP_of_tail_eq {p : Char → Bool} (hslash : p '/' = false) (hdot : p '.' = false) {n m : Text}
    (h : (PurePath.parseChars n).tail = (PurePath.parseChars m).tail) : n.countP p = m.countP p := by
  rw [← countP_tailText hslash hdot n, ← countP_tailText hslash hdot m, tailText, tailText, h]

/-- How much of a name the lexer takes away: nothing is left over where this grows no further. -/
def rank (name : Text) : ℕᵒᵈ ×ₗ ℕ ×ₗ ℕ :=
  toLex (OrderDual.toDual (name.count ' '), toLex (marks name, name.count '\\'))

theorem rank_lt_of_falls {n w : Text} (h : Falls n w) : rank w < rank n := by
  unfold rank
  rw [Prod.Lex.toLex_lt_toLex]
  rcases h with h | ⟨hcount, hle, h⟩
  · exact .inl (OrderDual.toDual_lt_toDual.mpr h)
  · refine .inr ⟨by rw [hcount], ?_⟩
    rw [Prod.Lex.toLex_lt_toLex]
    rcases h with h | h
    · exact .inl h
    · rcases hle.lt_or_eq with hlt | heq
      · exact .inl hlt
      · exact .inr ⟨heq, h⟩

theorem plain_doubled_iff (name : Text) : Plain (doubled name) ↔ Plain name := by
  have hfrom : ∀ k, PlainFrom k (doubled name) ↔ PlainFrom k name := by
    induction name with
    | nil => exact fun _ => Iff.rfl
    | cons c cs ih =>
      intro k
      rw [doubled]
      split_ifs with hc
      · simp [PlainFrom, hc, ih]
      · simp only [PlainFrom, ih]
  exact hfrom 0

theorem countP_doubled {p : Char → Bool} (hp : p '$' = false) (cs : Text) :
    (doubled cs).countP p = cs.countP p := by
  fun_induction doubled cs with
  | case1 => rfl
  | case2 cs ih => simp [ih, hp]
  | case3 c cs hc ih => simp [List.countP_cons, ih]

theorem rank_doubled (name : Text) : rank (doubled name) = rank name := by
  have hb : (doubled name).count ' ' = name.count ' ' := countP_doubled (by decide) name
  have hq : marks (doubled name) = marks name := countP_doubled (by decide) name
  have hs : (doubled name).count '\\' = name.count '\\' := countP_doubled (by decide) name
  rw [rank, rank, hb, hq, hs]

/-- **Words that are the files of the names come from plain names.** -/
theorem plain_of_words {names words : List Text}
    (horigin : ∀ w ∈ words, ∃ n ∈ names, Origin (doubled n) w)
    (hfiles : ∀ n ∈ names, ∃ w ∈ words, (PurePath.parseChars w).tail = (PurePath.parseChars n).tail) :
    ∀ n ∈ names, Plain n := by
  by_contra hnot
  simp only [not_forall] at hnot
  obtain ⟨n, hn, hp⟩ := hnot
  -- among the names that are not plain, one of the greatest rank
  have hsome : (names.toFinset.filter fun n => ¬ Plain n).Nonempty :=
    ⟨n, Finset.mem_filter.mpr ⟨List.mem_toFinset.mpr hn, hp⟩⟩
  obtain ⟨top, htop, hmax⟩ := Finset.exists_max_image _ rank hsome
  obtain ⟨hmem, htop⟩ := Finset.mem_filter.mp htop
  obtain ⟨w, hw, htail⟩ := hfiles top (List.mem_toFinset.mp hmem)
  obtain ⟨m, hm, ⟨hplain, rfl⟩ | ⟨hplain, hfalls⟩⟩ := horigin w hw
  · exact htop ((plain_iff_of_tail_eq htail).mp hplain)
  · have hrank : rank w = rank top := by
      have hb : w.count ' ' = top.count ' ' := countP_of_tail_eq (by decide) (by decide) htail
      have hq : marks w = marks top := countP_of_tail_eq (by decide) (by decide) htail
      have hs : w.count '\\' = top.count '\\' := countP_of_tail_eq (by decide) (by decide) htail
      rw [rank, rank, hb, hq, hs]
    have hle := hmax m (Finset.mem_filter.mpr
      ⟨List.mem_toFinset.mpr hm, fun h => hplain ((plain_doubled_iff m).mpr h)⟩)
    have hlt := rank_lt_of_falls hfalls
    rw [hrank, rank_doubled] at hlt
    exact absurd hlt (not_lt.mpr hle)

theorem return_notMem_words {text : Text} (ht : '\r' ∉ text) {words : List Text}
    (h : split text = .ok words) : ∀ w ∈ words, '\r' ∉ w := by
  have hkept : ∀ (m : Mode) (c : Char), c ≠ '\r' → '\r' ∉ m.kept c := by
    intro m c hc
    cases m with
    | escaped => simpa [Mode.kept] using hc.symm
    | _ =>
      simp only [Mode.kept]
      split_ifs <;> simp [hc.symm]
  have hrun : ∀ (text : Text) (s : Lexer), '\r' ∉ text → ('\r' ∉ s.token ∧ ∀ w ∈ s.words, '\r' ∉ w) →
      '\r' ∉ (text.foldl Lexer.read s).token ∧ ∀ w ∈ (text.foldl Lexer.read s).words, '\r' ∉ w := by
    intro text
    induction text with
    | nil => exact fun s _ hs => hs
    | cons c cs ih =>
      intro s hcs hs
      obtain ⟨hc, hcs⟩ := not_or.mp (List.mem_cons.not.mp hcs)
      refine ih (s.read c) hcs ?_
      by_cases hend : s.mode.Open ∧ isWhitespace c = true
      · rw [read_blank hend.1 hend.2, Lexer.emit]
        refine ⟨List.not_mem_nil, fun w hw => ?_⟩
        split_ifs at hw
        · rcases List.mem_append.mp hw with hw | hw
          · exact hs.2 w hw
          · exact List.mem_singleton.mp hw ▸ hs.1
        · exact hs.2 w hw
      · rw [read_of_not_blank hend]
        exact ⟨List.mem_append.not.mpr (not_or.mpr ⟨hs.1, hkept _ c (Ne.symm hc)⟩), hs.2⟩
  obtain ⟨htoken, hwords⟩ := hrun text .start ht ⟨List.not_mem_nil, fun _ h => absurd h List.not_mem_nil⟩
  obtain ⟨-, rfl⟩ := split_eq_ok_iff.mp h
  intro w hw
  rw [Lexer.emit] at hw
  split_ifs at hw
  · rcases List.mem_append.mp hw with hw | hw
    · exact hwords w hw
    · exact List.mem_singleton.mp hw ▸ htoken
  · exact hwords w hw

theorem return_notMem_listText {ds : List Prerequisite} (h : ∀ d ∈ ds, '\r' ∉ d.name) :
    '\r' ∉ listText ds := by
  intro hmem
  rcases List.mem_append.mp hmem with hmem | hmem
  · obtain ⟨d, hd, hmem⟩ := List.mem_flatMap.mp hmem
    rcases List.mem_append.mp hmem with hmem | hmem
    · obtain ⟨g, -, hg⟩ := List.mem_flatMap.mp hmem
      cases g <;> simp [Gap.text] at hg
    · rcases mem_escapeFrom hmem with hmem | hmem
      · exact absurd hmem (by decide)
      · exact h d hd (mem_doubled.mp hmem)
  · exact absurd (List.mem_singleton.mp hmem) (by decide)

variable {ds : List Prerequisite} {words : List Text}

/-- **A rule whose files all come back has plain names only.** -/
theorem plain_of_split (hne : ds ≠ []) (hsplit : split (splice (normalise (listText ds))) = .ok words)
    (hfiles : ∀ d ∈ ds, ∃ w ∈ words, (PurePath.parseChars w).tail = (PurePath.parseChars d.name).tail) :
    ∀ d ∈ ds, Plain d.name := by
  have hreturn : ∀ d ∈ ds, '\r' ∉ d.name := by
    intro d hd
    obtain ⟨w, hw, htail⟩ := hfiles d hd
    have hcount : w.count '\r' = d.name.count '\r' := countP_of_tail_eq (by decide) (by decide) htail
    have hnot : '\r' ∉ splice (normalise (listText ds)) := fun h =>
      (mem_normalise (mem_splice h)).1 rfl
    have hw := return_notMem_words hnot hsplit w hw
    rwa [← List.count_eq_zero, ← hcount, List.count_eq_zero]
  rw [normalise_eq_self (return_notMem_listText hreturn)] at hsplit
  have horigin : ∀ w ∈ words, ∃ n ∈ ds.map fun d => doubled d.name, Origin n w :=
    origin_of_cut hne (cut_splice hne) (fun d hd => ⟨List.mem_map_of_mem hd, doubled_ne_nil d.name_ne_nil,
      fun h => d.newline_notMem (mem_doubled.mp h), fun h => hreturn d hd (mem_doubled.mp h)⟩) hsplit
  have hfrom : ∀ w ∈ words, ∃ n ∈ ds.map Prerequisite.name, Origin (doubled n) w := by
    intro w hw
    obtain ⟨n, hn, hw⟩ := horigin w hw
    obtain ⟨e, he, rfl⟩ := List.mem_map.mp hn
    exact ⟨e.name, List.mem_map_of_mem he, hw⟩
  intro d hd
  refine plain_of_words hfrom (fun n hn => ?_) d.name (List.mem_map_of_mem hd)
  obtain ⟨e, he, rfl⟩ := List.mem_map.mp hn
  exact hfiles e he

theorem return_notMem_of_plain {name : Text} (h : Plain name) : '\r' ∉ name := by
  have hfrom : ∀ k, PlainFrom k name → '\r' ∉ name := by
    clear h
    induction name with
    | nil => exact fun _ _ => List.not_mem_nil
    | cons c cs ih =>
      intro k hp
      rw [PlainFrom] at hp
      split_ifs at hp with hblank hhash hback
      · refine List.mem_cons.not.mpr (not_or.mpr ⟨?_, ih 0 hp⟩)
        rcases hblank with rfl | rfl <;> decide
      · exact List.mem_cons.not.mpr (not_or.mpr ⟨by rw [hhash]; decide, ih 0 hp.2⟩)
      · exact List.mem_cons.not.mpr (not_or.mpr ⟨by rw [hback]; decide, ih (k + 1) hp⟩)
      · exact List.mem_cons.not.mpr (not_or.mpr ⟨Ne.symm hp.2.2.2.1, ih 0 hp.2.2.2.2⟩)
  exact hfrom 0 h

/-- The words of a rule with plain names, for either reader. -/
theorem split_listText (hne : ds ≠ []) (hp : ∀ d ∈ ds, Plain d.name) :
    split (undouble (splice (normalise (listText ds)))) = .ok (ds.map fun d => d.name) ∧
      split (splice (normalise (listText ds))) = .ok (ds.map fun d => doubled d.name) := by
  rw [normalise_eq_self (return_notMem_listText fun d hd => return_notMem_of_plain (hp d hd))]
  refine ⟨split_of_plain (f := id) (cut_undouble hne) (fun d hd => ?_),
    split_of_plain (cut_splice hne) (fun d hd => ?_)⟩
  · exact ⟨d.name_ne_nil, d.newline_notMem, hp d hd⟩
  · exact ⟨doubled_ne_nil d.name_ne_nil, fun h => d.newline_notMem (mem_doubled.mp h),
      (plain_doubled_iff d.name).mpr (hp d hd)⟩

/-- Halving dollar signs does not change where the lexer stops. -/
theorem unfinished_undouble (text : Text) : Unfinished (undouble text) ↔ Unfinished text := by
  have hfold : ∀ m : Mode, (undouble text).foldl Mode.next m = text.foldl Mode.next m := by
    fun_induction undouble text with
    | case1 cs ih =>
      intro m
      have htwice : (m.next '$').next '$' = m.next '$' := by cases m <;> decide
      rw [List.foldl_cons, ih, List.foldl_cons, List.foldl_cons, htwice]
    | case2 c cs _ ih => exact fun m => ih (m.next c)
    | case3 => exact fun _ => rfl
  rw [Unfinished, Unfinished, hfold]

theorem doubled_eq_self {name : Text} (h : '$' ∉ name) : doubled name = name := by
  fun_induction doubled name with
  | case1 => rfl
  | case2 cs ih => exact absurd List.mem_cons_self h
  | case3 c cs hc ih => rw [ih fun hm => h (List.mem_cons_of_mem c hm)]

theorem count_doubled (name : Text) : (doubled name).count '$' = 2 * name.count '$' := by
  fun_induction doubled name with
  | case1 => rfl
  | case2 cs ih =>
    simp [ih]
    omega
  | case3 c cs hc ih => simp [ih, hc]

/-- Names that are read with their dollar signs doubled have none. -/
theorem dollar_notMem_of_doubled {names : List Text}
    (hfiles : ∀ n ∈ names, ∃ m ∈ names,
      (PurePath.parseChars (doubled n)).tail = (PurePath.parseChars m).tail) :
    ∀ n ∈ names, '$' ∉ n := by
  intro n hn
  obtain ⟨top, htop, hmax⟩ := Finset.exists_max_image names.toFinset (List.count '$')
    ⟨n, List.mem_toFinset.mpr hn⟩
  obtain ⟨m, hm, htail⟩ := hfiles top (List.mem_toFinset.mp htop)
  have hcount : (doubled top).count '$' = m.count '$' := countP_of_tail_eq (by decide) (by decide) htail
  have hm := hmax m (List.mem_toFinset.mpr hm)
  have hn := hmax n (List.mem_toFinset.mpr hn)
  rw [count_doubled] at hcount
  exact List.count_eq_zero.mp (by omega)

/-! ## Reading back -/

/-- The file that a name stands for. -/
def Host.file (h : Host) (cwd : PurePath) (name : Text) : PurePath := h.resolve (itemOf cwd name)

/-- No file of the rule is lost or replaced: the first reader raises or returns the sorted set of the
files, their receipts raise or are one for each file, and the second reader raises or hashes the same
files. -/
structure ReadsBack (h : Host) (ds : List Prerequisite) (cwd root kernel : PurePath) (revision : String)
    (build : Build) : Prop where
  dependencies : ∀ paths, dependencyPaths h (some (ruleText ds)) cwd = .ok paths →
    (paths.Pairwise fun P Q => sortKey P < sortKey Q) ∧
      ∀ P, P ∈ paths ↔ ∃ d ∈ ds, P = h.file cwd d.name
  receipts : ∀ paths records, dependencyPaths h (some (ruleText ds)) cwd = .ok paths →
    inputReceipts h root kernel revision build paths = .ok records →
    (records.map Receipt.absolutePath).Perm (paths.map PurePath.render) ∧
      ∀ r ∈ records, ∃ P ∈ paths, r.absolutePath = P.render ∧
        (r.origin = .kernel ↔ P.IsRelativeTo (h.resolve (.parse build.source)))
  configured : ∀ hashes,
    configuredInputs h (ruleText ds) cwd (h.resolve (.parse build.source)) kernel revision = .ok hashes →
    ∀ name, name ∈ hashes.map Prod.fst ↔ ∃ d ∈ ds, name = (h.file cwd d.name).render

/-- A host on which every path is a file. -/
def everyFile : Host where
  isFile _ := true
  resolve := id
  resolve_resolve _ := rfl
  sha256 _ := .ok ""
  resolveRevision _ _ := .ok ""
  gitShow _ _ := .ok (some "")

/-- The directory `/`. -/
def rootDirectory : PurePath := ⟨.single, []⟩

theorem tail_file_everyFile (name : Text) :
    (everyFile.file rootDirectory name).tail = (PurePath.parseChars name).tail := by
  unfold Host.file itemOf
  split_ifs with h
  · rfl
  · rw [PurePath.join, if_neg h]
    rfl

/-- On that host the second reader returns where the lexer does. -/
theorem exists_configuredInputs (ds : List Prerequisite)
    (h : ¬ Unfinished (splice (normalise (listText ds)))) :
    ∃ hashes, configuredInputs everyFile (ruleText ds) rootDirectory (everyFile.resolve (.parse ""))
      rootDirectory "" = .ok hashes := by
  have hstep : ∀ hashes value, ∃ after, configuredInput everyFile rootDirectory
      (everyFile.resolve (.parse "")) rootDirectory "" hashes value = .ok after := by
    intro hashes value
    refine ⟨setItem hashes (everyFile.resolve (itemOf rootDirectory value)).render "", ?_⟩
    refine bind_eq_ok_iff.mpr ⟨"", rfl, ?_⟩
    split_ifs
    · exact bind_eq_ok_iff.mpr ⟨some "", rfl, bind_eq_ok_iff.mpr ⟨(), rfl, rfl⟩⟩
    · rfl
  have hrun : ∀ (words : List Text) (before : List (String × String)), ∃ after,
      words.foldlM (configuredInput everyFile rootDirectory (everyFile.resolve (.parse ""))
        rootDirectory "") before = .ok after := by
    intro words
    induction words with
    | nil => exact fun before => ⟨before, rfl⟩
    | cons w words ih =>
      intro before
      obtain ⟨middle, hmiddle⟩ := hstep before w
      obtain ⟨after, hafter⟩ := ih middle
      exact ⟨after, foldlM_cons_eq_ok_iff.mpr ⟨middle, hmiddle, hafter⟩⟩
  have hsplit := split_eq_ok_iff.mpr ⟨h, rfl⟩
  obtain ⟨hashes, hhashes⟩ := hrun _ []
  refine ⟨hashes, bind_eq_ok_iff.mpr ⟨_, ?_, bind_eq_ok_iff.mpr ⟨_, hsplit, hhashes⟩⟩⟩
  rw [splice_rule, afterColon_rule]

/-- Receipts are always one for each file. -/
theorem receipts_of_dependencyPaths {h : Host} {ds : List Prerequisite} {cwd root kernel : PurePath}
    {revision : String} {build : Build} {paths : List PurePath} {records : List Receipt}
    (hpaths : dependencyPaths h (some (ruleText ds)) cwd = .ok paths)
    (hrecords : inputReceipts h root kernel revision build paths = .ok records) :
    (records.map Receipt.absolutePath).Perm (paths.map PurePath.render) ∧
      ∀ r ∈ records, ∃ P ∈ paths, r.absolutePath = P.render ∧
        (r.origin = .kernel ↔ P.IsRelativeTo (h.resolve (.parse build.source))) := by
  obtain ⟨words, -, -, -, rfl⟩ := dependencyPaths_rule.mp hpaths
  refine inputReceipts_eq_ok (nodup_sortPaths _) (fun P hP => ?_) hrecords
  obtain ⟨w, -, rfl⟩ := List.mem_map.mp (mem_sortPaths.mp hP)
  exact h.resolve_resolve _

/-- Plain names without dollar signs are read back on every host. -/
theorem readsBack_of_plain {ds : List Prerequisite} (hne : ds ≠ [])
    (hp : ∀ d ∈ ds, Plain d.name ∧ '$' ∉ d.name) (h : Host) (cwd root kernel : PurePath)
    (revision : String) (build : Build) : ReadsBack h ds cwd root kernel revision build := by
  have hsplit := split_listText hne fun d hd => (hp d hd).1
  refine ⟨fun paths hpaths => ?_, fun paths records => receipts_of_dependencyPaths,
    fun hashes hhashes => ?_⟩
  · obtain ⟨words, hwords, -, -, rfl⟩ := dependencyPaths_rule.mp hpaths
    refine ⟨pairwise_sortPaths _, fun P => ?_⟩
    rw [← Except.ok.inj (hsplit.1.symm.trans hwords), mem_sortPaths]
    simp [Host.file, eq_comm]
  · obtain ⟨words, hwords, hkeys⟩ := mem_configuredInputs hhashes
    have hsame : ds.map (fun d => doubled d.name) = ds.map fun d => d.name := by
      exact List.map_congr_left fun d hd => doubled_eq_self (hp d hd).2
    intro name
    rw [hkeys, ← Except.ok.inj (hsplit.2.symm.trans hwords), hsame]
    simp [Host.file]

/-- Where the lexer refuses the rule, both readers raise. -/
theorem readsBack_of_unfinished {ds : List Prerequisite} (hunfinished : Unfinished (splice (normalise (listText ds))))
    (h : Host) (cwd root kernel : PurePath) (revision : String) (build : Build) :
    ReadsBack h ds cwd root kernel revision build := by
  have hraises : ∀ paths, dependencyPaths h (some (ruleText ds)) cwd ≠ .ok paths := by
    intro paths hpaths
    obtain ⟨words, hwords, -⟩ := dependencyPaths_rule.mp hpaths
    exact (split_eq_ok_iff.mp hwords).1 ((unfinished_undouble _).mpr hunfinished)
  refine ⟨fun paths hpaths => absurd hpaths (hraises paths),
    fun paths records hpaths => absurd hpaths (hraises paths), fun hashes hhashes => ?_⟩
  obtain ⟨words, hwords, -⟩ := mem_configuredInputs hhashes
  exact absurd hunfinished (split_eq_ok_iff.mp hwords).1

/-- Where every path is a file, a rule that the lexer does not refuse is read back for plain names
without dollar signs only. -/
theorem plain_of_readsBack {ds : List Prerequisite} (hne : ds ≠ [])
    (hfinished : ¬ Unfinished (splice (normalise (listText ds))))
    (h : ReadsBack everyFile ds rootDirectory rootDirectory rootDirectory "" ⟨"", ""⟩) :
    ∀ e ∈ ds, Plain e.name ∧ '$' ∉ e.name := by
  obtain ⟨hashes, hhashes⟩ := exists_configuredInputs ds hfinished
  obtain ⟨words, hwords, hkeys⟩ := mem_configuredInputs hhashes
  have hread := h.configured hashes hhashes
  -- the files that were hashed are those of the words, and those of the names
  have hfiles : ∀ e ∈ ds, ∃ w ∈ words,
      (PurePath.parseChars w).tail = (PurePath.parseChars e.name).tail := by
    intro e he
    obtain ⟨w, hw, hrender⟩ := (hkeys _).mp ((hread _).mpr ⟨e, he, rfl⟩)
    refine ⟨w, hw, ?_⟩
    rw [← tail_file_everyFile w, ← tail_file_everyFile e.name]
    exact congrArg PurePath.tail (PurePath.render_injective hrender).symm
  have hplain := plain_of_split hne hwords hfiles
  rw [(split_listText hne hplain).2] at hwords
  have hdoubled : ∀ n ∈ ds.map Prerequisite.name, ∃ m ∈ ds.map Prerequisite.name,
      (PurePath.parseChars (doubled n)).tail = (PurePath.parseChars m).tail := by
    intro n hn
    obtain ⟨b, hb, rfl⟩ := List.mem_map.mp hn
    have hmem : doubled b.name ∈ words := Except.ok.inj hwords ▸ List.mem_map_of_mem hb
    obtain ⟨c, hc, hrender⟩ := (hread _).mp ((hkeys _).mpr ⟨_, hmem, rfl⟩)
    refine ⟨c.name, List.mem_map_of_mem hc, ?_⟩
    rw [← tail_file_everyFile (doubled b.name), ← tail_file_everyFile c.name]
    exact congrArg PurePath.tail (PurePath.render_injective hrender)
  exact fun e he => ⟨hplain e he, dollar_notMem_of_doubled hdoubled e.name (List.mem_map_of_mem he)⟩

/-- **A rule is read back just when the lexer refuses it, or when its names are plain and have no dollar
sign**, whatever the files of the host are. -/
theorem readsBack_iff (d : Prerequisite) (ds : List Prerequisite) :
    (∀ (h : Host) (cwd root kernel : PurePath) (revision : String) (build : Build),
      (∀ e ∈ d :: ds, h.isFile (itemOf cwd e.name) = true) →
        ReadsBack h (d :: ds) cwd root kernel revision build) ↔
      Unfinished (splice (normalise (listText (d :: ds)))) ∨
        ∀ e ∈ d :: ds, Plain e.name ∧ '$' ∉ e.name := by
  have hne : d :: ds ≠ [] := List.cons_ne_nil d ds
  constructor
  · intro hall
    by_cases hunfinished : Unfinished (splice (normalise (listText (d :: ds))))
    · exact .inl hunfinished
    · exact .inr (plain_of_readsBack hne hunfinished (hall _ _ _ _ _ _ fun _ _ => rfl))
  · rintro (hunfinished | hp) h cwd root kernel revision build -
    · exact readsBack_of_unfinished hunfinished h cwd root kernel revision build
    · exact readsBack_of_plain hne hp h cwd root kernel revision build

/-- The file `a\b.h`. -/
def backslashName : Prerequisite where
  gaps := [.blank]
  name := ['a', '\\', 'b', '.', 'h']
  gaps_ne_nil := by decide
  name_ne_nil := by decide
  newline_notMem := by decide

/-- A rule for `a\b.h` is read as one for `ab.h`. -/
theorem not_readsBack : ¬ ∀ (h : Host) (cwd root kernel : PurePath) (revision : String) (build : Build),
    (∀ e ∈ [backslashName], h.isFile (itemOf cwd e.name) = true) →
      ReadsBack h [backslashName] cwd root kernel revision build := fun hall => by
  have hread := hall everyFile rootDirectory rootDirectory rootDirectory "" ⟨"", ""⟩ fun _ _ => rfl
  have hplain := plain_of_readsBack (List.cons_ne_nil _ _) (by decide) hread
  exact absurd (hplain backslashName List.mem_cons_self).1 (by decide)

end Dependency
end Fragma
