import Mathlib.Data.List.Chain
import Fragma.Python.Search

/-!
# Snippets in order

`_ordered` of `fragma/concurrency_c3_trace.py`, by which the gates check the order of source lines
and of instructions.  Each snippet is searched from one character after the start of the one before,
so that it may begin inside it: one `lock cmpxchg` answers both for `lock cmpxchg` and for a later
`cmpxchg`.

* `ordered`: the function.
* `Rising`, `Disjoint`: the snippets begin one after another; none begins before the one before has
  ended.
* `ordered_iff_rising`: what the function decides.
* `Crosses`: a snippet can begin inside another one.
* `ordered_iff_disjoint_iff`: **for which texts and snippets this is the order of disjoint
  occurrences.**
-/

namespace Fragma
namespace Concurrency

open Python.Search

/-- The loop of `_ordered`, where `start` is `position + 1`. -/
def orderedFrom (text : List Char) : ℕ → List String → Bool
  | _, [] => true
  | start, snippet :: snippets =>
    match find snippet.toList text start with
    | some position => orderedFrom text (position + 1) snippets
    | none => false

def ordered (text : String) (snippets : List String) : Bool :=
  orderedFrom text.toList 0 snippets

/-- The snippets occur in the text at strictly increasing places. -/
def Rising (text : String) (snippets : List String) : Prop :=
  Spread (fun _ => 1) text.toList (snippets.map String.toList)

/-- The snippets occur in the text one after another, and no two occurrences overlap. -/
def Disjoint (text : String) (snippets : List String) : Prop :=
  Spread List.length text.toList (snippets.map String.toList)

/-- The second snippet can begin inside the first one, after its first character: the two agree as
far as both reach. -/
def Crosses (snippet next : String) : Prop :=
  ∃ d, 0 < d ∧ d < snippet.toList.length ∧
    (next.toList <+: snippet.toList.drop d ∨ snippet.toList.drop d <+: next.toList)

instance (snippet next : String) : Decidable (Crosses snippet next) :=
  decidable_of_iff (∃ d, d < snippet.toList.length ∧ 0 < d ∧
      (next.toList <+: snippet.toList.drop d ∨ snippet.toList.drop d <+: next.toList))
    (exists_congr fun _ => and_left_comm)

theorem orderedFrom_eq_inTurn (text : List Char) (start : ℕ) (snippets : List String) :
    orderedFrom text start snippets =
      inTurn (fun _ => 1) text start (snippets.map String.toList) := by
  induction snippets generalizing start with
  | nil => rfl
  | cons snippet snippets ih =>
    rw [orderedFrom, List.map_cons, inTurn]
    cases find snippet.toList text start with
    | none => rfl
    | some i => exact ih (i + 1)

theorem ordered_iff_rising (text : String) (snippets : List String) :
    ordered text snippets = true ↔ Rising text snippets := by
  rw [ordered, orderedFrom_eq_inTurn, inTurn_iff_spread, Rising]

/-! ## Apart from each other -/

variable {text : List Char} {start : ℕ} {snippets : List String}

theorem Disjoint.rising {text : String} (hne : ∀ s ∈ snippets, s ≠ "")
    (h : Disjoint text snippets) : Rising text snippets := by
  obtain ⟨marks, hwords, hocc, hpair⟩ := h
  refine ⟨marks, hwords, hocc, hpair.imp_of_mem fun {m n} hm _ hmn => ?_⟩
  have hmem : m.2 ∈ snippets.map String.toList := hwords ▸ List.mem_map_of_mem hm
  obtain ⟨s, hs, hs'⟩ := List.mem_map.mp hmem
  have hpos : 0 < m.2.length := by
    rw [← hs', List.length_pos_iff]
    simpa using hne s hs
  show m.1 + 1 ≤ n.1
  omega

/-- Two words that both stand in a text, the second one inside the first, agree as far as both
reach. -/
theorem crosses_of_occursAt {snippet next : String} {i j : ℕ}
    (hi : OccursAt snippet.toList text i) (hj : OccursAt next.toList text j) (hlt : i < j)
    (hinside : j < i + snippet.toList.length) : Crosses snippet next := by
  refine ⟨j - i, by omega, by omega, ?_⟩
  have hdrop : snippet.toList.drop (j - i) <+: text.drop j := by
    have h := hi.2.drop (j - i)
    rwa [List.drop_drop, Nat.add_sub_cancel' hlt.le] at h
  exact List.prefix_or_prefix_of_prefix hj.2 hdrop

/-- Where no snippet can begin inside the one before, increasing places are disjoint ones. -/
theorem placed_of_not_crosses (hchain : snippets.IsChain fun s w => ¬ Crosses s w)
    (h : Placed (fun _ => 1) text start (snippets.map String.toList)) :
    Placed List.length text start (snippets.map String.toList) := by
  induction snippets generalizing start with
  | nil => trivial
  | cons snippet snippets ih =>
    obtain ⟨i, hi, hocc, hrest⟩ := h
    refine ⟨i, hi, hocc, ?_⟩
    cases snippets with
    | nil => trivial
    | cons next snippets =>
      obtain ⟨hcross, hchain⟩ := List.isChain_cons_cons.mp hchain
      obtain ⟨j, hj, hocc', hrest'⟩ := ih hchain hrest
      refine ⟨j, Nat.not_lt.mp fun hlt => hcross ?_, hocc', hrest'⟩
      have hij : i + 1 ≤ j := hj
      exact crosses_of_occursAt hocc hocc' hij hlt

/-! ## A text for two snippets that cross -/

theorem placed_flatten_append (before after : List Char) (words rest : List (List Char))
    (hne : ∀ w ∈ words, w ≠ [])
    (h : Placed (fun _ => 1) (before ++ (words.flatten ++ after))
      (before.length + words.flatten.length) rest) :
    Placed (fun _ => 1) (before ++ (words.flatten ++ after)) before.length (words ++ rest) := by
  induction words generalizing before with
  | nil => exact h
  | cons word words ih =>
    obtain ⟨hword, hne⟩ := List.forall_mem_cons.mp hne
    have hpos := List.length_pos_iff.mpr hword
    rw [List.flatten_cons, List.append_assoc] at h ⊢
    refine ⟨before.length, le_rfl, occursAt_append _ _ _, ?_⟩
    have h' := ih (before ++ word) hne (by
      rw [List.append_assoc, List.length_append]
      exact h.earlier (by rw [List.length_append]; omega))
    rw [List.append_assoc, List.length_append] at h'
    refine h'.earlier ?_
    show before.length + 1 ≤ before.length + word.length
    omega

theorem placed_flatten (before after : List Char) (words : List (List Char))
    (hne : ∀ w ∈ words, w ≠ []) :
    Placed (fun _ => 1) (before ++ (words.flatten ++ after)) before.length words := by
  have h := placed_flatten_append before after words [] hne trivial
  rwa [List.append_nil] at h

/-- Disjoint occurrences take at least the room of the words. -/
theorem length_le_of_placed {words : List (List Char)} (hstart : start ≤ text.length)
    (h : Placed List.length text start words) : start + words.flatten.length ≤ text.length := by
  induction words generalizing start with
  | nil => exact hstart
  | cons word words ih =>
    obtain ⟨i, hi, hocc, hrest⟩ := h
    have hle := ih hocc.length_le hrest
    rw [List.flatten_cons, List.length_append]
    omega

theorem length_le_of_disjoint {text : String} (h : Disjoint text snippets) :
    (snippets.map String.toList).flatten.length ≤ text.toList.length := by
  have hle := length_le_of_placed (Nat.zero_le _) (spread_iff_placed.mp h)
  omega

/-- Two words that cross, written over each other. -/
theorem exists_shared {s w : List Char} {d : ℕ} (hw : w ≠ []) (hlt : d < s.length)
    (hagree : w <+: s.drop d ∨ s.drop d <+: w) :
    ∃ shared : List Char, s <+: shared ∧ OccursAt w shared d ∧ d + 1 ≤ shared.length ∧
      shared.length < s.length + w.length := by
  have hpos := List.length_pos_iff.mpr hw
  rcases hagree with hinside | hbeyond
  · exact ⟨s, List.prefix_rfl, ⟨hlt.le, hinside⟩, hlt, by omega⟩
  · have hlen : (s.take d).length = d := List.length_take_of_le hlt.le
    refine ⟨s.take d ++ w, ?_, ?_, ?_, ?_⟩
    · have h := (List.prefix_append_right_inj (s.take d)).mpr hbeyond
      rwa [List.take_append_drop] at h
    · have h := occursAt_append (s.take d) w []
      rwa [List.append_nil, hlen] at h
    · rw [List.length_append]
      omega
    · rw [List.length_append]
      omega

/-- Two snippets that cross are found in a text that is too short for both. -/
theorem exists_rising_of_crosses {before after : List String} {s w : String}
    (hne : ∀ x ∈ before ++ s :: w :: after, x ≠ "") (hcross : Crosses s w) :
    ∃ text, Rising text (before ++ s :: w :: after) ∧
      ¬ Disjoint text (before ++ s :: w :: after) := by
  have hnil : ∀ l : List String, (∀ x ∈ l, x ∈ before ++ s :: w :: after) →
      ∀ cs ∈ l.map String.toList, cs ≠ [] := by
    intro l hl cs hcs
    obtain ⟨x, hx, rfl⟩ := List.mem_map.mp hcs
    simpa using hne x (hl x hx)
  obtain ⟨d, hd, hlt, hagree⟩ := hcross
  obtain ⟨shared, hs, hw, hroom, hshort⟩ :=
    exists_shared (hnil [w] (by simp) w.toList (by simp)) hlt hagree
  set front := (before.map String.toList).flatten with hfront
  set back := (after.map String.toList).flatten with hback
  refine ⟨String.ofList (front ++ (shared ++ back)), ?_, ?_⟩
  · rw [Rising, spread_iff_placed, String.toList_ofList, List.map_append, List.map_cons,
      List.map_cons]
    refine placed_flatten_append [] (shared ++ back) _ _
      (hnil before fun x hx => List.mem_append_left _ hx) ?_
    rw [List.nil_append, List.length_nil, Nat.zero_add, ← hfront]
    refine ⟨front.length, le_rfl, ⟨by simp, ?_⟩, front.length + d, ?_, hw.append.shift, ?_⟩
    · rw [List.drop_left]
      exact hs.trans (List.prefix_append _ _)
    · show front.length + 1 ≤ front.length + d
      omega
    · have h := placed_flatten (front ++ shared) [] (after.map String.toList)
        (hnil after fun x hx => by simp [hx])
      rw [List.append_nil, List.append_assoc, List.length_append] at h
      refine h.earlier ?_
      show front.length + d + 1 ≤ front.length + shared.length
      omega
  · intro h
    have hle := length_le_of_disjoint h
    rw [String.toList_ofList, List.map_append, List.map_cons, List.map_cons, List.flatten_append,
      List.flatten_cons, List.flatten_cons, ← hfront, ← hback] at hle
    simp only [List.length_append] at hle
    omega

/-! ## The order of disjoint occurrences -/

/-- `ordered` accepts a text exactly where the snippets rise in it, so that it means the order of
disjoint occurrences for the texts in which rising snippets have disjoint occurrences too.  For a
list of snippets these are all texts exactly when no snippet can begin inside the one before. -/
theorem ordered_iff_disjoint_iff (snippets : List String) (hne : ∀ s ∈ snippets, s ≠ "") :
    (∀ text, (ordered text snippets = true ↔ Disjoint text snippets) ↔
      (Rising text snippets → Disjoint text snippets)) ∧
    ((∀ text, ordered text snippets = true ↔ Disjoint text snippets) ↔
      snippets.IsChain fun s w => ¬ Crosses s w) := by
  have hiff : ∀ text, (ordered text snippets = true ↔ Disjoint text snippets) ↔
      (Rising text snippets → Disjoint text snippets) := by
    intro text
    rw [ordered_iff_rising]
    exact ⟨fun h => h.mp, fun h => ⟨h, Disjoint.rising hne⟩⟩
  refine ⟨hiff, ?_⟩
  constructor
  · intro h
    refine List.isChain_iff_forall_rel_of_append_cons_cons.mpr fun s w before after hs hcross => ?_
    subst hs
    obtain ⟨text, hrising, hdisjoint⟩ := exists_rising_of_crosses hne hcross
    exact hdisjoint ((hiff text).mp (h text) hrising)
  · intro hchain text
    refine (hiff text).mpr fun hrising => ?_
    exact spread_iff_placed.mpr (placed_of_not_crosses hchain (spread_iff_placed.mp hrising))

/-- One instruction answers for two snippets: `cmpxchg` begins inside `lock cmpxchg`. -/
theorem not_ordered_iff_disjoint :
    ¬ ∀ text snippets, (∀ s ∈ snippets, s ≠ "") →
      (ordered text snippets = true ↔ Disjoint text snippets) := by
  intro h
  have hne : ∀ s ∈ ["lock cmpxchg", "cmpxchg"], s ≠ "" := by simp
  have hle := length_le_of_disjoint
    ((h "lock cmpxchg %edx" ["lock cmpxchg", "cmpxchg"] hne).mp (by decide +kernel))
  exact absurd hle (by decide)

/-- The snippets of a reference count that is read, exchanged and tested do not cross. -/
theorem ordered_iff_disjoint_iff_example :
    ordered "mov; lock cmpxchg; jne" ["mov", "lock cmpxchg", "jne"] = true ↔
      Disjoint "mov; lock cmpxchg; jne" ["mov", "lock cmpxchg", "jne"] := by
  refine (ordered_iff_disjoint_iff ["mov", "lock cmpxchg", "jne"] (by simp)).2.mpr ?_ _
  simp only [List.isChain_cons_cons, List.IsChain.singleton, and_true]
  decide

end Concurrency
end Fragma
