import Fragma.Python.Lines

/-!
# Lines joined by newlines

A text written line by line, each with its newline, and what `str.splitlines` makes of it: the same
lines, as long as none holds a line end of another kind.

* `unlines`, `unlines_inj`: the text, and that it tells its lines.
* `bareLines_unlines`, `unbroken_of_mem_bareLines`: its lines as `str.splitlines` reads them.
* `cons_append_inj`, `append_cons_inj_of_notMem`: where two splits of a list agree.
-/

namespace Fragma
namespace Python

/-- Lines with their newlines. -/
def unlines (lines : List (List Char)) : List Char := lines.flatMap (· ++ ['\n'])

@[simp] theorem unlines_nil : unlines [] = [] := rfl

@[simp] theorem unlines_cons (l : List Char) (ls : List (List Char)) :
    unlines (l :: ls) = l ++ '\n' :: unlines ls := by
  simp [unlines]

@[simp] theorem unlines_append (ls ls' : List (List Char)) :
    unlines (ls ++ ls') = unlines ls ++ unlines ls' := List.flatMap_append

/-- Two splits of a list agree, where what follows each differs from the place itself. -/
theorem cons_append_inj {α : Type*} {p : α → Prop} {xs xs' ys ys' : List α} {a a' : α}
    (h : xs ++ a :: ys = xs' ++ a' :: ys') (hys : ∀ y ∈ ys, p y)
    (hys' : ∀ y ∈ ys', p y) (ha : ¬ p a) (ha' : ¬ p a') : xs = xs' ∧ a = a' ∧ ys = ys' := by
  rcases List.append_eq_append_iff.mp h with ⟨t, rfl, ht⟩ | ⟨t, rfl, ht⟩
  · cases t with
    | nil => exact ⟨by simp, by simpa using ht⟩
    | cons b t =>
      obtain ⟨-, rfl⟩ := List.cons.inj ht
      exact absurd (hys a' (by simp)) ha'
  · cases t with
    | nil =>
      obtain ⟨hb, hys⟩ : a' = a ∧ ys' = ys := by simpa using ht
      exact ⟨by simp, hb.symm, hys.symm⟩
    | cons b t =>
      obtain ⟨-, rfl⟩ := List.cons.inj ht
      exact absurd (hys' a (by simp)) ha

/-- A list is cut at the first occurrence of an element. -/
theorem append_cons_inj_of_notMem {α : Type*} {xs xs' ys ys' : List α} {a : α}
    (h : xs ++ a :: ys = xs' ++ a :: ys') (hxs : a ∉ xs) (hxs' : a ∉ xs') : xs = xs' ∧ ys = ys' := by
  have hrev : ys.reverse ++ a :: xs.reverse = ys'.reverse ++ a :: xs'.reverse := by
    simpa using congrArg List.reverse h
  obtain ⟨hys, -, hxs⟩ := cons_append_inj (p := (· ≠ a)) hrev
    (fun b hb heq => hxs (heq ▸ List.mem_reverse.mp hb))
    (fun b hb heq => hxs' (heq ▸ List.mem_reverse.mp hb)) (by simp) (by simp)
  exact ⟨List.reverse_inj.mp hxs, List.reverse_inj.mp hys⟩

/-- Lines without newlines are known from the text. -/
theorem unlines_inj {ls ls' : List (List Char)} (hls : ∀ l ∈ ls, '\n' ∉ l)
    (hls' : ∀ l ∈ ls', '\n' ∉ l) (h : unlines ls = unlines ls') : ls = ls' := by
  induction ls generalizing ls' with
  | nil =>
    cases ls' with
    | nil => rfl
    | cons l' ls' => simp at h
  | cons l ls ih =>
    cases ls' with
    | nil => simp at h
    | cons l' ls' =>
      rw [List.forall_mem_cons] at hls hls'
      rw [unlines_cons, unlines_cons] at h
      obtain ⟨rfl, hrest⟩ := append_cons_inj_of_notMem h hls.1 hls'.1
      rw [ih hls.2 hls'.2 hrest]

theorem bareLines_unlines {ls : List (List Char)} (h : ∀ l ∈ ls, Unbroken l) (rest : List Char) :
    bareLines (unlines ls ++ rest) = ls ++ bareLines rest := by
  induction ls with
  | nil => rfl
  | cons l ls ih =>
    obtain ⟨hl, hls⟩ := List.forall_mem_cons.mp h
    have hline : splitLines (unlines (l :: ls) ++ rest) =
        (l ++ ['\n']) :: splitLines (unlines ls ++ rest) := by
      rw [unlines_cons, List.append_assoc, splitLines, splitLinesFrom_append hl, List.nil_append,
        List.cons_append, ← List.singleton_append, splitLinesFrom_terminator (.inr ⟨'\n', rfl, rfl⟩)
          (fun heq => absurd heq (by decide))]
      rfl
    rw [bareLines, hline, List.map_cons, cutTerminator_append hl (.inr ⟨'\n', rfl, rfl⟩),
      List.cons_append, ← ih hls]
    rfl

/-- A last line without an end. -/
theorem bareLines_last {l : List Char} (hl : Unbroken l) (hne : l ≠ []) : bareLines l = [l] := by
  have hsplit : splitLines l = [l] := by
    have h := splitLinesFrom_append hl [] []
    rwa [List.append_nil, List.nil_append, splitLinesFrom, if_neg hne] at h
  rw [bareLines, hsplit, List.map_singleton, cutTerminator_eq_self hl]

theorem Lines.unbroken_cut {ls : List (List Char)} (h : Lines ls) :
    ∀ l ∈ ls.map cutTerminator, Unbroken l := by
  induction h with
  | nil => exact fun l hl => absurd hl List.not_mem_nil
  | last hne hbody =>
    intro l hl
    rw [List.map_singleton, List.mem_singleton, cutTerminator_eq_self hbody] at hl
    exact hl ▸ hbody
  | cons hbody hterm _ _ ih =>
    rw [List.map_cons, cutTerminator_append hbody hterm]
    exact List.forall_mem_cons.mpr ⟨hbody, ih⟩

theorem unbroken_of_mem_bareLines {text l : List Char} (h : l ∈ bareLines text) : Unbroken l :=
  Lines.unbroken_cut (lines_splitLines text) l h

theorem newline_notMem {l : List Char} (h : Unbroken l) : '\n' ∉ l := fun hmem =>
  absurd (h '\n' hmem) (by decide)

end Python
end Fragma
