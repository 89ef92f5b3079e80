import Fragma.Provenance.Lexer

/-!
# Line endings and splices

Before the loop, `_lex` rewrites its text twice: line endings become newlines, and
backslash-newline pairs go.  Both rewritings look at two neighbouring characters, so
they treat the halves of a text apart unless the cut falls between such a pair.

* `normalise_append`, `splice_append`, `spliced_append`: the halves apart.
* `spliced_of_cutsLineEnding`: the one cut that is allowed and is not apart,
  between the two characters of a line ending.
-/

namespace Fragma
namespace Provenance

/-! ## Cuts -/

/-- The cut is between the two characters of one line ending. -/
def CutsLineEnding (s₁ s₂ : Text) : Prop := s₁.getLast? = some '\r' ∧ s₂.head? = some '\n'

/-- The cut is inside a backslash-newline pair. -/
def CutsPair (s₁ s₂ : Text) : Prop :=
  s₁.getLast? = some '\\' ∧ (s₂.head? = some '\n' ∨ s₂.head? = some '\r') ∨
    ['\\', '\r'] <:+ s₁ ∧ s₂.head? = some '\n'

theorem normalise_cons {c : Char} {cs : Text} (hc : c ≠ '\r') :
    normalise (c :: cs) = c :: normalise cs :=
  normalise.eq_3 c cs (fun _ h _ => hc h) hc

theorem normalise_cr {cs : Text} (hcs : cs.head? ≠ some '\n') :
    normalise ('\r' :: cs) = '\n' :: normalise cs :=
  normalise.eq_2 cs fun ds h => hcs (by rw [h, List.head?_cons])

/-- What a cut does not see behind the first character, it does not see. -/
theorem getLast?_cons_ne_nil {α : Type*} {c : α} {cs : List α} (h : cs ≠ []) :
    (c :: cs).getLast? = cs.getLast? := by
  obtain ⟨d, ds, rfl⟩ := List.exists_cons_of_ne_nil h
  rw [List.getLast?_cons_cons]

theorem normalise_append {a b : Text} (h : ¬ CutsLineEnding a b) :
    normalise (a ++ b) = normalise a ++ normalise b := by
  fun_induction normalise a with
  | case1 cs ih =>
    rw [List.cons_append, List.cons_append, normalise.eq_1, List.cons_append]
    by_cases hcs : cs = []
    · rw [hcs]
      rfl
    · rw [ih (by rwa [CutsLineEnding, getLast?_cons_ne_nil (by simp), getLast?_cons_ne_nil hcs] at h)]
  | case2 cs hne ih =>
    rw [List.cons_append]
    by_cases hcs : cs = []
    · rw [hcs] at h ⊢
      rw [List.nil_append, normalise_cr fun hb => h ⟨rfl, hb⟩]
      rfl
    · have hhead : (cs ++ b).head? ≠ some '\n' := by
        obtain ⟨d, ds, rfl⟩ := List.exists_cons_of_ne_nil hcs
        rw [List.cons_append, List.head?_cons, ne_eq, Option.some.injEq]
        exact fun hd => hne ds (by rw [hd])
      rw [normalise_cr hhead, List.cons_append,
        ih (by rwa [CutsLineEnding, getLast?_cons_ne_nil hcs] at h)]
  | case3 c cs _ hc ih =>
    rw [List.cons_append, normalise_cons hc, List.cons_append]
    by_cases hcs : cs = []
    · rw [hcs]
      rfl
    · rw [ih (by rwa [CutsLineEnding, getLast?_cons_ne_nil hcs] at h)]
  | case4 => rfl

theorem splice_append {a b : Text} (h : ¬ (a.getLast? = some '\\' ∧ b.head? = some '\n')) :
    splice (a ++ b) = splice a ++ splice b := by
  fun_induction splice a with
  | case1 cs ih =>
    rw [List.cons_append, List.cons_append, splice.eq_1]
    by_cases hcs : cs = []
    · rw [hcs]
      rfl
    · rw [ih (by rwa [getLast?_cons_ne_nil (by simp), getLast?_cons_ne_nil hcs] at h)]
  | case2 c cs hne ih =>
    rw [List.cons_append, List.cons_append]
    by_cases hcs : cs = []
    · rw [hcs, List.nil_append, splice.eq_2]
      · rfl
      · rintro ds rfl rfl
        exact h ⟨by rw [hcs]; rfl, rfl⟩
    · rw [splice.eq_2 _ _ _, ih (by rwa [getLast?_cons_ne_nil hcs] at h)]
      obtain ⟨d, ds, rfl⟩ := List.exists_cons_of_ne_nil hcs
      intro es hc hd
      exact hne ds hc (by rw [(List.cons.inj hd).1])
  | case3 => rfl

theorem getLast?_normalise {a : Text} (h : (normalise a).getLast? = some '\\') :
    a.getLast? = some '\\' := by
  have hcons : ∀ c : Char, c ≠ '\\' → ∀ cs : Text, (c :: cs).getLast? = some '\\' →
      cs ≠ [] ∧ cs.getLast? = some '\\' := by
    intro c hc cs hlast
    have hne : cs ≠ [] := by
      rintro rfl
      exact hc (Option.some.inj hlast)
    exact ⟨hne, by rwa [getLast?_cons_ne_nil hne] at hlast⟩
  have hne : ∀ cs : Text, cs.getLast? = some '\\' → cs ≠ [] := by
    rintro cs hcs rfl
    exact absurd hcs (by simp)
  fun_induction normalise a with
  | case1 cs ih =>
    have hcs := ih (hcons _ (by decide) _ h).2
    rw [getLast?_cons_ne_nil (by simp), getLast?_cons_ne_nil (hne cs hcs), hcs]
  | case2 cs _ ih =>
    have hcs := ih (hcons _ (by decide) _ h).2
    rw [getLast?_cons_ne_nil (hne cs hcs), hcs]
  | case3 c cs _ _ ih =>
    by_cases hn : normalise cs = []
    · rw [hn] at h
      have : cs = [] := by
        cases cs with
        | nil => rfl
        | cons d ds =>
          unfold normalise at hn
          split at hn
          · exact absurd hn (by simp)
          · exact absurd hn (by simp)
          · exact absurd hn (by simp)
          · next heq => exact absurd heq (by simp)
      rwa [this]
    · rw [getLast?_cons_ne_nil hn] at h
      have hcs := ih h
      rw [getLast?_cons_ne_nil (hne cs hcs), hcs]
  | case4 => exact absurd h (by simp)

theorem head?_normalise {b : Text} {x : Char} (h : (normalise b).head? = some x) :
    b.head? = some x ∨ x = '\n' ∧ b.head? = some '\r' := by
  unfold normalise at h
  split at h
  · exact Or.inr ⟨(Option.some.inj h).symm, rfl⟩
  · exact Or.inr ⟨(Option.some.inj h).symm, rfl⟩
  · exact Or.inl h
  · exact absurd h (by simp)

/-- **The two halves of a text are spliced apart.** -/
theorem spliced_append {a b : Text} (hle : ¬ CutsLineEnding a b) (hpair : ¬ CutsPair a b) :
    spliced (a ++ b) = spliced a ++ spliced b := by
  rw [spliced, normalise_append hle, splice_append]
  · rfl
  · rintro ⟨hl, hh⟩
    exact hpair (Or.inl ⟨getLast?_normalise hl, (head?_normalise hh).imp_right And.right⟩)

theorem spliced_cons {c : Char} (hcr : c ≠ '\r') (hback : c ≠ '\\') (b : Text) :
    spliced (c :: b) = c :: spliced b := by
  rw [spliced, normalise_cons hcr, splice.eq_2 _ _ (fun _ h _ => absurd h hback)]
  rfl

theorem splice_eq_self {cs : Text} (h : ¬ ['\\', '\n'] <:+: cs) : splice cs = cs := by
  fun_induction splice cs with
  | case1 cs => exact absurd ⟨[], cs, rfl⟩ h
  | case2 c cs _ ih => rw [ih fun hi => h (hi.trans (List.suffix_cons c cs).isInfix)]
  | case3 => rfl

theorem normalise_eq_self {cs : Text} (h : '\r' ∉ cs) : normalise cs = cs := by
  induction cs with
  | nil => rfl
  | cons c cs ih =>
    rw [List.mem_cons, not_or] at h
    rw [normalise_cons (Ne.symm h.1), ih h.2]

/-- Two neighbours in a normalised text were neighbours before, up to how the line
ending was written. -/
theorem infix_normalise {cs : Text} {a b : Char} (ha : a ≠ '\n') (h : [a, b] <:+: normalise cs) :
    [a, b] <:+: cs ∨ b = '\n' ∧ [a, '\r'] <:+: cs := by
  fun_induction normalise cs with
  | case1 cs ih =>
    have hsub : cs <:+: '\r' :: '\n' :: cs := ⟨['\r', '\n'], [], by simp⟩
    rcases List.infix_cons_iff.mp h with hp | hi
    · exact absurd (List.cons_prefix_cons.mp hp).1 ha
    · exact (ih hi).imp (fun h => h.trans hsub) fun h => ⟨h.1, h.2.trans hsub⟩
  | case2 cs _ ih =>
    have hsub : cs <:+: '\r' :: cs := (List.suffix_cons _ cs).isInfix
    rcases List.infix_cons_iff.mp h with hp | hi
    · exact absurd (List.cons_prefix_cons.mp hp).1 ha
    · exact (ih hi).imp (fun h => h.trans hsub) fun h => ⟨h.1, h.2.trans hsub⟩
  | case3 c cs _ _ ih =>
    have hsub : cs <:+: c :: cs := (List.suffix_cons c cs).isInfix
    rcases List.infix_cons_iff.mp h with hp | hi
    · obtain ⟨rfl, t, ht⟩ := List.cons_prefix_cons.mp hp
      have hpair : ∀ x, cs.head? = some x → [a, x] <:+: a :: cs := by
        intro x hx
        obtain ⟨u, rfl⟩ := List.head?_eq_some_iff.mp hx
        exact ⟨[], u, rfl⟩
      exact (head?_normalise (x := b) (by rw [← ht]; rfl)).imp (hpair b) fun h => ⟨h.1, hpair _ h.2⟩
    · exact (ih hi).imp (fun h => h.trans hsub) fun h => ⟨h.1, h.2.trans hsub⟩
  | case4 => exact absurd h.length_le (by simp)

/-- The halves of a text that is cut inside a line ending. -/
theorem spliced_of_cutsLineEnding {s₁ s₂ : Text} (hle : CutsLineEnding s₁ s₂)
    (hpair : ¬ CutsPair s₁ s₂) :
    ∃ a b, spliced (s₁ ++ s₂) = a ++ '\n' :: b ∧ spliced s₁ = a ++ ['\n'] ∧
      spliced s₂ = '\n' :: b := by
  obtain ⟨t, rfl⟩ := List.getLast?_eq_some_iff.mp hle.1
  obtain ⟨u, rfl⟩ := List.head?_eq_some_iff.mp hle.2
  have hlast : t.getLast? ≠ some '\\' := by
    intro hl
    obtain ⟨t', rfl⟩ := List.getLast?_eq_some_iff.mp hl
    exact hpair (Or.inr ⟨⟨t', by simp⟩, rfl⟩)
  have hhalf : ∀ b : Text, spliced (t ++ '\r' :: b) = spliced t ++ spliced ('\r' :: b) := by
    intro b
    refine spliced_append (fun h => absurd h.2 (by simp)) ?_
    rintro (h | h)
    · exact hlast h.1
    · exact absurd h.2 (by simp)
  refine ⟨spliced t, spliced u, ?_, ?_, spliced_cons (by decide) (by decide) u⟩
  · rw [List.append_assoc, List.singleton_append, hhalf, ← spliced_cons (c := '\n') (by decide) (by decide)]
    rw [spliced, spliced, spliced, normalise.eq_1, normalise_cons (c := '\n') (by decide)]
  · rw [hhalf]
    rfl

end Provenance
end Fragma
