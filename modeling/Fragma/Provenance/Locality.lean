import Mathlib.Data.List.TakeWhile
import Fragma.Provenance.Lexer

/-!
# What follows a unit does not change it

The lexer looks ahead: an identifier goes on while identifier characters follow,
a number takes the sign behind its exponent mark, a punctuator is the longest that
fits.  So the text behind a position matters to the units in front of it.  It
matters through its first character only, and a blank there never matters.

`Seals r r'` says that the text `r'` may take the place of `r`.

* `scan_append`: a unit that ends in front of `r` also ends in front of `r'`.
* `steps_append`: so do the turns of the loop that lead to `r`.
-/

namespace Fragma
namespace Provenance

/-- The text `r'` can stand where `r` stood without touching what is in front of
it: it begins with a space, or both begin with the same slash or newline. -/
def Seals (r r' : Text) : Prop :=
  r'.head? = some ' ' ∨ r'.head? = r.head? ∧ (r'.head? = some '/' ∨ r'.head? = some '\n')

/-- The characters a sealing text begins with. -/
def sealers : Text := [' ', '/', '\n']

/-- A property of all of them is checked at each. -/
theorem forall_sealers {P : Char → Prop} : (∀ x ∈ sealers, P x) ↔ P ' ' ∧ P '/' ∧ P '\n' := by
  simp [sealers]

theorem Seals.head {r r' : Text} (h : Seals r r') : ∃ x ∈ sealers, ∃ t, r' = x :: t := by
  rcases h with h | ⟨-, h | h⟩
  · obtain ⟨t, ht⟩ := List.head?_eq_some_iff.mp h
    exact ⟨' ', by decide, t, ht⟩
  · obtain ⟨t, ht⟩ := List.head?_eq_some_iff.mp h
    exact ⟨'/', by decide, t, ht⟩
  · obtain ⟨t, ht⟩ := List.head?_eq_some_iff.mp h
    exact ⟨'\n', by decide, t, ht⟩

/-- A prefix of a text that avoids the entry after `u` ends within `u`. -/
theorem prefix_of_prefix_append {α : Type*} {p u t : List α} {x : α} (hx : x ∉ p)
    (h : p <+: u ++ x :: t) : p <+: u := by
  rcases Nat.lt_or_ge u.length p.length with hlt | hge
  · have hux : u ++ [x] <+: u ++ x :: t := ⟨t, by simp⟩
    have hp : u ++ [x] <+: p := List.prefix_of_prefix_length_le hux h (by simp; omega)
    exact absurd (hp.subset (by simp)) hx
  · exact List.prefix_of_prefix_length_le h (List.prefix_append u _) hge

/-! ## Comments, header names and literals -/

/-- The two characters that close a block comment. -/
def commentEnd : Text := ['*', '/']

/-- A block comment ends at the first `*/`; the star of that one belongs to no
earlier one. -/
theorem closeComment_eq_some_iff {cs body rest : Text} :
    closeComment cs = some (body, rest) ↔
      cs = body ++ '*' :: '/' :: rest ∧ ¬ commentEnd <:+: body ++ ['*'] := by
  constructor
  · intro h
    refine ⟨closeComment_eq h, ?_⟩
    fun_induction closeComment cs generalizing body rest with
    | case1 cs =>
      simp only [Option.some.injEq, Prod.mk.injEq] at h
      rw [← h.1]
      decide
    | case2 c cs hne ih =>
      obtain ⟨⟨b, r⟩, hbr, heq⟩ := Option.map_eq_some_iff.mp h
      rw [Prod.mk.injEq] at heq
      rw [← heq.1, List.cons_append, List.infix_cons_iff]
      rintro (hp | hi)
      · obtain ⟨t, ht⟩ := hp
        rw [commentEnd, List.cons_append, List.cons.injEq] at ht
        have hcs := closeComment_eq hbr
        cases b with
        | nil => exact absurd ht.2 (by simp)
        | cons x b =>
          simp only [List.cons_append, List.nil_append, List.cons.injEq] at ht hcs
          rw [← ht.2.1] at hcs
          exact hne _ ht.1.symm hcs
      · exact ih hbr hi
    | case3 => exact absurd h (by simp)
  · rintro ⟨rfl, hno⟩
    induction body with
    | nil => rfl
    | cons c body ih =>
      rw [List.cons_append, List.infix_cons_iff, not_or] at hno
      have hne : ∀ ds, c = '*' → body ++ '*' :: '/' :: rest = '/' :: ds → False := by
        intro ds hc hds
        refine hno.1 ?_
        cases body with
        | nil => exact absurd hds (by simp)
        | cons x body =>
          rw [List.cons_append, List.cons.injEq] at hds
          exact ⟨body ++ ['*'], by rw [hc, hds.1]; rfl⟩
      rw [List.cons_append, closeComment.eq_2 _ _ hne, ih hno.2]
      rfl

theorem headerBody_eq_some_iff {cs body rest : Text} :
    headerBody cs = some (body, rest) ↔ cs = body ++ '>' :: rest ∧ '>' ∉ body ∧ '\n' ∉ body := by
  constructor
  · intro h
    refine ⟨headerBody_eq h, ?_⟩
    induction cs generalizing body rest with
    | nil => exact absurd h (by simp [headerBody])
    | cons c cs ih =>
      rw [headerBody] at h
      split_ifs at h with h1 h2
      · simp only [Option.some.injEq, Prod.mk.injEq] at h
        rw [← h.1]
        exact ⟨List.not_mem_nil, List.not_mem_nil⟩
      · obtain ⟨⟨b, r⟩, hbr, heq⟩ := Option.map_eq_some_iff.mp h
        rw [Prod.mk.injEq] at heq
        obtain ⟨hgt, hnl⟩ := ih hbr
        rw [← heq.1, List.mem_cons, List.mem_cons, not_or, not_or]
        exact ⟨⟨fun hc => h1 hc.symm, hgt⟩, fun hc => h2 hc.symm, hnl⟩
  · rintro ⟨rfl, hgt, hnl⟩
    induction body with
    | nil => rfl
    | cons c body ih =>
      rw [List.mem_cons, not_or] at hgt hnl
      rw [List.cons_append, headerBody, if_neg (Ne.symm hgt.1), if_neg (Ne.symm hnl.1),
        ih hgt.2 hnl.2]
      rfl

theorem literalBody_cons {quote c : Char} {cs : Text} :
    literalBody quote (c :: cs) =
      if c = quote then .ok ([], cs)
      else if c = '\n' then .error .newlineInLiteral
      else if c = '\\' then
        match cs with
        | [] => .error .unterminatedLiteral
        | d :: ds => (literalBody quote ds).map fun p => (c :: d :: p.1, p.2)
      else (literalBody quote cs).map fun p => (c :: p.1, p.2) := by
  cases cs <;> rfl

/-- A literal is read up to its closing quote, whatever follows. -/
theorem literalBody_append {quote : Char} {cs body rest : Text} (rest' : Text)
    (h : literalBody quote cs = .ok (body, rest)) :
    literalBody quote (body ++ quote :: rest') = .ok (body, rest') := by
  fun_induction literalBody quote cs generalizing body rest with
  | case1 => exact absurd h (by simp)
  | case2 cs =>
    simp only [Except.ok.injEq, Prod.mk.injEq] at h
    rw [← h.1, List.nil_append, literalBody_cons, if_pos rfl]
  | case3 => exact absurd h (by simp)
  | case4 => exact absurd h (by simp)
  | case5 d ds hq hn ih =>
    cases hr : literalBody quote ds with
    | error e =>
      rw [hr] at h
      exact absurd h (by simp [Except.map])
    | ok p =>
      rw [hr] at h
      simp only [Except.map, Except.ok.injEq, Prod.mk.injEq] at h
      rw [← h.1, List.cons_append, List.cons_append, literalBody_cons, if_neg hq, if_neg hn,
        if_pos rfl]
      simp only [ih hr, Except.map]
  | case6 c cs hq hn hb ih =>
    cases hr : literalBody quote cs with
    | error e =>
      rw [hr] at h
      exact absurd h (by simp [Except.map])
    | ok p =>
      rw [hr] at h
      simp only [Except.map, Except.ok.injEq, Prod.mk.injEq] at h
      rw [← h.1, List.cons_append, literalBody_cons, if_neg hq, if_neg hn, if_neg hb, ih hr]
      rfl

/-- The encoding prefixes. -/
def encodings : List Text := [[], ['u', '8'], ['u'], ['U'], ['L']]

/-- A literal starts with an encoding prefix and a quote. -/
theorem literalStart_eq_some_iff {cs encoding content : Text} {quote : Char} :
    literalStart cs = some (encoding, quote, content) ↔
      cs = encoding ++ quote :: content ∧ encoding ∈ encodings ∧ isQuote quote = true := by
  constructor
  · intro h
    refine ⟨literalStart_eq h, ?_⟩
    unfold literalStart at h
    split at h
    · split_ifs at h with hq
      simp only [Option.some.injEq, Prod.mk.injEq] at h
      rw [← h.1, ← h.2.1]
      exact ⟨by decide, hq⟩
    · split_ifs at h with hp hq
      · simp only [Option.some.injEq, Prod.mk.injEq] at h
        rw [← h.1, ← h.2.1]
        simp only [List.mem_cons, List.not_mem_nil, or_false] at hp
        exact ⟨by rcases hp.1 with h | h | h <;> rw [h] <;> decide, hp.2⟩
      · simp only [Option.some.injEq, Prod.mk.injEq] at h
        rw [← h.1, ← h.2.1]
        exact ⟨by decide, hq⟩
    · split_ifs at h with hq
      simp only [Option.some.injEq, Prod.mk.injEq] at h
      rw [← h.1, ← h.2.1]
      exact ⟨by decide, hq⟩
    · exact absurd h (by simp)
  · rintro ⟨rfl, he, hq⟩
    have hquote : quote = '"' ∨ quote = '\'' := by simpa [isQuote] using hq
    simp only [encodings, List.mem_cons, List.not_mem_nil, or_false] at he
    rcases hquote with rfl | rfl <;> rcases he with rfl | rfl | rfl | rfl | rfl <;>
      cases content <;> simp [literalStart, isQuote]

/-! ## Words and punctuators -/

/-- The characters that continue no token. -/
def stoppers : Text := [' ', '/', '\n', '(']

/-- Nothing follows, or something that continues no token. -/
def Stops (r : Text) : Prop := ∀ x ∈ r.head?, x ∈ stoppers

/-- A property of all of them is checked at each. -/
theorem forall_stoppers {P : Char → Prop} :
    (∀ x ∈ stoppers, P x) ↔ P ' ' ∧ P '/' ∧ P '\n' ∧ P '(' := by
  simp [stoppers]

theorem stops_nil : Stops [] := fun x hx => absurd hx (by simp)

theorem stops_cons {x : Char} {t : Text} (hx : x ∈ stoppers) : Stops (x :: t) := by
  intro y hy
  rw [List.head?_cons, Option.mem_some_iff] at hy
  exact hy ▸ hx

theorem Stops.head {x : Char} {t : Text} (h : Stops (x :: t)) : x ∈ stoppers := h x (by simp)

theorem stops_of_sealer {x : Char} {t : Text} (hx : x ∈ sealers) : Stops (x :: t) :=
  stops_cons (forall_sealers (P := fun x => x ∈ stoppers) |>.mpr (by decide) x hx)

/-- A stopping character continues nothing. -/
theorem stoppers_stop : ∀ x ∈ stoppers, isNumberChar x = false ∧ isIdentifierChar x = false ∧
    x.isDigit = false ∧ x ∉ ['+', '-'] := forall_stoppers.mpr (by decide)

/-- Only the first character of a punctuator can be a stopping one. -/
theorem stoppers_not_mem_tail : ∀ p ∈ punctuators, ∀ x ∈ stoppers, x ∉ p.tail := by
  simp only [forall_stoppers]
  decide

theorem stoppers_not_mem_encodings : ∀ e ∈ encodings, ∀ x ∈ stoppers, x ∉ e := by
  simp only [forall_stoppers]
  decide

theorem stoppers_not_quote : ∀ x ∈ stoppers, isQuote x = false :=
  forall_stoppers.mpr (by decide)

theorem numberTail_of_signed {e s : Char} {cs : Text} (h : isSignedExponent e s = true) :
    numberTail (e :: s :: cs) = numberTail cs + 2 := by
  rw [numberTail, if_pos h]

theorem numberTail_of_unsigned {e : Char} {cs : Text}
    (h : ∀ s ds, cs = s :: ds → isSignedExponent e s = false) :
    numberTail (e :: cs) = if isNumberChar e then numberTail cs + 1 else 0 := by
  cases cs with
  | nil => rfl
  | cons s ds => rw [numberTail, if_neg (by simp [h s ds rfl])]

theorem numberTail_stops {r : Text} (hr : Stops r) : numberTail r = 0 := by
  cases r with
  | nil => rfl
  | cons x t =>
    have hexp : ∀ s ds, t = s :: ds → isSignedExponent x s = false := by
      intro s ds _
      have hx := hr.head
      revert hx
      simp only [stoppers, List.mem_cons, List.not_mem_nil, or_false]
      rintro (rfl | rfl | rfl | rfl) <;> rfl
    rw [numberTail_of_unsigned hexp, if_neg (by simp [(stoppers_stop x hr.head).1])]

/-- A number that ends in front of `r` ends in front of a stopping text. -/
theorem numberTail_append {u r r' : Text} (hr' : Stops r')
    (h : numberTail (u ++ r) ≤ u.length) : numberTail (u ++ r') = numberTail (u ++ r) := by
  induction u using List.twoStepInduction with
  | nil =>
    rw [List.nil_append, List.nil_append, numberTail_stops hr']
    exact (Nat.le_zero.mp h).symm
  | singleton e =>
    have hr : ∀ s ds, r = s :: ds → isSignedExponent e s = false := by
      rintro s ds rfl
      by_contra hs
      rw [List.singleton_append, numberTail_of_signed (by simpa using hs)] at h
      exact absurd h (by simp)
    have ht : ∀ s ds, r' = s :: ds → isSignedExponent e s = false := by
      rintro s ds rfl
      rw [isSignedExponent, Bool.and_eq_false_iff]
      exact Or.inr (by simpa using (stoppers_stop s hr'.head).2.2.2)
    rw [List.singleton_append, numberTail_of_unsigned hr] at h
    rw [List.singleton_append, List.singleton_append, numberTail_of_unsigned hr,
      numberTail_of_unsigned ht, numberTail_stops hr']
    split_ifs at h ⊢ with hc
    · rw [Nat.le_zero.mp (Nat.succ_le_succ_iff.mp h)]
    · rfl
  | cons_cons e s u ih1 ih2 =>
    rw [List.cons_append, List.cons_append] at h
    rw [List.cons_append, List.cons_append, List.cons_append, List.cons_append]
    by_cases hs : isSignedExponent e s = true
    · rw [numberTail_of_signed hs] at h ⊢
      rw [numberTail_of_signed hs, ih1 (by simpa using h)]
    · have hne : ∀ (cs : Text) s' ds, s :: cs = s' :: ds → isSignedExponent e s' = false := by
        intro cs s' ds heq
        rw [← (List.cons.inj heq).1]
        simpa using hs
      rw [numberTail_of_unsigned (hne _)] at h ⊢
      rw [numberTail_of_unsigned (hne _)]
      split_ifs at h ⊢ with hc
      · have := ih2 s (by simpa using h)
        rw [List.cons_append, List.cons_append] at this
        rw [this]
      · rfl

/-- A run of characters that ends in front of `r` ends in front of a text that does not
continue it. -/
theorem takeWhile_append_of_head {p : Char → Bool} {u r r' : Text}
    (hr' : ∀ x ∈ r'.head?, p x = false) (h : ((u ++ r).takeWhile p).length ≤ u.length) :
    ((u ++ r').takeWhile p).length = ((u ++ r).takeWhile p).length := by
  induction u with
  | nil =>
    have hnil : r'.takeWhile p = [] := by
      cases r' with
      | nil => rfl
      | cons x t => exact List.takeWhile_cons_of_neg (by simp [hr' x (by simp)])
    rw [List.nil_append, List.nil_append, hnil]
    exact (Nat.le_zero.mp h).symm
  | cons c u ih =>
    rw [List.cons_append] at h ⊢
    rw [List.cons_append]
    by_cases hc : p c = true
    · rw [List.takeWhile_cons_of_pos hc] at h ⊢
      rw [List.takeWhile_cons_of_pos hc, List.length_cons, List.length_cons,
        ih (by simpa using h)]
    · rw [List.takeWhile_cons_of_neg hc, List.takeWhile_cons_of_neg hc]

theorem wordAt_cons {c : Char} {cs : Text} :
    wordAt (c :: cs) =
      if isIdentifierStart c then some (1 + (cs.takeWhile isIdentifierChar).length)
      else if c.isDigit then some (1 + numberTail cs)
      else
        match cs with
        | [] => none
        | d :: ds => if c = '.' ∧ d.isDigit then some (2 + numberTail ds) else none := rfl

theorem numberTail_le (cs : Text) : numberTail cs ≤ cs.length := by
  fun_induction numberTail cs with
  | case1 e s cs _ ih => rw [List.length_cons, List.length_cons]; omega
  | case2 e s cs _ _ ih => rw [List.length_cons]; omega
  | case3 => exact Nat.zero_le _
  | case4 => exact Nat.le_refl _
  | case5 => exact Nat.zero_le _
  | case6 => exact Nat.le_refl _

theorem wordAt_le {cs : Text} {n : ℕ} (h : wordAt cs = some n) : n ≤ cs.length := by
  cases cs with
  | nil => exact absurd h (by simp [wordAt])
  | cons c cs =>
    rw [wordAt_cons] at h
    rw [List.length_cons]
    split_ifs at h
    · have := (List.takeWhile_prefix (p := isIdentifierChar) (l := cs)).length_le
      rw [Option.some.injEq] at h
      omega
    · have := numberTail_le cs
      rw [Option.some.injEq] at h
      omega
    · cases cs with
      | nil => exact absurd h (by simp)
      | cons d ds =>
        have := numberTail_le ds
        dsimp only at h
        split_ifs at h
        rw [Option.some.injEq] at h
        rw [List.length_cons]
        omega

theorem wordAt_append {c : Char} {u r r' : Text} {n : ℕ} (hr' : Stops r')
    (h : wordAt (c :: (u ++ r)) = some n) (hn : n ≤ u.length + 1) :
    wordAt (c :: (u ++ r')) = some n := by
  rw [wordAt_cons] at h ⊢
  split_ifs at h ⊢ with h1 h2
  · rw [Option.some.injEq] at h ⊢
    rw [takeWhile_append_of_head (r := r) (fun x hx => (stoppers_stop x (hr' x hx)).2.1)
      (by omega), h]
  · rw [Option.some.injEq] at h ⊢
    rw [numberTail_append (r := r) hr' (by omega), h]
  · cases u with
    | nil =>
      -- the digit behind the point would be outside
      rw [List.nil_append] at h
      cases r with
      | nil => exact absurd h (by simp)
      | cons d r =>
        simp only [] at h
        split_ifs at h
        rw [Option.some.injEq] at h
        simp at hn
        omega
    | cons d u =>
      simp only [List.cons_append] at h ⊢
      split_ifs at h ⊢
      rw [Option.some.injEq] at h ⊢
      rw [numberTail_append (r := r) hr' (by simp at hn; omega), h]

theorem wordAt_append_none {c : Char} {u r r' : Text} (hr' : Stops r')
    (h : wordAt (c :: (u ++ r)) = none) : wordAt (c :: (u ++ r')) = none := by
  rw [wordAt_cons] at h ⊢
  split_ifs at h ⊢ with h1 h2
  cases u with
  | nil =>
    cases r' with
    | nil => rfl
    | cons x t => simp [(stoppers_stop x hr'.head).2.2.1]
  | cons d u =>
    simp only [List.cons_append] at h ⊢
    split_ifs at h ⊢
    rfl

/-- A prefix of a text that avoids the entry after `u` ends within `u`. -/
theorem prefix_of_prefix_head {p u r : Text} (hr : ∀ x ∈ r.head?, x ∉ p)
    (h : p <+: u ++ r) : p <+: u := by
  cases r with
  | nil => rwa [List.append_nil] at h
  | cons x t => exact prefix_of_prefix_append (hr x (by simp)) h

theorem prefix_of_prefix_cons_append {p u r r' : Text} {c : Char}
    (hr' : ∀ x ∈ r'.head?, x ∉ p.tail) (h : p <+: c :: (u ++ r')) : p <+: c :: (u ++ r) := by
  cases p with
  | nil => exact List.nil_prefix
  | cons a p =>
    rw [List.cons_prefix_cons] at h ⊢
    exact ⟨h.1, (prefix_of_prefix_head hr' h.2).trans (List.prefix_append u r)⟩

theorem literalStart_append_none {c : Char} {u r r' : Text} (hr' : Stops r')
    (h : literalStart (c :: (u ++ r)) = none) : literalStart (c :: (u ++ r')) = none := by
  rw [Option.eq_none_iff_forall_ne_some] at h ⊢
  rintro ⟨encoding, quote, content⟩ hsome
  obtain ⟨heq, henc, hquote⟩ := literalStart_eq_some_iff.mp hsome
  have hp : encoding ++ [quote] <+: c :: (u ++ r') := ⟨content, by rw [heq]; simp⟩
  have hxp : ∀ x ∈ r'.head?, x ∉ encoding ++ [quote] := by
    intro x hx
    rw [List.mem_append, not_or, List.mem_singleton]
    refine ⟨stoppers_not_mem_encodings _ henc x (hr' x hx), ?_⟩
    rintro rfl
    rw [stoppers_not_quote x (hr' x hx)] at hquote
    exact absurd hquote (by decide)
  obtain ⟨s, hs⟩ := prefix_of_prefix_cons_append (r := r)
    (fun x hx hmem => hxp x hx (List.mem_of_mem_tail hmem)) hp
  refine h (encoding, quote, s) (literalStart_eq_some_iff.mpr ⟨?_, henc, hquote⟩)
  rw [← hs]
  simp

theorem punctuatorAt_append {c : Char} {u r r' p : Text} (hr' : Stops r')
    (h : punctuatorAt (c :: (u ++ r)) = some p) (hp : p.length ≤ u.length + 1) :
    punctuatorAt (c :: (u ++ r')) = some p := by
  unfold punctuatorAt at h ⊢
  rw [List.find?_eq_some_iff_append] at h ⊢
  obtain ⟨hpre, as, bs, heq, hno⟩ := h
  refine ⟨?_, as, bs, heq, ?_⟩
  · rw [List.isPrefixOf_iff_prefix] at hpre ⊢
    have : p <+: c :: u :=
      List.prefix_of_prefix_length_le hpre (by rw [← List.cons_append]; exact List.prefix_append _ _)
        (by simpa using hp)
    rw [← List.cons_append]
    exact this.trans (List.prefix_append _ _)
  · intro a ha
    have hmem : a ∈ punctuators := by rw [heq]; exact List.mem_append_left _ ha
    have := hno a ha
    rw [Bool.not_eq_true', ← Bool.not_eq_true, List.isPrefixOf_iff_prefix] at this ⊢
    exact fun hpre' => this (prefix_of_prefix_cons_append
      (fun x hx => stoppers_not_mem_tail a hmem x (hr' x hx)) hpre')

/-! ## One unit -/

/-- The text `cs` in front of `r` is no part of a line comment that runs up to
`r`. -/
def NotCommented (cs r : Text) : Prop :=
  ∀ text, '\n' ∉ text → cs ≠ '/' :: '/' :: (text ++ r)

/-- What a line comment leaves is nothing or starts with the newline. -/
theorem head?_dropWhile_newline (cs : Text) {y : Char}
    (h : (cs.dropWhile (· ≠ '\n')).head? = some y) : y = '\n' := by
  have hne : cs.dropWhile (· ≠ '\n') ≠ [] := by
    intro hnil
    rw [hnil] at h
    exact absurd h (by simp)
  have hnot := List.head_dropWhile_not (fun a => decide (a ≠ '\n')) hne
  rw [List.head?_eq_some_head hne, Option.some.injEq] at h
  rw [h] at hnot
  simpa using hnot

/-- A line comment that ends in front of `r` ends in front of `r'`, if only blanks
are kept off its end. -/
theorem lineComment_append {u v r r' : Text} (hseal : Seals r r') (hu : u.head? = some '/')
    (hrest : (u ++ r).dropWhile (· ≠ '\n') = v ++ r)
    (hline : r'.head? = some ' ' → NotCommented ('/' :: (u ++ r)) r) :
    (u ++ r').takeWhile (· ≠ '\n') = (u ++ r).takeWhile (· ≠ '\n') ∧
      (u ++ r').dropWhile (· ≠ '\n') = v ++ r' := by
  set w := (u ++ r).takeWhile (· ≠ '\n') with hw
  have hall : ∀ a ∈ w, (decide (a ≠ '\n')) = true := fun a ha => by
    have := List.mem_takeWhile_imp (hw ▸ ha)
    exact this
  have huw : u = w ++ v := by
    have := List.takeWhile_append_dropWhile (p := (· ≠ '\n')) (l := u ++ r)
    rw [hrest, ← hw, ← List.append_assoc] at this
    exact (List.append_cancel_right this).symm
  have hhead : (v ++ r').head? = some '\n' := by
    cases v with
    | cons y v =>
      have hy : y = '\n' := head?_dropWhile_newline (u ++ r) (by rw [hrest]; rfl)
      rw [hy]
      rfl
    | nil =>
      rw [List.append_nil] at huw
      rcases hseal with hsp | ⟨heq, hsl | hnl⟩
      · obtain ⟨text, rfl⟩ := List.head?_eq_some_iff.mp hu
        refine absurd rfl (hline hsp text ?_)
        have : '\n' ∉ '/' :: text := by
          rw [huw]
          exact fun hmem => absurd (hall _ hmem) (by decide)
        exact fun hmem => this (List.mem_cons_of_mem _ hmem)
      · have : '/' = '\n' := head?_dropWhile_newline (u ++ r) (by
          rw [hrest, List.nil_append, ← heq, hsl])
        exact absurd this (by decide)
      · exact hnl
  obtain ⟨t, ht⟩ := List.head?_eq_some_iff.mp hhead
  rw [huw, List.append_assoc, ht, List.takeWhile_append_of_pos hall,
    List.dropWhile_append_of_pos hall]
  exact ⟨by simp, by simp⟩

/-- A token that ends in front of `r` ends in front of a stopping text. -/
theorem tokenAt_append {c : Char} {u v r r' : Text} {lexeme : Lexeme} (hr' : Stops r')
    (hs : tokenAt c (u ++ r) = .ok (lexeme, v ++ r)) :
    tokenAt c (u ++ r') = .ok (lexeme, v ++ r') := by
  obtain ⟨htext, -⟩ := tokenAt_text hs
  rw [← List.cons_append, ← List.append_assoc] at htext
  have hcu : c :: u = lexeme.text ++ v := List.append_cancel_right htext
  have hlen : lexeme.text.length + v.length = u.length + 1 := by
    rw [← List.length_append, ← hcu, List.length_cons]
  unfold tokenAt at hs ⊢
  cases hstart : literalStart (c :: (u ++ r)) with
  | some p =>
    obtain ⟨encoding, quote, content⟩ := p
    rw [hstart] at hs
    dsimp only at hs
    cases hbody : literalBody quote content with
    | error e =>
      rw [hbody] at hs
      exact absurd hs (by simp)
    | ok p =>
      obtain ⟨body, rest⟩ := p
      rw [hbody] at hs
      dsimp only at hs
      split_ifs at hs with hempty
      rw [Except.ok.injEq, Prod.mk.injEq] at hs
      obtain ⟨-, henc, hquote⟩ := literalStart_eq_some_iff.mp hstart
      have hnew : literalStart (c :: (u ++ r')) =
          some (encoding, quote, body ++ quote :: (v ++ r')) := by
        rw [literalStart_eq_some_iff]
        refine ⟨?_, henc, hquote⟩
        rw [← List.cons_append, hcu, ← hs.1]
        simp [Lexeme.text]
      rw [hnew]
      dsimp only
      rw [literalBody_append _ hbody]
      dsimp only
      rw [if_neg hempty, hs.1]
  | none =>
    rw [literalStart_append_none hr' hstart]
    rw [hstart] at hs
    dsimp only at hs ⊢
    cases hword : wordAt (c :: (u ++ r)) with
    | some n =>
      rw [hword] at hs
      dsimp only at hs
      rw [Except.ok.injEq, Prod.mk.injEq] at hs
      have hn : n ≤ (c :: u).length := by
        have hle := wordAt_le hword
        have htake : lexeme.text.length = min n (u.length + r.length + 1) := by
          rw [← hs.1, Lexeme.text, List.length_take, List.length_cons, List.length_append]
        rw [List.length_cons, List.length_append] at hle
        rw [List.length_cons]
        omega
      rw [wordAt_append hr' hword hn]
      dsimp only
      rw [← List.cons_append, List.take_append_of_le_length hn,
        List.drop_append_of_le_length hn] at hs
      rw [← List.cons_append, List.take_append_of_le_length hn,
        List.drop_append_of_le_length hn, hs.1, List.append_cancel_right hs.2]
    | none =>
      rw [wordAt_append_none hr' hword]
      rw [hword] at hs
      dsimp only at hs ⊢
      cases hpunct : punctuatorAt (c :: (u ++ r)) with
      | none =>
        rw [hpunct] at hs
        exact absurd hs (by simp)
      | some p =>
        rw [hpunct] at hs
        dsimp only at hs
        split_ifs at hs with hdi
        rw [Except.ok.injEq, Prod.mk.injEq] at hs
        have hp : lexeme.text = p := by rw [← hs.1]; rfl
        rw [hp] at hlen hcu
        rw [punctuatorAt_append hr' hpunct (by omega)]
        dsimp only
        rw [if_neg hdi, hs.1, ← List.cons_append, hcu, List.append_assoc, List.drop_left]

/-- **A unit that ends in front of `r` ends in front of any text that may take the
place of `r`.** -/
theorem scan_append {b d h : Bool} {c : Char} {u v r r' : Text} {lexeme : Lexeme}
    (hs : scan b d h c (u ++ r) = .ok (lexeme, v ++ r)) (hseal : Seals r r')
    (hline : r'.head? = some ' ' → NotCommented (c :: (u ++ r)) r) :
    scan b d h c (u ++ r') = .ok (lexeme, v ++ r') := by
  obtain ⟨htext, -⟩ := scan_text hs
  rw [← List.cons_append, ← List.append_assoc] at htext
  have hcu : c :: u = lexeme.text ++ v := List.append_cancel_right htext
  have hlen : lexeme.text.length + v.length = u.length + 1 := by
    rw [← List.length_append, ← hcu, List.length_cons]
  obtain ⟨x, hx, t, rfl⟩ := hseal.head
  -- what the new text shows behind one character, the old one shows too
  have himp : ∀ y, y ∈ ['/', '*', ':'] → (u ++ x :: t).head? = some y →
      (u ++ r).head? = some y := by
    intro y hy hhead
    cases u with
    | cons a u => exact hhead
    | nil =>
      rw [List.nil_append, List.head?_cons, Option.some.injEq] at hhead
      rcases hseal with hsp | ⟨heq, -⟩
      · rw [List.head?_cons, Option.some.injEq] at hsp
        rw [← hhead, hsp] at hy
        exact absurd hy (by decide)
      · rw [List.nil_append, ← heq, List.head?_cons, hhead]
  have hpos : u ≠ [] → (u ++ x :: t).head? = (u ++ r).head? := by
    intro hu
    cases u with
    | cons a u => rfl
    | nil => exact absurd rfl hu
  unfold scan at hs ⊢
  split_ifs at hs with h1 h2 h3 h4 h5 h6 h7 h8
  · rw [if_pos h1]
    rw [Except.ok.injEq, Prod.mk.injEq] at hs ⊢
    exact ⟨hs.1, by rw [List.append_cancel_right hs.2]⟩
  · rw [if_neg h1, if_pos h2]
    rw [Except.ok.injEq, Prod.mk.injEq] at hs ⊢
    exact ⟨hs.1, by rw [List.append_cancel_right hs.2]⟩
  · -- the comment has a second slash inside `u`
    rw [Except.ok.injEq, Prod.mk.injEq] at hs
    have hu : u ≠ [] := by
      rintro rfl
      obtain ⟨t', ht'⟩ := List.head?_eq_some_iff.mp h3.2
      rw [← hs.1, ht', Lexeme.text, List.takeWhile_cons_of_pos (by decide)] at hlen
      simp at hlen
      omega
    have huhead : u.head? = some '/' := by
      obtain ⟨a, u, rfl⟩ := List.exists_cons_of_ne_nil hu
      exact h3.2
    obtain ⟨htake, hdrop⟩ := lineComment_append hseal huhead hs.2
      (fun hsp => by rw [← h3.1]; exact hline hsp)
    rw [if_neg h1, if_neg h2, if_pos ⟨h3.1, by rw [hpos hu]; exact h3.2⟩, htake, hdrop, hs.1]
  · rw [if_neg h1, if_neg h2, if_neg (fun hc => h3 ⟨hc.1, himp _ (by decide) hc.2⟩)]
    have hclose : ∃ body, closeComment (u ++ r).tail = some (body, v ++ r) ∧
        lexeme = .blockComment body := by
      split at hs
      · exact absurd hs (by simp)
      · next body rest heq =>
        rw [Except.ok.injEq, Prod.mk.injEq] at hs
        exact ⟨body, by rw [heq, hs.2], hs.1.symm⟩
    obtain ⟨body, hbody, rfl⟩ := hclose
    have hu : u ≠ [] := by
      rintro rfl
      simp [Lexeme.text] at hlen
      omega
    have htail : ∀ s : Text, (u ++ s).tail = u.tail ++ s := by
      obtain ⟨a, u, rfl⟩ := List.exists_cons_of_ne_nil hu
      intro s
      rfl
    rw [if_pos ⟨h4.1, by rw [hpos hu]; exact h4.2⟩]
    rw [htail, closeComment_eq_some_iff] at hbody
    have hnew : closeComment (u ++ x :: t).tail = some (body, v ++ x :: t) := by
      rw [htail, closeComment_eq_some_iff]
      refine ⟨?_, hbody.2⟩
      have := hbody.1
      rw [← List.cons_append, ← List.cons_append, ← List.append_assoc] at this
      rw [List.append_cancel_right this]
      simp
    rw [hnew]
  · rw [Except.ok.injEq, Prod.mk.injEq] at hs
    have hc : c = '#' := h5.2.resolve_right fun hp => h6 hp.1
    rw [if_neg h1, if_neg h2, if_neg (fun hh => h3 ⟨hh.1, himp _ (by decide) hh.2⟩),
      if_neg (fun hh => h4 ⟨hh.1, himp _ (by decide) hh.2⟩), if_pos ⟨h5.1, Or.inl hc⟩, if_neg h6,
      hs.1, List.append_cancel_right hs.2]
  · rw [if_neg h1, if_neg h2, if_neg (fun hh => h3 ⟨hh.1, himp _ (by decide) hh.2⟩),
      if_neg (fun hh => h4 ⟨hh.1, himp _ (by decide) hh.2⟩),
      if_neg (fun hh => h5 ⟨hh.1, hh.2.imp_right fun hp => ⟨hp.1, himp _ (by decide) hp.2⟩⟩),
      if_neg h7, if_pos h8]
    have hheader : ∃ body, headerBody (u ++ r) = some (body, v ++ r) ∧ lexeme = .header body := by
      split at hs
      · exact absurd hs (by simp)
      · next body rest heq =>
        rw [Except.ok.injEq, Prod.mk.injEq] at hs
        exact ⟨body, by rw [heq, hs.2], hs.1.symm⟩
    obtain ⟨body, hbody, rfl⟩ := hheader
    rw [headerBody_eq_some_iff] at hbody
    have hnew : headerBody (u ++ x :: t) = some (body, v ++ x :: t) := by
      rw [headerBody_eq_some_iff]
      refine ⟨?_, hbody.2⟩
      have := hbody.1
      rw [← List.cons_append, ← List.append_assoc] at this
      rw [List.append_cancel_right this]
      simp
    rw [hnew]
  · rw [if_neg h1, if_neg h2, if_neg (fun hh => h3 ⟨hh.1, himp _ (by decide) hh.2⟩),
      if_neg (fun hh => h4 ⟨hh.1, himp _ (by decide) hh.2⟩),
      if_neg (fun hh => h5 ⟨hh.1, hh.2.imp_right fun hp => ⟨hp.1, himp _ (by decide) hp.2⟩⟩),
      if_neg h7, if_neg h8]
    exact tokenAt_append (stops_of_sealer hx) hs

/-! ## Some turns -/

theorem step_append {s s' : LexState} {c : Char} {u v r r' : Text} {out : List Token}
    (hs : lexMachine.step s c (u ++ r) = .ok (out, s', v ++ r)) (hseal : Seals r r')
    (hline : r'.head? = some ' ' → NotCommented (c :: (u ++ r)) r) :
    lexMachine.step s c (u ++ r') = .ok (out, s', v ++ r') := by
  rw [lexMachine_step_eq_ok] at hs ⊢
  obtain ⟨lexeme, hscan, hadv⟩ := hs
  exact ⟨lexeme, scan_append hscan hseal hline, hadv⟩

/-- **The turns that lead to `r` lead to any text that may take its place**, through
the same states and with the same tokens. -/
theorem steps_append {s s' : LexState} {cs u r r' : Text} {out : List Token}
    (h : lexMachine.Steps s cs out s' r) (hcs : cs = u ++ r) (hseal : Seals r r')
    (hline : r'.head? = some ' ' → ∀ s₁ out₁ mid, lexMachine.Steps s cs out₁ s₁ mid →
      NotCommented mid r) :
    lexMachine.Steps s (u ++ r') out s' r' := by
  induction h generalizing u with
  | refl s cs =>
    have hu : u = [] := List.append_left_eq_self.mp hcs.symm
    rw [hu]
    exact .refl s r'
  | @head s s₁ s' c cs mid rest out later hstep hsteps ih =>
    obtain ⟨v, rfl⟩ := hsteps.suffix
    obtain ⟨w, hw⟩ := lexMachine.consumes hstep
    cases u with
    | nil =>
      -- a turn cannot give back what it has read
      have hlen := congrArg List.length hcs
      rw [← hw] at hlen
      simp at hlen
      omega
    | cons a u =>
      rw [List.cons_append, List.cons.injEq] at hcs
      obtain ⟨rfl, rfl⟩ := hcs
      refine .head (step_append hstep hseal fun hsp => ?_) (ih rfl hseal fun hsp => ?_)
      · exact hline hsp _ _ _ (.refl _ _)
      · intro s₂ out₂ mid₂ hmid
        exact hline hsp _ _ _ (.head hstep hmid)

end Provenance
end Fragma
