import Mathlib.Data.List.DropRight
import Fragma.Provenance.Delimited

/-!
# The one definition

`fragma/provenance.py`, `extract_function`: what it returns.  A definition of a name is
the name at depth zero, a parenthesised group and a braced group, behind a declaration
prefix that goes back to the last `;`, `}` or end of a directive.  The extractor returns
the only one there is, and of the tokens around it only their balance matters.

* `Heads`: an occurrence of the name that starts a definition.
* `Defines`: a definition, cut out of a stream of tokens.
* `definitionAt_some`, `definitionAt_ne_none`: the extractor finds the definitions and
  overlooks none.
* `Defines.unique`: the index of its name decides a definition.
* `extractFunction_defines`: what is returned is the one definition, and it depends on
  nothing else.
-/

namespace Fragma
namespace Provenance

open Scan

/-- Behind these values the name stands at depth zero, followed by a parenthesised group
and a brace. -/
def Heads (name : Text) (values front : List Text) : Prop :=
  ∃ params rest, values = front ++ name :: ['('] :: (params ++ [')'] :: ['\x7b'] :: rest) ∧
    Balanced front ∧ Balanced params

/-- A definition of the name in the stream `before ++ pre ++ core ++ after`: its tokens
`core` and its declaration prefix `pre`. -/
structure Defines (name : Text) (before pre core : List Token) : Prop where
  depth : Balanced (code (before ++ pre))
  boundary : before = [] ∨ ∃ t ∈ before.getLast?, t.value ∈ prefixStops
  nonempty : pre ≠ []
  inside : ∀ t ∈ pre, t.value ∉ prefixStops
  ends : ∃ first middle last, core = first :: (middle ++ [last]) ∧ first.kind = .c ∧ last.kind = .c
  groups : ∃ params body, code core =
      name :: ['('] :: (params ++ [')'] :: ['\x7b'] :: (body ++ [['\x7d']])) ∧
    Balanced params ∧ Balanced body

/-! ## The declaration prefix -/

/-- The prefix is the longest run without a stop in front of the name. -/
theorem prefixBefore_eq (a b : List Token) :
    prefixBefore (a ++ b) a.length =
      (a.rtakeWhile fun t => t.value ∉ prefixStops).map Token.value := by
  rw [prefixBefore, List.take_left, ← List.map_reverse, List.takeWhile_map, List.rtakeWhile,
    List.map_reverse]
  rfl

/-- In front of the prefix there is nothing or a stop. -/
theorem boundary_rdropWhile (a : List Token) :
    (a.rdropWhile fun t => t.value ∉ prefixStops) = [] ∨
      ∃ t ∈ (a.rdropWhile fun t => t.value ∉ prefixStops).getLast?, t.value ∈ prefixStops := by
  by_cases hne : (a.rdropWhile fun t => t.value ∉ prefixStops) = []
  · exact .inl hne
  · have hlast := List.rdropWhile_last_not (fun t : Token => (decide (t.value ∉ prefixStops))) a hne
    refine .inr ⟨_, List.getLast_mem_getLast? hne, ?_⟩
    simpa using hlast

theorem rtakeWhile_of_boundary {before pre : List Token}
    (hboundary : before = [] ∨ ∃ t ∈ before.getLast?, t.value ∈ prefixStops)
    (hinside : ∀ t ∈ pre, t.value ∉ prefixStops) :
    ((before ++ pre).rtakeWhile fun t => t.value ∉ prefixStops) = pre := by
  rw [List.rtakeWhile, List.reverse_append,
    List.takeWhile_append_of_pos (by simpa using hinside), List.reverse_append,
    List.reverse_reverse]
  rcases hboundary with rfl | ⟨t, ht, hstop⟩
  · rfl
  · obtain ⟨l, rfl⟩ := List.getLast?_eq_some_iff.mp ht
    rw [List.reverse_append, List.reverse_singleton, List.singleton_append,
      List.takeWhile_cons_of_neg (by simpa using hstop)]
    rfl

/-! ## The extractor finds definitions -/

theorem Group.cut {front : List Text} {o : Text} {rest : List Text} {j : ℕ}
    (h : Group (front ++ o :: rest) front.length j) :
    ∃ inner c rest', opening o = some c ∧ Balanced inner ∧ rest = inner ++ c :: rest' ∧
      j = front.length + 1 + inner.length := by
  obtain ⟨front', o', inner, c, rest', heq, hlength, hj, ho, hin⟩ := h
  obtain ⟨rfl, htail⟩ := List.append_inj heq hlength.symm
  obtain ⟨rfl, rfl⟩ := List.cons.inj htail
  exact ⟨inner, c, rest', ho, hin, rfl, hj⟩

/-- The pair of an opening delimiter. -/
theorem Paired.cut {front rest : List Text} {o : Text} {d : Delimiters} {j : ℕ}
    (h : Paired (front ++ o :: rest) d) (ho : (opening o).isSome)
    (hl : d.matching.lookup front.length = some j) :
    ∃ inner c rest', opening o = some c ∧ Balanced inner ∧ rest = inner ++ c :: rest' ∧
      j = front.length + 1 + inner.length := by
  have hmem : (front.length, j) ∈ d.matching := by
    obtain ⟨l₁, l₂, hsplit, -⟩ := List.lookup_eq_some_iff.mp hl
    rw [hsplit]
    simp
  rcases h.matched _ _ hmem with ⟨c, hc, hnone⟩ | hgroup
  · rw [List.getElem?_append_right le_rfl, Nat.sub_self, List.getElem?_cons_zero,
      Option.some.injEq] at hc
    rw [hc, hnone] at ho
    exact absurd ho (by simp)
  · exact hgroup.cut

theorem exists_cons_of_getElem? {α : Type*} {front rest : List α} {v : α} {i : ℕ}
    (h : (front ++ rest)[i]? = some v) (hi : i = front.length) : ∃ rest', rest = v :: rest' := by
  rw [hi, List.getElem?_append_right le_rfl, Nat.sub_self] at h
  cases rest with
  | nil => exact absurd h (by simp)
  | cons w rest =>
    rw [List.getElem?_cons_zero, Option.some.injEq] at h
    exact ⟨rest, by rw [h]⟩

/-- The lookups of the extractor at a definition, put together. -/
theorem Paired.groups {front rest : List Text} {name : Text} {d : Delimiters} {close last : ℕ}
    (h : Paired (front ++ name :: rest) d)
    (hopen : (front ++ name :: rest)[front.length + 1]? = some ['('])
    (hclose : d.matching.lookup (front.length + 1) = some close)
    (hbrace : (front ++ name :: rest)[close + 1]? = some ['\x7b'])
    (hlast : d.matching.lookup (close + 1) = some last) :
    ∃ params body rest',
      rest = ['('] :: (params ++ [')'] :: ['\x7b'] :: (body ++ ['\x7d'] :: rest')) ∧
      Balanced params ∧ Balanced body ∧ last = front.length + params.length + body.length + 4 := by
  rw [List.append_cons] at h hopen hbrace
  have hlength : (front ++ [name]).length = front.length + 1 := by simp
  obtain ⟨rest₁, rfl⟩ := exists_cons_of_getElem? hopen hlength.symm
  obtain ⟨params, c, rest₂, hc, hparams, rfl, hj⟩ := h.cut rfl (by rw [hlength]; exact hclose)
  obtain rfl : [')'] = c := Option.some.inj hc
  have hassoc : front ++ [name] ++ ['('] :: (params ++ [')'] :: rest₂) =
      front ++ [name] ++ ['('] :: (params ++ [[')']]) ++ rest₂ := by simp
  have hlength' : close + 1 = (front ++ [name] ++ ['('] :: (params ++ [[')']])).length := by
    rw [hj, hlength]
    simp
    omega
  rw [hassoc] at h hbrace
  obtain ⟨rest₃, rfl⟩ := exists_cons_of_getElem? hbrace hlength'
  obtain ⟨body, c, rest₄, hc, hbody, rfl, hj'⟩ := h.cut rfl (by rw [← hlength']; exact hlast)
  obtain rfl : ['\x7d'] = c := Option.some.inj hc
  refine ⟨params, body, rest₄, rfl, hparams, hbody, ?_⟩
  rw [hj', ← hlength', hj, hlength]
  omega

/-- The tokens between two places of a stream. -/
theorem slice_eq {α : Type*} {a b a' b' : List α} {x y : α} (h : a ++ x :: b = a' ++ y :: b')
    (hlt : a.length < a'.length) :
    ∃ middle, b = middle ++ y :: b' ∧ a' = a ++ x :: middle ∧
      (((a ++ x :: b).take (a'.length + 1)).drop a.length) = x :: (middle ++ [y]) := by
  rcases List.append_eq_append_iff.mp h with ⟨more, rfl, hmore⟩ | ⟨more, rfl, hmore⟩
  · cases more with
    | nil =>
      rw [List.append_nil] at hlt
      exact absurd hlt (lt_irrefl _)
    | cons z more =>
      rw [List.cons_append, List.cons.injEq] at hmore
      obtain ⟨rfl, rfl⟩ := hmore
      refine ⟨more, rfl, rfl, ?_⟩
      have hsplit : a ++ x :: (more ++ y :: b') = a ++ x :: (more ++ [y]) ++ b' := by simp
      have hlength : (a ++ x :: more).length + 1 = (a ++ x :: (more ++ [y])).length := by
        simp [Nat.add_assoc]
      rw [hsplit, hlength, List.take_left, List.drop_left]
  · rw [List.length_append] at hlt
    omega

/-- What the extractor looked up when it found a definition. -/
theorem definitionAt_lookups {all : List Token} {d : Delimiters} {name : Text} {i : ℕ}
    {f : Function} (h : definitionAt all (normalTokens all) d name i = .ok (some f)) :
    ∃ token raw close last t rawEnd, (normalTokens all)[i]? = some (token, raw) ∧
      token.value = name ∧ d.depths[i]? = some 0 ∧ (code all)[i + 1]? = some ['('] ∧
      d.matching.lookup (i + 1) = some close ∧ (code all)[close + 1]? = some ['\x7b'] ∧
      d.matching.lookup (close + 1) = some last ∧ (normalTokens all)[last]? = some (t, rawEnd) ∧
      prefixBefore all raw ≠ [] ∧
      f.tokens = ((all.take (rawEnd + 1)).drop raw).map Token.value ∧
      f.declarationPrefix = prefixBefore all raw := by
  unfold definitionAt at h
  split at h
  · next token raw next rawNext hi hn =>
    split_ifs at h with h1
    · exact absurd h (by simp)
    push Not at h1
    obtain ⟨hname, hdepth, hnext⟩ := h1
    split at h
    · exact absurd h (by simp)
    next close hclose =>
    split at h
    · exact absurd h (by simp)
    next following rawFollowing hfollowing =>
    by_cases h2 : following.value ∈ nonDefinition
    · rw [if_pos h2] at h
      exact absurd h (by simp)
    by_cases h3 : following.value = ['\x7b']
    swap
    · rw [if_neg h2, if_pos h3] at h
      exact absurd h (by simp)
    rw [if_neg h2, if_neg (not_not.mpr h3)] at h
    dsimp only at h
    rcases ite_eq_iff.mp h with ⟨-, h⟩ | ⟨h4, h⟩
    · exact absurd h (by simp)
    rcases ite_eq_iff.mp h with ⟨-, h⟩ | ⟨-, h⟩
    · exact absurd h (by simp)
    split at h
    · exact absurd h (by simp)
    next last hlast =>
    split at h
    · exact absurd h (by simp)
    next t rawEnd hend =>
    rw [Except.ok.injEq, Option.some.injEq] at h
    subst h
    push Not at h4
    refine ⟨token, raw, close, last, t, rawEnd, hi, hname, hdepth, ?_, hclose, ?_, hlast, hend,
      h4.1, rfl, rfl⟩
    · rw [← hnext]
      exact getElem?_normalTokens_value hn
    · rw [← h3]
      exact getElem?_normalTokens_value hfollowing
  · exact absurd h (by simp)

/-- **What the extractor finds is a definition.** -/
theorem definitionAt_some {all : List Token} {d : Delimiters} {name : Text} {i : ℕ} {f : Function}
    (hd : Paired (code all) d)
    (h : definitionAt all (normalTokens all) d name i = .ok (some f)) :
    ∃ before pre core after, all = before ++ pre ++ core ++ after ∧ Defines name before pre core ∧
      (code (before ++ pre)).length = i ∧ f.tokens = core.map Token.value ∧
      f.declarationPrefix = pre.map Token.value := by
  obtain ⟨token, raw, close, last, t, rawEnd, hi, hname, hdepth, hopen, hclose, hbrace, hlast, hend,
    hprefix, htokens, hdeclaration⟩ := definitionAt_lookups h
  obtain ⟨a, b, hall, rfl, rfl, hkind⟩ := getElem?_normalTokens.mp hi
  have hcode : code all = code a ++ name :: code b := by
    rw [hall, code_append, code_cons hkind, hname]
  -- the groups behind the name
  have hpaired := hd
  rw [hcode] at hpaired hopen hbrace
  obtain ⟨params, body, rest, hrest, hparams, hbody, hlastEq⟩ :=
    hpaired.groups hopen hclose hbrace hlast
  -- the slice of the stream
  obtain ⟨a', b', hall', rfl, hindex, hkind'⟩ := getElem?_normalTokens.mp hend
  have hlt : a.length < a'.length := by
    by_contra hle
    have hprefix : a' <+: a := List.prefix_of_prefix_length_le
      (hall' ▸ List.prefix_append a' (t :: b')) (hall ▸ List.prefix_append a (token :: b))
      (by omega)
    obtain ⟨more, rfl⟩ := hprefix
    rw [code_append, List.length_append] at hlastEq
    omega
  obtain ⟨middle, rfl, rfl, hslice⟩ := slice_eq (hall.symm.trans hall') hlt
  rw [hall, hslice] at htokens
  rw [hall, prefixBefore_eq] at hdeclaration hprefix
  -- the code of the slice
  have hcore : code (token :: (middle ++ [t])) = name :: ['('] :: (params ++ [')'] :: ['\x7b'] ::
      (body ++ [['\x7d']])) := by
    have hmiddle : code (middle ++ t :: b') = code middle ++ t.value :: code b' := by
      rw [code_append, code_cons hkind']
    have hsplit : code middle ++ t.value :: code b' =
        ['('] :: (params ++ [')'] :: ['\x7b'] :: body) ++ ['\x7d'] :: rest := by
      rw [← hmiddle, hrest]
      simp
    have hsame : (code middle).length =
        (['('] :: (params ++ [')'] :: ['\x7b'] :: body)).length := by
      rw [code_append, code_cons hkind, List.length_append] at hindex
      simp only [List.length_cons, List.length_append] at hindex ⊢
      omega
    obtain ⟨hleft, hright⟩ := List.append_inj hsplit hsame
    obtain ⟨hvalue, -⟩ := List.cons.inj hright
    rw [code_cons hkind, hname, code_append, code_cons hkind', hleft, hvalue]
    simp
  refine ⟨a.rdropWhile fun t => t.value ∉ prefixStops, a.rtakeWhile fun t => t.value ∉ prefixStops,
    token :: (middle ++ [t]), b', ?_, ⟨?_, boundary_rdropWhile a, ?_, ?_, ?_, ?_⟩, ?_, htokens,
    hdeclaration⟩
  · rw [List.rdropWhile_append_rtakeWhile, hall]
    simp
  · rw [List.rdropWhile_append_rtakeWhile]
    have hlength : (code a).length < (code all).length := by
      rw [hcode, List.length_append, List.length_cons]
      omega
    have hbalanced := (hd.depth _ hlength).mp hdepth
    rwa [hcode, List.take_left] at hbalanced
  · intro hnil
    exact hprefix (by rw [hnil]; rfl)
  · intro x hx
    simpa using List.mem_rtakeWhile_imp hx
  · exact ⟨token, middle, t, rfl, hkind, hkind'⟩
  · exact ⟨params, body, hcore, hparams, hbody⟩
  · rw [List.rdropWhile_append_rtakeWhile]

/-- **The extractor overlooks no definition.** -/
theorem definitionAt_ne_none {all : List Token} {d : Delimiters} {name : Text} {front : List Text}
    (hd : Paired (code all) d) (h : Heads name (code all) front) :
    definitionAt all (normalTokens all) d name front.length ≠ .ok none := by
  obtain ⟨params, rest, hcode, hfront, hparams⟩ := h
  intro hnone
  unfold definitionAt at hnone
  have hlength : front.length + 1 < (code all).length := by
    rw [hcode]
    simp
  obtain ⟨p, hp⟩ : ∃ p, (normalTokens all)[front.length]? = some p :=
    ⟨_, List.getElem?_eq_getElem (by rw [length_normalTokens]; omega)⟩
  obtain ⟨q, hq⟩ : ∃ q, (normalTokens all)[front.length + 1]? = some q :=
    ⟨_, List.getElem?_eq_getElem (by rw [length_normalTokens]; omega)⟩
  have hpv := getElem?_normalTokens_value hp
  have hqv := getElem?_normalTokens_value hq
  rw [hcode, List.getElem?_append_right (by omega), Nat.sub_self, List.getElem?_cons_zero,
    Option.some.injEq] at hpv
  rw [hcode, List.getElem?_append_right (by omega), Nat.add_sub_cancel_left,
    List.getElem?_cons_succ, List.getElem?_cons_zero, Option.some.injEq] at hqv
  have hdepth : d.depths[front.length]? = some 0 := by
    rw [hd.depth _ (by omega), hcode, List.take_left]
    exact hfront
  rw [hp, hq] at hnone
  dsimp only at hnone
  rw [if_neg (by simp [← hpv, ← hqv, hdepth])] at hnone
  split at hnone
  · exact absurd hnone (by simp)
  next close hclose =>
  -- the parameters end where the extractor says
  have hclose' : close = front.length + 2 + params.length := by
    have hpaired := hd
    rw [hcode, List.append_cons] at hpaired
    have hlength' : (front ++ [name]).length = front.length + 1 := by simp
    obtain ⟨inner, c, rest', hc, hinner, hsame, hj⟩ :=
      hpaired.cut rfl (by rw [hlength']; exact hclose)
    obtain ⟨rfl, -⟩ := hparams.group_unique hinner (by decide)
      (delimiterPairs.closes_of_closer (o := ['(']) hc) hsame
    rw [hj, hlength']
  split at hnone
  · exact absurd hnone (by simp)
  next following rawFollowing hfollowing =>
  have hfv := getElem?_normalTokens_value hfollowing
  have hassoc : front ++ name :: ['('] :: (params ++ [')'] :: ['\x7b'] :: rest) =
      front ++ name :: ['('] :: (params ++ [[')']]) ++ ['\x7b'] :: rest := by simp
  have hplace : close + 1 = (front ++ name :: ['('] :: (params ++ [[')']])).length := by
    rw [hclose']
    simp
    omega
  rw [hcode, hassoc, hplace, List.getElem?_append_right le_rfl, Nat.sub_self,
    List.getElem?_cons_zero, Option.some.injEq] at hfv
  rw [← hfv, if_neg (by decide), if_neg (by simp)] at hnone
  rcases ite_eq_iff.mp hnone with ⟨-, hnone⟩ | ⟨-, hnone⟩
  · exact absurd hnone (by simp)
  rcases ite_eq_iff.mp hnone with ⟨-, hnone⟩ | ⟨-, hnone⟩
  · exact absurd hnone (by simp)
  split at hnone
  · exact absurd hnone (by simp)
  split at hnone
  · exact absurd hnone (by simp)
  · exact absurd hnone (by simp)

/-! ## The only one -/

theorem definitions_eq_nil {all : List Token} {normal : List (Token × ℕ)} {d : Delimiters}
    {name : Text} : ∀ {is : List ℕ}, definitions all normal d name is = .ok [] →
      ∀ j ∈ is, definitionAt all normal d name j = .ok none := by
  intro is
  induction is with
  | nil => intro _ j hj; exact absurd hj (by simp)
  | cons i is ih =>
    intro h j hj
    rw [definitions] at h
    cases hi : definitionAt all normal d name i with
    | error e =>
      rw [hi] at h
      exact absurd h (by simp)
    | ok found =>
      rw [hi] at h
      dsimp only at h
      cases hrest : definitions all normal d name is with
      | error e =>
        rw [hrest] at h
        exact absurd h (by simp [Except.map])
      | ok fs =>
        rw [hrest, Except.map, Except.ok.injEq, List.append_eq_nil_iff] at h
        rw [h.2] at hrest
        rcases List.mem_cons.mp hj with rfl | hj
        · rw [hi, Option.toList_eq_nil_iff.mp h.1]
        · exact ih hrest j hj

/-- One definition among the given tokens: one token starts it and no other starts one. -/
theorem definitions_eq_singleton {all : List Token} {normal : List (Token × ℕ)} {d : Delimiters}
    {name : Text} {f : Function} : ∀ {is : List ℕ}, definitions all normal d name is = .ok [f] →
      ∃ i ∈ is, definitionAt all normal d name i = .ok (some f) ∧
        ∀ j ∈ is, j ≠ i → definitionAt all normal d name j = .ok none := by
  intro is
  induction is with
  | nil => intro h; exact absurd h (by simp [definitions])
  | cons i is ih =>
    intro h
    rw [definitions] at h
    cases hi : definitionAt all normal d name i with
    | error e =>
      rw [hi] at h
      exact absurd h (by simp)
    | ok found =>
      rw [hi] at h
      dsimp only at h
      cases hrest : definitions all normal d name is with
      | error e =>
        rw [hrest] at h
        exact absurd h (by simp [Except.map])
      | ok fs =>
        rw [hrest, Except.map, Except.ok.injEq] at h
        cases found with
        | none =>
          rw [Option.toList_none, List.nil_append] at h
          rw [h] at hrest
          obtain ⟨i', hmem, hi', hother⟩ := ih hrest
          refine ⟨i', List.mem_cons_of_mem i hmem, hi', fun j hj hne => ?_⟩
          rcases List.mem_cons.mp hj with rfl | hj
          · exact hi
          · exact hother j hj hne
        | some g =>
          rw [Option.toList_some, List.singleton_append, List.cons.injEq] at h
          rw [h.2] at hrest
          refine ⟨i, List.mem_cons_self, by rw [hi, h.1], fun j hj hne => ?_⟩
          rcases List.mem_cons.mp hj with rfl | hj
          · exact absurd rfl hne
          · exact definitions_eq_nil hrest j hj

/-- What stands behind an accepted extraction. -/
theorem extractFrom_ok {all : List Token} {name : Text} {f : Function}
    (h : extractFrom all name = .ok f) :
    ∃ d i, Paired (code all) d ∧ Balanced (code all) ∧
      definitionAt all (normalTokens all) d name i = .ok (some f) ∧
      ∀ front, Heads name (code all) front → front.length = i := by
  unfold extractFrom at h
  dsimp only at h
  cases hd : delimiters (normalTokens all) with
  | error e =>
    rw [hd] at h
    exact absurd h (by simp)
  | ok d =>
    rw [hd] at h
    dsimp only at h
    obtain ⟨hpaired, hbalanced⟩ := paired_of_delimiters hd
    split at h
    · exact absurd h (by simp)
    · next g hg =>
      rw [Except.ok.injEq] at h
      subst h
      obtain ⟨i, -, hi, hother⟩ := definitions_eq_singleton hg
      refine ⟨d, i, hpaired, hbalanced, hi, fun front hfront => ?_⟩
      by_contra hne
      have hlt : front.length < (normalTokens all).length := by
        obtain ⟨params, rest, hcode, -, -⟩ := hfront
        rw [length_normalTokens, hcode]
        simp
      exact definitionAt_ne_none hpaired hfront
        (hother _ (List.mem_range.mpr hlt) hne)
    · exact absurd h (by simp)

theorem Defines.heads {name : Text} {before pre core : List Token}
    (h : Defines name before pre core) (after : List Token) :
    Heads name (code (before ++ pre ++ core ++ after)) (code (before ++ pre)) := by
  obtain ⟨params, body, hcore, hparams, -⟩ := h.groups
  refine ⟨params, body ++ ['\x7d'] :: code after, ?_, h.depth, hparams⟩
  rw [code_append, code_append (before ++ pre), hcore]
  simp

/-- A name is no delimiter. -/
theorem plain_of_isIdentifier {name : Text} (h : isIdentifier name) :
    delimiterPairs.closer name = none ∧ delimiterPairs.closes name = false := by
  have hne : ∀ v ∈ [['('], ['['], ['\x7b'], [')'], [']'], ['\x7d']], name ≠ v := by
    intro v hv heq
    have hv' : isIdentifier v = false := by
      simp only [List.mem_cons, List.not_mem_nil, or_false] at hv
      rcases hv with rfl | rfl | rfl | rfl | rfl | rfl <;> decide
    rw [heq, hv'] at h
    exact absurd h (by simp)
  constructor
  · show opening name = none
    unfold opening
    rw [if_neg (hne _ (by simp)), if_neg (hne _ (by simp)), if_neg (hne _ (by simp))]
  · show decide (name ∈ closing) = false
    simp [closing, hne]

/-- The tokens of a definition are balanced. -/
theorem Defines.balanced {name : Text} {before pre core : List Token}
    (h : Defines name before pre core) (hname : isIdentifier name) : Balanced (code core) := by
  obtain ⟨params, body, hcore, hparams, hbody⟩ := h.groups
  obtain ⟨ho, hc⟩ := plain_of_isIdentifier hname
  have hbraces : Balanced (['\x7b'] :: (body ++ [['\x7d']])) := .single rfl hbody
  rw [hcore]
  exact .plain ho hc (.group rfl hparams hbraces)

/-- **The index of its name decides a definition.** -/
theorem Defines.unique {name : Text} {before pre core after before' pre' core' after' : List Token}
    (h : Defines name before pre core) (h' : Defines name before' pre' core')
    (heq : before ++ pre ++ core ++ after = before' ++ pre' ++ core' ++ after')
    (hi : (code (before ++ pre)).length = (code (before' ++ pre')).length) :
    pre = pre' ∧ core = core' := by
  obtain ⟨first, middle, last, hends, hfirst, hlast⟩ := h.ends
  obtain ⟨first', middle', last', hends', hfirst', hlast'⟩ := h'.ends
  -- the places of the names agree
  have hat := getElem?_normalTokens_of_append (a := before ++ pre) (b := middle ++ [last] ++ after)
    hfirst
  have hat' := getElem?_normalTokens_of_append (a := before' ++ pre')
    (b := middle' ++ [last'] ++ after') hfirst'
  have hsplit : before ++ pre ++ core ++ after =
      before ++ pre ++ first :: (middle ++ [last] ++ after) := by
    rw [hends]
    simp
  have hsplit' : before' ++ pre' ++ core' ++ after' =
      before' ++ pre' ++ first' :: (middle' ++ [last'] ++ after') := by
    rw [hends']
    simp
  rw [← hsplit, heq, hsplit', hi, hat', Option.some.injEq, Prod.mk.injEq] at hat
  rw [List.append_assoc, List.append_assoc (before' ++ pre')] at heq
  obtain ⟨hfront, hrest⟩ := List.append_inj heq hat.2.symm
  have hpre : pre = pre' := by
    rw [← rtakeWhile_of_boundary h.boundary h.inside, hfront,
      rtakeWhile_of_boundary h'.boundary h'.inside]
  -- and so do those of the last braces
  obtain ⟨params, body, hcore, hparams, hbody⟩ := h.groups
  obtain ⟨params', body', hcore', hparams', hbody'⟩ := h'.groups
  have hcode := congrArg code hrest
  rw [code_append, code_append, hcore, hcore'] at hcode
  simp only [List.cons_append, List.append_assoc, List.cons.injEq, true_and,
    List.nil_append] at hcode
  obtain ⟨rfl, -, hcode⟩ := hparams.group_unique hparams' (by decide) (by decide) hcode
  obtain ⟨rfl, -, hcode⟩ := hbody.group_unique hbody' (by decide) (by decide)
    (List.cons.inj hcode).2
  have hlength : (code core).length = (code core').length := by rw [hcore, hcore']
  have hstart : core = first :: middle ++ [last] := hends
  have hstart' : core' = first' :: middle' ++ [last'] := hends'
  have hend := getElem?_normalTokens_of_append (a := first :: middle) (b := after) hlast
  have hend' := getElem?_normalTokens_of_append (a := first' :: middle') (b := after') hlast'
  have hwhole : core ++ after = first :: middle ++ last :: after := by
    rw [hstart]
    simp
  have hwhole' : core' ++ after' = first' :: middle' ++ last' :: after' := by
    rw [hstart']
    simp
  have hindex : (code (first :: middle)).length = (code (first' :: middle')).length := by
    rw [hstart, hstart', code_append, code_append, List.length_append, List.length_append,
      code_cons hlast, code_cons hlast'] at hlength
    simpa using hlength
  rw [← hwhole, hrest, hwhole', hindex, hend', Option.some.injEq, Prod.mk.injEq] at hend
  have hcores : core.length = core'.length := by
    rw [hstart, hstart', List.length_append, List.length_append, hend.2]
    rfl
  exact ⟨hpre, (List.append_inj hrest hcores).1⟩

/-! ## What is returned -/

/-- In a stream that has the definition, and is accepted, it is what is returned. -/
theorem extractFrom_of_defines {name : Text} {before pre core after : List Token} {f : Function}
    (h : extractFrom (before ++ pre ++ core ++ after) name = .ok f)
    (hdef : Defines name before pre core) :
    f.tokens = core.map Token.value ∧ f.declarationPrefix = pre.map Token.value := by
  obtain ⟨d, i, hpaired, -, hi, honly⟩ := extractFrom_ok h
  obtain ⟨before', pre', core', after', hall, hdef', hindex, htokens, hprefix⟩ :=
    definitionAt_some hpaired hi
  have hplace : (code (before ++ pre)).length = (code (before' ++ pre')).length :=
    (honly _ (hdef.heads after)).trans hindex.symm
  obtain ⟨rfl, rfl⟩ := hdef.unique hdef' hall hplace
  exact ⟨htokens, hprefix⟩

/-- Values and kinds decide what is returned. -/
theorem extractFrom_of_view {all all' : List Token} {name : Text} {f : Function}
    (hv : all.map Token.view = all'.map Token.view) (h : extractFrom all name = .ok f) :
    ∃ f', extractFrom all' name = .ok f' ∧ f'.tokens = f.tokens ∧
      f'.declarationPrefix = f.declarationPrefix := by
  have hsame := extractFrom_forget all' name
  rw [← forget_eq_of_view hv, extractFrom_forget, h] at hsame
  cases h' : extractFrom all' name with
  | error e =>
    rw [h'] at hsame
    exact absurd hsame (by simp [forgetting])
  | ok f' =>
    rw [h'] at hsame
    simp only [forgetting, Except.ok.injEq, Function.forget, Function.mk.injEq] at hsame
    exact ⟨f', rfl, hsame.2.1.symm, hsame.2.2.1.symm⟩

/-- **The extractor returns the one definition, and depends on nothing else.**  The code is
balanced, what is returned is a definition of the name, nothing else starts one, and in every
other accepted source that has this definition between balanced tokens, behind a stop or at
the start of the file, the same is returned. -/
theorem extractFunction_defines {source name : Text} {f : Function}
    (h : extractFunction source name = .ok f) :
    ∃ before pre core after, lex source = .ok (before ++ pre ++ core ++ after) ∧
      Balanced (code (before ++ pre ++ core ++ after)) ∧ Defines name before pre core ∧
      f.tokens = core.map Token.value ∧ f.declarationPrefix = pre.map Token.value ∧
      (∀ front, Heads name (code (before ++ pre ++ core ++ after)) front →
        front = code (before ++ pre)) ∧
      ∀ source' all' before' after' f', lex source' = .ok all' →
        all'.map Token.view = (before' ++ pre ++ core ++ after').map Token.view →
        (before' = [] ∨ ∃ t ∈ before'.getLast?, t.value ∈ prefixStops) →
        Balanced (code before') → Balanced (code after') → extractFunction source' name = .ok f' →
        f'.tokens = f.tokens ∧ f'.declarationPrefix = f.declarationPrefix := by
  unfold extractFunction at h
  split_ifs at h with hname
  · cases hlex : lex source with
    | error e =>
      rw [hlex] at h
      exact absurd h (by simp)
    | ok all =>
      rw [hlex] at h
      dsimp only at h
      obtain ⟨d, i, hpaired, hbalanced, hi, honly⟩ := extractFrom_ok h
      obtain ⟨before, pre, core, after, rfl, hdef, hindex, htokens, hprefix⟩ :=
        definitionAt_some hpaired hi
      refine ⟨before, pre, core, after, rfl, hbalanced, hdef, htokens, hprefix, ?_, ?_⟩
      · intro front hfront
        have hplace : front.length = (code (before ++ pre)).length :=
          (honly front hfront).trans hindex.symm
        obtain ⟨_, _, hcode, -, -⟩ := hfront
        obtain ⟨_, _, hcode', -, -⟩ := hdef.heads after
        exact (List.append_inj (hcode.symm.trans hcode') hplace).1
      · intro source' all' before' after' f' hlex' hview hboundary hbefore hafter h'
        unfold extractFunction at h'
        rw [if_pos hname, hlex'] at h'
        dsimp only at h'
        obtain ⟨g, hg, hgtokens, hgprefix⟩ := extractFrom_of_view hview h'
        obtain ⟨-, -, -, hwhole, -, -⟩ := extractFrom_ok hg
        -- what is left of the balanced stream without the definition is balanced
        have hdepth : Balanced (code (before' ++ pre)) := by
          rw [code_append, code_append (before' ++ pre)] at hwhole
          exact (hdef.balanced hname).of_append_right (hafter.of_append_right hwhole)
        have hdef' : Defines name before' pre core :=
          ⟨hdepth, hboundary, hdef.nonempty, hdef.inside, hdef.ends, hdef.groups⟩
        obtain ⟨hsame, hsame'⟩ := extractFrom_of_defines hg hdef'
        exact ⟨by rw [← hgtokens, hsame, htokens], by rw [← hgprefix, hsame', hprefix]⟩

/-- A definition behind its prototype, with a directive in its body. -/
theorem extractFunction_defines_directive :
    ∃ before pre core after,
      lex "int f();\nint f() \x7b\n#if X\n#endif\n\x7d".toList =
          .ok (before ++ pre ++ core ++ after) ∧
        Defines ['f'] before pre core ∧ pre.map Token.value = ["int".toList] := by
  have hf : extractFunction "int f();\nint f() \x7b\n#if X\n#endif\n\x7d".toList ['f'] =
      .ok ⟨['f'], ["f", "(", ")", "\x7b", "<pp-start>", "if", "X", "<pp-end>", "<pp-start>",
        "endif", "<pp-end>", "\x7d"].map String.toList, ["int".toList], 2⟩ := by rfl
  obtain ⟨before, pre, core, after, hlex, -, hdef, -, hprefix, -⟩ := extractFunction_defines hf
  exact ⟨before, pre, core, after, hlex, hdef, hprefix.symm⟩

end Provenance
end Fragma
