import Mathlib.Data.List.Nodup
import Fragma.Provenance.Functions
import Fragma.Scan.Brackets

/-!
# What the extractor knows about the delimiters

`fragma/provenance.py`, `extract_function`: the loop that pairs the delimiters of the
ordinary code.  Its table of depths says which starts of the code are balanced, and its
table of pairs relates the two ends of a group.  The extractor looks both up by the index
of an ordinary token, and slices the whole stream by the place of that token in it.

* `delimiterPairs`: the brackets of the extractor.
* `Paired`: what the variables of the loop say about the tokens it has seen;
  `paired_of_delimiters` for the whole loop.
* `getElem?_normalTokens`: the index of an ordinary token and its place in the stream.
-/

namespace Fragma
namespace Provenance

open Scan

theorem closing_of_opening {o c : Text} (h : opening o = some c) : c ∈ closing := by
  unfold opening at h
  split_ifs at h <;> simp only [Option.some.injEq] at h <;> subst h <;> decide

theorem opening_of_closing {c : Text} (h : c ∈ closing) : opening c = none := by
  simp only [closing, List.mem_cons, List.not_mem_nil, or_false] at h
  rcases h with rfl | rfl | rfl <;> rfl

/-- The brackets of the extractor. -/
def delimiterPairs : Pairing Text where
  closer := opening
  closes v := v ∈ closing
  closes_of_closer h := by simpa using closing_of_opening h
  closer_of_closes h := opening_of_closing (by simpa using h)

/-- Values in which every delimiter is closed by its partner. -/
abbrev Balanced (values : List Text) : Prop := delimiterPairs.Balanced values

/-- The values of the ordinary tokens. -/
def code (tokens : List Token) : List Text :=
  (tokens.filter fun t => t.kind == .c).map Token.value

@[simp] theorem code_nil : code [] = [] := rfl

@[simp] theorem code_append (a b : List Token) : code (a ++ b) = code a ++ code b := by
  rw [code, code, code, List.filter_append, List.map_append]

theorem code_cons {t : Token} {ts : List Token} (ht : t.kind = .c) :
    code (t :: ts) = t.value :: code ts := by
  rw [code, List.filter_cons_of_pos (by rw [ht]; rfl), List.map_cons, code]

/-- The ordinary code of a stream is read off its values and kinds. -/
theorem code_eq_of_view {a b : List Token} (h : a.map Token.view = b.map Token.view) :
    code a = code b := by
  have hcode : ∀ ts : List Token, code ts =
      ((ts.map Token.view).filter fun p => p.2 == .c).map Prod.fst := by
    intro ts
    rw [List.filter_map, List.map_map]
    rfl
  rw [hcode, hcode, h]

/-! ## The loop -/

/-- The entries at two places are the ends of a group. -/
def Group (values : List Text) (i j : ℕ) : Prop :=
  ∃ front o inner c rest, values = front ++ o :: (inner ++ c :: rest) ∧ front.length = i ∧
    j = i + 1 + inner.length ∧ opening o = some c ∧ Balanced inner

theorem Group.append {values : List Text} {i j : ℕ} (h : Group values i j) (more : List Text) :
    Group (values ++ more) i j := by
  obtain ⟨front, o, inner, c, rest, rfl, hi, hj, ho, hin⟩ := h
  refine ⟨front, o, inner, c, rest ++ more, ?_, hi, hj, ho, hin⟩
  rw [List.append_assoc, List.cons_append, List.append_assoc, List.cons_append]

/-- What the variables of the loop say about the values it has seen. -/
structure Paired (seen : List Text) (d : Delimiters) : Prop where
  opened : delimiterPairs.Opened seen (d.stack.map (Prod.map id Token.value))
  length : d.depths.length = seen.length
  depth : ∀ i < seen.length, d.depths[i]? = some 0 ↔ Balanced (seen.take i)
  matched : ∀ i j, (i, j) ∈ d.matching →
    (∃ c, seen[i]? = some c ∧ opening c = none) ∨ Group seen i j

theorem Paired.initial : Paired [] ⟨[], [], []⟩ where
  opened := .closed .nil
  length := rfl
  depth := by simp
  matched := by simp

/-- The depth that a turn appends. -/
theorem Paired.depth_append {seen : List Text} {d : Delimiters} (h : Paired seen d) (v : Text) :
    ∀ i < (seen ++ [v]).length,
      (d.depths ++ [d.stack.length])[i]? = some 0 ↔ Balanced ((seen ++ [v]).take i) := by
  intro i hi
  rw [List.length_append, List.length_singleton] at hi
  by_cases hlt : i < seen.length
  · rw [List.getElem?_append_left (by rw [h.length]; exact hlt),
      List.take_append_of_le_length hlt.le]
    exact h.depth i hlt
  · have hlast : i = seen.length := by omega
    rw [hlast, List.take_left, ← h.length, List.getElem?_concat_length]
    show _ ↔ delimiterPairs.Balanced seen
    rw [h.opened.balanced_iff, List.map_eq_nil_iff, Option.some.injEq, List.length_eq_zero_iff]

theorem Paired.matched_append {seen : List Text} {d : Delimiters} (h : Paired seen d) (v : Text)
    {i j : ℕ} (hm : (i, j) ∈ d.matching) :
    (∃ c, (seen ++ [v])[i]? = some c ∧ opening c = none) ∨ Group (seen ++ [v]) i j := by
  rcases h.matched i j hm with ⟨c, hc, ho⟩ | hgroup
  · have hlt : i < seen.length := (List.getElem?_eq_some_iff.mp hc).1
    exact .inl ⟨c, by rw [List.getElem?_append_left hlt, hc], ho⟩
  · exact .inr (hgroup.append [v])

/-- **One turn of the loop keeps what its variables say.** -/
theorem Paired.step {seen : List Text} {d d' : Delimiters} {t : Token} (h : Paired seen d)
    (hs : d.step seen.length t = .ok d') : Paired (seen ++ [t.value]) d' := by
  have hlength : (d.depths ++ [d.stack.length]).length = (seen ++ [t.value]).length := by
    simp only [List.length_append, h.length, List.length_singleton]
  unfold Delimiters.step at hs
  dsimp only at hs
  split_ifs at hs with hopen hclose
  · rw [Except.ok.injEq] at hs
    subst hs
    exact ⟨h.opened.push hopen, hlength, h.depth_append _, fun i j => h.matched_append _⟩
  · cases hstack : d.stack with
    | nil =>
      rw [hstack] at hs
      exact absurd hs (by simp)
    | cons p stack =>
      obtain ⟨start, t'⟩ := p
      rw [hstack] at hs
      dsimp only at hs
      split_ifs at hs with hpair
      have ho : opening t'.value = some t.value := by simpa using hpair
      have hopened := h.opened
      rw [hstack] at hopened
      obtain ⟨hout, front, inner, hseen, hfront, hin⟩ := hopened.pop ho
      rw [Except.ok.injEq] at hs
      subst hs
      refine ⟨hout, ?_, ?_, ?_⟩
      · rw [hstack] at hlength
        exact hlength
      · have hdepth := h.depth_append t.value
        rw [hstack] at hdepth
        exact hdepth
      · intro i j hm
        rcases List.mem_cons.mp hm with heq | hm
        · obtain ⟨rfl, rfl⟩ := Prod.mk.inj heq
          refine .inr ⟨front, t'.value, inner, t.value, [], ?_, hfront, ?_, ho, hin⟩
          · rw [hseen, List.append_assoc, List.cons_append]
          · rw [hseen, List.length_append, List.length_cons, hfront]
            show i + _ = i + 1 + _
            omega
        rcases List.mem_cons.mp hm with heq | hm
        · obtain ⟨rfl, rfl⟩ := Prod.mk.inj heq
          exact .inl ⟨t.value, List.getElem?_concat_length, opening_of_closing hclose⟩
        · exact h.matched_append _ hm
  · rw [Except.ok.injEq] at hs
    subst hs
    have hnone : opening t.value = none := by simpa using hopen
    have hplain : Balanced [t.value] := .plain hnone (by simpa [delimiterPairs] using hclose) .nil
    exact ⟨h.opened.append hplain, hlength, h.depth_append _, fun i j => h.matched_append _⟩

theorem Paired.run {ts : List Token} : ∀ {seen : List Text} {d d' : Delimiters}, Paired seen d →
    d.run (ts.zipIdx seen.length) = .ok d' → Paired (seen ++ ts.map Token.value) d' := by
  induction ts with
  | nil =>
    intro seen d d' h hr
    rw [List.zipIdx_nil, Delimiters.run, Except.ok.injEq] at hr
    rw [← hr, List.map_nil, List.append_nil]
    exact h
  | cons t ts ih =>
    intro seen d d' h hr
    rw [List.zipIdx_cons, Delimiters.run] at hr
    cases hs : d.step seen.length t with
    | error e =>
      rw [hs] at hr
      exact absurd hr (by simp)
    | ok d₁ =>
      rw [hs] at hr
      dsimp only at hr
      have hlength : seen.length + 1 = (seen ++ [t.value]).length := by simp
      rw [hlength] at hr
      have hrest := ih (h.step hs) hr
      rwa [List.append_assoc, List.singleton_append] at hrest

/-! ## Indices and places -/

theorem normalTokens_append (a b : List Token) :
    normalTokens (a ++ b) =
      normalTokens a ++ (b.zipIdx a.length).filter fun p => p.1.kind == .c := by
  rw [normalTokens, normalTokens, List.zipIdx_append, List.filter_append, Nat.zero_add]

theorem map_value_normalTokens (all : List Token) :
    (normalTokens all).map (fun p => p.1.value) = code all := by
  have hfst : (all.zipIdx).map Prod.fst = all := List.zipIdx_map_fst 0 all
  have hmap : (normalTokens all).map Prod.fst = all.filter fun t => t.kind == .c := by
    conv_rhs => rw [← hfst]
    rw [List.filter_map]
    rfl
  rw [code, ← hmap, List.map_map]
  rfl

@[simp] theorem length_normalTokens (all : List Token) :
    (normalTokens all).length = (code all).length := by
  rw [← map_value_normalTokens, List.length_map]

theorem getElem?_normalTokens_value {all : List Token} {i : ℕ} {p : Token × ℕ}
    (h : (normalTokens all)[i]? = some p) : (code all)[i]? = some p.1.value := by
  rw [← map_value_normalTokens, List.getElem?_map, h]
  rfl

theorem nodup_normalTokens (all : List Token) : (normalTokens all).Nodup := by
  refine List.Nodup.filter _ (List.Nodup.of_map Prod.snd ?_)
  rw [List.zipIdx_map_snd]
  exact List.nodup_range'

/-- An ordinary token has its index among the ordinary tokens. -/
theorem getElem?_normalTokens_of_append {a b : List Token} {t : Token} (ht : t.kind = .c) :
    (normalTokens (a ++ t :: b))[(code a).length]? = some (t, a.length) := by
  rw [normalTokens_append, ← length_normalTokens, List.getElem?_append_right le_rfl, Nat.sub_self,
    List.zipIdx_cons, List.filter_cons_of_pos (by rw [ht]; rfl)]
  rfl

/-- **The index of an ordinary token and its place in the stream.** -/
theorem getElem?_normalTokens {all : List Token} {i raw : ℕ} {t : Token} :
    (normalTokens all)[i]? = some (t, raw) ↔
      ∃ a b, all = a ++ t :: b ∧ a.length = raw ∧ (code a).length = i ∧ t.kind = .c := by
  constructor
  · intro h
    obtain ⟨hmem, hkind⟩ := List.mem_filter.mp (List.mem_of_getElem? h)
    have hc : t.kind = .c := by simpa using hkind
    have hraw : all[raw]? = some t := List.mem_zipIdx_iff_getElem?.mp hmem
    obtain ⟨hlt, hget⟩ := List.getElem?_eq_some_iff.mp hraw
    have hall : all = all.take raw ++ t :: all.drop (raw + 1) := by
      rw [← hget, List.getElem_cons_drop, List.take_append_drop]
    have hlength : (all.take raw).length = raw := by
      rw [List.length_take]
      omega
    have hself := getElem?_normalTokens_of_append (a := all.take raw) (b := all.drop (raw + 1)) hc
    rw [← hall, hlength] at hself
    refine ⟨all.take raw, all.drop (raw + 1), hall, hlength, ?_, hc⟩
    obtain ⟨hi, hgi⟩ := List.getElem?_eq_some_iff.mp h
    obtain ⟨hj, hgj⟩ := List.getElem?_eq_some_iff.mp hself
    exact (nodup_normalTokens all).getElem_inj_iff.mp (hgj.trans hgi.symm)
  · rintro ⟨a, b, rfl, rfl, rfl, ht⟩
    exact getElem?_normalTokens_of_append ht

/-- What the loop over the ordinary tokens of a stream leaves. -/
theorem paired_of_delimiters {all : List Token} {d : Delimiters}
    (h : delimiters (normalTokens all) = .ok d) : Paired (code all) d ∧ Balanced (code all) := by
  unfold delimiters at h
  cases hrun : Delimiters.run ⟨[], [], []⟩ (((normalTokens all).map Prod.fst).zipIdx) with
  | error e =>
    rw [hrun] at h
    exact absurd h (by simp)
  | ok d' =>
    rw [hrun] at h
    have hpaired := Paired.initial.run hrun
    rw [List.nil_append, List.map_map] at hpaired
    have hcode : (normalTokens all).map (Token.value ∘ Prod.fst) = code all :=
      map_value_normalTokens all
    rw [hcode] at hpaired
    obtain ⟨stack, matching, depths⟩ := d'
    cases stack with
    | cons p stack => exact absurd h (by simp)
    | nil =>
      rw [Except.ok.injEq] at h
      rw [← h]
      exact ⟨hpaired, hpaired.opened.balanced_iff.mpr rfl⟩

end Provenance
end Fragma
