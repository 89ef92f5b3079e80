import Fragma.Python.Value

/-!
# Values as `json.dumps` tells them apart

`fragma/integrity.py`, `_same_json`.  Two values are the same when `json.dumps` writes
both of them, with the keys sorted and without infinities, in the same way.  Unlike
`==`, this tells `True`, `1` and `1.0` apart, and like it, the order of the entries of a
dictionary does not matter.  A zero has no sign here.

* `Value.sorted`: a value with the keys of every dictionary in order.
* `Value.sameJson`: the comparison.
* `sameJson_of_sameJson`, `sameJson_get`: what is the same as a third value is the same,
  and so are its entries.
-/

namespace Fragma
namespace Python
namespace Value

mutual

/-- The value that `json.dumps(v, sort_keys=True)` writes. -/
def sorted : Value → Value
  | .list xs => .list (sortedList xs)
  | .dict ps => .dict (sortedDict ps)
  | v => v
termination_by structural v => v

def sortedList : List Value → List Value
  | [] => []
  | x :: xs => sorted x :: sortedList xs
termination_by structural xs => xs

def sortedDict : List (String × Value) → List (String × Value)
  | [] => []
  | p :: ps => insertEntry (sortedEntry p).1 (sortedEntry p).2 (sortedDict ps)
termination_by structural ps => ps

def sortedEntry : String × Value → String × Value
  | (k, v) => (k, sorted v)
termination_by structural p => p

end

mutual

/-- `json.dumps(v, allow_nan=False)` does not raise. -/
def isFinite : Value → Bool
  | .float (.finite _) => true
  | .float _ => false
  | .list xs => isFiniteList xs
  | .dict ps => isFiniteDict ps
  | _ => true
termination_by structural v => v

def isFiniteList : List Value → Bool
  | [] => true
  | x :: xs => isFinite x && isFiniteList xs
termination_by structural xs => xs

def isFiniteDict : List (String × Value) → Bool
  | [] => true
  | p :: ps => isFiniteEntry p && isFiniteDict ps
termination_by structural ps => ps

def isFiniteEntry : String × Value → Bool
  | (_, v) => isFinite v
termination_by structural p => p

end

/-- `_same_json(left, right)`. -/
def sameJson (left right : Value) : Bool :=
  isFinite left && isFinite right && sorted left = sorted right

theorem sameJson_iff {a b : Value} :
    sameJson a b = true ↔ isFinite a = true ∧ isFinite b = true ∧ sorted a = sorted b := by
  rw [sameJson, Bool.and_eq_true, Bool.and_eq_true, decide_eq_true_eq, and_assoc]

/-- What is the same as a third value is the same. -/
theorem sameJson_of_sameJson {a b c : Value} (h : sameJson c a = true) (h' : sameJson c b = true) :
    sameJson a b = true := by
  obtain ⟨-, ha, hca⟩ := sameJson_iff.mp h
  obtain ⟨-, hb, hcb⟩ := sameJson_iff.mp h'
  exact sameJson_iff.mpr ⟨ha, hb, hca.symm.trans hcb⟩

theorem lookup_sortedDict (ps : Dict) (k : String) :
    (sortedDict ps).lookup k = (ps.lookup k).map sorted := by
  induction ps with
  | nil => rfl
  | cons p ps ih =>
    obtain ⟨l, v⟩ := p
    rw [sortedDict, sortedEntry, lookup_insertEntry, ih, lookup_cons_ite]
    split_ifs
    · rfl
    · rfl

/-! ## Sorted entries -/

theorem insertEntry_keys {k : String} {v : Value} {ps : Dict}
    (h : ps.Pairwise fun p q => p.1 < q.1) :
    (insertEntry k v ps).Pairwise fun p q => p.1 < q.1 := by
  induction ps with
  | nil => exact List.pairwise_singleton _ _
  | cons p ps ih =>
    obtain ⟨l, w⟩ := p
    rw [List.pairwise_cons] at h
    rw [insertEntry]
    split_ifs with hkl hlt
    · rw [List.pairwise_cons, hkl]
      exact h
    · rw [List.pairwise_cons, List.pairwise_cons]
      refine ⟨fun q hq => ?_, h⟩
      rcases List.mem_cons.mp hq with rfl | hq
      · exact hlt
      · exact lt_trans hlt (h.1 q hq)
    · have hgt : l < k := lt_of_le_of_ne (not_lt.mp hlt) (Ne.symm hkl)
      rw [List.pairwise_cons]
      refine ⟨fun q hq => ?_, ih h.2⟩
      have hmem : ∀ qs : Dict, q ∈ insertEntry k v qs → q = (k, v) ∨ q ∈ qs := by
        intro qs
        induction qs with
        | nil => exact fun hq => .inl (List.mem_singleton.mp hq)
        | cons x qs ihq =>
          obtain ⟨m, u⟩ := x
          rw [insertEntry]
          split_ifs with h1 h2
          · intro hq
            exact (List.mem_cons.mp hq).imp id (List.mem_cons_of_mem _)
          · intro hq
            exact (List.mem_cons.mp hq).imp id id
          · intro hq
            rcases List.mem_cons.mp hq with rfl | hq
            · exact .inr List.mem_cons_self
            · exact (ihq hq).imp id (List.mem_cons_of_mem _)
      rcases hmem ps hq with rfl | hq
      · exact hgt
      · exact h.1 q hq

/-- The keys of a sorted dictionary go up. -/
theorem sortedDict_keys (ps : Dict) : (sortedDict ps).Pairwise fun p q => p.1 < q.1 := by
  induction ps with
  | nil => exact .nil
  | cons p ps ih => exact insertEntry_keys ih

theorem lookup_eq_none_of_lt {ps : Dict} {k : String} (h : ∀ p ∈ ps, k < p.1) :
    ps.lookup k = Option.none := by
  induction ps with
  | nil => rfl
  | cons p ps ih =>
    rw [List.forall_mem_cons] at h
    rw [lookup_cons_ite, if_neg (ne_of_lt h.1), ih h.2]

/-- Entries in order are determined by their lookups. -/
theorem eq_of_lookup {ps qs : Dict} (hp : ps.Pairwise fun p q => p.1 < q.1)
    (hq : qs.Pairwise fun p q => p.1 < q.1) (h : ∀ k, ps.lookup k = qs.lookup k) : ps = qs := by
  induction ps generalizing qs with
  | nil =>
    cases qs with
    | nil => rfl
    | cons q qs =>
      have hk := h q.1
      rw [lookup_cons_ite, if_pos rfl] at hk
      exact absurd hk (by simp)
  | cons p ps ih =>
    cases qs with
    | nil =>
      have hk := h p.1
      rw [lookup_cons_ite, if_pos rfl] at hk
      exact absurd hk (by simp)
    | cons q qs =>
      obtain ⟨k, v⟩ := p
      obtain ⟨l, w⟩ := q
      rw [List.pairwise_cons] at hp hq
      have hkl : k = l := by
        rcases lt_trichotomy k l with hlt | heq | hgt
        · have hk := h k
          rw [lookup_cons_ite, if_pos rfl, lookup_eq_none_of_lt] at hk
          · exact absurd hk (by simp)
          · intro x hx
            rcases List.mem_cons.mp hx with rfl | hx
            · exact hlt
            · exact lt_trans hlt (hq.1 x hx)
        · exact heq
        · have hl := h l
          rw [lookup_cons_ite (v := w), if_pos rfl, lookup_eq_none_of_lt] at hl
          · exact absurd hl (by simp)
          · intro x hx
            rcases List.mem_cons.mp hx with rfl | hx
            · exact hgt
            · exact lt_trans hgt (hp.1 x hx)
      subst hkl
      have hk := h k
      rw [lookup_cons_ite, if_pos rfl, lookup_cons_ite, if_pos rfl] at hk
      rw [Option.some.inj hk]
      refine congrArg _ (ih hp.2 hq.2 fun m => ?_)
      by_cases hm : m = k
      · rw [hm, lookup_eq_none_of_lt hp.1, lookup_eq_none_of_lt hq.1]
      · have hm' := h m
        rwa [lookup_cons_ite, if_neg hm, lookup_cons_ite, if_neg hm] at hm'

/-- **Dictionaries with the same entries are written in the same way.** -/
theorem sorted_dict_iff {ps qs : Dict} :
    (Value.dict ps).sorted = (Value.dict qs).sorted ↔
      ∀ k, (ps.lookup k).map sorted = (qs.lookup k).map sorted := by
  rw [sorted, sorted, Value.dict.injEq]
  constructor
  · intro h k
    rw [← lookup_sortedDict, ← lookup_sortedDict, h]
  · intro h
    refine eq_of_lookup (sortedDict_keys ps) (sortedDict_keys qs) fun k => ?_
    rw [lookup_sortedDict, lookup_sortedDict, h]

theorem isFinite_of_lookup {ps : Dict} {k : String} {v : Value} (h : isFiniteDict ps = true)
    (hk : ps.lookup k = some v) : isFinite v = true := by
  induction ps with
  | nil => exact absurd hk (by simp)
  | cons p ps ih =>
    obtain ⟨l, w⟩ := p
    rw [isFiniteDict, isFiniteEntry, Bool.and_eq_true] at h
    rw [lookup_cons_ite] at hk
    split_ifs at hk
    · exact Option.some.inj hk ▸ h.1
    · exact ih h.2 hk

/-- The entries of dictionaries that are the same are the same. -/
theorem sameJson_get {ps qs : Dict} (h : sameJson (.dict ps) (.dict qs) = true) (k : String) :
    sameJson (get ps k) (get qs k) = true := by
  obtain ⟨hp, hq, hsorted⟩ := sameJson_iff.mp h
  rw [sorted, sorted, Value.dict.injEq] at hsorted
  have hlookup := congrArg (List.lookup k) hsorted
  rw [lookup_sortedDict, lookup_sortedDict] at hlookup
  unfold get
  cases hpk : ps.lookup k with
  | none =>
    rw [hpk] at hlookup
    rw [Option.map_eq_none_iff.mp hlookup.symm]
    rfl
  | some v =>
    rw [hpk] at hlookup
    obtain ⟨w, hw, hvw⟩ := Option.map_eq_some_iff.mp hlookup.symm
    rw [hw]
    exact sameJson_iff.mpr ⟨isFinite_of_lookup hp hpk, isFinite_of_lookup hq hw, hvw.symm⟩

/-- Strings that are the same are equal. -/
@[simp] theorem sameJson_str {s t : String} : sameJson (.str s) (.str t) = true ↔ s = t := by
  rw [sameJson_iff]
  simp [isFinite, sorted]

end Value
end Python
end Fragma
