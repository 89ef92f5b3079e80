import Mathlib.Data.Rat.Defs
import Mathlib.Data.String.Basic
import Mathlib.Data.List.Infix
import Mathlib.Tactic.SplitIfs

/-!
# Python values as JSON has them

The programs of the repository pass decoded JSON around and look at it with `get`,
`==`, `in`, `isinstance` and truth tests.  `Value` is such a value.  A dictionary is
the list of its entries; where a key stands twice, the first entry counts.

Python compares across types: `True == 1 == 1.0`, and dictionaries whatever the order
of their entries.  `norm` writes a value in one way only, so that two values are equal
to Python inside a container exactly when their normal forms are the same.

* `Value`, `Value.norm`, `Value.Same`, `Value.eq`: values and their equality.
* `Value.truthy`, `Value.get`, `Value.iterate`, `Value.contains`: how they are used.
* `Exn`: the exceptions that this can raise.
* `Same.get`, `Same.contains`: equal values are used alike.
-/

namespace Fragma
namespace Python

/-- A floating-point number, by the number it stands for. -/
inductive Float where
  | finite (q : ℚ)
  | infinite (negative : Bool)
  | nan
  deriving DecidableEq

/-- A value: what `json.loads` returns. -/
inductive Value where
  | none
  | bool (b : Bool)
  | int (n : ℤ)
  | float (x : Float)
  | str (s : String)
  | list (xs : List Value)
  | dict (entries : List (String × Value))

/-- The entries of a dictionary. -/
abbrev Dict := List (String × Value)

namespace Value

instance : Inhabited Value := ⟨.none⟩

/-! ## Deciding identity -/

mutual

/-- Whether two values are written alike. -/
def alike : Value → Value → Bool
  | .none, .none => true
  | .bool a, .bool b => a = b
  | .int m, .int n => m = n
  | .float x, .float y => x = y
  | .str s, .str t => s = t
  | .list xs, .list ys => alikeList xs ys
  | .dict ps, .dict qs => alikeDict ps qs
  | _, _ => false
termination_by structural a => a

def alikeList : List Value → List Value → Bool
  | [], [] => true
  | x :: xs, y :: ys => alike x y && alikeList xs ys
  | _, _ => false
termination_by structural xs => xs

def alikeDict : List (String × Value) → List (String × Value) → Bool
  | [], [] => true
  | p :: ps, q :: qs => alikeEntry p q && alikeDict ps qs
  | _, _ => false
termination_by structural ps => ps

def alikeEntry : String × Value → String × Value → Bool
  | (k, v), (l, w) => k = l && alike v w
termination_by structural p => p

end

mutual

theorem alike_iff : ∀ {a b : Value}, alike a b = true ↔ a = b
  | .none, b => by cases b <;> simp [alike]
  | .bool _, b => by cases b <;> simp [alike]
  | .int _, b => by cases b <;> simp [alike]
  | .float _, b => by cases b <;> simp [alike]
  | .str _, b => by cases b <;> simp [alike]
  | .list xs, b => by
    cases b <;> simp [alike]
    exact alikeList_iff
  | .dict ps, b => by
    cases b <;> simp [alike]
    exact alikeDict_iff

theorem alikeList_iff : ∀ {xs ys : List Value}, alikeList xs ys = true ↔ xs = ys
  | [], ys => by cases ys <;> simp [alikeList]
  | x :: xs, ys => by
    cases ys with
    | nil => simp [alikeList]
    | cons y ys =>
      rw [alikeList, Bool.and_eq_true, alike_iff, alikeList_iff, List.cons.injEq]

theorem alikeDict_iff : ∀ {ps qs : List (String × Value)}, alikeDict ps qs = true ↔ ps = qs
  | [], qs => by cases qs <;> simp [alikeDict]
  | (k, v) :: ps, qs => by
    cases qs with
    | nil => simp [alikeDict]
    | cons q qs =>
      rw [alikeDict, alikeEntry, Bool.and_eq_true, Bool.and_eq_true, alike_iff, alikeDict_iff,
        decide_eq_true_eq, List.cons.injEq, Prod.ext_iff]

end

instance : DecidableEq Value := fun a b => decidable_of_iff (alike a b = true) alike_iff

/-! ## Normal forms -/

/-- An entry put into a list of entries that is sorted by its keys.  It takes the place
of an entry with the same key. -/
def insertEntry (k : String) (v : Value) : List (String × Value) → List (String × Value)
  | [] => [(k, v)]
  | (l, w) :: ps =>
    if k = l then (k, v) :: ps
    else if k < l then (k, v) :: (l, w) :: ps
    else (l, w) :: insertEntry k v ps

/-- A number in the form in which equal numbers are the same. -/
def normFloat : Float → Value
  | .finite q => if q.den = 1 then .int q.num else .float (.finite q)
  | x => .float x

mutual

/-- A value in the form in which equal values are the same. -/
def norm : Value → Value
  | .bool b => .int (if b then 1 else 0)
  | .float x => normFloat x
  | .list xs => .list (normList xs)
  | .dict ps => .dict (normDict ps)
  | v => v
termination_by structural v => v

def normList : List Value → List Value
  | [] => []
  | x :: xs => norm x :: normList xs
termination_by structural xs => xs

def normDict : List (String × Value) → List (String × Value)
  | [] => []
  | p :: ps => insertEntry (normEntry p).1 (normEntry p).2 (normDict ps)
termination_by structural ps => ps

def normEntry : String × Value → String × Value
  | (k, v) => (k, norm v)
termination_by structural p => p

end

/-- Equality as the containers use it: being the same object counts, so it is
reflexive. -/
def Same (a b : Value) : Prop := a.norm = b.norm

instance (a b : Value) : Decidable (Same a b) := inferInstanceAs (Decidable (a.norm = b.norm))

/-- `a == b`. -/
def eq (a b : Value) : Bool := a ≠ .float .nan && Same a b

theorem same_refl (a : Value) : Same a a := rfl

theorem Same.symm {a b : Value} (h : Same a b) : Same b a := Eq.symm h

theorem Same.trans {a b c : Value} (h : Same a b) (h' : Same b c) : Same a c := Eq.trans h h'

theorem eq_iff {a b : Value} : eq a b = true ↔ a ≠ .float .nan ∧ Same a b := by
  rw [eq, Bool.and_eq_true, decide_eq_true_eq, decide_eq_true_eq]

/-! ## How values are used -/

/-- `bool(v)`. -/
def truthy : Value → Bool
  | .none => false
  | .bool b => b
  | .int n => n ≠ 0
  | .float (.finite q) => q ≠ 0
  | .float _ => true
  | .str s => s ≠ ""
  | .list xs => xs ≠ []
  | .dict ps => ps ≠ []

/-- A value that can be an element of a set or a key. -/
def hashable : Value → Bool
  | .list _ => false
  | .dict _ => false
  | _ => true

/-- `isinstance(v, str) and v`. -/
def isName : Value → Bool
  | .str s => s ≠ ""
  | _ => false

/-- `d.get(k, default)`. -/
def get (d : Dict) (k : String) (default : Value := .none) : Value := (d.lookup k).getD default

/-- `k in d`. -/
def has (d : Dict) (k : String) : Bool := (d.lookup k).isSome

/-- The elements that a loop over the value sees. -/
def iterate : Value → Option (List Value)
  | .list xs => some xs
  | .str s => some (s.toList.map fun c => .str (String.singleton c))
  | .dict ps => some (ps.map fun p => .str p.1)
  | _ => Option.none

/-- `x in elements`, for a set. -/
def member (elements : List Value) (x : Value) : Bool := elements.any fun y => decide (Same x y)

/-- The elements of a set, each once: an element that equals an earlier one is dropped. -/
def distinct : List Value → List Value
  | [] => []
  | x :: xs => x :: (distinct xs).filter fun y => !decide (Same y x)

/-- `set(v)`, where that is defined. -/
def toSet (v : Value) : Option (List Value) :=
  match v.iterate with
  | some xs => if xs.all hashable then some (distinct xs) else Option.none
  | Option.none => Option.none

/-- `len(set(xs)) == len(xs)`, for hashable elements. -/
def allDistinct : List Value → Bool
  | [] => true
  | x :: xs => !member xs x && allDistinct xs

/-- `a <= b`, for sets. -/
def subset (a b : List Value) : Bool := a.all (member b)

/-- `a & b`, for sets. -/
def meet (a b : List Value) : List Value := a.filter (member b)

/-- `d[k] = v`. -/
def set (d : Dict) (k : String) (v : Value) : Dict :=
  if has d k then d.map fun p => if p.1 = k then (k, v) else p else d ++ [(k, v)]

/-- `x in container`, where that is defined. -/
def contains : Value → Value → Option Bool
  | .list xs, x => some (xs.any fun y => decide (Same x y))
  | .dict ps, x => if x.hashable then some (ps.any fun p => x = .str p.1) else Option.none
  | .str s, .str t => some (decide (t.toList <:+: s.toList))
  | _, _ => Option.none

/-! ## Equal values are used alike -/

theorem normList_eq_map (xs : List Value) : normList xs = xs.map norm := by
  induction xs with
  | nil => rfl
  | cons x xs ih => rw [normList, ih, List.map_cons]

theorem norm_eq_str_iff {v : Value} {s : String} : v.norm = .str s ↔ v = .str s := by
  cases v with
  | float x =>
    cases x with
    | finite q => rw [norm, normFloat]; split_ifs <;> simp
    | infinite b => simp [norm, normFloat]
    | nan => simp [norm, normFloat]
  | _ => simp [norm]

theorem norm_eq_list_iff {v : Value} {ys : List Value} :
    v.norm = .list ys ↔ ∃ xs, v = .list xs ∧ xs.map norm = ys := by
  cases v with
  | float x =>
    cases x with
    | finite q => rw [norm, normFloat]; split_ifs <;> simp
    | infinite b => simp [norm, normFloat]
    | nan => simp [norm, normFloat]
  | list xs => simp [norm, normList_eq_map]
  | _ => simp [norm]

theorem norm_eq_dict_iff {v : Value} {qs : Dict} :
    v.norm = .dict qs ↔ ∃ ps, v = .dict ps ∧ normDict ps = qs := by
  cases v with
  | float x =>
    cases x with
    | finite q => rw [norm, normFloat]; split_ifs <;> simp
    | infinite b => simp [norm, normFloat]
    | nan => simp [norm, normFloat]
  | dict ps => simp [norm]
  | _ => simp [norm]

/-- A value that equals a string is that string. -/
theorem same_str_iff {v : Value} {s : String} : Same v (.str s) ↔ v = .str s := norm_eq_str_iff

theorem eq_str_iff {v : Value} {s : String} : eq v (.str s) = true ↔ v = .str s := by
  rw [eq_iff, same_str_iff]
  constructor
  · exact fun h => h.2
  · rintro rfl
    exact ⟨by simp, rfl⟩

/-- An entry that is a string is found whatever the default is. -/
theorem get_of_get {d : Dict} {k s : String} (h : get d k = .str s) (default : Value) :
    get d k default = .str s := by
  unfold get at h ⊢
  cases hk : d.lookup k with
  | none =>
    rw [hk] at h
    exact absurd h (by simp)
  | some v =>
    rw [hk] at h
    exact h

theorem lookup_cons_ite (k l : String) (v : Value) (ps : Dict) :
    List.lookup k ((l, v) :: ps) = if k = l then some v else List.lookup k ps := by
  rw [List.lookup_cons]
  split_ifs with h
  · rw [h, beq_self_eq_true]
  · rw [beq_false_of_ne h]

theorem lookup_insertEntry (k l : String) (v : Value) (ps : Dict) :
    (insertEntry k v ps).lookup l = if l = k then some v else ps.lookup l := by
  induction ps with
  | nil => rw [insertEntry, lookup_cons_ite]
  | cons p ps ih =>
    obtain ⟨m, w⟩ := p
    rw [insertEntry]
    split_ifs with h1 h2 h3 h4 h5
    · rw [h2, lookup_cons_ite, if_pos rfl]
    · rw [lookup_cons_ite, if_neg h2, lookup_cons_ite, if_neg (h1 ▸ h2)]
    · rw [h4, lookup_cons_ite, if_pos rfl]
    · rw [lookup_cons_ite, if_neg h4]
    · rw [lookup_cons_ite, ih, if_pos h5, if_neg (h5 ▸ h1)]
    · rw [lookup_cons_ite, ih, if_neg h5, lookup_cons_ite]

theorem lookup_normDict (ps : Dict) (k : String) :
    (normDict ps).lookup k = (ps.lookup k).map norm := by
  induction ps with
  | nil => rfl
  | cons p ps ih =>
    obtain ⟨l, v⟩ := p
    rw [normDict, normEntry, lookup_insertEntry, ih, lookup_cons_ite]
    split_ifs
    · rfl
    · rfl

theorem member_iff {xs : List Value} {x : Value} : member xs x = true ↔ ∃ y ∈ xs, Same x y := by
  simp [member]

/-- A set of strings has the strings that were put into it. -/
theorem member_str_iff {xs : List Value} {s : String} :
    member xs (.str s) = true ↔ Value.str s ∈ xs := by
  rw [member_iff]
  constructor
  · rintro ⟨y, hy, hs⟩
    rwa [← same_str_iff.mp hs.symm]
  · exact fun h => ⟨_, h, same_refl _⟩

/-- A member of a set of strings is a string. -/
theorem exists_str_of_member {ss : List String} {v : Value} (h : member (ss.map .str) v = true) :
    ∃ s ∈ ss, v = .str s := by
  obtain ⟨y, hy, hsame⟩ := member_iff.mp h
  obtain ⟨s, hs, rfl⟩ := List.mem_map.mp hy
  exact ⟨s, hs, same_str_iff.mp hsame⟩

theorem lookup_map_set (d : Dict) {k l : String} (v : Value) (h : l ≠ k) :
    List.lookup l (d.map fun p => if p.1 = k then (k, v) else p) = List.lookup l d := by
  induction d with
  | nil => rfl
  | cons p ps ih =>
    obtain ⟨m, w⟩ := p
    rw [List.map_cons]
    by_cases hm : m = k
    · rw [if_pos hm, lookup_cons_ite, if_neg h, lookup_cons_ite, if_neg (hm ▸ h), ih]
    · rw [if_neg hm, lookup_cons_ite, lookup_cons_ite, ih]

/-- Setting an entry leaves the others. -/
theorem get_set_of_ne (d : Dict) {k l : String} (v default : Value) (h : l ≠ k) :
    get (set d k v) l default = get d l default := by
  unfold get set
  split_ifs
  · rw [lookup_map_set d v h]
  · rw [List.lookup_append, lookup_cons_ite, if_neg h]
    simp

theorem mem_of_mem_distinct {xs : List Value} {x : Value} (h : x ∈ distinct xs) : x ∈ xs := by
  induction xs with
  | nil => exact h
  | cons y ys ih =>
    rcases List.mem_cons.mp h with rfl | h
    · exact List.mem_cons_self
    · exact List.mem_cons_of_mem _ (ih (List.mem_of_mem_filter h))

@[simp] theorem member_distinct (xs : List Value) (x : Value) :
    member (distinct xs) x = member xs x := by
  rw [Bool.eq_iff_iff, member_iff, member_iff]
  constructor
  · rintro ⟨y, hy, hxy⟩
    exact ⟨y, mem_of_mem_distinct hy, hxy⟩
  · rintro ⟨y, hy, hxy⟩
    induction xs with
    | nil => exact absurd hy List.not_mem_nil
    | cons z zs ih =>
      by_cases hz : Same x z
      · exact ⟨z, List.mem_cons_self, hz⟩
      · have hyz : y ∈ zs := (List.mem_cons.mp hy).resolve_left fun h => hz (h ▸ hxy)
        obtain ⟨w, hw, hxw⟩ := ih hyz
        refine ⟨w, List.mem_cons_of_mem _ (List.mem_filter.mpr ⟨hw, ?_⟩), hxw⟩
        simpa using fun h => hz (hxw.trans h)

/-- A set has the elements that were put into it. -/
theorem toSet_eq_some {v : Value} {set : List Value} (h : v.toSet = some set) :
    ∃ xs, v.iterate = some xs ∧ set = distinct xs := by
  unfold toSet at h
  split at h
  · next xs heq =>
    split_ifs at h
    exact ⟨xs, heq, (Option.some.inj h).symm⟩
  · exact absurd h (by simp)

/-- Equal dictionaries have equal entries. -/
theorem Same.get {ps qs : Dict} (h : Same (.dict ps) (.dict qs)) (k : String) (default : Value) :
    Same (get ps k default) (get qs k default) := by
  have hnorm : normDict ps = normDict qs := by simpa [Same, norm] using h
  have hlookup := congrArg (fun d => List.lookup k d) hnorm
  simp only [lookup_normDict] at hlookup
  unfold Value.get
  cases hp : ps.lookup k with
  | none =>
    rw [hp] at hlookup
    rw [Option.map_eq_none_iff.mp hlookup.symm]
    exact same_refl _
  | some v =>
    rw [hp] at hlookup
    obtain ⟨w, hw, hvw⟩ := Option.map_eq_some_iff.mp hlookup.symm
    rw [hw]
    exact hvw.symm

theorem Same.has {ps qs : Dict} (h : Same (.dict ps) (.dict qs)) (k : String) :
    has ps k = has qs k := by
  have hnorm : normDict ps = normDict qs := by simpa [Same, norm] using h
  have hlookup := congrArg (fun d => (List.lookup k d).isSome) hnorm
  simp only [lookup_normDict, Option.isSome_map] at hlookup
  exact hlookup

theorem has_eq_any (d : Dict) (k : String) : has d k = d.any fun p => Value.str k = .str p.1 := by
  induction d with
  | nil => rfl
  | cons p ps ih =>
    obtain ⟨l, v⟩ := p
    rw [has, lookup_cons_ite, List.any_cons, ← ih]
    by_cases h : k = l
    · simp [h]
    · simp [h, has]

theorem contains_list (xs : List Value) (x : Value) :
    contains (.list xs) x = some ((xs.map norm).any fun y => x.norm = y) := by
  rw [contains, List.any_map]
  rfl

/-- Equal containers contain the same strings. -/
theorem Same.contains {c c' : Value} (h : Same c c') (k : String) :
    contains c (.str k) = contains c' (.str k) := by
  have hscalar : ∀ d d' : Value, Same d d' → Value.contains d (.str k) = Option.none →
      Value.contains d' (.str k) = Option.none := by
    intro d d' hd hnone
    cases d' with
    | list ys =>
      obtain ⟨xs, rfl, -⟩ := norm_eq_list_iff.mp hd
      exact absurd hnone (by simp [Value.contains])
    | dict qs =>
      obtain ⟨ps, rfl, -⟩ := norm_eq_dict_iff.mp hd
      exact absurd hnone (by simp [Value.contains, hashable])
    | str s =>
      rw [norm_eq_str_iff.mp hd] at hnone
      exact absurd hnone (by simp [Value.contains])
    | _ => rfl
  cases c with
  | list xs =>
    obtain ⟨ys, rfl, hmap⟩ := norm_eq_list_iff.mp h.symm
    rw [contains_list, contains_list, ← normList_eq_map xs, ← hmap]
  | dict ps =>
    obtain ⟨qs, rfl, -⟩ := norm_eq_dict_iff.mp h.symm
    simp only [Value.contains, hashable, if_true, Option.some.injEq]
    rw [← has_eq_any, ← has_eq_any]
    exact Same.has h k
  | str s =>
    have : c' = .str s := norm_eq_str_iff.mp h.symm
    rw [this]
  | none => exact (hscalar _ _ h rfl).symm
  | bool b => exact (hscalar _ _ h rfl).symm
  | int n => exact (hscalar _ _ h rfl).symm
  | float x => exact (hscalar _ _ h rfl).symm

end Value
end Python
end Fragma
