import Fragma.Python.Json

/-!
# Locations in a value

A location in a value is the list of the keys that lead to it through dictionaries.  It is
written as a path, with a slash in front of every key; a tilde and a slash in a key are
escaped, so a path belongs to one location.

* `Value.at`: what stands at a location, with `at_append` and `at_sorted`.
* `escape`, `pointer`: the path, and `pointer_injective`.
-/

namespace Fragma
namespace Python

namespace Value

/-- What stands at a location. -/
def «at» : Value → List String → Option Value
  | v, [] => some v
  | .dict ps, k :: loc => (ps.lookup k).bind fun v => v.at loc
  | _, _ :: _ => Option.none

@[simp] theorem at_nil (v : Value) : v.at [] = some v := by
  cases v <;> rfl

@[simp] theorem at_dict_cons (ps : Dict) (k : String) (loc : List String) :
    (Value.dict ps).at (k :: loc) = (ps.lookup k).bind fun v => v.at loc := rfl

/-- Only a dictionary has anything below it. -/
theorem exists_dict_of_at {v w : Value} {k : String} {loc : List String}
    (h : v.at (k :: loc) = some w) : ∃ ps, v = .dict ps := by
  cases v with
  | dict ps => exact ⟨ps, rfl⟩
  | _ => exact absurd h (by simp [Value.at])

theorem at_append (v : Value) (loc loc' : List String) :
    v.at (loc ++ loc') = (v.at loc).bind fun w => w.at loc' := by
  induction loc generalizing v with
  | nil => simp
  | cons k loc ih =>
    cases v with
    | dict ps =>
      rw [List.cons_append, at_dict_cons, at_dict_cons]
      cases ps.lookup k with
      | none => rfl
      | some w => exact ih w
    | _ => rfl

/-- What stands at a location of a value with sorted keys. -/
theorem at_sorted (v : Value) (loc : List String) : v.sorted.at loc = (v.at loc).map sorted := by
  induction loc generalizing v with
  | nil => simp
  | cons k loc ih =>
    cases v with
    | dict ps =>
      rw [sorted, at_dict_cons, at_dict_cons, lookup_sortedDict]
      cases ps.lookup k with
      | none => rfl
      | some w => exact ih w
    | _ => rfl

end Value

/-- `s.replace(c, text)` for a single character. -/
def replaceChar (c : Char) (text s : List Char) : List Char :=
  s.flatMap fun d => if d = c then text else [d]

/-- `key.replace("~", "~0").replace("/", "~1")`. -/
def escapeChars (key : List Char) : List Char :=
  replaceChar '/' ['~', '1'] (replaceChar '~' ['~', '0'] key)

/-- The characters that one character is escaped to. -/
def escapeChar (c : Char) : List Char :=
  if c = '~' then ['~', '0'] else if c = '/' then ['~', '1'] else [c]

@[simp] theorem escapeChars_nil : escapeChars [] = [] := rfl

@[simp] theorem escapeChars_cons (c : Char) (cs : List Char) :
    escapeChars (c :: cs) = escapeChar c ++ escapeChars cs := by
  unfold escapeChars replaceChar escapeChar
  rw [List.flatMap_cons]
  split_ifs with h1 h2
  · rfl
  · rw [h2]
    rfl
  · rw [List.singleton_append, List.flatMap_cons, if_neg h2]

/-- A location as the characters of its path. -/
def pointerChars : List String → List Char
  | [] => []
  | k :: loc => '/' :: (escapeChars k.toList ++ pointerChars loc)

/-- A path starts with a slash, if it is not empty. -/
theorem pointerChars_head {loc : List String} {c : Char} {cs : List Char}
    (h : pointerChars loc = c :: cs) : c = '/' := by
  cases loc with
  | nil => exact absurd h (by simp [pointerChars])
  | cons k loc => exact (List.cons.inj h).1.symm

/-- An escaped key ends where its path goes on with a slash. -/
theorem escapeChars_append_inj {k k' p p' : List Char}
    (hp : ∀ c ∈ p.head?, c = '/') (hp' : ∀ c ∈ p'.head?, c = '/')
    (h : escapeChars k ++ p = escapeChars k' ++ p') : k = k' ∧ p = p' := by
  have hne : ∀ c : Char, ∃ x xs, escapeChar c = x :: xs ∧ x ≠ '/' := by
    intro c
    unfold escapeChar
    split_ifs with h1 h2
    · exact ⟨_, _, rfl, by decide⟩
    · exact ⟨_, _, rfl, by decide⟩
    · exact ⟨_, _, rfl, h2⟩
  induction k generalizing k' with
  | nil =>
    cases k' with
    | nil => exact ⟨rfl, h⟩
    | cons c' k' =>
      obtain ⟨x, xs, hx, hslash⟩ := hne c'
      rw [escapeChars_nil, List.nil_append, escapeChars_cons, hx] at h
      exact absurd (hp x (by rw [h]; rfl)) hslash
  | cons c k ih =>
    cases k' with
    | nil =>
      obtain ⟨x, xs, hx, hslash⟩ := hne c
      rw [escapeChars_nil, List.nil_append, escapeChars_cons, hx] at h
      exact absurd (hp' x (by rw [← h]; rfl)) hslash
    | cons c' k' =>
      rw [escapeChars_cons, escapeChars_cons, List.append_assoc, List.append_assoc] at h
      have hcut : c = c' ∧ escapeChars k ++ p = escapeChars k' ++ p' := by
        unfold escapeChar at h
        split_ifs at h with h1 h2 h3 h4 h5 h6 h7 h8
        · exact ⟨h1.trans h2.symm, by simpa using h⟩
        · simp at h
        · simp only [List.cons_append, List.nil_append, List.cons.injEq] at h
          exact absurd h.1.symm h2
        · simp at h
        · exact ⟨h4.trans h6.symm, by simpa using h⟩
        · simp only [List.cons_append, List.nil_append, List.cons.injEq] at h
          exact absurd h.1.symm h5
        · simp only [List.cons_append, List.nil_append, List.cons.injEq] at h
          exact absurd h.1 h1
        · simp only [List.cons_append, List.nil_append, List.cons.injEq] at h
          exact absurd h.1 h1
        · simpa using h
      obtain ⟨rfl, hp⟩ := ih hcut.2
      exact ⟨by rw [hcut.1], hp⟩

theorem pointerChars_injective {loc loc' : List String} (h : pointerChars loc = pointerChars loc') :
    loc = loc' := by
  induction loc generalizing loc' with
  | nil =>
    cases loc' with
    | nil => rfl
    | cons k loc' => exact absurd h (by simp [pointerChars])
  | cons k loc ih =>
    cases loc' with
    | nil => exact absurd h (by simp [pointerChars])
    | cons k' loc' =>
      have hhead : ∀ (loc : List String) (c : Char), c ∈ (pointerChars loc).head? → c = '/' := by
        intro loc c hc
        obtain ⟨cs, hcs⟩ := List.head?_eq_some_iff.mp hc
        exact pointerChars_head hcs
      obtain ⟨hkey, hrest⟩ := escapeChars_append_inj (hhead loc) (hhead loc') (List.cons.inj h).2
      rw [String.toList_inj.mp hkey, ih hrest]

/-- An escaped key. -/
def escape (key : String) : String := String.ofList (escapeChars key.toList)

/-- The path of a location. -/
def pointer : List String → String
  | [] => ""
  | k :: loc => "/" ++ escape k ++ pointer loc

theorem toList_pointer (loc : List String) : (pointer loc).toList = pointerChars loc := by
  induction loc with
  | nil => rfl
  | cons k loc ih =>
    rw [pointer, pointerChars, escape]
    simp [ih]

/-- **A path belongs to one location.** -/
theorem pointer_injective {loc loc' : List String} (h : pointer loc = pointer loc') : loc = loc' := by
  have hchars := congrArg String.toList h
  rw [toList_pointer, toList_pointer] at hchars
  exact pointerChars_injective hchars

end Python
end Fragma
