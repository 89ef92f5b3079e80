import Fragma.Python.Exn
import Fragma.Python.Json

/-!
# JSON documents

The text of a JSON file is read in two ways.  `json.loads` keeps the last of the entries of an
object with one key and reads `NaN`, `Infinity` and numbers out of range as floating-point numbers;
`strict_json` of `fragma/replay.py` refuses all of these.  A document is what the grammar sees in
the text, before either reading.

* `Doc`: a document.
* `Doc.value`, `Doc.strict`: the two readings.
* `Doc.value_of_strict`: **the strict reading is the lenient one.**
* `Doc.isFinite_of_strict`: it has no infinite numbers.
-/

namespace Fragma
namespace Python

/-- What the grammar of JSON sees in a text.  The constants are `NaN`, `Infinity` and `-Infinity`;
a number out of range is infinite. -/
inductive Doc where
  | null
  | bool (b : Bool)
  | int (n : ℤ)
  | number (x : Float)
  | constant (x : Float)
  | str (s : String)
  | arr (docs : List Doc)
  | obj (entries : List (String × Doc))

namespace Doc

/-! ## The two readings -/

mutual

/-- `json.loads(text)`. -/
def value : Doc → Value
  | .null => .none
  | .bool b => .bool b
  | .int n => .int n
  | .number x => .float x
  | .constant x => .float x
  | .str s => .str s
  | .arr docs => .list (valueList docs)
  | .obj entries => .dict (valueDict [] entries)
termination_by structural doc => doc

def valueList : List Doc → List Value
  | [] => []
  | doc :: docs => value doc :: valueList docs
termination_by structural docs => docs

/-- The entries of an object, after the entries `d`. -/
def valueDict (d : Dict) : List (String × Doc) → Dict
  | [] => d
  | entry :: entries => valueDict (Value.set d entry.1 (valueEntry entry)) entries
termination_by structural entries => entries

def valueEntry : String × Doc → Value
  | (_, doc) => value doc
termination_by structural entry => entry

end

/-- `ReplayError(message)`. -/
def replayError (message : String) : Exn := ⟨.valueError, message⟩

/-- The number is no infinity. -/
def isFiniteFloat : Float → Bool
  | .finite _ => true
  | _ => false

mutual

/-- `strict_json(text)`. -/
def strict : Doc → Except Exn Value
  | .null => .ok .none
  | .bool b => .ok (.bool b)
  | .int n => .ok (.int n)
  | .number x => if isFiniteFloat x then .ok (.float x) else .error (replayError "non-finite JSON number")
  | .constant _ => .error (replayError "non-finite JSON constant")
  | .str s => .ok (.str s)
  | .arr docs => (strictList docs).map .list
  | .obj entries => (strictDict [] entries).map .dict
termination_by structural doc => doc

def strictList : List Doc → Except Exn (List Value)
  | [] => .ok []
  | doc :: docs =>
    match strict doc with
    | .error e => .error e
    | .ok v => (strictList docs).map (v :: ·)
termination_by structural docs => docs

/-- The entries of an object, after the entries `d`. -/
def strictDict (d : Dict) : List (String × Doc) → Except Exn Dict
  | [] => .ok d
  | entry :: entries =>
    match strictEntry entry with
    | .error e => .error e
    | .ok v =>
      if Value.has d entry.1 then .error (replayError ("duplicate JSON key: " ++ entry.1))
      else strictDict (d ++ [(entry.1, v)]) entries
termination_by structural entries => entries

def strictEntry : String × Doc → Except Exn Value
  | (_, doc) => strict doc
termination_by structural entry => entry

end

/-! ## The strict reading is the lenient one -/

theorem set_of_not_has {d : Dict} {k : String} (h : Value.has d k = false) (v : Value) :
    Value.set d k v = d ++ [(k, v)] := by
  unfold Value.set
  rw [h]
  rfl

mutual

theorem value_of_strict : ∀ {doc : Doc} {v : Value}, strict doc = .ok v → v = value doc
  | .null, v, h => (Except.ok.inj h).symm
  | .bool b, v, h => (Except.ok.inj h).symm
  | .int n, v, h => (Except.ok.inj h).symm
  | .number x, v, h => by
    rw [strict] at h
    split_ifs at h
    exact (Except.ok.inj h).symm
  | .constant x, v, h => absurd h (by simp [strict])
  | .str s, v, h => (Except.ok.inj h).symm
  | .arr docs, v, h => by
    rw [strict] at h
    cases hdocs : strictList docs with
    | error e =>
      rw [hdocs] at h
      exact absurd h (by simp [Except.map])
    | ok vs =>
      rw [hdocs] at h
      rw [← Except.ok.inj h, value, valueList_of_strict hdocs]
  | .obj entries, v, h => by
    rw [strict] at h
    cases hentries : strictDict [] entries with
    | error e =>
      rw [hentries] at h
      exact absurd h (by simp [Except.map])
    | ok d =>
      rw [hentries] at h
      rw [← Except.ok.inj h, value, valueDict_of_strict hentries]

theorem valueList_of_strict : ∀ {docs : List Doc} {vs : List Value},
    strictList docs = .ok vs → vs = valueList docs
  | [], vs, h => (Except.ok.inj h).symm
  | doc :: docs, vs, h => by
    rw [strictList] at h
    split at h
    · exact absurd h (by simp)
    · next v hv =>
      cases hdocs : strictList docs with
      | error e =>
        rw [hdocs] at h
        exact absurd h (by simp [Except.map])
      | ok ws =>
        rw [hdocs] at h
        rw [← Except.ok.inj h, valueList, ← value_of_strict hv, ← valueList_of_strict hdocs]

theorem valueDict_of_strict : ∀ {entries : List (String × Doc)} {d d' : Dict},
    strictDict d entries = .ok d' → d' = valueDict d entries
  | [], d, d', h => (Except.ok.inj h).symm
  | (k, doc) :: entries, d, d', h => by
    rw [strictDict, strictEntry] at h
    split at h
    · exact absurd h (by simp)
    · next v hv =>
      split_ifs at h with hhas
      rw [valueDict, valueEntry, set_of_not_has (by simpa using hhas), ← value_of_strict hv]
      exact valueDict_of_strict h

end

/-! ## The strict reading is finite -/

theorem isFiniteDict_append (ps qs : Dict) :
    Value.isFiniteDict (ps ++ qs) = (Value.isFiniteDict ps && Value.isFiniteDict qs) := by
  induction ps with
  | nil => simp [Value.isFiniteDict]
  | cons p ps ih => rw [List.cons_append, Value.isFiniteDict, Value.isFiniteDict, ih, Bool.and_assoc]

mutual

theorem isFinite_of_strict : ∀ {doc : Doc} {v : Value}, strict doc = .ok v → v.isFinite = true
  | .null, v, h => Except.ok.inj h ▸ rfl
  | .bool b, v, h => Except.ok.inj h ▸ rfl
  | .int n, v, h => Except.ok.inj h ▸ rfl
  | .number x, v, h => by
    rw [strict] at h
    split_ifs at h with hfinite
    rw [← Except.ok.inj h]
    cases x with
    | finite q => rfl
    | _ => exact absurd hfinite (by simp [isFiniteFloat])
  | .constant x, v, h => absurd h (by simp [strict])
  | .str s, v, h => Except.ok.inj h ▸ rfl
  | .arr docs, v, h => by
    rw [strict] at h
    cases hdocs : strictList docs with
    | error e =>
      rw [hdocs] at h
      exact absurd h (by simp [Except.map])
    | ok vs =>
      rw [hdocs] at h
      rw [← Except.ok.inj h, Value.isFinite, isFiniteList_of_strict hdocs]
  | .obj entries, v, h => by
    rw [strict] at h
    cases hentries : strictDict [] entries with
    | error e =>
      rw [hentries] at h
      exact absurd h (by simp [Except.map])
    | ok d =>
      rw [hentries] at h
      rw [← Except.ok.inj h, Value.isFinite]
      exact isFiniteDict_of_strict rfl hentries

theorem isFiniteList_of_strict : ∀ {docs : List Doc} {vs : List Value},
    strictList docs = .ok vs → Value.isFiniteList vs = true
  | [], vs, h => by rw [← Except.ok.inj h, Value.isFiniteList]
  | doc :: docs, vs, h => by
    rw [strictList] at h
    split at h
    · exact absurd h (by simp)
    · next v hv =>
      cases hdocs : strictList docs with
      | error e =>
        rw [hdocs] at h
        exact absurd h (by simp [Except.map])
      | ok ws =>
        rw [hdocs] at h
        rw [← Except.ok.inj h, Value.isFiniteList, isFinite_of_strict hv,
          isFiniteList_of_strict hdocs, Bool.and_self]

theorem isFiniteDict_of_strict : ∀ {entries : List (String × Doc)} {d d' : Dict},
    Value.isFiniteDict d = true → strictDict d entries = .ok d' → Value.isFiniteDict d' = true
  | [], d, d', hd, h => by rwa [← Except.ok.inj h]
  | (k, doc) :: entries, d, d', hd, h => by
    rw [strictDict, strictEntry] at h
    split at h
    · exact absurd h (by simp)
    · next v hv =>
      split_ifs at h
      refine isFiniteDict_of_strict ?_ h
      rw [isFiniteDict_append, hd, Value.isFiniteDict, Value.isFiniteDict, Value.isFiniteEntry,
        isFinite_of_strict hv, Bool.and_self, Bool.and_self]

end

end Doc

end Python
end Fragma
