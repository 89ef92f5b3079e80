import Mathlib.Data.List.Nodup
import Mathlib.Data.List.Dedup
import Fragma.Python.Exn
import Fragma.Python.Pointer

/-!
# The differences of two values

`fragma/replay.py`, `canonical`, `digest` and `differences`.  The replay comparison explains
where two views differ: it goes down both of them through the keys of their dictionaries, and
reports a key that stands on one side only, and a place where the two values differ and are not
both dictionaries.

* `digest`, `differences`: the functions; the hash of a text is a parameter.
* `reports`: the reported locations, and `differencesFrom_eq_map`.
* `Describes`: what a report says about the two values.
* `differencesFrom_exact`: **the reports are exact.**
-/

namespace Fragma
namespace Replay

open Python

/-- What is reported at a path. -/
inductive DiffKind where
  | added
  | removed
  | changed (leftHash rightHash : String)
  deriving DecidableEq, Repr

/-- An entry of a list of differences. -/
structure Difference where
  path : String
  kind : DiffKind
  deriving DecidableEq, Repr

/-- `digest(value)`: the hash of the canonical text.  `json.dumps` writes a value with its keys
sorted, and refuses what is not finite. -/
def digest (sha : Value → String) (v : Value) : Except Exn String :=
  if v.isFinite then .ok (sha v.sorted)
  else .error ⟨.valueError, "Out of range float values are not JSON compliant"⟩

/-- `sorted(left.keys() | right.keys())`. -/
def unionKeys (ps qs : Dict) : List String :=
  (ps.map Prod.fst ++ qs.map Prod.fst).dedup.mergeSort fun a b => decide (a ≤ b)

theorem mem_unionKeys {ps qs : Dict} {k : String} :
    k ∈ unionKeys ps qs ↔ (ps.lookup k).isSome ∨ (qs.lookup k).isSome := by
  have hlookup : ∀ ps : Dict, k ∈ ps.map Prod.fst ↔ (ps.lookup k).isSome := by
    intro ps
    induction ps with
    | nil => simp
    | cons p ps ih =>
      obtain ⟨l, v⟩ := p
      rw [List.map_cons, List.mem_cons, Value.lookup_cons_ite, ih]
      split_ifs with h
      · simp [h]
      · simp [h]
  rw [unionKeys, List.mem_mergeSort, List.mem_dedup, List.mem_append, hlookup, hlookup]

theorem nodup_unionKeys (ps qs : Dict) : (unionKeys ps qs).Nodup :=
  (List.mergeSort_perm _ _).nodup_iff.mpr (List.nodup_dedup _)

theorem sizeOf_lookup {ps : Dict} {k : String} {v : Value} (h : ps.lookup k = some v) :
    sizeOf v < sizeOf (Value.dict ps) := by
  have hmem := mem_of_lookup h
  have hlt := List.sizeOf_lt_of_mem hmem
  have hpair : sizeOf (k, v) = 1 + sizeOf k + sizeOf v := rfl
  have hdict : sizeOf (Value.dict ps) = 1 + sizeOf ps := Value.dict.sizeOf_spec ps
  omega

/-- The recursion of `differences`, for values that can be written. -/
def differencesFrom (sha : Value → String) (left right : Value) (path : String) : List Difference :=
  if left.sorted = right.sorted then []
  else
    match left, right with
    | .dict ps, .dict qs =>
      (unionKeys ps qs).flatMap fun key =>
        let child := path ++ "/" ++ escape key
        match _hp : ps.lookup key, qs.lookup key with
        | none, _ => [⟨child, .added⟩]
        | some _, none => [⟨child, .removed⟩]
        | some l, some r => differencesFrom sha l r child
    | left, right =>
      [⟨if path = "" then "/" else path, .changed (sha left.sorted) (sha right.sorted)⟩]
termination_by sizeOf left
decreasing_by exact sizeOf_lookup _hp

/-- `differences(left, right)`.  The first comparison writes both values in full, so it raises
where any part of them cannot be written. -/
def differences (sha : Value → String) (left right : Value) : Except Exn (List Difference) := do
  let _ ← digest sha left
  let _ ← digest sha right
  .ok (differencesFrom sha left right "")

/-! ## Reported locations -/

/-- The reports with their locations in place of the paths. -/
def reports (sha : Value → String) (left right : Value) : List (List String × DiffKind) :=
  if left.sorted = right.sorted then []
  else
    match left, right with
    | .dict ps, .dict qs =>
      (unionKeys ps qs).flatMap fun key =>
        match _hp : ps.lookup key, qs.lookup key with
        | none, _ => [([key], .added)]
        | some _, none => [([key], .removed)]
        | some l, some r => (reports sha l r).map fun d => (key :: d.1, d.2)
    | left, right => [([], .changed (sha left.sorted) (sha right.sorted))]
termination_by sizeOf left
decreasing_by exact sizeOf_lookup _hp

/-- How the path of a location is written: the whole value is the slash. -/
def shown (path : String) : String := if path = "" then "/" else path

/-- A report with its path, below a path. -/
def written (path : String) (d : List String × DiffKind) : Difference :=
  ⟨shown (path ++ pointer d.1), d.2⟩

/-- Both values are dictionaries. -/
def BothDicts (a b : Value) : Prop := (∃ ps, a = .dict ps) ∧ ∃ qs, b = .dict qs

section Equations

variable (sha : Value → String)

theorem differencesFrom_same {left right : Value} (h : left.sorted = right.sorted) (path : String) :
    differencesFrom sha left right path = [] := by
  unfold differencesFrom
  rw [if_pos h]

theorem reports_same {left right : Value} (h : left.sorted = right.sorted) :
    reports sha left right = [] := by
  unfold reports
  rw [if_pos h]

/-- The reports below one key. -/
def keyReports (ps qs : Dict) (key : String) : List (List String × DiffKind) :=
  match ps.lookup key, qs.lookup key with
  | none, _ => [([key], .added)]
  | some _, none => [([key], .removed)]
  | some l, some r => (reports sha l r).map fun d => (key :: d.1, d.2)

/-- The differences below one key. -/
def keyDifferences (ps qs : Dict) (path key : String) : List Difference :=
  match ps.lookup key, qs.lookup key with
  | none, _ => [⟨path ++ "/" ++ escape key, .added⟩]
  | some _, none => [⟨path ++ "/" ++ escape key, .removed⟩]
  | some l, some r => differencesFrom sha l r (path ++ "/" ++ escape key)

theorem reports_dict {ps qs : Dict} (h : (Value.dict ps).sorted ≠ (Value.dict qs).sorted) :
    reports sha (.dict ps) (.dict qs) = (unionKeys ps qs).flatMap (keyReports sha ps qs) := by
  unfold reports
  rw [if_neg h]
  refine congrArg (fun f => (unionKeys ps qs).flatMap f) (funext fun key => ?_)
  unfold keyReports
  split
  · next hp => simp only [hp]
  · next hp hq => simp only [hp, hq]
  · next hp hq => simp only [hp, hq]

theorem differencesFrom_dict {ps qs : Dict} (h : (Value.dict ps).sorted ≠ (Value.dict qs).sorted)
    (path : String) :
    differencesFrom sha (.dict ps) (.dict qs) path =
      (unionKeys ps qs).flatMap (keyDifferences sha ps qs path) := by
  unfold differencesFrom
  rw [if_neg h]
  refine congrArg (fun f => (unionKeys ps qs).flatMap f) (funext fun key => ?_)
  unfold keyDifferences
  split
  · next hp => simp only [hp]
  · next hp hq => simp only [hp, hq]
  · next hp hq => simp only [hp, hq]

theorem reports_other {left right : Value} (h : left.sorted ≠ right.sorted)
    (hother : ¬ BothDicts left right) :
    reports sha left right = [([], .changed (sha left.sorted) (sha right.sorted))] := by
  unfold reports
  rw [if_neg h]
  split
  · next ps qs => exact absurd ⟨⟨ps, rfl⟩, ⟨qs, rfl⟩⟩ hother
  · rfl

theorem differencesFrom_other {left right : Value} (h : left.sorted ≠ right.sorted)
    (hother : ¬ BothDicts left right) (path : String) :
    differencesFrom sha left right path =
      [⟨shown path, .changed (sha left.sorted) (sha right.sorted)⟩] := by
  unfold differencesFrom
  rw [if_neg h]
  split
  · next ps qs => exact absurd ⟨⟨ps, rfl⟩, ⟨qs, rfl⟩⟩ hother
  · rfl

end Equations

/-- **Induction over two values**: the same, not both dictionaries, or dictionaries of which the
values under a common key are smaller. -/
theorem pair_induction {P : Value → Value → Prop}
    (same : ∀ l r, l.sorted = r.sorted → P l r)
    (other : ∀ l r, l.sorted ≠ r.sorted → ¬ BothDicts l r → P l r)
    (dict : ∀ ps qs : Dict, (Value.dict ps).sorted ≠ (Value.dict qs).sorted →
      (∀ k l r, ps.lookup k = some l → qs.lookup k = some r → P l r) →
      P (.dict ps) (.dict qs)) : ∀ l r, P l r := by
  intro l
  induction hn : sizeOf l using Nat.strongRecOn generalizing l with
  | _ n ih =>
    intro r
    by_cases hsame : l.sorted = r.sorted
    · exact same l r hsame
    by_cases hboth : BothDicts l r
    · obtain ⟨⟨ps, rfl⟩, ⟨qs, rfl⟩⟩ := hboth
      refine dict ps qs hsame fun k l r hl _ => ih (sizeOf l) ?_ l rfl r
      rw [← hn]
      exact sizeOf_lookup hl
    · exact other l r hsame hboth

variable {sha : Value → String}

/-- What is reported below a key of two dictionaries. -/
theorem mem_keyReports {ps qs : Dict} {key : String} (hkey : key ∈ unionKeys ps qs)
    {d : List String × DiffKind} :
    d ∈ keyReports sha ps qs key ↔
      (ps.lookup key = none ∧ (∃ r, qs.lookup key = some r) ∧ d = ([key], .added)) ∨
      ((∃ l, ps.lookup key = some l) ∧ qs.lookup key = none ∧ d = ([key], .removed)) ∨
      ∃ l r, ps.lookup key = some l ∧ qs.lookup key = some r ∧
        ∃ e ∈ reports sha l r, d = (key :: e.1, e.2) := by
  have hsome := mem_unionKeys.mp hkey
  unfold keyReports
  cases hp : ps.lookup key with
  | none =>
    rw [hp, Option.isSome_none, Bool.false_eq_true, false_or] at hsome
    obtain ⟨r, hr⟩ := Option.isSome_iff_exists.mp hsome
    simp [hr]
  | some l =>
    cases hq : qs.lookup key with
    | none => simp
    | some r =>
      simp only [List.mem_map, reduceCtorEq, false_and, and_false, false_or, Option.some.injEq]
      constructor
      · rintro ⟨e, he, rfl⟩
        exact ⟨l, r, rfl, rfl, e, he, rfl⟩
      · rintro ⟨_, _, rfl, rfl, e, he, rfl⟩
        exact ⟨e, he, rfl⟩

theorem mem_reports_dict {ps qs : Dict} (h : (Value.dict ps).sorted ≠ (Value.dict qs).sorted)
    {d : List String × DiffKind} :
    d ∈ reports sha (.dict ps) (.dict qs) ↔
      ∃ key, (ps.lookup key = none ∧ (∃ r, qs.lookup key = some r) ∧ d = ([key], .added)) ∨
        ((∃ l, ps.lookup key = some l) ∧ qs.lookup key = none ∧ d = ([key], .removed)) ∨
        ∃ l r, ps.lookup key = some l ∧ qs.lookup key = some r ∧
          ∃ e ∈ reports sha l r, d = (key :: e.1, e.2) := by
  rw [reports_dict sha h, List.mem_flatMap]
  constructor
  · rintro ⟨key, hkey, hd⟩
    exact ⟨key, (mem_keyReports hkey).mp hd⟩
  · rintro ⟨key, hd⟩
    have hkey : key ∈ unionKeys ps qs := by
      rw [mem_unionKeys]
      rcases hd with ⟨-, ⟨r, hr⟩, -⟩ | ⟨⟨l, hl⟩, -⟩ | ⟨l, r, hl, -⟩
      · exact .inr (by rw [hr]; rfl)
      · exact .inl (by rw [hl]; rfl)
      · exact .inl (by rw [hl]; rfl)
    exact ⟨key, hkey, (mem_keyReports hkey).mpr hd⟩

/-- A path below a key is not the whole value. -/
theorem shown_child (path : String) (key : String) (rest : String) :
    shown (path ++ "/" ++ escape key ++ rest) = path ++ "/" ++ escape key ++ rest := by
  refine if_neg fun h => ?_
  have hchars := congrArg String.toList h
  simp at hchars

theorem written_cons (path key : String) (loc : List String) (kind : DiffKind) :
    written path (key :: loc, kind) = ⟨path ++ "/" ++ escape key ++ pointer loc, kind⟩ := by
  rw [written, pointer, ← String.append_assoc, ← String.append_assoc, shown_child]

/-- **The differences are the reports with their paths.** -/
theorem differencesFrom_eq_map (left right : Value) (path : String) :
    differencesFrom sha left right path = (reports sha left right).map (written path) := by
  induction left, right using pair_induction generalizing path with
  | same l r h => rw [differencesFrom_same sha h, reports_same sha h, List.map_nil]
  | other l r h hother =>
    rw [differencesFrom_other sha h hother, reports_other sha h hother, List.map_singleton, written,
      pointer, String.append_empty]
  | dict ps qs h ih =>
    rw [differencesFrom_dict sha h, reports_dict sha h, List.map_flatMap]
    refine congrArg (fun f => (unionKeys ps qs).flatMap f) (funext fun key => ?_)
    unfold keyDifferences keyReports
    cases hp : ps.lookup key with
    | none => rw [List.map_singleton, written_cons, pointer, String.append_empty]
    | some l =>
      cases hq : qs.lookup key with
      | none =>
        dsimp only
        rw [List.map_singleton, written_cons, pointer, String.append_empty]
      | some r =>
        dsimp only
        rw [ih key l r hp hq, List.map_map]
        refine List.map_congr_left fun d _ => ?_
        rw [Function.comp, written_cons, written, shown_child]

/-- **Nothing is reported exactly for values that are written in the same way.** -/
theorem reports_eq_nil_iff {left right : Value} :
    reports sha left right = [] ↔ left.sorted = right.sorted := by
  induction left, right using pair_induction with
  | same l r h => exact ⟨fun _ => h, fun _ => reports_same sha h⟩
  | other l r h hother =>
    rw [reports_other sha h hother]
    exact ⟨fun hnil => absurd hnil (by simp), fun hsame => absurd hsame h⟩
  | dict ps qs h ih =>
    refine ⟨fun hnil => ?_, fun hsame => absurd hsame h⟩
    refine Value.sorted_dict_iff.mpr fun key => ?_
    have hno : ∀ d, d ∉ reports sha (.dict ps) (.dict qs) := by
      rw [hnil]
      exact fun _ => List.not_mem_nil
    cases hp : ps.lookup key with
    | none =>
      cases hq : qs.lookup key with
      | none => rfl
      | some r => exact absurd ((mem_reports_dict h).mpr ⟨key, .inl ⟨hp, ⟨r, hq⟩, rfl⟩⟩) (hno _)
    | some l =>
      cases hq : qs.lookup key with
      | none =>
        exact absurd ((mem_reports_dict h).mpr ⟨key, .inr (.inl ⟨⟨l, hp⟩, hq, rfl⟩)⟩) (hno _)
      | some r =>
        have hchild : reports sha l r = [] := by
          refine List.eq_nil_iff_forall_not_mem.mpr fun e he => ?_
          exact hno _ ((mem_reports_dict h).mpr ⟨key, .inr (.inr ⟨l, r, hp, hq, e, he, rfl⟩)⟩)
        exact congrArg some ((ih key l r hp hq).mp hchild)

/-! ## What a report says -/

/-- What a report says about the two values: a key stands on one side only, below two
dictionaries, or two values differ and are not both dictionaries. -/
def Describes (sha : Value → String) (left right : Value) (loc : List String) : DiffKind → Prop
  | .added => ∃ parent key ps qs, loc = parent ++ [key] ∧ left.at parent = some (.dict ps) ∧
      right.at parent = some (.dict qs) ∧ ps.lookup key = none ∧ ∃ v, qs.lookup key = some v
  | .removed => ∃ parent key ps qs, loc = parent ++ [key] ∧ left.at parent = some (.dict ps) ∧
      right.at parent = some (.dict qs) ∧ (∃ v, ps.lookup key = some v) ∧ qs.lookup key = none
  | .changed leftHash rightHash => ∃ l r, left.at loc = some l ∧ right.at loc = some r ∧
      l.sorted ≠ r.sorted ∧ ¬ BothDicts l r ∧ leftHash = sha l.sorted ∧ rightHash = sha r.sorted

/-- A report below a key is one of the dictionaries. -/
theorem Describes.child {ps qs : Dict} {key : String} {l r : Value} {loc : List String}
    {kind : DiffKind} (hp : ps.lookup key = some l) (hq : qs.lookup key = some r)
    (h : Describes sha l r loc kind) : Describes sha (.dict ps) (.dict qs) (key :: loc) kind := by
  cases kind with
  | added =>
    obtain ⟨parent, k, us, vs, rfl, hl, hr, hrest⟩ := h
    refine ⟨key :: parent, k, us, vs, rfl, ?_, ?_, hrest⟩
    · rw [Value.at_dict_cons, hp]
      exact hl
    · rw [Value.at_dict_cons, hq]
      exact hr
  | removed =>
    obtain ⟨parent, k, us, vs, rfl, hl, hr, hrest⟩ := h
    refine ⟨key :: parent, k, us, vs, rfl, ?_, ?_, hrest⟩
    · rw [Value.at_dict_cons, hp]
      exact hl
    · rw [Value.at_dict_cons, hq]
      exact hr
  | changed a b =>
    obtain ⟨x, y, hx, hy, hrest⟩ := h
    refine ⟨x, y, ?_, ?_, hrest⟩
    · rw [Value.at_dict_cons, hp]
      exact hx
    · rw [Value.at_dict_cons, hq]
      exact hy

/-- **Every report is right.** -/
theorem describes_of_mem {left right : Value} {d : List String × DiffKind}
    (hd : d ∈ reports sha left right) : Describes sha left right d.1 d.2 := by
  induction left, right using pair_induction generalizing d with
  | same l r h =>
    rw [reports_same sha h] at hd
    exact absurd hd List.not_mem_nil
  | other l r h hother =>
    rw [reports_other sha h hother] at hd
    obtain rfl := List.mem_singleton.mp hd
    exact ⟨l, r, Value.at_nil l, Value.at_nil r, h, hother, rfl, rfl⟩
  | dict ps qs h ih =>
    obtain ⟨key, ⟨hp, hq, rfl⟩ | ⟨hp, hq, rfl⟩ | ⟨l, r, hp, hq, e, he, rfl⟩⟩ :=
      (mem_reports_dict h).mp hd
    · exact ⟨[], key, ps, qs, rfl, Value.at_nil _, Value.at_nil _, hp, hq⟩
    · exact ⟨[], key, ps, qs, rfl, Value.at_nil _, Value.at_nil _, hp, hq⟩
    · exact (ih key l r hp hq he).child hp hq

/-- **No reported location is at or under another one.** -/
theorem reports_apart (left right : Value) :
    (reports sha left right).Pairwise fun d e => ¬ d.1 <+: e.1 ∧ ¬ e.1 <+: d.1 := by
  induction left, right using pair_induction with
  | same l r h =>
    rw [reports_same sha h]
    exact .nil
  | other l r h hother =>
    rw [reports_other sha h hother]
    exact List.pairwise_singleton _ _
  | dict ps qs h ih =>
    rw [reports_dict sha h, List.pairwise_flatMap]
    have hhead : ∀ key ∈ unionKeys ps qs, ∀ d ∈ keyReports sha ps qs key,
        ∃ loc, d.1 = key :: loc := by
      intro key hkey d hd
      obtain ⟨-, -, rfl⟩ | ⟨-, -, rfl⟩ | ⟨l, r, -, -, e, -, rfl⟩ := (mem_keyReports hkey).mp hd
      · exact ⟨[], rfl⟩
      · exact ⟨[], rfl⟩
      · exact ⟨e.1, rfl⟩
    constructor
    · intro key _
      unfold keyReports
      cases hp : ps.lookup key with
      | none => exact List.pairwise_singleton _ _
      | some l =>
        cases hq : qs.lookup key with
        | none => exact List.pairwise_singleton _ _
        | some r =>
          rw [List.pairwise_map]
          refine (ih key l r hp hq).imp fun {d e} hde => ?_
          rw [List.cons_prefix_cons, List.cons_prefix_cons]
          exact ⟨fun h => hde.1 h.2, fun h => hde.2 h.2⟩
    · refine (List.nodup_iff_pairwise_ne.mp (nodup_unionKeys ps qs)).imp_of_mem ?_
      intro key key' hkey hkey' hne d hd e he
      obtain ⟨loc, hloc⟩ := hhead key hkey d hd
      obtain ⟨loc', hloc'⟩ := hhead key' hkey' e he
      rw [hloc, hloc', List.cons_prefix_cons, List.cons_prefix_cons]
      exact ⟨fun h => hne h.1, fun h => hne h.1.symm⟩

/-- **A location that is apart from every reported one has the same on both sides.** -/
theorem at_eq_of_apart {left right : Value} {loc : List String}
    (h : ∀ d ∈ reports sha left right, ¬ d.1 <+: loc ∧ ¬ loc <+: d.1) :
    (left.at loc).map Value.sorted = (right.at loc).map Value.sorted := by
  induction left, right using pair_induction generalizing loc with
  | same l r hsame => rw [← Value.at_sorted, ← Value.at_sorted, hsame]
  | other l r hne hother =>
    have hroot := h ([], .changed (sha l.sorted) (sha r.sorted)) (by
      rw [reports_other sha hne hother]
      exact List.mem_singleton_self _)
    exact absurd List.nil_prefix hroot.1
  | dict ps qs hne ih =>
    cases loc with
    | nil =>
      -- something is reported, and everything is under the whole value
      exfalso
      have hsome : reports sha (.dict ps) (.dict qs) ≠ [] := fun hnil =>
        hne (reports_eq_nil_iff.mp hnil)
      obtain ⟨d, ds, hds⟩ := List.exists_cons_of_ne_nil hsome
      exact (h d (by rw [hds]; exact List.mem_cons_self)).2 List.nil_prefix
    | cons key loc =>
      rw [Value.at_dict_cons, Value.at_dict_cons]
      cases hp : ps.lookup key with
      | none =>
        cases hq : qs.lookup key with
        | none => rfl
        | some r =>
          have hadded := h ([key], .added) ((mem_reports_dict hne).mpr
            ⟨key, .inl ⟨hp, ⟨r, hq⟩, rfl⟩⟩)
          exact absurd (List.cons_prefix_cons.mpr ⟨rfl, List.nil_prefix⟩) hadded.1
      | some l =>
        cases hq : qs.lookup key with
        | none =>
          have hremoved := h ([key], .removed) ((mem_reports_dict hne).mpr
            ⟨key, .inr (.inl ⟨⟨l, hp⟩, hq, rfl⟩)⟩)
          exact absurd (List.cons_prefix_cons.mpr ⟨rfl, List.nil_prefix⟩) hremoved.1
        | some r =>
          refine ih key l r hp hq fun e he => ?_
          have hbelow := h (key :: e.1, e.2) ((mem_reports_dict hne).mpr
            ⟨key, .inr (.inr ⟨l, r, hp, hq, e, he, rfl⟩)⟩)
          rw [List.cons_prefix_cons, List.cons_prefix_cons] at hbelow
          exact ⟨fun h => hbelow.1 ⟨rfl, h⟩, fun h => hbelow.2 ⟨rfl, h⟩⟩

/-- A location above a reported one is a dictionary on both sides. -/
theorem dicts_above {left right : Value} {d : List String × DiffKind}
    (hd : d ∈ reports sha left right) {loc : List String} (hle : loc <+: d.1) (hne : loc ≠ d.1) :
    ∃ l r, left.at loc = some l ∧ right.at loc = some r ∧ BothDicts l r := by
  induction left, right using pair_induction generalizing d loc with
  | same l r h =>
    rw [reports_same sha h] at hd
    exact absurd hd List.not_mem_nil
  | other l r h hother =>
    rw [reports_other sha h hother] at hd
    obtain rfl := List.mem_singleton.mp hd
    exact absurd (List.prefix_nil.mp hle) hne
  | dict ps qs h ih =>
    cases loc with
    | nil => exact ⟨_, _, Value.at_nil _, Value.at_nil _, ⟨ps, rfl⟩, ⟨qs, rfl⟩⟩
    | cons key loc =>
      obtain ⟨k, ⟨hp, hq, rfl⟩ | ⟨hp, hq, rfl⟩ | ⟨l, r, hp, hq, e, he, rfl⟩⟩ :=
        (mem_reports_dict h).mp hd
      · obtain ⟨rfl, hnil⟩ := List.cons_prefix_cons.mp hle
        exact absurd (by rw [List.prefix_nil.mp hnil]) hne
      · obtain ⟨rfl, hnil⟩ := List.cons_prefix_cons.mp hle
        exact absurd (by rw [List.prefix_nil.mp hnil]) hne
      · obtain ⟨rfl, hle'⟩ := List.cons_prefix_cons.mp hle
        rw [Value.at_dict_cons, Value.at_dict_cons, hp, hq]
        exact ih _ l r hp hq he hle' fun heq => hne (by rw [heq])

/-! ## Reported paths -/

theorem pointer_ne_empty (key : String) (loc : List String) : pointer (key :: loc) ≠ "" := by
  intro h
  have hchars := congrArg String.toList h
  rw [toList_pointer] at hchars
  exact absurd hchars (by simp [pointerChars])

/-- What is reported of the whole value is a change, and the two are not both dictionaries. -/
theorem Describes.root {left right : Value} {kind : DiffKind}
    (h : Describes sha left right [] kind) : ¬ BothDicts left right := by
  cases kind with
  | added =>
    obtain ⟨parent, key, -, -, hloc, -⟩ := h
    exact absurd hloc (by simp)
  | removed =>
    obtain ⟨parent, key, -, -, hloc, -⟩ := h
    exact absurd hloc (by simp)
  | changed a b =>
    obtain ⟨l, r, hl, hr, -, hother, -⟩ := h
    rw [Value.at_nil, Option.some.injEq] at hl hr
    rwa [hl, hr]

/-- What is reported below a key is below two dictionaries. -/
theorem Describes.dicts {left right : Value} {key : String} {loc : List String} {kind : DiffKind}
    (h : Describes sha left right (key :: loc) kind) : BothDicts left right := by
  have hparent : ∀ {parent : List String} {ps qs : Dict} {k : String},
      left.at parent = some (.dict ps) → right.at parent = some (.dict qs) →
      key :: loc = parent ++ [k] → BothDicts left right := by
    intro parent ps qs k hl hr hloc
    cases parent with
    | nil =>
      rw [Value.at_nil, Option.some.injEq] at hl hr
      exact ⟨⟨ps, hl⟩, ⟨qs, hr⟩⟩
    | cons x parent => exact ⟨Value.exists_dict_of_at hl, Value.exists_dict_of_at hr⟩
  cases kind with
  | added =>
    obtain ⟨parent, k, ps, qs, hloc, hl, hr, -⟩ := h
    exact hparent hl hr hloc
  | removed =>
    obtain ⟨parent, k, ps, qs, hloc, hl, hr, -⟩ := h
    exact hparent hl hr hloc
  | changed a b =>
    obtain ⟨l, r, hl, hr, -⟩ := h
    exact ⟨Value.exists_dict_of_at hl, Value.exists_dict_of_at hr⟩

/-- A reported path is that of one location. -/
theorem Describes.unique {left right : Value} {loc loc' : List String} {kind kind' : DiffKind}
    (h : Describes sha left right loc kind) (h' : Describes sha left right loc' kind')
    (hpath : shown (pointer loc) = shown (pointer loc')) : loc = loc' := by
  cases loc with
  | nil =>
    cases loc' with
    | nil => rfl
    | cons k loc' => exact absurd h'.dicts h.root
  | cons k loc =>
    cases loc' with
    | nil => exact absurd h.dicts h'.root
    | cons k' loc' =>
      rw [shown, if_neg (pointer_ne_empty k loc), shown, if_neg (pointer_ne_empty k' loc')] at hpath
      exact pointer_injective hpath

/-- The differences of two values are exact. -/
structure Exact (sha : Value → String) (left right : Value) (ds : List Difference) : Prop where
  /-- Nothing is reported exactly for values with the same canonical form. -/
  empty_iff : ds = [] ↔ left.sorted = right.sorted
  distinct : (ds.map Difference.path).Nodup
  /-- A reported path is that of one location of which the report is right. -/
  located : ∀ d ∈ ds, ∃! loc, d.path = shown (pointer loc) ∧ Describes sha left right loc d.kind
  /-- What is at, under or above no reported location is the same on both sides. -/
  elsewhere : ∀ loc, (∀ d ∈ ds, ∀ loc', d.path = shown (pointer loc') →
    Describes sha left right loc' d.kind → ¬ loc' <+: loc ∧ ¬ loc <+: loc') →
    (left.at loc).map Value.sorted = (right.at loc).map Value.sorted
  /-- What is above a reported location is a dictionary on both sides. -/
  above : ∀ d ∈ ds, ∀ loc', d.path = shown (pointer loc') →
    Describes sha left right loc' d.kind → ∀ loc, loc <+: loc' → loc ≠ loc' →
    ∃ l r, left.at loc = some l ∧ right.at loc = some r ∧ BothDicts l r

/-- **The reports are exact.** -/
theorem differencesFrom_exact (sha : Value → String) (left right : Value) :
    Exact sha left right (differencesFrom sha left right "") := by
  have hpath : ∀ d : List String × DiffKind, (written "" d).path = shown (pointer d.1) := by
    intro d
    rw [written, String.empty_append]
  rw [differencesFrom_eq_map]
  refine ⟨?_, ?_, ?_, ?_, ?_⟩
  · rw [List.map_eq_nil_iff, reports_eq_nil_iff]
  · rw [List.map_map, List.nodup_iff_pairwise_ne, List.pairwise_map]
    refine (reports_apart left right).imp_of_mem fun {d e} hd he hapart heq => ?_
    rw [Function.comp, Function.comp, hpath, hpath] at heq
    have hloc := (describes_of_mem hd).unique (describes_of_mem he) heq
    exact hapart.1 (hloc ▸ List.prefix_refl _)
  · intro d hd
    obtain ⟨e, he, rfl⟩ := List.mem_map.mp hd
    refine ⟨e.1, ⟨hpath e, describes_of_mem he⟩, ?_⟩
    rintro loc ⟨hloc, hdescribes⟩
    exact hdescribes.unique (describes_of_mem he) (hloc.symm.trans (hpath e))
  · intro loc h
    refine @at_eq_of_apart sha left right loc fun d hd => ?_
    exact h _ (List.mem_map_of_mem hd) d.1 (hpath d) (describes_of_mem hd)
  · intro d hd loc' hloc' hdescribes loc hle hne
    obtain ⟨e, he, rfl⟩ := List.mem_map.mp hd
    obtain rfl := hdescribes.unique (describes_of_mem he) (hloc'.symm.trans (hpath e))
    exact dicts_above he hle hne

end Replay
end Fragma
