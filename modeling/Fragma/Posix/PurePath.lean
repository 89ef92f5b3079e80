import Mathlib.Data.List.Basic
import Mathlib.Data.List.Infix
import Mathlib.Data.String.Basic

/-!
# Lexical POSIX paths

The purely textual part of path handling: a path text is split at its slashes,
the empty and `.` components are dropped, and what is left is a root together
with a list of proper components.  Nothing here looks at a file system.

* `PurePath`: a root and its components.  A component cannot be empty, cannot be
  `.` and cannot contain a slash, so a `PurePath` is always in the form that
  splitting produces and `parse_render` needs no side condition.
* `PurePath.parse`, `PurePath.render`: reading a text and writing it back.
* `PurePath.collapse`, `normpath`: removing `..` against the component before
  it, which is the normal form of `os.path.normpath`.
* `PurePath.IsRelativeTo`, `PurePath.relativeTo`: the prefix order on paths.
* `isCollapsed_collapse`, `collapse_eq_self`: normal forms are exactly the paths
  that collapsing leaves alone.
-/

namespace Fragma
namespace Posix

/-! ## Components and roots -/

/-- A proper path component: not empty, not `.`, and free of slashes. -/
structure Component where
  text : List Char
  ne_nil : text ≠ []
  ne_dot : text ≠ ['.']
  slash_notMem : '/' ∉ text

instance : DecidableEq Component := fun a b =>
  decidable_of_iff (a.text = b.text) <| by
    cases a; cases b; simp

/-- A piece between two slashes is a component unless it is empty or `.`. -/
def Component.ofText? (cs : List Char) : Option Component :=
  if h : cs ≠ [] ∧ cs ≠ ['.'] ∧ '/' ∉ cs then some ⟨cs, h.1, h.2.1, h.2.2⟩ else none

@[simp] theorem Component.ofText?_text (c : Component) : Component.ofText? c.text = some c := by
  unfold Component.ofText?
  rw [dif_pos ⟨c.ne_nil, c.ne_dot, c.slash_notMem⟩]

@[simp] theorem Component.ofText?_nil : Component.ofText? [] = none := by
  simp [Component.ofText?]

@[simp] theorem Component.ofText?_dot : Component.ofText? ['.'] = none := by
  simp [Component.ofText?]

theorem Component.ext_text {c d : Component} (h : c.text = d.text) : c = d := by
  cases c; cases d; simpa using h

/-- The parent component `..`, which is an ordinary component until it is
collapsed. -/
def Component.IsParent (c : Component) : Prop := c.text = ['.', '.']

instance (c : Component) : Decidable c.IsParent := inferInstanceAs (Decidable (_ = _))

/-- The roots a path can have.  Exactly two leading slashes are a root of their
own; three or more are one. -/
inductive Root where
  | relative
  | single
  | double
  deriving DecidableEq, Repr

/-- The leading slashes that spell a root. -/
def Root.text : Root → List Char
  | .relative => []
  | .single => ['/']
  | .double => ['/', '/']

/-- The root that a path text starts with. -/
def Root.ofText : List Char → Root
  | '/' :: '/' :: '/' :: _ => .single
  | '/' :: '/' :: _ => .double
  | '/' :: _ => .single
  | _ => .relative

/-! ## Paths -/

/-- A lexical path: its root and its proper components. -/
@[ext] structure PurePath where
  root : Root
  tail : List Component
  deriving DecidableEq

namespace PurePath

/-- The components of a path text. -/
def components (cs : List Char) : List Component :=
  (cs.splitOn '/').filterMap Component.ofText?

/-- `PurePosixPath(text)`. -/
def parseChars (cs : List Char) : PurePath := ⟨Root.ofText cs, components cs⟩

/-- `str(path)`: the empty relative path is written as a dot. -/
def renderChars (P : PurePath) : List Char :=
  if P.root = .relative ∧ P.tail = [] then ['.']
  else P.root.text ++ ['/'].intercalate (P.tail.map Component.text)

/-- `PurePosixPath(text)` on strings. -/
def parse (s : String) : PurePath := parseChars s.toList

/-- `str(path)` as a string. -/
def render (P : PurePath) : String := String.ofList P.renderChars

/-- `path.is_absolute()`. -/
def IsAbsolute (P : PurePath) : Prop := P.root ≠ .relative

instance (P : PurePath) : Decidable P.IsAbsolute := inferInstanceAs (Decidable (_ ≠ _))

/-- `path.is_relative_to(other)`: `other` is the path itself or one of its
parents. -/
def IsRelativeTo (P Q : PurePath) : Prop := P.root = Q.root ∧ Q.tail <+: P.tail

instance (P Q : PurePath) : Decidable (P.IsRelativeTo Q) :=
  inferInstanceAs (Decidable (_ ∧ _))

/-- `path.relative_to(other)`, meaningful when the path is relative to `other`. -/
def relativeTo (P Q : PurePath) : PurePath := ⟨.relative, P.tail.drop Q.tail.length⟩

/-- `len(path.parts)`: the root counts as one part. -/
def partCount (P : PurePath) : ℕ := (if P.root = .relative then 0 else 1) + P.tail.length

/-- `path / other`: an absolute right operand replaces the left one. -/
def join (P Q : PurePath) : PurePath :=
  if Q.IsAbsolute then Q else ⟨P.root, P.tail ++ Q.tail⟩

/-! ## Reading back what was written -/

theorem components_slash (cs : List Char) : components ('/' :: cs) = components cs := by
  unfold components
  rw [show '/' :: cs = [] ++ '/' :: cs from rfl,
    List.splitOn_append_cons_self_of_not_mem List.not_mem_nil]
  simp

theorem components_intercalate (ts : List Component) :
    components (['/'].intercalate (ts.map Component.text)) = ts := by
  cases ts with
  | nil => rfl
  | cons t ts =>
    unfold components
    rw [List.splitOn_intercalate '/' ?_ (by simp)]
    · rw [List.filterMap_map]
      have h : (Component.ofText? ∘ Component.text) = some := by
        funext c
        exact Component.ofText?_text c
      rw [h, List.filterMap_some]
    · intro l hl
      obtain ⟨c, -, rfl⟩ := List.mem_map.mp hl
      exact c.slash_notMem

/-- The first character of a joined component list is not a slash. -/
theorem head?_intercalate_ne_slash (ts : List Component) :
    (['/'].intercalate (ts.map Component.text)).head? ≠ some '/' := by
  cases ts with
  | nil => simp
  | cons t ts =>
    have ht := t.ne_nil
    have hs := t.slash_notMem
    obtain ⟨c, cs, hc⟩ := List.exists_cons_of_ne_nil ht
    have hne : c ≠ '/' := by
      rintro rfl
      exact hs (hc ▸ List.mem_cons_self)
    cases ts with
    | nil => simpa [hc, List.intercalate] using hne
    | cons u us => simpa [hc, List.intercalate] using hne

theorem root_ofText_append {r : Root} {cs : List Char} (h : cs.head? ≠ some '/') :
    Root.ofText (r.text ++ cs) = r := by
  cases cs with
  | nil => cases r <;> rfl
  | cons c cs =>
    have hc : c ≠ '/' := by simpa using h
    cases r <;> simp [Root.text, Root.ofText, hc]

/-- **Reading a written path gives the path back.** -/
@[simp] theorem parseChars_renderChars (P : PurePath) : parseChars P.renderChars = P := by
  obtain ⟨r, ts⟩ := P
  unfold renderChars
  by_cases h : r = .relative ∧ ts = []
  · rw [if_pos h, h.1, h.2]
    rfl
  · rw [if_neg h]
    have hroot := root_ofText_append (r := r) (head?_intercalate_ne_slash ts)
    have htail : components (r.text ++ ['/'].intercalate (ts.map Component.text)) = ts := by
      cases r
      · exact components_intercalate ts
      · exact (components_slash _).trans (components_intercalate ts)
      · exact (components_slash _).trans ((components_slash _).trans (components_intercalate ts))
    exact PurePath.ext hroot htail

@[simp] theorem parse_render (P : PurePath) : parse P.render = P := by
  rw [parse, render, String.toList_ofList, parseChars_renderChars]

/-- Distinct paths are written differently. -/
theorem render_injective : Function.Injective render := fun P Q h => by
  rw [← parse_render P, h, parse_render]

theorem renderChars_injective : Function.Injective renderChars := fun P Q h => by
  rw [← parseChars_renderChars P, h, parseChars_renderChars]

/-- An absolute path text starts with a slash, and conversely. -/
theorem isAbsolute_parse_iff (s : String) : (parse s).IsAbsolute ↔ s.toList.head? = some '/' := by
  unfold parse parseChars IsAbsolute
  rcases s.toList with _ | ⟨a, _ | ⟨b, _ | ⟨c, cs⟩⟩⟩ <;> simp only [Root.ofText] <;> grind [Root.ofText]

/-! ## Collapsing parent components -/

/-- One pass over the components with the kept ones on a stack.  A parent
component pops the stack, unless it stands at the start of a relative path or
after another kept parent component. -/
def collapseFrom (r : Root) : List Component → List Component → List Component
  | stack, [] => stack.reverse
  | stack, c :: cs =>
    if ¬ c.IsParent ∨ (r = .relative ∧ stack = []) ∨ (∃ d ∈ stack.head?, d.IsParent) then
      collapseFrom r (c :: stack) cs
    else collapseFrom r stack.tail cs

/-- The path that `os.path.normpath` writes. -/
def collapse (P : PurePath) : PurePath := ⟨P.root, collapseFrom P.root [] P.tail⟩

/-- A path in normal form keeps no parent component, unless it is relative. -/
def IsCollapsed (P : PurePath) : Prop := ∀ c ∈ P.tail, ¬ c.IsParent

instance (P : PurePath) : Decidable P.IsCollapsed :=
  inferInstanceAs (Decidable (∀ c ∈ P.tail, ¬ c.IsParent))

@[simp] theorem collapse_root (P : PurePath) : P.collapse.root = P.root := rfl

theorem isParent_notMem_collapseFrom {r : Root} (hr : r ≠ .relative) (cs : List Component) :
    ∀ stack : List Component, (∀ c ∈ stack, ¬ c.IsParent) →
      ∀ c ∈ collapseFrom r stack cs, ¬ c.IsParent := by
  induction cs with
  | nil =>
    intro stack hs c hc
    exact hs c (List.mem_reverse.mp hc)
  | cons d ds ih =>
    intro stack hs
    have htop : ¬ ∃ e ∈ stack.head?, e.IsParent := by
      rintro ⟨e, he, hp⟩
      exact hs e (List.mem_of_mem_head? he) hp
    rw [collapseFrom]
    split
    · next h =>
      have hd : ¬ d.IsParent := by
        rcases h with h | h | h
        · exact h
        · exact absurd h.1 hr
        · exact absurd h htop
      refine ih (d :: stack) fun c hc => ?_
      rcases List.mem_cons.mp hc with rfl | hc
      · exact hd
      · exact hs c hc
    · exact ih stack.tail fun c hc => hs c (List.mem_of_mem_tail hc)

/-- Collapsing an absolute path removes every parent component. -/
theorem isCollapsed_collapse {P : PurePath} (h : P.IsAbsolute) : P.collapse.IsCollapsed :=
  isParent_notMem_collapseFrom h P.tail [] (by simp)

theorem collapseFrom_eq_append {r : Root} (cs : List Component) (hcs : ∀ c ∈ cs, ¬ c.IsParent) :
    ∀ stack : List Component, collapseFrom r stack cs = stack.reverse ++ cs := by
  induction cs with
  | nil => intro stack; simp [collapseFrom]
  | cons d ds ih =>
    intro stack
    rw [collapseFrom, if_pos (Or.inl (hcs d List.mem_cons_self)),
      ih (fun c hc => hcs c (List.mem_cons_of_mem _ hc))]
    simp

/-- A path without parent components is its own normal form. -/
theorem collapse_eq_self {P : PurePath} (h : P.IsCollapsed) : P.collapse = P := by
  refine PurePath.ext rfl ?_
  have := collapseFrom_eq_append (r := P.root) P.tail h []
  simpa [collapse] using this

end PurePath

/-- `os.path.normpath(text)`. -/
def normpath (s : String) : String := (PurePath.parse s).collapse.render

@[simp] theorem parse_normpath (s : String) :
    PurePath.parse (normpath s) = (PurePath.parse s).collapse := by
  rw [normpath, PurePath.parse_render]

/-- Normalisation is decided by the collapsed path. -/
theorem normpath_eq_iff (s t : String) :
    normpath s = normpath t ↔ (PurePath.parse s).collapse = (PurePath.parse t).collapse :=
  PurePath.render_injective.eq_iff

theorem normpath_idem {s : String} (h : (PurePath.parse s).IsAbsolute) :
    normpath (normpath s) = normpath s := by
  rw [normpath, parse_normpath, PurePath.collapse_eq_self (PurePath.isCollapsed_collapse h)]
  rfl

end Posix
end Fragma
