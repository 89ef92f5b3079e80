import Mathlib.Algebra.Order.BigOperators.Group.List
import Fragma.Replay.Mapper

/-!
# When path identities separate files

`Mapper.path` writes a location as `role:relative`.  Both halves may contain a
colon, so the text has to be shown to have one reading only, and it does not
always: with the roles `project` and `project:a` the file `a:x` of the first
root and the file `x` of the second one get the same identity.

This file settles exactly when that happens.  A binding is *live* when some
normalised location can be owned by it: its root is written without `..`, and
of the roles bound to the same directory (only the derived `run` role can share
one) it has the largest name.  Then

* `RolesSeparated` says that no live role is another live role followed by a
  colon;
* `identity_injective` shows that separated roles give distinct identities to
  distinct locations, whether they lie under roles or outside all of them;
* `exists_collision` builds two colliding files from any two roles that are not
  separated, by naming a file after what is left of the longer role;
* `path_separates_files_iff` joins the two.
-/

namespace Fragma
namespace Replay

open Posix

namespace Mapper

variable {m : Mapper}

/-! ## Live bindings -/

/-- A binding that owns its own root directory in normal form. -/
structure Live (m : Mapper) (b : String × String) : Prop where
  mem : b ∈ m.roots
  absolute : (PurePath.parse b.2).IsAbsolute
  collapsed : (PurePath.parse b.2).IsCollapsed
  first : ∀ b' ∈ m.roots, PurePath.parse b'.2 = PurePath.parse b.2 → b'.1 ≤ b.1

/-- No live role is another live role followed by a colon and more text. -/
def RolesSeparated (m : Mapper) : Prop :=
  ∀ b b' : String × String, m.Live b → m.Live b' → b.1 ≠ b'.1 →
    ¬ b.1.toList ++ [':'] <+: b'.1.toList

/-- What the construction of a mapper guarantees about its roots: the role names
are distinct and free of slashes. -/
structure WellFormed (m : Mapper) : Prop where
  noAlias : m.aliases = []
  nodup : (m.roots.map Prod.fst).Nodup
  slash_notMem : ∀ b ∈ m.roots, '/' ∉ b.1.toList

theorem wellFormed_of_new {roots : RootBindings} {run : String}
    (h : Mapper.new roots run = .ok m) : m.WellFormed := by
  obtain ⟨hvalid, rfl⟩ := Mapper.new_eq_ok_iff.mp h
  obtain ⟨-, hok, -⟩ := roots.validate_eq_ok_iff.mp hvalid
  refine ⟨rfl, ?_, ?_⟩
  · rw [List.map_append, List.nodup_append]
    refine ⟨roots.nodup, by simp, ?_⟩
    rintro r hr _ hr' rfl
    obtain ⟨b, hb, rfl⟩ := List.mem_map.mp hr
    exact (hok b hb).not_run (by simpa using hr')
  · intro b hb
    rcases List.mem_append.mp hb with hb | hb
    · exact (hok b hb).name.slash_notMem
    · rw [List.mem_singleton.mp hb]
      show '/' ∉ "run".toList
      decide

/-- A role is bound once. -/
theorem WellFormed.eq_of_role_eq (hm : m.WellFormed) {b b' : String × String}
    (hb : b ∈ m.roots) (hb' : b' ∈ m.roots) (h : b.1 = b'.1) : b = b' :=
  List.inj_on_of_nodup_map hm.nodup hb hb' h

/-! ## The owner of a location -/

/-- The binding that the best candidate of a location comes from. -/
structure Owns (m : Mapper) (b : String × String) (value : PurePath) : Prop where
  mem : b ∈ m.roots
  above : value.IsRelativeTo (PurePath.parse b.2)
  greatest : ∀ b' ∈ m.roots, value.IsRelativeTo (PurePath.parse b'.2) →
    candidate value b' ≤ candidate value b

theorem identity_of_owns {b : String × String} {value : PurePath} (h : m.Owns b value) :
    m.identity value =
      b.1 ++ ":" ++ (value.relativeTo (PurePath.parse b.2)).render := by
  have hbest : m.best value = some (candidate value b) := by
    refine List.max?_eq_some_iff.mpr ⟨?_, ?_⟩
    · exact List.mem_map_of_mem (List.mem_filter.mpr ⟨h.mem, by simpa using h.above⟩)
    · intro c hc
      obtain ⟨b', hb', rfl⟩ := List.mem_map.mp hc
      obtain ⟨hb', hrel⟩ := List.mem_filter.mp hb'
      exact h.greatest b' hb' (by simpa using hrel)
  rw [identity, hbest]
  rfl

/-- Every location has an owner or is a literal identity. -/
theorem owns_or_literal (m : Mapper) (value : PurePath) :
    (∃ b, m.Owns b value) ∨ m.identity value = "absolute:" ++ value.render := by
  cases h : m.best value with
  | some c =>
    obtain ⟨b, hb, hrel, -, hmax⟩ := m.best_eq_some h
    exact Or.inl ⟨b, hb, hrel, hmax⟩
  | none => exact Or.inr (by rw [identity, h])

/-- The owner of an absolute location in normal form is live. -/
theorem Owns.live {b : String × String} {value : PurePath} (h : m.Owns b value)
    (habs : value.IsAbsolute) (hvalue : value.IsCollapsed) : m.Live b := by
  refine ⟨h.mem, fun hr => habs (h.above.1.trans hr), fun c hc => hvalue c (h.above.2.subset hc), fun b' hb' heq => ?_⟩
  have hle := h.greatest b' hb' (heq ▸ h.above)
  rw [candidate, candidate, heq, Prod.Lex.toLex_le_toLex] at hle
  rcases hle with hlt | ⟨-, hle⟩
  · exact absurd hlt (lt_irrefl _)
  · rcases Prod.Lex.toLex_le_toLex.mp hle with hlt | ⟨heq', -⟩
    · exact hlt.le
    · exact heq'.le

/-- A path below a root is put together again from the root and the rest. -/
theorem eq_of_relativeTo_eq {P Q R : PurePath} (hP : P.IsRelativeTo R) (hQ : Q.IsRelativeTo R)
    (h : P.relativeTo R = Q.relativeTo R) : P = Q := by
  refine PurePath.ext (hP.1.trans hQ.1.symm) ?_
  obtain ⟨s, hs⟩ := hP.2
  obtain ⟨t, ht⟩ := hQ.2
  have htail : P.tail.drop R.tail.length = Q.tail.drop R.tail.length :=
    congrArg PurePath.tail h
  rw [← hs, ← ht, List.drop_left, List.drop_left] at htail
  rw [← hs, ← ht, htail]

/-! ## One reading only -/

/-- Two tagged texts agree only if one tag extends the other one past the
separator, or both tags and both bodies are equal. -/
theorem tagged_cases {α : Type*} {sep : α} {t u x y : List α}
    (h : t ++ sep :: x = u ++ sep :: y) :
    (t = u ∧ x = y) ∨ t ++ [sep] <+: u ∨ u ++ [sep] <+: t := by
  rcases List.append_eq_append_iff.mp h with ⟨w, hu, hx⟩ | ⟨w, ht, hy⟩
  · cases w with
    | nil =>
      rw [List.nil_append, List.cons.injEq] at hx
      rw [List.append_nil] at hu
      exact Or.inl ⟨hu.symm, hx.2⟩
    | cons a w =>
      rw [List.cons_append, List.cons.injEq] at hx
      refine Or.inr (Or.inl ⟨w, ?_⟩)
      rw [hu, ← hx.1, List.append_assoc]
      rfl
  · cases w with
    | nil =>
      rw [List.nil_append, List.cons.injEq] at hy
      rw [List.append_nil] at ht
      exact Or.inl ⟨ht, hy.2.symm⟩
    | cons a w =>
      rw [List.cons_append, List.cons.injEq] at hy
      refine Or.inr (Or.inr ⟨w, ?_⟩)
      rw [ht, ← hy.1, List.append_assoc]
      rfl

/-- The text of `role:relative`. -/
theorem toList_tagged (role body : String) :
    (role ++ ":" ++ body).toList = role.toList ++ ':' :: body.toList := by
  rw [String.toList_append, String.toList_append, List.append_assoc]
  rfl

/-- The text of a relative path never starts with a slash. -/
theorem head?_render_relativeTo (P R : PurePath) :
    (P.relativeTo R).render.toList.head? ≠ some '/' := by
  rw [Ne, ← PurePath.isAbsolute_parse_iff, PurePath.parse_render]
  intro h
  exact h rfl

/-- An identity under a role is never a literal one: the text after `absolute:`
starts with a slash, and a role name has none. -/
theorem tagged_ne_literal {role : String} {P R Q : PurePath} (hrole : '/' ∉ role.toList)
    (hQ : Q.IsAbsolute) :
    role ++ ":" ++ (P.relativeTo R).render ≠ "absolute:" ++ Q.render := by
  intro h
  have htext := congrArg String.toList h
  have hQhead : Q.render.toList.head? = some '/' := by
    rw [← PurePath.isAbsolute_parse_iff, PurePath.parse_render]
    exact hQ
  obtain ⟨rest, hrest⟩ := List.head?_eq_some_iff.mp hQhead
  have hlit : ("absolute:" ++ Q.render).toList = "absolute".toList ++ ':' :: '/' :: rest := by
    rw [String.toList_append, hrest]
    rfl
  rw [toList_tagged, hlit] at htext
  rcases tagged_cases htext with ⟨-, hbody⟩ | ⟨w, hw⟩ | ⟨w, hw⟩
  · exact head?_render_relativeTo P R (by rw [hbody]; rfl)
  · have hmem : ':' ∈ "absolute".toList := by
      rw [← hw]
      simp
    exact absurd hmem (by decide)
  · -- the role would run past the slash that follows `absolute:`
    rw [← hw, List.append_assoc, List.append_assoc, List.append_cancel_left_eq] at htext
    cases w with
    | nil =>
      simp only [List.nil_append, List.cons_append, List.cons.injEq, true_and] at htext
      exact absurd htext.1 (by decide)
    | cons c w =>
      simp only [List.nil_append, List.cons_append, List.cons.injEq, true_and] at htext
      refine hrole ?_
      rw [← hw, htext.1]
      simp

/-- **Separated roles identify one location at most.** -/
theorem identity_injective (hm : m.WellFormed) (hsep : m.RolesSeparated) {P Q : PurePath}
    (hP : P.IsAbsolute) (hQ : Q.IsAbsolute) (hPc : P.IsCollapsed) (hQc : Q.IsCollapsed)
    (h : m.identity P = m.identity Q) : P = Q := by
  rcases m.owns_or_literal P with ⟨b, hb⟩ | hb <;> rcases m.owns_or_literal Q with ⟨b', hb'⟩ | hb'
  · rw [identity_of_owns hb, identity_of_owns hb'] at h
    have htext := congrArg String.toList h
    rw [toList_tagged, toList_tagged] at htext
    by_cases hrole : b.1 = b'.1
    · obtain rfl := hm.eq_of_role_eq hb.mem hb'.mem hrole
      rw [List.append_cancel_left_eq, List.cons.injEq] at htext
      have hrel := PurePath.render_injective (String.toList_injective htext.2)
      exact eq_of_relativeTo_eq hb.above hb'.above hrel
    · rcases tagged_cases htext with ⟨heq, -⟩ | hpre | hpre
      · exact absurd (String.toList_injective heq) hrole
      · exact absurd hpre (hsep b b' (hb.live hP hPc) (hb'.live hQ hQc) hrole)
      · exact absurd hpre (hsep b' b (hb'.live hQ hQc) (hb.live hP hPc) (Ne.symm hrole))
  · rw [identity_of_owns hb, hb'] at h
    exact absurd h (tagged_ne_literal (hm.slash_notMem b hb.mem) hQ)
  · rw [identity_of_owns hb', hb] at h
    exact absurd h.symm (tagged_ne_literal (hm.slash_notMem b' hb'.mem) hP)
  · rw [hb, hb'] at h
    refine PurePath.render_injective (String.toList_injective ?_)
    have htext := congrArg String.toList h
    rwa [String.toList_append, String.toList_append, List.append_cancel_left_eq] at htext

/-! ## A collision from two roles that are not separated -/

/-- A bound on the length of every component of every root. -/
def longest (m : Mapper) : ℕ :=
  ((m.roots.flatMap fun b => (PurePath.parse b.2).tail).map fun c => c.text.length).sum

theorem length_le_longest {b : String × String} (hb : b ∈ m.roots) {c : Component}
    (hc : c ∈ (PurePath.parse b.2).tail) : c.text.length ≤ m.longest :=
  List.le_sum_of_mem (List.mem_map_of_mem (List.mem_flatMap.mpr ⟨b, hb, hc⟩))

/-- A file directly below the root of a live role, with a name longer than every
component of every root, is owned by that role. -/
theorem owns_child {b : String × String} (hb : m.Live b) {c : Component}
    (hc : m.longest < c.text.length) :
    m.Owns b ⟨(PurePath.parse b.2).root, (PurePath.parse b.2).tail ++ [c]⟩ := by
  refine ⟨hb.mem, ⟨rfl, List.prefix_append _ _⟩, fun b' hb' hrel => ?_⟩
  have hprefix : (PurePath.parse b'.2).tail <+: (PurePath.parse b.2).tail := by
    rcases List.prefix_concat_iff.mp hrel.2 with heq | hpre
    · have hmem : c ∈ (PurePath.parse b'.2).tail := by
        rw [heq]
        simp
      exact absurd (length_le_longest hb' hmem) (by omega)
    · exact hpre
  have hroot : (PurePath.parse b'.2).root = (PurePath.parse b.2).root := hrel.1.symm
  rw [candidate, candidate, Prod.Lex.toLex_le_toLex]
  rcases Nat.lt_or_ge (PurePath.parse b'.2).tail.length (PurePath.parse b.2).tail.length
    with hlt | hge
  · left
    simp only [PurePath.partCount, hroot]
    omega
  · have htail := hprefix.eq_of_length_le hge
    have heq : PurePath.parse b'.2 = PurePath.parse b.2 := PurePath.ext hroot htail
    right
    rw [heq]
    refine ⟨rfl, Prod.Lex.toLex_le_toLex.mpr ?_⟩
    rcases lt_or_eq_of_le (hb.first b' hb' heq) with hlt | heq'
    · exact Or.inl hlt
    · exact Or.inr ⟨heq', le_rfl⟩

/-- A file name that starts with the given text and is too long to be part of a
root. -/
theorem exists_fresh (m : Mapper) (start : List Char) (hstart : '/' ∉ start) :
    ∃ c : Component, c.text = start ++ List.replicate (m.longest + 3) 'z' ∧ ¬ c.IsParent := by
  have hlen : ∀ l : List Char, l.length < m.longest + 3 →
      start ++ List.replicate (m.longest + 3) 'z' ≠ l := by
    intro l hl heq
    have := congrArg List.length heq
    rw [List.length_append, List.length_replicate] at this
    omega
  refine ⟨⟨_, hlen [] (by simp), hlen ['.'] (by simp), ?_⟩, rfl, hlen ['.', '.'] ?_⟩
  · rw [List.mem_append, List.mem_replicate, not_or]
    exact ⟨hstart, fun h => absurd h.2 (by decide)⟩
  · simp only [List.length_cons, List.length_nil]
    omega

/-- A location directly below a collapsed root is in normal form. -/
theorem isCollapsed_child {R : PurePath} (hR : R.IsCollapsed) {c : Component} (hc : ¬ c.IsParent) :
    (⟨R.root, R.tail ++ [c]⟩ : PurePath).IsCollapsed := by
  intro d hd
  rcases List.mem_append.mp hd with hd | hd
  · exact hR d hd
  · rw [List.mem_singleton.mp hd]
    exact hc

theorem relativeTo_child (R : PurePath) (c : Component) :
    ((⟨R.root, R.tail ++ [c]⟩ : PurePath).relativeTo R).render = String.ofList c.text := by
  unfold PurePath.relativeTo PurePath.render PurePath.renderChars
  rw [List.drop_left, if_neg (by simp)]
  simp [Root.text, List.intercalate]

/-- **Two live roles of which one extends the other past a colon give the same
identity to two different files.** -/
theorem exists_collision (hm : m.WellFormed) {b b' : String × String} (hb : m.Live b)
    (hb' : m.Live b') (hne : b.1 ≠ b'.1) (hpre : b.1.toList ++ [':'] <+: b'.1.toList) :
    ∃ P Q : PurePath, P.IsAbsolute ∧ Q.IsAbsolute ∧ P.IsCollapsed ∧ Q.IsCollapsed ∧
      m.identity P = m.identity Q ∧ P ≠ Q := by
  obtain ⟨w, hw⟩ := hpre
  have hwslash : '/' ∉ w ++ [':'] := by
    intro hmem
    refine hm.slash_notMem b' hb'.mem ?_
    rw [← hw]
    rcases List.mem_append.mp hmem with h | h
    · exact List.mem_append_right _ h
    · exact absurd h (by decide)
  obtain ⟨c, hc, hcp⟩ := exists_fresh m (w ++ [':']) hwslash
  obtain ⟨d, hd, hdp⟩ := exists_fresh m [] (by simp)
  set P : PurePath := ⟨(PurePath.parse b.2).root, (PurePath.parse b.2).tail ++ [c]⟩ with hP
  set Q : PurePath := ⟨(PurePath.parse b'.2).root, (PurePath.parse b'.2).tail ++ [d]⟩ with hQ
  have hPowns : m.Owns b P := owns_child hb (by rw [hc]; simp; omega)
  have hQowns : m.Owns b' Q := owns_child hb' (by rw [hd]; simp)
  have hid : m.identity P = m.identity Q := by
    rw [identity_of_owns hPowns, identity_of_owns hQowns, hP, hQ, relativeTo_child,
      relativeTo_child]
    refine String.toList_injective ?_
    rw [toList_tagged, toList_tagged, String.toList_ofList, String.toList_ofList, hc, hd, ← hw]
    simp
  refine ⟨P, Q, hb.absolute, hb'.absolute, isCollapsed_child hb.collapsed hcp,
    isCollapsed_child hb'.collapsed hdp, hid, ?_⟩
  intro heq
  -- the owner of a location is unique, but the two roles differ
  have hle := hPowns.greatest b' hQowns.mem (heq ▸ hQowns.above)
  have hge := hQowns.greatest b hPowns.mem (heq ▸ hPowns.above)
  rw [← heq] at hge
  have hcand := le_antisymm hle hge
  exact hne (congrArg (fun x : Candidate => (ofLex (ofLex x).2).1) hcand).symm

/-! ## The exact condition -/

/-- **Replay identities separate files exactly when the live roles are
separated.**  For declared roots that validate and any run directory, two
absolute paths with one identity have one normal form, for all pairs of paths,
if and only if no live role is another live role followed by a colon. -/
theorem path_separates_files_iff (roots : RootBindings) (run : String) (m : Mapper)
    (hnew : Mapper.new roots run = .ok m) :
    (∀ p q : String, (PurePath.parse p).IsAbsolute → (PurePath.parse q).IsAbsolute →
      m.path p = m.path q → normpath p = normpath q) ↔ m.RolesSeparated := by
  have hm := wellFormed_of_new hnew
  constructor
  · intro hinj b b' hb hb' hne hpre
    obtain ⟨P, Q, hP, hQ, hPc, hQc, hid, hPQ⟩ := exists_collision hm hb hb' hne hpre
    have hpath : m.path P.render = m.path Q.render := by
      rw [m.path_of_absolute hm.noAlias (by rwa [PurePath.parse_render]),
        m.path_of_absolute hm.noAlias (by rwa [PurePath.parse_render]), PurePath.parse_render,
        PurePath.parse_render, PurePath.collapse_eq_self hPc, PurePath.collapse_eq_self hQc, hid]
    have hnorm := hinj P.render Q.render (by rwa [PurePath.parse_render])
      (by rwa [PurePath.parse_render]) hpath
    rw [normpath_eq_iff, PurePath.parse_render, PurePath.parse_render,
      PurePath.collapse_eq_self hPc, PurePath.collapse_eq_self hQc] at hnorm
    exact hPQ hnorm
  · intro hsep p q hp hq hpq
    rw [m.path_of_absolute hm.noAlias hp, m.path_of_absolute hm.noAlias hq, Except.ok.injEq] at hpq
    rw [normpath_eq_iff]
    exact identity_injective hm hsep hp hq (PurePath.isCollapsed_collapse hp)
      (PurePath.isCollapsed_collapse hq) hpq

/-- One declared role next to the run directory. -/
def projectRoot : RootBindings where
  roots := [("project", "/p")]
  nodup := by decide

theorem path_separates_files_projectRoot :
    ∃ m, Mapper.new projectRoot "/r" = .ok m ∧
      ((∀ p q : String, (PurePath.parse p).IsAbsolute → (PurePath.parse q).IsAbsolute →
        m.path p = m.path q → normpath p = normpath q) ↔ m.RolesSeparated) :=
  ⟨⟨[("project", "/p"), ("run", "/r")], []⟩, rfl,
    path_separates_files_iff projectRoot "/r" _ rfl⟩

/-- The bindings of the collision in the module text. -/
def ambiguousRoots : RootBindings where
  roots := [("project", "/p"), ("project:a", "/q")]
  nodup := by decide

/-- The two bindings validate, and the files `/p/a:x` and `/q/x` of different
roles are both written `project:a:x`. -/
theorem ambiguousRoots_collide :
    ∃ m, Mapper.new ambiguousRoots "/r" = .ok m ∧ (PurePath.parse "/p/a:x").IsAbsolute ∧
      (PurePath.parse "/q/x").IsAbsolute ∧ m.path "/p/a:x" = .ok "project:a:x" ∧
      m.path "/q/x" = .ok "project:a:x" ∧ normpath "/p/a:x" ≠ normpath "/q/x" :=
  ⟨⟨[("project", "/p"), ("project:a", "/q"), ("run", "/r")], []⟩,
    rfl, by decide, by decide, rfl, rfl, by decide⟩

end Mapper

end Replay
end Fragma
