import Mathlib.Data.List.Forall2
import Fragma.Provenance.Splicing
import Fragma.Replay.Relocation

/-!
# Where the normaliser is misled

`fragma/replay.py`, `normalize_linemarkers`.  If the scanner is misled at a linemarker, more
than metadata changes: either the content of a comment or a literal is rewritten, or the
filename of a real linemarker is kept, and then a relocation shows it.  The relocation is the
one that moves every root below a new directory.

* `shift`, `Mapper.shifted`: the new directory.
* `Mapper.corresponds_shifted`, `Mapper.valid_shifted`.
* `relocated_shiftLines`: the relocated text.
* `metadataOnly_iff`: only metadata changes exactly when the scanner is not misled.
-/

namespace Fragma
namespace Replay

open Python Posix

/-! ## Moving a path -/

/-- A path moved below a directory of the file system's root. -/
def shift (z : Component) (P : PurePath) : PurePath := ⟨P.root, z :: P.tail⟩

theorem below_shift_iff {z : Component} {P Q : PurePath} {k : List Component} :
    Below (shift z P) (shift z Q) k ↔ Below P Q k := by
  unfold Below shift
  simp

theorem shift_injective (z : Component) : Function.Injective (shift z) := by
  intro P Q h
  obtain ⟨hroot, htail⟩ := PurePath.mk.inj h
  exact PurePath.ext hroot (List.cons.inj htail).2

theorem shift_ne (z : Component) (P : PurePath) : shift z P ≠ P := by
  intro h
  have hlength := congrArg (fun Q => Q.tail.length) h
  simp [shift] at hlength

theorem isCollapsed_shift {z : Component} {P : PurePath} (hz : ¬ z.IsParent) (hP : P.IsCollapsed) :
    (shift z P).IsCollapsed := by
  intro c hc
  rcases List.mem_cons.mp hc with rfl | hc
  · exact hz
  · exact hP c hc

theorem mem_collapseFrom {r : Root} {c : Component} (cs : List Component) :
    ∀ stack : List Component, c ∈ PurePath.collapseFrom r stack cs → c ∈ stack ∨ c ∈ cs := by
  induction cs with
  | nil =>
    intro stack h
    exact .inl (List.mem_reverse.mp h)
  | cons d cs ih =>
    intro stack h
    rw [PurePath.collapseFrom] at h
    split_ifs at h
    · rcases ih _ h with hmem | hmem
      · rcases List.mem_cons.mp hmem with rfl | hmem
        · exact .inr List.mem_cons_self
        · exact .inl hmem
      · exact .inr (List.mem_cons_of_mem d hmem)
    · rcases ih _ h with hmem | hmem
      · exact .inl (List.mem_of_mem_tail hmem)
      · exact .inr (List.mem_cons_of_mem d hmem)

/-- Collapsing keeps no other components. -/
theorem mem_tail_collapse {P : PurePath} {c : Component} (h : c ∈ P.collapse.tail) : c ∈ P.tail := by
  rcases mem_collapseFrom P.tail [] h with hmem | hmem
  · exact absurd hmem (by simp)
  · exact hmem

/-- A new directory is kept in front, or a parent component takes it away. -/
theorem collapseFrom_concat {r : Root} (hr : r ≠ .relative) {z : Component} (hz : ¬ z.IsParent)
    (cs : List Component) : ∀ stack : List Component,
      PurePath.collapseFrom r (stack ++ [z]) cs = z :: PurePath.collapseFrom r stack cs ∨
        PurePath.collapseFrom r (stack ++ [z]) cs = PurePath.collapseFrom r stack cs := by
  induction cs with
  | nil =>
    intro stack
    left
    simp [PurePath.collapseFrom]
  | cons c cs ih =>
    intro stack
    rw [PurePath.collapseFrom, PurePath.collapseFrom]
    by_cases hc : c.IsParent
    · cases stack with
      | nil =>
        right
        rw [if_neg (by simp [hc, hr, hz]), if_neg (by simp [hc, hr])]
        rfl
      | cons d ds =>
        by_cases hd : d.IsParent
        · rw [if_pos (by simp [hd]), if_pos (by simp [hd])]
          exact ih (c :: d :: ds)
        · rw [if_neg (by simp [hc, hr, hd]), if_neg (by simp [hc, hr, hd])]
          exact ih ds
    · rw [if_pos (.inl hc), if_pos (.inl hc)]
      exact ih (c :: stack)

/-- Moved paths that collapse alike collapsed alike. -/
theorem collapse_eq_of_shift {z : Component} (hz : ¬ z.IsParent) {P Q : PurePath}
    (hP : P.IsAbsolute) (hzP : z ∉ P.tail) (hzQ : z ∉ Q.tail)
    (h : (shift z P).collapse = (shift z Q).collapse) : P.collapse = Q.collapse := by
  obtain ⟨hroot, htail⟩ := PurePath.mk.inj h
  have hrootPQ : P.root = Q.root := hroot
  have hQ : Q.IsAbsolute := by
    rw [PurePath.IsAbsolute, ← hrootPQ]
    exact hP
  have hstart : ∀ R : PurePath, PurePath.collapseFrom R.root [] (shift z R).tail =
      PurePath.collapseFrom R.root ([] ++ [z]) R.tail := by
    intro R
    show PurePath.collapseFrom R.root [] (z :: R.tail) = _
    rw [PurePath.collapseFrom, if_pos (.inl hz)]
    rfl
  have hsame : PurePath.collapseFrom P.root ([] ++ [z]) P.tail =
      PurePath.collapseFrom Q.root ([] ++ [z]) Q.tail := by
    rw [← hstart P, ← hstart Q]
    exact htail
  have hoff : ∀ R : PurePath, z ∉ R.tail → z ∉ PurePath.collapseFrom R.root [] R.tail :=
    fun R hzR hmem => hzR (mem_tail_collapse hmem)
  refine PurePath.ext hrootPQ ?_
  show PurePath.collapseFrom P.root [] P.tail = PurePath.collapseFrom Q.root [] Q.tail
  rcases collapseFrom_concat hP hz P.tail [] with hP' | hP' <;>
    rcases collapseFrom_concat hQ hz Q.tail [] with hQ' | hQ'
  · rw [hP', hQ'] at hsame
    exact (List.cons.inj hsame).2
  · rw [hP', hQ'] at hsame
    exact absurd (by rw [← hsame]; exact List.mem_cons_self) (hoff Q hzQ)
  · rw [hP', hQ'] at hsame
    exact absurd (by rw [hsame]; exact List.mem_cons_self) (hoff P hzP)
  · rwa [hP', hQ'] at hsame

/-! ## A new directory -/

/-- A directory name that is a component of none of the given paths. -/
theorem exists_fresh_component (paths : List PurePath) :
    ∃ z : Component, ¬ z.IsParent ∧ (∀ c ∈ z.text, c = 'z') ∧ ∀ P ∈ paths, z ∉ P.tail := by
  have hlength : ∀ P ∈ paths, ∀ c ∈ P.tail,
      c.text.length ≤ ((paths.flatMap PurePath.tail).map fun c => c.text.length).sum :=
    fun P hP c hc => List.le_sum_of_mem (List.mem_map_of_mem (List.mem_flatMap.mpr ⟨P, hP, hc⟩))
  generalize ((paths.flatMap PurePath.tail).map fun c => c.text.length).sum = n at hlength
  have hne : ∀ l : List Char, l.length < n + 3 → List.replicate (n + 3) 'z' ≠ l := by
    intro l hl heq
    rw [← heq, List.length_replicate] at hl
    omega
  refine ⟨⟨List.replicate (n + 3) 'z', hne [] (by simp), hne ['.'] (by simp), ?_⟩, ?_, ?_, ?_⟩
  · rw [List.mem_replicate]
    exact fun h => absurd h.2 (by decide)
  · exact hne ['.', '.'] (by simp only [List.length_cons, List.length_nil]; omega)
  · intro c hc
    exact List.eq_of_mem_replicate hc
  · intro P hP hmem
    have hle := hlength P hP _ hmem
    simp only [List.length_replicate] at hle
    omega

namespace Mapper

variable {m : Mapper} {z : Component}

/-- A path below some root, written in the way paths are rendered. -/
def IsRootedKey (m : Mapper) (key : String) : Prop :=
  (∃ b ∈ m.roots, (PurePath.parse key).IsRelativeTo (PurePath.parse b.2)) ∧
    (PurePath.parse key).render = key

instance (m : Mapper) (key : String) : Decidable (m.IsRootedKey key) :=
  inferInstanceAs (Decidable (_ ∧ _))

/-- The key that an alias gets. -/
def shiftKey (m : Mapper) (z : Component) (key : String) : String :=
  if m.IsRootedKey key then (shift z (PurePath.parse key)).render else key

/-- A root moved below the new directory. -/
def shiftRoot (z : Component) (b : String × String) : String × String :=
  (b.1, (shift z (PurePath.parse b.2)).render)

/-- A mapper whose roots and files are all below a new directory. -/
def shifted (m : Mapper) (z : Component) : Mapper where
  roots := m.roots.map (shiftRoot z)
  aliases := m.aliases.map fun a => (m.shiftKey z a.1, a.2)

/-- The directory is new to the roots and the aliases of a mapper. -/
structure Fresh (m : Mapper) (z : Component) : Prop where
  notParent : ¬ z.IsParent
  roots : ∀ b ∈ m.roots, z ∉ (PurePath.parse b.2).tail
  aliases : ∀ a ∈ m.aliases, z ∉ (PurePath.parse a.1).tail

@[simp] theorem parse_shiftRoot (z : Component) (b : String × String) :
    PurePath.parse (shiftRoot z b).2 = shift z (PurePath.parse b.2) :=
  PurePath.parse_render _

/-- The roles of a valid mapper are distinct. -/
theorem Valid.nodup (h : m.Valid) : (m.roots.map Prod.fst).Nodup := by
  obtain ⟨⟨roots, run, hnew⟩, -⟩ := h
  exact (wellFormed_of_new hnew).nodup

/-- The roles of a valid mapper are named, so its identities are no filenames. -/
theorem Valid.proper (h : m.Valid) : m.Proper := by
  obtain ⟨⟨roots, run, hnew⟩, halias⟩ := h
  obtain ⟨hvalid, heq⟩ := Mapper.new_eq_ok_iff.mp hnew
  obtain ⟨-, hok, -⟩ := roots.validate_eq_ok_iff.mp hvalid
  have hroots : m.roots = roots.roots ++ [("run", run)] := congrArg Mapper.roots heq
  refine proper_of_roles ?_ halias
  intro b hb
  rw [hroots] at hb
  rcases List.mem_append.mp hb with hb | hb
  · exact (hok b hb).name
  · rw [List.mem_singleton.mp hb]
    show IsRoleName "run"
    decide

/-- Distinct keys stay distinct, so the lookup finds the same. -/
theorem lookup_map_key {f : String → String} {l : List (String × String)} {x y : String}
    (h : ∀ a ∈ l, f a.1 = y ↔ a.1 = x) :
    (l.map fun a => (f a.1, a.2)).lookup y = l.lookup x := by
  induction l with
  | nil => rfl
  | cons a l ih =>
    have hrest := ih fun b hb => h b (List.mem_cons_of_mem a hb)
    have ha := h a List.mem_cons_self
    rw [List.map_cons, List.lookup_cons, List.lookup_cons, hrest]
    by_cases hx : a.1 = x
    · rw [ha.mpr hx, hx]
      simp
    · have hy : ¬ f a.1 = y := fun hy => hx (ha.mp hy)
      rw [beq_eq_false_iff_ne.mpr (Ne.symm hy), beq_eq_false_iff_ne.mpr (Ne.symm hx)]

theorem covers_iff {p : String} : m.Covers p ↔ ∃ b ∈ m.roots, ∃ k, Below (PurePath.parse b.2)
    (location p) k := by
  simp only [Covers, isRelativeTo_iff_below]

/-- Moved paths have the same alias. -/
theorem lookup_shifted (hz : m.Fresh z) {p p' : String} (h : Moves m (m.shifted z) p p')
    (hnodup : (m.roots.map Prod.fst).Nodup) :
    m.aliases.lookup (normpath p) = (m.shifted z).aliases.lookup (normpath p') := by
  refine (lookup_map_key (f := m.shiftKey z) fun a ha => ?_).symm
  have hzkey := hz.aliases a ha
  obtain ⟨-, -, ⟨b, b', k, hown, hb', hrole, hbelow, hbelow'⟩ | ⟨rfl, hm, hm'⟩⟩ := h
  · -- the new location is the old one moved
    obtain ⟨b₀, hb₀, rfl⟩ := List.mem_map.mp hb'
    obtain rfl : b₀ = b := List.inj_on_of_nodup_map hnodup hb₀ hown.mem hrole
    rw [parse_shiftRoot] at hbelow'
    have hlocation : location p' = shift z (location p) := by
      refine PurePath.ext (hbelow'.1.trans hbelow.1.symm) ?_
      rw [hbelow'.2, shift, shift, hbelow.2]
      rfl
    have hnew : normpath p' = (shift z (location p)).render := by
      rw [← hlocation]
      rfl
    have hold : normpath p = (location p).render := rfl
    rw [hnew, hold]
    unfold shiftKey
    constructor
    · intro heq
      split_ifs at heq with hrooted
      · rw [← hrooted.2, shift_injective z (PurePath.render_injective heq)]
      · rw [heq, PurePath.parse_render] at hzkey
        exact absurd List.mem_cons_self hzkey
    · intro heq
      have hparse : PurePath.parse a.1 = location p := by rw [heq, PurePath.parse_render]
      have hrooted : m.IsRootedKey a.1 :=
        ⟨⟨b₀, hb₀, by rw [hparse]; exact isRelativeTo_iff_below.mpr ⟨k, hbelow⟩⟩,
          by rw [hparse, heq]⟩
      rw [if_pos hrooted, hparse]
  · have hold : normpath p' = (location p').render := rfl
    rw [hold]
    unfold shiftKey
    constructor
    · intro heq
      split_ifs at heq with hrooted
      · obtain ⟨⟨b, hb, habove⟩, -⟩ := hrooted
        obtain ⟨k, hk⟩ := isRelativeTo_iff_below.mp habove
        refine absurd (covers_iff.mpr ⟨shiftRoot z b, List.mem_map_of_mem hb, k, ?_⟩) hm'
        rw [parse_shiftRoot, ← PurePath.render_injective heq]
        exact below_shift_iff.mpr hk
      · exact heq
    · intro heq
      have hrooted : ¬ m.IsRootedKey a.1 := by
        rintro ⟨⟨b, hb, habove⟩, -⟩
        rw [heq, PurePath.parse_render] at habove
        exact hm ⟨b, hb, habove⟩
      rw [if_neg hrooted, heq]

/-- **The moved roots correspond to the old ones.** -/
theorem corresponds_shifted (hm : m.Valid) (hz : m.Fresh z) : Corresponds m (m.shifted z) := by
  refine ⟨fun role => ?_, ?_, fun p p' h => lookup_shifted hz h hm.nodup⟩
  · rw [shifted, List.map_map]
    rfl
  · intro b hb c hc b' hb' c' hc' hbrole hcrole k
    obtain ⟨b₀, hb₀, rfl⟩ := List.mem_map.mp hb'
    obtain ⟨c₀, hc₀, rfl⟩ := List.mem_map.mp hc'
    obtain rfl : b₀ = b := List.inj_on_of_nodup_map hm.nodup hb₀ hb hbrole
    obtain rfl : c₀ = c := List.inj_on_of_nodup_map hm.nodup hc₀ hc hcrole
    rw [parse_shiftRoot, parse_shiftRoot, below_shift_iff]

/-- **The moved roots are valid.** -/
theorem valid_shifted (hm : m.Valid) (hz : m.Fresh z) : (m.shifted z).Valid := by
  obtain ⟨⟨roots, run, hnew⟩, halias⟩ := hm
  obtain ⟨hvalid, heq⟩ := Mapper.new_eq_ok_iff.mp hnew
  obtain ⟨hproject, hok, hnodup⟩ := roots.validate_eq_ok_iff.mp hvalid
  have hroots : m.roots = roots.roots ++ [("run", run)] := congrArg Mapper.roots heq
  have hfst : ((roots.roots.map (shiftRoot z)).map Prod.fst) = roots.roots.map Prod.fst := by
    rw [List.map_map]
    rfl
  refine ⟨⟨⟨roots.roots.map (shiftRoot z), by rw [hfst]; exact roots.nodup⟩,
    (shiftRoot z ("run", run)).2, Mapper.new_eq_ok_iff.mpr ⟨?_, ?_⟩⟩, ?_⟩
  · refine (RootBindings.validate_eq_ok_iff _).mpr ⟨by rw [hfst]; exact hproject, ?_, ?_⟩
    · intro r hr
      obtain ⟨b, hb, rfl⟩ := List.mem_map.mp hr
      refine ⟨(hok b hb).name, (hok b hb).not_run, ?_, ?_⟩
      · rw [parse_shiftRoot]
        exact (hok b hb).absolute
      · intro hbroad
        have hparse := parse_shiftRoot z b
        rw [hbroad] at hparse
        have htop : PurePath.parse "/" = ⟨.single, []⟩ := by decide
        have htail := congrArg PurePath.tail (htop.symm.trans hparse)
        exact absurd htail (by simp [shift])
    · rw [List.map_map]
      refine List.Nodup.map_on ?_ (List.Nodup.of_map _ hnodup)
      intro b hb c hc heq
      have hcollapse := collapse_eq_of_shift hz.notParent (hok b hb).absolute
        (hz.roots b (by rw [hroots]; exact List.mem_append_left _ hb))
        (hz.roots c (by rw [hroots]; exact List.mem_append_left _ hc))
        (by
          have hnorm := (normpath_eq_iff _ _).mp heq
          rwa [parse_shiftRoot, parse_shiftRoot] at hnorm)
      exact List.inj_on_of_nodup_map hnodup hb hc ((normpath_eq_iff _ _).mpr hcollapse)
  · show (⟨m.roots.map (shiftRoot z), []⟩ : Mapper) = _
    rw [hroots, List.map_append]
    rfl
  · intro a ha
    obtain ⟨a₀, ha₀, rfl⟩ := List.mem_map.mp ha
    exact halias a₀ ha₀

end Mapper

/-! ## The relocated text -/

theorem mem_intercalate_iff {sep : Char} {ls : List (List Char)} {x : Char} (h : x ≠ sep) :
    x ∈ [sep].intercalate ls ↔ ∃ l ∈ ls, x ∈ l := by
  induction ls with
  | nil => simp
  | cons l ls ih =>
    cases ls with
    | nil => simp [List.intercalate]
    | cons l' ls =>
      rw [List.intercalate_cons_cons, List.mem_append, List.mem_append, ih]
      simp [h]

/-- A rendered path is written with the characters of its components, slashes and a dot. -/
theorem mem_renderChars {P : PurePath} {x : Char} (h : x ∈ P.renderChars) :
    x = '/' ∨ x = '.' ∨ ∃ c ∈ P.tail, x ∈ c.text := by
  by_cases hslash : x = '/'
  · exact .inl hslash
  · right
    unfold PurePath.renderChars at h
    split_ifs at h
    · exact .inl (List.mem_singleton.mp h)
    · rcases List.mem_append.mp h with hroot | htail
      · cases hr : P.root with
        | relative => rw [hr] at hroot; exact absurd hroot (by simp [Root.text])
        | single => rw [hr] at hroot; exact absurd hroot (by simp [Root.text, hslash])
        | double => rw [hr] at hroot; exact absurd hroot (by simp [Root.text, hslash])
      · obtain ⟨l, hl, hx⟩ := (mem_intercalate_iff hslash).mp htail
        obtain ⟨c, hc, rfl⟩ := List.mem_map.mp hl
        exact .inr ⟨c, hc, hx⟩

/-- The components of a text are written with its characters. -/
theorem mem_of_mem_components {cs : List Char} {c : Component} (hc : c ∈ PurePath.components cs)
    {x : Char} (hx : x ∈ c.text) : x ∈ cs := by
  obtain ⟨l, hl, hlc⟩ := List.mem_filterMap.mp hc
  have htext : c.text = l := by
    unfold Component.ofText? at hlc
    split_ifs at hlc
    rw [← Option.some.inj hlc]
  have hne : x ≠ '/' := by
    rintro rfl
    exact c.slash_notMem hx
  have hjoin : ['/'].intercalate (cs.splitOn '/') = cs := List.intercalate_splitOn '/'
  rw [← hjoin, mem_intercalate_iff hne]
  exact ⟨l, hl, htext ▸ hx⟩

/-- The filename of a file below the new directory. -/
def shiftPath (z : Component) (path : List Char) : List Char :=
  (shift z (location (String.ofList path))).renderChars

theorem mem_shiftPath {z : Component} (hz : ∀ c ∈ z.text, c = 'z') {path : List Char} {x : Char}
    (h : x ∈ shiftPath z path) : x ∈ ['/', '.', 'z'] ∨ x ∈ path := by
  rcases mem_renderChars h with rfl | rfl | ⟨c, hc, hx⟩
  · exact .inl (by simp)
  · exact .inl (by simp)
  · rcases List.mem_cons.mp hc with rfl | hc
    · rw [hz x hx]
      exact .inl (by simp)
    · have hparse := mem_tail_collapse hc
      rw [PurePath.parse, PurePath.parseChars, String.toList_ofList] at hparse
      exact .inr (mem_of_mem_components hparse hx)

/-- It is one. -/
theorem pathText_shiftPath {z : Component} (hz : ∀ c ∈ z.text, c = 'z') {path : List Char}
    (h : PathText path) : PathText (shiftPath z path) := by
  refine ⟨?_, fun c hc => ?_⟩
  · intro hnil
    have hparse : PurePath.parseChars (shiftPath z path) = shift z (location (String.ofList path)) :=
      PurePath.parseChars_renderChars _
    rw [hnil] at hparse
    have htail := congrArg PurePath.tail hparse
    exact absurd htail (by simp [shift, PurePath.parseChars, PurePath.components])
  · rcases mem_shiftPath hz hc with hmem | hmem
    · simp only [List.mem_cons, List.not_mem_nil, or_false] at hmem
      rcases hmem with rfl | rfl | rfl <;> decide
    · exact h.2 c hmem

theorem unbroken_shiftPath {z : Component} (hz : ∀ c ∈ z.text, c = 'z') {path : List Char}
    (h : Unbroken path) : Unbroken (shiftPath z path) := by
  intro c hc
  rcases mem_shiftPath hz hc with hmem | hmem
  · simp only [List.mem_cons, List.not_mem_nil, or_false] at hmem
    rcases hmem with rfl | rfl | rfl <;> decide
  · exact h c hmem

theorem location_shiftPath {z : Component} (hz : ¬ z.IsParent) {path : List Char}
    (habs : (PurePath.parse (String.ofList path)).IsAbsolute) :
    location (String.ofList (shiftPath z path)) = shift z (location (String.ofList path)) ∧
      (PurePath.parse (String.ofList (shiftPath z path))).IsAbsolute := by
  have hparse : PurePath.parse (String.ofList (shiftPath z path)) =
      shift z (location (String.ofList path)) := by
    rw [PurePath.parse, String.toList_ofList]
    exact PurePath.parseChars_renderChars _
  rw [location, hparse]
  exact ⟨PurePath.collapse_eq_self (isCollapsed_shift hz (PurePath.isCollapsed_collapse habs)), habs⟩

namespace Mapper

variable {m : Mapper} {z : Component}

theorem exists_owns_of_covers {p : String} (h : m.Covers p) : ∃ b, m.Owns b (location p) := by
  cases hbest : m.best (location p) with
  | none =>
    obtain ⟨b, hb, habove⟩ := h
    exact absurd habove (m.best_eq_none.mp hbest b hb)
  | some c =>
    obtain ⟨b, hb, habove, -, hmax⟩ := m.best_eq_some hbest
    exact ⟨b, hb, habove, hmax⟩

/-- A file under a root moves to the new directory. -/
theorem moves_shiftPath (hz : m.Fresh z) {path : List Char} (hslash : path.head? = some '/')
    (h : m.Covers (String.ofList path)) :
    Moves m (m.shifted z) (String.ofList path) (String.ofList (shiftPath z path)) := by
  have habs := head?_of_isAbsolute.mpr hslash
  obtain ⟨hlocation, habs'⟩ := location_shiftPath hz.notParent habs
  obtain ⟨b, hown⟩ := exists_owns_of_covers h
  obtain ⟨k, hk⟩ := isRelativeTo_iff_below.mp hown.above
  refine ⟨habs, habs', .inl ⟨b, shiftRoot z b, k, hown, List.mem_map_of_mem hown.mem, rfl, hk, ?_⟩⟩
  rw [parse_shiftRoot, hlocation]
  exact below_shift_iff.mpr hk

/-- Any other file stays, if it is not in the new directory. -/
theorem moves_self {path : List Char} (hslash : path.head? = some '/')
    (hfresh : z ∉ (PurePath.parse (String.ofList path)).tail)
    (h : ¬ m.Covers (String.ofList path)) :
    Moves m (m.shifted z) (String.ofList path) (String.ofList path) := by
  have habs := head?_of_isAbsolute.mpr hslash
  refine ⟨habs, habs, .inr ⟨rfl, h, ?_⟩⟩
  rintro ⟨b', hb', habove⟩
  obtain ⟨b, -, rfl⟩ := List.mem_map.mp hb'
  rw [parse_shiftRoot] at habove
  exact hfresh (mem_tail_collapse (habove.2.subset List.mem_cons_self))

end Mapper

/-- A line of the relocated text. -/
def shiftLine (t : Decimals) (m : Mapper) (z : Component) (inside : Bool) (line : List Char) :
    List Char :=
  match located t line with
  | some (head, path, tail) =>
    if inside = false ∧ path.head? = some '/' ∧ m.Covers (String.ofList path) then
      head ++ '"' :: (shiftPath z path ++ '"' :: tail)
    else line
  | none => line

/-- The lines of the relocated text. -/
def shiftLines (t : Decimals) (m : Mapper) (z : Component) (lines : List (List Char)) :
    List (List Char) :=
  lines.mapIdx fun k line => shiftLine t m z (inside (lines.take k).flatten) line

theorem getElem?_shiftLines {t : Decimals} {m : Mapper} {z : Component}
    {lines : List (List Char)} {k : ℕ} {line : List Char} (hk : lines[k]? = some line) :
    (shiftLines t m z lines)[k]? = some (shiftLine t m z (inside (lines.take k).flatten) line) := by
  rw [shiftLines, List.getElem?_mapIdx, hk]
  rfl

theorem reworded_shiftLine {t : Decimals} {m : Mapper} {z : Component} (hz : ∀ c ∈ z.text, c = 'z')
    {lines : List (List Char)} (hlines : Lines lines) {line : List Char} (hmem : line ∈ lines)
    (inside : Bool) : Reworded line (shiftLine t m z inside line) := by
  unfold shiftLine
  cases hloc : located t line with
  | none => exact .inl rfl
  | some r =>
    obtain ⟨head, path, tail⟩ := r
    dsimp only
    split_ifs
    · obtain ⟨rfl, hhead, -, -, -⟩ := located_eq_some hloc
      have hassoc : head ++ '"' :: (path ++ '"' :: tail) = head ++ '"' :: path ++ '"' :: tail := by
        simp
      have hfront : Unbroken (head ++ '"' :: path) := hlines.unbroken hmem hassoc (by decide)
      refine reworded_filename hlines hmem hhead (unbroken_shiftPath hz fun c hc => ?_)
      exact hfront c (List.mem_append_right _ (List.mem_cons_of_mem _ hc))
    · exact .inl rfl

/-- The lines of the relocated text. -/
theorem splitLines_shiftLines {t : Decimals} {m : Mapper} {z : Component}
    (hz : ∀ c ∈ z.text, c = 'z') (text : List Char) :
    splitLines (shiftLines t m z (splitLines text)).flatten = shiftLines t m z (splitLines text) := by
  have hlines := lines_splitLines text
  refine splitLines_flatten (hlines.reworded (List.forall₂_iff_get.mpr ⟨?_, ?_⟩))
  · rw [shiftLines, List.length_mapIdx]
  · intro k hk hk'
    have hget := getElem?_shiftLines (t := t) (m := m) (z := z) (List.getElem?_eq_getElem hk)
    rw [List.get_eq_getElem, List.get_eq_getElem, (List.getElem_eq_iff hk').mpr hget]
    exact reworded_shiftLine hz hlines (List.getElem_mem hk) _

/-- The directory is new to the filenames of a text. -/
def FreshIn (t : Decimals) (z : Component) (text : List Char) : Prop :=
  ∀ line ∈ splitLines text, ∀ head path tail, located t line = some (head, path, tail) →
    z ∉ (PurePath.parse (String.ofList path)).tail

theorem relocated_shiftLines {t : Decimals} {m : Mapper} {z : Component} (hz : ∀ c ∈ z.text, c = 'z')
    (hm : m.Fresh z) {text : List Char} (hfresh : FreshIn t z text) :
    Relocated t m (m.shifted z) text (shiftLines t m z (splitLines text)).flatten := by
  refine ⟨by rw [splitLines_shiftLines hz, shiftLines, List.length_mapIdx], ?_⟩
  intro k line line' hk hk'
  rw [splitLines_shiftLines hz, getElem?_shiftLines hk, Option.some.injEq] at hk'
  subst hk'
  unfold RelocatedLine shiftLine
  cases hloc : located t line with
  | none => rfl
  | some r =>
    obtain ⟨head, path, tail⟩ := r
    obtain ⟨hline, -, htext, -, -⟩ := located_eq_some hloc
    dsimp only
    split_ifs with hmoved hcovered hcovered
    · exact ⟨shiftPath z path, pathText_shiftPath hz htext,
        Mapper.moves_shiftPath hm hmoved.2 hcovered.2.2, rfl⟩
    · have hnot : ¬ m.Covers (String.ofList path) := fun hc => hcovered ⟨hmoved.1, hmoved.2, hc⟩
      exact ⟨path, htext, Mapper.moves_self hmoved.2
        (hfresh line (List.mem_of_getElem? hk) head path tail hloc) hnot, hline⟩
    · exact absurd ⟨hcovered.1, hcovered.2.1⟩ hmoved
    · rfl

/-! ## The condition is necessary -/

/-- A directory that is new to a mapper and to a text. -/
theorem exists_fresh_directory (t : Decimals) (m : Mapper) (text : List Char) :
    ∃ z : Component, (∀ c ∈ z.text, c = 'z') ∧ m.Fresh z ∧ FreshIn t z text := by
  obtain ⟨z, hparent, hz, hfresh⟩ := exists_fresh_component
    ((m.roots.map fun b => PurePath.parse b.2) ++ (m.aliases.map fun a => PurePath.parse a.1) ++
      (splitLines text).filterMap fun line =>
        (located t line).map fun r => PurePath.parse (String.ofList r.2.1))
  refine ⟨z, hz, ⟨hparent, ?_, ?_⟩, ?_⟩
  · intro b hb
    refine hfresh _ (List.mem_append_left _ (List.mem_append_left _ ?_))
    exact List.mem_map.mpr ⟨b, hb, rfl⟩
  · intro a ha
    refine hfresh _ (List.mem_append_left _ (List.mem_append_right _ ?_))
    exact List.mem_map.mpr ⟨a, ha, rfl⟩
  · intro line hline head path tail hloc
    refine hfresh _ (List.mem_append_right _ (List.mem_filterMap.mpr ⟨line, hline, ?_⟩))
    rw [hloc]
    rfl

/-- The scanner is in the same state behind relocated lines, as long as it is not misled. -/
theorem scanLines_shiftLines {t : Decimals} {m : Mapper} {z : Component}
    (hz : ∀ c ∈ z.text, c = 'z') {lines : List (List Char)} :
    ∀ {k : ℕ}, k ≤ lines.length →
      (∀ (j : ℕ) (line : List Char), j < k → lines[j]? = some line →
        AgreesAt t m (scanLines .code (lines.take j)) (inside (lines.take j).flatten) line) →
      scanLines .code ((shiftLines t m z lines).take k) = scanLines .code (lines.take k) := by
  intro k
  induction k with
  | zero => intro _ _; rfl
  | succ k ih =>
    intro hk hagree
    have hstate := ih (by omega) fun j line hj hline => hagree j line (by omega) hline
    have hline : lines[k]? = some lines[k] := List.getElem?_eq_getElem (by omega)
    have hline' := getElem?_shiftLines (t := t) (m := m) (z := z) hline
    rw [List.take_add_one, List.take_add_one, hline, hline', scanLines, scanLines, List.foldl_append,
      List.foldl_append]
    show (scanLines .code ((shiftLines t m z lines).take k)).advance _ =
      (scanLines .code (lines.take k)).advance _
    rw [hstate]
    have hat := hagree k lines[k] (by omega) hline
    unfold shiftLine
    cases hloc : located t lines[k] with
    | none => rfl
    | some r =>
      obtain ⟨head, path, tail⟩ := r
      obtain ⟨heq, hhead, htext, -, -⟩ := located_eq_some hloc
      dsimp only
      split_ifs with hmoved
      · have hstate : scanLines .code (lines.take k) = .code := by
          by_contra hne
          have hin := (hat head path tail hloc).2 hmoved.2.1 hmoved.2.2 hne
          rw [hmoved.1] at hin
          exact absurd hin (by simp)
        rw [hstate]
        conv_rhs => rw [heq]
        rw [advance_marker hhead htext, advance_marker hhead (pathText_shiftPath hz htext)]
      · rfl

theorem rewriteLine_of_ne_code {t : Decimals} {m : Mapper} {state : ScanState} (h : state ≠ .code)
    (line : List Char) : rewriteLine t m state line = .ok line := by
  rw [rewriteLine_eq]
  split
  · rw [if_neg h]
  · rfl

/-- A rewritten linemarker is not what it was. -/
theorem rewriteLine_ne_self {t : Decimals} {m : Mapper} (hm : m.Proper) {line head path tail : List Char}
    (hloc : located t line = some (head, path, tail)) : rewriteLine t m .code line ≠ .ok line := by
  intro h
  rcases rewriteLine_cases h with ⟨-, hnone⟩ | ⟨head', path', tail', mapped, -, hloc', hp, heq⟩
  · rw [hnone rfl] at hloc
    exact absurd hloc (by simp)
  · obtain ⟨-, hhead, -, -, -⟩ := located_eq_some hloc'
    obtain ⟨hne, hslash, hangle⟩ := hm _ _ hp
    rw [heq, located_rewritten hhead (by simpa using hne) hslash hangle] at hloc
    exact absurd hloc (by simp)

theorem shiftPath_ne {z : Component} (hz : ¬ z.IsParent) {path : List Char}
    (hslash : path.head? = some '/') : shiftPath z path ≠ path := by
  intro h
  have hlocation := (location_shiftPath hz (head?_of_isAbsolute.mpr hslash)).1
  rw [h] at hlocation
  exact shift_ne z _ hlocation.symm

/-- **Only metadata changes exactly when the scanner is not misled.** -/
theorem metadataOnly_iff {t : Decimals} {m : Mapper} (hm : m.Valid) {text out : List Char}
    (h : normalizeLinemarkers t m text = .ok out) :
    MetadataOnly t m text out ↔ Agrees t m text := by
  refine ⟨fun hmeta => ?_, metadataOnly_of_agrees hm.proper h⟩
  have hrewrites := normalizeLinemarkers_eq_ok_iff.mp h
  have hout : ∀ (k : ℕ) (line : List Char), (splitLines text)[k]? = some line →
      ∃ line', (splitLines out)[k]? = some line' := by
    intro k line hk
    have hlt := (List.getElem?_eq_some_iff.mp hk).1
    exact ⟨_, List.getElem?_eq_getElem (by rw [hmeta.length]; exact hlt)⟩
  obtain ⟨z, hz, hfresh, hfreshIn⟩ := exists_fresh_directory t m text
  have hreloc := hmeta.relocates (m.shifted z) _ (Mapper.valid_shifted hm hfresh)
    (Mapper.corresponds_shifted hm hfresh) (relocated_shiftLines hz hfresh hfreshIn)
  have hrewrites' := normalizeLinemarkers_eq_ok_iff.mp hreloc
  rw [splitLines_shiftLines hz] at hrewrites'
  intro k
  -- up to the first linemarker that misleads it, the scanner reads both texts alike
  induction k using Nat.strongRecOn with
  | _ k ih =>
    intro line hk head path tail hloc
    obtain ⟨line', hk'⟩ := hout k line hk
    have hline := hrewrites.getElem? hk hk'
    refine ⟨fun hin hcode => ?_, fun hslash hcovers hstate => ?_⟩
    · rw [hcode, hmeta.content k line line' hk hk' hin] at hline
      exact rewriteLine_ne_self hm.proper hloc hline
    · by_contra hin
      have hout : inside ((splitLines text).take k).flatten = false := by simpa using hin
      have hshifted := hrewrites'.getElem? (getElem?_shiftLines hk) hk'
      rw [scanLines_shiftLines hz (List.getElem?_eq_some_iff.mp hk).1.le
        fun j l hj hl => ih j hj l hl] at hshifted
      rw [rewriteLine_of_ne_code hstate] at hshifted hline
      have hsame := (Except.ok.inj hshifted).trans (Except.ok.inj hline).symm
      rw [shiftLine, hloc] at hsame
      dsimp only at hsame
      rw [if_pos ⟨hout, hslash, hcovers⟩] at hsame
      obtain ⟨hparts, hhead, -, -, -⟩ := located_eq_some hloc
      have hrest := (List.cons.inj (List.append_cancel_left (hsame.trans hparts))).2
      exact shiftPath_ne hfresh.notParent hslash (List.append_cancel_right hrest)

/-! ## Texts without splices -/

/-- What the scanner's state is in the reading of C. -/
def ScanState.toC : ScanState → CState
  | .code => .code
  | .comment => .comment
  | .literal q => .literal q

/-- What is left of a line that ends with a newline. -/
def LineTail (cs : List Char) : Prop := cs = [] ∨ ∃ body, cs = body ++ ['\n'] ∧ '\n' ∉ body

theorem LineTail.tail {c : Char} {cs : List Char} (h : LineTail (c :: cs)) : LineTail cs := by
  rcases h with hnil | ⟨body, hbody, hline⟩
  · exact absurd hnil (by simp)
  · cases body with
    | nil => exact .inl (List.cons.inj hbody).2
    | cons d body =>
      exact .inr ⟨body, (List.cons.inj hbody).2, fun hmem => hline (List.mem_cons_of_mem d hmem)⟩

/-- Exactly the newline is the last character. -/
theorem LineTail.eq_nil_iff {c : Char} {cs : List Char} (h : LineTail (c :: cs)) :
    cs = [] ↔ c = '\n' := by
  rcases h with hnil | ⟨body, hbody, hline⟩
  · exact absurd hnil (by simp)
  · cases body with
    | nil =>
      obtain ⟨rfl, rfl⟩ := List.cons.inj hbody
      simp
    | cons d body =>
      obtain ⟨rfl, rfl⟩ := List.cons.inj hbody
      constructor
      · intro hnil
        exact absurd hnil (by simp)
      · rintro rfl
        exact absurd List.mem_cons_self hline

theorem foldl_lineComment {cs : List Char} (h : LineTail cs) (hne : cs ≠ []) :
    cs.foldl CState.step .lineComment = .code := by
  induction cs with
  | nil => exact absurd rfl hne
  | cons c cs ih =>
    rw [List.foldl_cons, CState.step]
    by_cases hc : c = '\n'
    · rw [h.eq_nil_iff.mpr hc, if_pos hc]
      rfl
    · rw [if_neg hc]
      exact ih h.tail fun hnil => hc (h.eq_nil_iff.mp hnil)

/-- A slash that opens no comment. -/
theorem foldl_slash {cs : List Char} (hne : cs ≠ []) (hs : ∀ r, cs ≠ '/' :: r)
    (ha : ∀ r, cs ≠ '*' :: r) :
    cs.foldl CState.step .slash = cs.foldl CState.step .code := by
  cases cs with
  | nil => exact absurd rfl hne
  | cons c cs =>
    have hc : c ≠ '/' := fun h => hs cs (by rw [h])
    have hc' : c ≠ '*' := fun h => ha cs (by rw [h])
    rw [List.foldl_cons, List.foldl_cons, CState.step, CState.step, if_neg hc, if_neg hc', if_neg hc]

/-- A star that closes no comment. -/
theorem foldl_star {cs : List Char} (hne : cs ≠ []) (hs : ∀ r, cs ≠ '/' :: r) :
    cs.foldl CState.step .star = cs.foldl CState.step .comment := by
  cases cs with
  | nil => exact absurd rfl hne
  | cons c cs =>
    have hc : c ≠ '/' := fun h => hs cs (by rw [h])
    rw [List.foldl_cons, List.foldl_cons, CState.step, CState.step, if_neg hc]

/-- **Over a line without splices the scanner reads as C does.** -/
theorem foldl_step_eq {s : ScanState} {cs : List Char} (hs : ∀ q, s = .literal q → q ≠ '\\')
    (h : LineTail cs) : cs.foldl CState.step s.toC = (s.advance cs).toC := by
  have hcode : ∀ q, ScanState.code = .literal q → q ≠ '\\' := by simp
  have hcomment : ∀ q, ScanState.comment = .literal q → q ≠ '\\' := by simp
  fun_induction ScanState.advance s cs with
  | case1 s => rfl
  | case2 cs ih => exact ih hcode h.tail.tail
  | case3 c cs hclose ih =>
    rw [List.foldl_cons, ← ih hcomment h.tail]
    show cs.foldl CState.step (if c = '*' then .star else .comment) = cs.foldl CState.step .comment
    split_ifs with hc
    · refine foldl_star (fun hnil => ?_) fun r hr => hclose r hc hr
      rw [hc] at h
      exact absurd (h.eq_nil_iff.mp hnil) (by decide)
    · rfl
  | case4 q d cs ih =>
    have hq : q ≠ '\\' := hs q rfl
    rw [List.foldl_cons, List.foldl_cons, ← ih hs h.tail.tail]
    show cs.foldl CState.step (CState.step (if '\\' = q then .code else .escape q) d) = _
    rw [if_neg (Ne.symm hq)]
    rfl
  | case5 q => exact absurd (h.eq_nil_iff.mp rfl) (by decide)
  | case6 c cs _ _ ih =>
    rw [List.foldl_cons, ← ih hcode h.tail]
    show cs.foldl CState.step (if c = c then .code else _) = _
    rw [if_pos rfl]
    rfl
  | case7 q c cs hpair hlast hc ih =>
    have hb : c ≠ '\\' := by
      intro hb
      cases cs with
      | nil => exact hlast hb rfl
      | cons d cs => exact hpair d cs hb rfl
    rw [List.foldl_cons, ← ih hs h.tail]
    show cs.foldl CState.step (if c = q then .code else if c = '\\' then .escape q else .literal q) = _
    rw [if_neg hc, if_neg hb]
    rfl
  | case8 cs =>
    refine foldl_lineComment h.tail.tail fun hnil => ?_
    exact absurd (h.tail.eq_nil_iff.mp hnil) (by decide)
  | case9 cs ih => exact ih hcomment h.tail.tail
  | case10 c cs _ _ hq ih =>
    have hc : c ≠ '/' := by rcases hq with rfl | rfl <;> decide
    have hliteral : ∀ q, ScanState.literal c = .literal q → q ≠ '\\' := by
      rintro q ⟨⟩
      rcases hq with rfl | rfl <;> decide
    rw [List.foldl_cons, ← ih hliteral h.tail]
    show cs.foldl CState.step (if c = '/' then .slash else if _ then .literal c else .code) = _
    rw [if_neg hc, if_pos hq]
    rfl
  | case11 c cs hline hblock hq ih =>
    rw [List.foldl_cons, ← ih hcode h.tail]
    show cs.foldl CState.step (if c = '/' then .slash else if _ then .literal c else .code) = cs.foldl CState.step .code
    split_ifs with hc
    · refine foldl_slash (fun hnil => ?_) (fun r hr => hline r hc hr) fun r hr => hblock r hc hr
      rw [hc] at h
      exact absurd (h.eq_nil_iff.mp hnil) (by decide)
    · rfl

/-- Every state of the scanner is one that quotes open. -/
theorem literal_of_advance {s : ScanState} {cs : List Char} (hs : ∀ q, s = .literal q → q ≠ '\\') :
    ∀ q, s.advance cs = .literal q → q ≠ '\\' := by
  have hcode : ∀ q, ScanState.code = .literal q → q ≠ '\\' := by simp
  have hcomment : ∀ q, ScanState.comment = .literal q → q ≠ '\\' := by simp
  fun_induction ScanState.advance s cs with
  | case1 s => exact hs
  | case2 cs ih => exact ih hcode
  | case3 c cs _ ih => exact ih hcomment
  | case4 q d cs ih => exact ih hs
  | case5 q => exact hs
  | case6 c cs _ _ ih => exact ih hcode
  | case7 q c cs _ _ _ ih => exact ih hs
  | case8 cs => exact hcode
  | case9 cs ih => exact ih hcomment
  | case10 c cs _ _ hq ih =>
    refine ih ?_
    rintro q ⟨⟩
    rcases hq with rfl | rfl <;> decide
  | case11 c cs _ _ _ ih => exact ih hcode

theorem foldl_lines_eq {lines : List (List Char)} (h : Lines lines)
    (hbreak : ∀ c ∈ lines.flatten, isLineBreak c = true → c = '\n') :
    ∀ {s : ScanState} {k : ℕ}, (∀ q, s = .literal q → q ≠ '\\') → k < lines.length →
      (lines.take k).flatten.foldl CState.step s.toC = (scanLines s (lines.take k)).toC := by
  induction h with
  | nil => intro s k _ hk; exact absurd hk (by simp)
  | last _ _ =>
    intro s k _ hk
    have hzero : k = 0 := by simpa using hk
    rw [hzero]
    rfl
  | @cons body term rest hbody hterm _ _ ih =>
    intro s k hs hk
    cases k with
    | zero => rfl
    | succ k =>
      have hnewline : term = ['\n'] := by
        rcases hterm with rfl | ⟨c, hc, rfl⟩
        · exact absurd (hbreak '\r' (by simp) (by decide)) (by decide)
        · rw [hbreak c (by simp) hc]
      have htail : LineTail (body ++ term) := by
        refine .inr ⟨body, by rw [hnewline], fun hmem => ?_⟩
        exact absurd (hbody '\n' hmem) (by decide)
      have hrest : ∀ c ∈ rest.flatten, isLineBreak c = true → c = '\n' := fun c hc =>
        hbreak c (by rw [List.flatten_cons]; exact List.mem_append_right _ hc)
      rw [List.take_succ_cons, List.flatten_cons, List.foldl_append, foldl_step_eq hs htail]
      exact ih hrest (literal_of_advance hs) (by simpa using hk)

/-- **A text without splices does not mislead the scanner**, if its lines end with newlines. -/
theorem agrees_of_unspliced (t : Decimals) (m : Mapper) {text : List Char}
    (hsplice : ¬ ['\\', '\n'] <:+: text) (hbreak : ∀ c ∈ text, isLineBreak c = true → c = '\n') :
    Agrees t m text := by
  intro k line hk head path tail _
  have hprefix : ((splitLines text).take k).flatten <+: text := by
    conv_rhs => rw [← flatten_splitLines text, ← List.take_append_drop k (splitLines text),
      List.flatten_append]
    exact List.prefix_append _ _
  have hstate : inside ((splitLines text).take k).flatten =
      (scanLines .code ((splitLines text).take k)).toC.isInside := by
    rw [inside, Provenance.splice_eq_self fun hin => hsplice (hin.trans hprefix.isInfix)]
    congr 1
    exact foldl_lines_eq (s := .code) (lines_splitLines text) (by rwa [flatten_splitLines]) (by simp)
      (List.getElem?_eq_some_iff.mp hk).1
  rw [hstate]
  cases scanLines .code ((splitLines text).take k) with
  | code => exact ⟨fun h => absurd h (by decide), fun _ _ h => absurd rfl h⟩
  | comment => exact ⟨fun _ => by simp, fun _ _ _ => rfl⟩
  | literal q => exact ⟨fun _ => by simp, fun _ _ _ => rfl⟩

/-! ## Two texts -/

/-- The mapper of one project. -/
def projectMapper : Mapper := ⟨[("project", "/p"), ("run", "/r")], []⟩

theorem projectMapper_valid : projectMapper.Valid :=
  ⟨⟨Mapper.projectRoot, "/r", rfl⟩, by simp [projectMapper]⟩

/-- A linemarker in front of a comment that holds another one. -/
theorem metadataOnly_comment :
    MetadataOnly asciiDecimals projectMapper "# 1 \"/p/x\"\n/*\n# 1 \"/p/x\"\n*/\n".toList
      "# 1 \"project:x\"\n/*\n# 1 \"/p/x\"\n*/\n".toList := by
  refine (metadataOnly_iff projectMapper_valid (by decide +kernel)).mpr ?_
  have hbreak : ("# 1 \"/p/x\"\n/*\n# 1 \"/p/x\"\n*/\n".toList.all fun c =>
      isLineBreak c = false || c = '\n') = true := by decide +kernel
  refine agrees_of_unspliced asciiDecimals projectMapper (by decide +kernel) fun c hc hb => ?_
  simpa [hb] using List.all_eq_true.mp hbreak c hc

/-- Behind a line comment that a backslash continues, content is rewritten. -/
theorem not_metadataOnly_continued :
    projectMapper.Valid ∧
      normalizeLinemarkers asciiDecimals projectMapper "// \\\n# 1 \"/p/x\"\n".toList =
        .ok "// \\\n# 1 \"project:x\"\n".toList ∧
      ¬ MetadataOnly asciiDecimals projectMapper "// \\\n# 1 \"/p/x\"\n".toList
        "// \\\n# 1 \"project:x\"\n".toList := by
  refine ⟨projectMapper_valid, by decide +kernel, fun h => ?_⟩
  have hline := h.content 1 "# 1 \"/p/x\"\n".toList "# 1 \"project:x\"\n".toList
    (by decide +kernel) (by decide +kernel) (by decide +kernel)
  exact absurd hline (by decide)

end Replay
end Fragma
