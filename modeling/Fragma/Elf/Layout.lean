import Fragma.Elf.Fixture

/-!
# The layout object

`validate_object` of `fragma/hexagon_layout.py` reads an array of measured sizes, alignments and offsets,
each for two types, and compares them.

* `Layout`, `Layout.Consistent`: what is measured of a type, and when the measures fit together.
* `validateObject`: the function.
* `validateObject_measures`, `validateObject_fails`: what an accepted object is, and how others fail.
-/

namespace Fragma
namespace Elf

open Python Python.Struct Keyed Suite

/-- `require(condition, message)` of `fragma/hexagon_layout.py`. -/
def requireLayout (condition : Prop) [Decidable condition] (message : String) : Except Failure Unit :=
  ensure condition ⟨.layoutError, message⟩

/-- `LAYOUT_FIELDS` -/
def layoutFields : List String :=
  ["size", "c_alignment", "gnu_alignment", "ll_offset", "ld_offset", "ll_size", "ld_size", "array_size",
    "array_alignment", "wrapper_value_offset", "wrapper_tail_offset", "wrapper_size", "wrapper_c_alignment",
    "wrapper_gnu_alignment"]

/-- What is measured of the type, of an array of two, and of a structure with a byte on both sides. -/
structure Layout where
  size : ℕ
  cAlignment : ℕ
  gnuAlignment : ℕ
  llOffset : ℕ
  ldOffset : ℕ
  llSize : ℕ
  ldSize : ℕ
  arraySize : ℕ
  arrayAlignment : ℕ
  wrapperValueOffset : ℕ
  wrapperTailOffset : ℕ
  wrapperSize : ℕ
  wrapperCAlignment : ℕ
  wrapperGnuAlignment : ℕ
  deriving DecidableEq

/-- The measures in their order. -/
def Layout.fields (l : Layout) : List ℕ :=
  [l.size, l.cAlignment, l.gnuAlignment, l.llOffset, l.ldOffset, l.llSize, l.ldSize, l.arraySize,
    l.arrayAlignment, l.wrapperValueOffset, l.wrapperTailOffset, l.wrapperSize, l.wrapperCAlignment,
    l.wrapperGnuAlignment]

/-- The measures that a list gives. -/
def readLayout : List ℕ → Except Failure Layout
  | [size, cAlignment, gnuAlignment, llOffset, ldOffset, llSize, ldSize, arraySize, arrayAlignment,
      wrapperValueOffset, wrapperTailOffset, wrapperSize, wrapperCAlignment, wrapperGnuAlignment] =>
    .ok ⟨size, cAlignment, gnuAlignment, llOffset, ldOffset, llSize, ldSize, arraySize, arrayAlignment,
      wrapperValueOffset, wrapperTailOffset, wrapperSize, wrapperCAlignment, wrapperGnuAlignment⟩
  | _ => .error ⟨.keyError, ""⟩

/-- The measures of the two types, which stand side by side. -/
def pairUp : List ℕ → List (ℕ × ℕ)
  | a :: b :: values => (a, b) :: pairUp values
  | _ => []

/-- What is returned for an object. -/
structure Measured where
  machine : ℕ
  symbolSize : ℕ
  values : List (ℕ × ℕ)
  layout : Layout
  sha256 : String

/-- The model that the objects are read with. -/
def hexagonModel : Value :=
  .dict [("machdep", .dict [("checked_fields", .dict [("sizeof_ptr", .int 4), ("little_endian", .bool true)])])]

def layoutSymbol : Bytes := ascii "fragma_max_align_layout"

/-- `MAX_OBJECT_BYTES` -/
def maxObjectBytes : ℕ := 1024 * 1024

/-- `4 * len(LAYOUT_NAMES)` -/
def layoutSize : ℕ := 4 * (2 * layoutFields.length)

/-- `except (ValueError, struct.error) as exc: raise LayoutError(...)`. -/
def asLayoutError (e : Failure) : Failure :=
  if e.kind ∈ [.elfError, .sourceError, .layoutError, .valueError, .structError] then
    ⟨.layoutError, "Invalid layout ELF: " ++ e.message⟩
  else e

/-- The bytes that a section takes of the file. -/
def Section.taken (s : Section) : List (ℕ × ℕ) :=
  if s.size ≠ 0 then [(s.offset, s.offset + s.size)] else []

/-- The turn of a section; what it takes of the file. -/
def checkLayoutSection (s : Section) : Except Failure (List (ℕ × ℕ)) := do
  requireLayout (s.kind ∈ [1, 2, 3, 0x70000003, 0x6FFF4C03] ∧ s.address = 0 ∧
    s.flags &&& (0x200 ||| 0x400 ||| 0x800) = 0) "Unsupported layout section or relocation"
  requireLayout (s.alignment = 0 ∨ s.offset % s.alignment = 0) "Misaligned layout section"
  pure s.taken

/-- The turn of a symbol. -/
def checkLayoutSymbol (obj : Relocatable) (firstGlobal : ℕ) (symbol : Symbol) (p : Symbol × ℕ) :
    Except Failure Unit := do
  requireLayout (p.1.binding = 0 ↔ p.2 < firstGlobal) "Invalid layout local/global ordering"
  requireLayout (p.1 = symbol ∨ p.1.other = 0 ∧ p.1.value = p.1.size ∧ p.1.size = 0 ∧
    (p.1.info = 4 ∧ p.1.index = 0xfff1 ∨ p.1.info = 3 ∧ 0 < p.1.index ∧ p.1.index < obj.sections.length))
    "Unexpected layout symbol or external dependency"

/-- The turn of an alignment. -/
def checkAlignment (p : String × ℕ) : Except Failure Unit :=
  requireLayout (p.2 > 0 ∧ p.2 &&& (p.2 - 1) = 0) ("Invalid measured alignment: " ++ p.1)

/-- The measures fit together. -/
def checkLayout (l : Layout) : Except Failure Unit := do
  [("c_alignment", l.cAlignment), ("gnu_alignment", l.gnuAlignment), ("array_alignment", l.arrayAlignment),
    ("wrapper_c_alignment", l.wrapperCAlignment), ("wrapper_gnu_alignment", l.wrapperGnuAlignment)].forM
    checkAlignment
  requireLayout (l.size > 0 ∧ l.size % l.cAlignment = 0 ∧ l.llOffset = 0 ∧ l.llSize > 0 ∧ l.ldSize > 0 ∧
    l.ldOffset ≥ l.llSize ∧ l.ldOffset + l.ldSize ≤ l.size) "Invalid measured member layout"
  requireLayout (l.arraySize = 2 * l.size ∧ l.arrayAlignment = l.cAlignment) "Invalid measured array layout"
  requireLayout (l.wrapperValueOffset ≥ 1 ∧ l.wrapperValueOffset % l.cAlignment = 0 ∧
    l.wrapperTailOffset = l.wrapperValueOffset + l.size ∧ l.wrapperSize ≥ l.wrapperTailOffset + 1 ∧
    l.wrapperSize % l.wrapperCAlignment = 0 ∧ l.wrapperCAlignment = l.cAlignment ∧
    l.wrapperGnuAlignment = l.gnuAlignment) "Invalid measured wrapper layout"

/-- The measures in the bytes of an array. -/
def measure (content : Bytes) : Except Failure (List (ℕ × ℕ) × Layout) := do
  let values ← orFail (Struct.unpack true (List.replicate (2 * layoutFields.length) .i) content) .structError
  (layoutFields.zip (pairUp values)).forM fun p =>
    requireLayout (p.2.1 = p.2.2) ("Actual/candidate layout mismatch: " ++ p.1)
  let layout ← readLayout ((pairUp values).map Prod.fst)
  checkLayout layout
  pure (pairUp values, layout)

/-- `validate_object(data)` -/
def validateObject (sha256 : Bytes → String) (data : Bytes) : Except Failure Measured := do
  requireLayout (data.length ≤ maxObjectBytes) "Unbounded layout object"
  let obj ← (parseRelocatable data hexagonModel).mapError asLayoutError
  let version ← andAlso (obj.machine = 164) do
    let flags ← word true data 36
    pure (decide (flags = 0x68))
  requireLayout (version = true) "Layout object is not Hexagon v68"
  requireLayout (obj.sections.length ≤ 64 ∧ obj.symbols.length ≤ 64) "Unbounded layout metadata"
  let taken ← obj.sections.tail.mapM checkLayoutSection
  requireLayout (Apart (tableRanges obj ++ taken.flatten)) "Overlapping layout ELF sections"
  let null ← item obj.symbols 0
  requireLayout (null = ⟨[], 0, 0, 0, 0, 0⟩) "Invalid layout null symbol"
  let table ← item obj.sections obj.symbolTable
  requireLayout (0 < table.info ∧ table.info < obj.symbols.length) "Invalid layout symbol boundary"
  let named := obj.symbols.filter fun symbol => symbol.name = layoutSymbol
  requireLayout (named.length = 1) "Missing or duplicate layout array"
  let symbol ← item named 0
  requireLayout (symbol.info = 0x11 ∧ symbol.other = 0 ∧ symbol.value = 0 ∧ symbol.size = layoutSize ∧
    0 < symbol.index ∧ symbol.index < obj.sections.length)
    "Layout array must be a unique global default-visible data definition"
  let s ← item obj.sections symbol.index
  requireLayout (s.kind = 1 ∧ s.flags = 2 ∧ s.size = layoutSize ∧ s.alignment ≥ 4 ∧ s.offset % 4 = 0)
    "Layout array lacks bounded allocated read-only storage"
  obj.symbols.zipIdx.tail.forM (checkLayoutSymbol obj table.info symbol)
  requireLayout (∀ p ∈ obj.sections.zipIdx, p.1.flags &&& 2 = 0 ∨ p.1.size = 0 ∨ p.2 = symbol.index)
    "Unexpected allocated layout data or instructions"
  let content ← obj.sectionBytes symbol.index
  let (values, layout) ← measure content
  pure ⟨obj.machine, layoutSize, values, layout, sha256 data⟩

/-! ## Measures that fit together -/

/-- The measures are those of an object of C with two members one after another, of an array of two such
objects, and of a structure that holds one. -/
structure Layout.Consistent (l : Layout) : Prop where
  alignments : ∀ n ∈ [l.cAlignment, l.gnuAlignment, l.arrayAlignment, l.wrapperCAlignment,
    l.wrapperGnuAlignment], n.isPowerOfTwo
  size : 0 < l.size ∧ l.cAlignment ∣ l.size
  first : l.llOffset = 0 ∧ 0 < l.llSize
  second : l.llOffset + l.llSize ≤ l.ldOffset ∧ 0 < l.ldSize ∧ l.ldOffset + l.ldSize ≤ l.size
  array : l.arraySize = 2 * l.size ∧ l.arrayAlignment = l.cAlignment
  wrapper : 0 < l.wrapperValueOffset ∧ l.cAlignment ∣ l.wrapperValueOffset ∧
    l.wrapperTailOffset = l.wrapperValueOffset + l.size ∧ l.wrapperTailOffset < l.wrapperSize
  wrapperAlignments : l.wrapperCAlignment ∣ l.wrapperSize ∧ l.wrapperCAlignment = l.cAlignment ∧
    l.wrapperGnuAlignment = l.gnuAlignment

@[simp] theorem requireLayout_eq_ok_iff {condition : Prop} [Decidable condition] {message : String}
    {u : Unit} : requireLayout condition message = .ok u ↔ condition := ensure_eq_ok_iff

theorem checkAlignment_eq_ok_iff {p : String × ℕ} {u : Unit} :
    checkAlignment p = .ok u ↔ p.2.isPowerOfTwo := by
  rw [checkAlignment, requireLayout_eq_ok_iff, ← Nat.ne_zero_and_sub_one_eq_zero_iff_isPowerOfTwo,
    gt_iff_lt, Nat.pos_iff_ne_zero]

theorem checkLayout_eq_ok_iff {l : Layout} {u : Unit} : checkLayout l = .ok u ↔ l.Consistent := by
  rw [checkLayout, bind_eq_ok_iff]
  constructor
  · rintro ⟨_, halign, h⟩
    obtain ⟨_, hmembers, h⟩ := bind_eq_ok_iff.mp h
    obtain ⟨_, harray, hwrapper⟩ := bind_eq_ok_iff.mp h
    rw [requireLayout_eq_ok_iff] at hmembers harray hwrapper
    simp only [forM_eq_ok_iff, checkAlignment_eq_ok_iff] at halign
    obtain ⟨hsize, hmod, hll, hllSize, hldSize, hbehind, hinside⟩ := hmembers
    obtain ⟨hvalue, hvalueMod, htail, hwrapperSize, hwrapperMod, hc, hgnu⟩ := hwrapper
    exact
      { alignments := by simpa using halign
        size := ⟨hsize, Nat.dvd_of_mod_eq_zero hmod⟩
        first := ⟨hll, hllSize⟩
        second := ⟨by omega, hldSize, hinside⟩
        array := harray
        wrapper := ⟨hvalue, Nat.dvd_of_mod_eq_zero hvalueMod, htail, hwrapperSize⟩
        wrapperAlignments := ⟨Nat.dvd_of_mod_eq_zero hwrapperMod, hc, hgnu⟩ }
  · intro h
    obtain ⟨halign, ⟨hsize, hdvd⟩, ⟨hll, hllSize⟩, ⟨hbehind, hldSize, hinside⟩, harray,
      ⟨hvalue, hvalueDvd, htail, hwrapperSize⟩, hwrapperDvd, hc, hgnu⟩ := h
    refine ⟨(), ?_, bind_eq_ok_iff.mpr ⟨(), ?_, bind_eq_ok_iff.mpr ⟨(), ?_, ?_⟩⟩⟩
    · simp only [forM_eq_ok_iff, checkAlignment_eq_ok_iff]
      simpa using halign
    · rw [requireLayout_eq_ok_iff]
      exact ⟨hsize, Nat.mod_eq_zero_of_dvd hdvd, hll, hllSize, hldSize, by omega, hinside⟩
    · rw [requireLayout_eq_ok_iff]
      exact harray
    · rw [requireLayout_eq_ok_iff]
      exact ⟨hvalue, Nat.mod_eq_zero_of_dvd hvalueDvd, htail, hwrapperSize,
        Nat.mod_eq_zero_of_dvd hwrapperDvd, hc, hgnu⟩

/-! ## What an accepted object is -/

/-- The header, the section table, and the sections in the file. -/
def takenRanges (obj : Relocatable) : List (ℕ × ℕ) := tableRanges obj ++ obj.sections.tail.flatMap Section.taken

/-- The object holds one array of measures and nothing else that would be loaded; the array's bytes are
the measures of both types, which agree. -/
structure Measures (sha256 : Bytes → String) (obj : Relocatable) (symbol : Symbol) (s : Section)
    (m : Measured) : Prop where
  hexagon : obj.machine = 164 ∧ Stored true [.i] [0x68] obj.data 36
  inside : ∀ r ∈ takenRanges obj, r.2 ≤ obj.data.length
  disjoint : (takenRanges obj).Pairwise fun a b => Disjoint (Set.Ico a.1 a.2) (Set.Ico b.1 b.2)
  unrelocated : ∀ t ∈ obj.sections.tail, t.kind ≠ 4 ∧ t.kind ≠ 9
  unique : obj.symbols.filter (fun symbol => symbol.name = layoutSymbol) = [symbol]
  boundary : ∃ table, obj.sections[obj.symbolTable]? = some table ∧
    ∀ i t, 0 < i → obj.symbols[i]? = some t → (t.binding = 0 ↔ i < table.info)
  others : ∀ i t, 0 < i → obj.symbols[i]? = some t → t = symbol ∨ t.index ≠ 0 ∧ t.value = 0 ∧ t.size = 0
  storage : obj.sections[symbol.index]? = some s ∧ s.kind = 1 ∧ s.flags = 2
  loaded : ∀ i t, obj.sections[i]? = some t → t.flags &&& 2 ≠ 0 → t.size ≠ 0 → i = symbol.index
  values : Stored true (List.replicate (2 * layoutFields.length) .i)
    (m.layout.fields.flatMap fun n => [n, n]) obj.data s.offset
  whole : symbol.value = 0 ∧ symbol.size = s.size ∧
    s.size = calcsize (List.replicate (2 * layoutFields.length) Code.i)
  consistent : m.layout.Consistent
  hashed : m.sha256 = sha256 obj.data

section Measures

variable {obj : Relocatable}

theorem readLayout_eq_ok_iff {values : List ℕ} {l : Layout} : readLayout values = .ok l ↔ values = l.fields := by
  constructor
  · intro h
    unfold readLayout at h
    split at h
    · rw [← Except.ok.inj h]
      rfl
    · exact absurd h (by simp)
  · rintro rfl
    rfl

theorem fails_readLayout {P : Failure → Prop} {values : List ℕ} (h : values.length = 14) :
    Fails P (readLayout values) := by
  match values, h with
  | [_, _, _, _, _, _, _, _, _, _, _, _, _, _], _ => exact fails_ok _ _

/-- Pairs whose parts agree, one after another. -/
theorem flatMap_pairUp {values : List ℕ} (heven : values.length % 2 = 0)
    (h : ∀ p ∈ pairUp values, p.1 = p.2) : ((pairUp values).map Prod.fst).flatMap (fun n => [n, n]) = values := by
  induction values using pairUp.induct with
  | case1 a b values ih =>
    simp only [pairUp, List.forall_mem_cons] at h
    have heven' : values.length % 2 = 0 := by
      simp only [List.length_cons] at heven
      omega
    simp only [pairUp, List.map_cons, List.flatMap_cons, ih heven' h.2, h.1, List.cons_append, List.nil_append]
  | case2 values hne =>
    match values, hne with
    | [], _ => rfl
    | [a], _ => exact absurd heven (by simp)
    | a :: b :: values, hne => exact absurd rfl (hne a b values)

theorem length_pairUp (values : List ℕ) : (pairUp values).length = values.length / 2 := by
  induction values using pairUp.induct with
  | case1 a b values ih =>
    simp only [pairUp, List.length_cons, ih]
    omega
  | case2 values hne =>
    match values, hne with
    | [], _ => rfl
    | [a], _ => simp [pairUp]
    | a :: b :: values, hne => exact absurd rfl (hne a b values)

/-- The bytes are the measures of both types, which agree. -/
theorem measure_eq_ok {content : Bytes} {values : List (ℕ × ℕ)} {layout : Layout}
    (h : measure content = .ok (values, layout)) :
    Struct.unpack true (List.replicate (2 * layoutFields.length) .i) content =
      some (layout.fields.flatMap fun n => [n, n]) ∧ layout.Consistent := by
  obtain ⟨ns, hns, h⟩ := bind_eq_ok_iff.mp h
  obtain ⟨_, hagree, h⟩ := bind_eq_ok_iff.mp h
  obtain ⟨layout', hlayout, h⟩ := bind_eq_ok_iff.mp h
  obtain ⟨_, hconsistent, h⟩ := bind_eq_ok_iff.mp h
  obtain ⟨-, rfl⟩ := Prod.mk.inj (Except.ok.inj h)
  rw [orFail_eq_ok_iff] at hns
  simp only [forM_eq_ok_iff, requireLayout_eq_ok_iff] at hagree
  have hlength : ns.length = 28 := (unpack_eq_some_iff.mp hns).1.length_eq.symm
  have hpairs : ∀ p ∈ pairUp ns, p.1 = p.2 := by
    intro p hp
    obtain ⟨i, hi, rfl⟩ := List.mem_iff_getElem.mp hp
    have hname : i < layoutFields.length := by
      rwa [length_pairUp, hlength] at hi
    exact hagree (layoutFields[i], (pairUp ns)[i]) (List.mem_iff_getElem.mpr
      ⟨i, by rw [List.length_zip]; exact lt_min hname hi, List.getElem_zip⟩)
  refine ⟨?_, checkLayout_eq_ok_iff.mp hconsistent⟩
  rw [hns, ← readLayout_eq_ok_iff.mp hlayout, flatMap_pairUp (by rw [hlength]) hpairs]

theorem checkLayoutSection_eq_ok {t : Section} {ranges : List (ℕ × ℕ)}
    (h : checkLayoutSection t = .ok ranges) :
    ranges = t.taken ∧ t.kind ∈ [1, 2, 3, 0x70000003, 0x6FFF4C03] := by
  obtain ⟨_, hkind, h⟩ := bind_eq_ok_iff.mp h
  obtain ⟨_, -, h⟩ := bind_eq_ok_iff.mp h
  rw [requireLayout_eq_ok_iff] at hkind
  exact ⟨(Except.ok.inj h).symm, hkind.1⟩

theorem mem_taken_iff {t : Section} {r : ℕ × ℕ} :
    r ∈ t.taken ↔ t.size ≠ 0 ∧ r = (t.offset, t.offset + t.size) := by
  rw [Section.taken]
  split_ifs with h
  · simp [h]
  · simp only [List.not_mem_nil, false_iff]
    exact fun hr => h hr.1

/-- The ranges are not empty, and lie inside the file where no section is kept out of it. -/
theorem takenRanges_bounded (hobj : obj.Bounded) (hkinds : ∀ t ∈ obj.sections.tail, t.kind ≠ 8) :
    ∀ r ∈ takenRanges obj, r.1 < r.2 ∧ r.2 ≤ obj.data.length := by
  intro r hr
  rcases List.mem_append.mp hr with hr | hr
  · have hmem : r ∈ fileRanges obj := List.mem_append_left _ hr
    exact ⟨fileRanges_lt hobj r hmem, fileRanges_le hobj r hmem⟩
  · obtain ⟨t, ht, hr⟩ := List.mem_flatMap.mp hr
    obtain ⟨hne, rfl⟩ := mem_taken_iff.mp hr
    exact ⟨Nat.lt_add_of_pos_right (Nat.pos_of_ne_zero hne),
      (hobj.sections t (List.mem_of_mem_tail ht)).resolve_left (hkinds t ht)⟩

theorem checkLayoutSymbol_eq_ok {firstGlobal index : ℕ} {symbol t : Symbol} {u : Unit}
    (h : checkLayoutSymbol obj firstGlobal symbol (t, index) = .ok u) :
    (t.binding = 0 ↔ index < firstGlobal) ∧ (t = symbol ∨ t.index ≠ 0 ∧ t.value = 0 ∧ t.size = 0) := by
  obtain ⟨_, horder, h⟩ := bind_eq_ok_iff.mp h
  rw [requireLayout_eq_ok_iff] at horder h
  refine ⟨horder, h.imp_right fun hrest => ?_⟩
  obtain ⟨-, hvalue, hsize, hplace⟩ := hrest
  refine ⟨?_, hvalue.trans hsize, hsize⟩
  rcases hplace with ⟨-, hindex⟩ | ⟨-, hpos, -⟩
  · rw [hindex]
    decide
  · exact hpos.ne'

/-- The bytes of an array that unpacks. -/
theorem stored_of_unpack (hobj : obj.Bounded) {codes : List Code} {values : List ℕ} {index : ℕ} {s : Section} {content : Bytes}
    (hs : obj.sections[index]? = some s) (hcontent : obj.sectionBytes index = .ok content)
    (h : Struct.unpack true codes content = some values) : Stored true codes values obj.data s.offset := by
  obtain ⟨row, hrow, hcontent⟩ := bind_eq_ok_iff.mp hcontent
  obtain ⟨_, hkind, hcontent⟩ := bind_eq_ok_iff.mp hcontent
  obtain rfl := Option.some.inj (hs.symm.trans (item_eq_ok_iff.mp hrow))
  rw [require_eq_ok_iff] at hkind
  have hinside := (hobj.sections s (List.mem_of_getElem? hs)).resolve_left hkind
  obtain ⟨hfits, hpack⟩ := unpack_eq_some_iff.mp h
  refine ⟨hfits, by omega, ?_⟩
  rw [← hpack, ← Except.ok.inj hcontent]
  exact List.take_prefix _ _

theorem stored_word {little : Bool} {data : Bytes} {offset n : ℕ} (h : word little data offset = .ok n) :
    Stored little [.i] [n] data offset := by
  obtain ⟨values, hread, h⟩ := bind_eq_ok_iff.mp h
  rw [item_eq_ok_iff] at h
  have hstored := unpackFrom_eq_ok_iff.mp hread
  have hone : values.length = 1 := hstored.1.length_eq.symm
  obtain ⟨m, rfl⟩ := List.length_eq_one_iff.mp hone
  rwa [← Option.some.inj h]

/-- **An accepted object holds measures that agree and fit together, and nothing else.** -/
theorem validateObject_measures {sha256 : Bytes → String} {data : Bytes} {m : Measured}
    (h : validateObject sha256 data = .ok m) :
    ∃ obj symbol s, parseRelocatable data hexagonModel = .ok obj ∧ obj.data = data ∧
      data.length ≤ maxObjectBytes ∧ Measures sha256 obj symbol s m := by
  obtain ⟨_, hlength, h⟩ := bind_eq_ok_iff.mp h
  obtain ⟨obj, hparse, h⟩ := bind_eq_ok_iff.mp h
  obtain ⟨version, hversion, h⟩ := bind_eq_ok_iff.mp h
  obtain ⟨_, hisVersion, h⟩ := bind_eq_ok_iff.mp h
  obtain ⟨_, -, h⟩ := bind_eq_ok_iff.mp h
  obtain ⟨taken, htaken, h⟩ := bind_eq_ok_iff.mp h
  obtain ⟨_, hapart, h⟩ := bind_eq_ok_iff.mp h
  obtain ⟨null, -, h⟩ := bind_eq_ok_iff.mp h
  obtain ⟨_, -, h⟩ := bind_eq_ok_iff.mp h
  obtain ⟨table, htable, h⟩ := bind_eq_ok_iff.mp h
  obtain ⟨_, -, h⟩ := bind_eq_ok_iff.mp h
  obtain ⟨_, hunique, h⟩ := bind_eq_ok_iff.mp h
  obtain ⟨symbol, hsymbol, h⟩ := bind_eq_ok_iff.mp h
  obtain ⟨_, hformed, h⟩ := bind_eq_ok_iff.mp h
  obtain ⟨s, hs, h⟩ := bind_eq_ok_iff.mp h
  obtain ⟨_, hstorage, h⟩ := bind_eq_ok_iff.mp h
  obtain ⟨_, hothers, h⟩ := bind_eq_ok_iff.mp h
  obtain ⟨_, hloaded, h⟩ := bind_eq_ok_iff.mp h
  obtain ⟨content, hcontent, h⟩ := bind_eq_ok_iff.mp h
  obtain ⟨⟨values, layout⟩, hmeasure, hlast⟩ := bind_eq_ok_iff.mp h
  obtain ⟨hvalues, hconsistent⟩ := measure_eq_ok hmeasure
  rw [requireLayout_eq_ok_iff] at hlength hisVersion hapart hunique hformed hstorage hloaded
  rw [item_eq_ok_iff] at htable hsymbol hs
  obtain ⟨hobj, hdata⟩ := bounded_of_parseRelocatable (mapError_eq_ok_iff.mp hparse)
  obtain ⟨only, honly⟩ := List.length_eq_one_iff.mp hunique
  rw [honly] at hsymbol
  obtain rfl : only = symbol := Option.some.inj hsymbol
  obtain ⟨hmachine, hversion⟩ := andAlso_eq_ok_true_iff.mp (hisVersion ▸ hversion)
  obtain ⟨flags, hflags, hversion⟩ := bind_eq_ok_iff.mp hversion
  obtain rfl := of_decide_eq_true (Except.ok.inj hversion)
  rw [mapM_eq_ok_iff] at htaken
  have hkinds : ∀ t ∈ obj.sections.tail, t.kind ∈ [1, 2, 3, 0x70000003, 0x6FFF4C03] := fun t ht => by
    obtain ⟨_, -, h⟩ := exists_of_forall₂_left htaken ht
    exact (checkLayoutSection_eq_ok h).2
  have hranges := takenRanges_bounded hobj fun t ht heq => absurd (heq ▸ hkinds t ht) (by decide)
  have hflat : taken.flatten = obj.sections.tail.flatMap Section.taken := by
    have hmap := map_eq_map_of_forall₂ (f := Section.taken) (g := id)
      (htaken.imp fun t ranges ht => (checkLayoutSection_eq_ok ht).1.symm)
    rw [List.map_id] at hmap
    rw [← hmap, List.flatMap]
  rw [hflat] at hapart
  have hturn := fun i t (hi : 0 < i) (ht : obj.symbols[i]? = some t) =>
    checkLayoutSymbol_eq_ok (forM_eq_ok_iff.mp hothers (t, i) (mem_zipIdx_tail hi ht))
  refine ⟨obj, only, s, mapError_eq_ok_iff.mp hparse, hdata, hlength, ?_⟩
  rw [← Except.ok.inj hlast]
  exact
    { hexagon := ⟨hmachine, hdata ▸ stored_word hflags⟩
      inside := fun r hr => (hranges r hr).2
      disjoint := (apart_iff_pairwise_disjoint fun r hr => (hranges r hr).1).mp hapart
      unrelocated := fun t ht =>
        ⟨fun heq => absurd (heq ▸ hkinds t ht) (by decide), fun heq => absurd (heq ▸ hkinds t ht) (by decide)⟩
      unique := honly
      boundary := ⟨table, htable, fun i t hi ht => (hturn i t hi ht).1⟩
      others := fun i t hi ht => (hturn i t hi ht).2
      storage := ⟨hs, hstorage.1, hstorage.2.1⟩
      loaded := fun i t ht halloc hne => by
        rcases hloaded (t, i) (List.mem_zipIdx_iff_getElem?.mpr ht) with h | h | h
        · exact absurd h halloc
        · exact absurd h hne
        · exact h
      values := stored_of_unpack hobj hs hcontent hvalues
      whole := ⟨hformed.2.2.1, hformed.2.2.2.1.trans hstorage.2.2.1.symm, hstorage.2.2.1⟩
      consistent := hconsistent
      hashed := by rw [hdata] }

/-- The measures of an object with two members of eight bytes. -/
def sampleLayout : Layout := ⟨16, 8, 8, 0, 8, 8, 8, 32, 8, 8, 24, 32, 8, 8⟩

/-- An object that holds the measures of both types. -/
def sampleMeasures : Bytes :=
  sampleObject 164 0x68 2 0x11 (pack true (List.replicate (2 * layoutFields.length) .i)
    (sampleLayout.fields.flatMap fun n => [n, n])) layoutSymbol

theorem validateObject_measures_sample : ∃ m, validateObject (fun _ => "") sampleMeasures = .ok m ∧
    ∃ obj symbol s, parseRelocatable sampleMeasures hexagonModel = .ok obj ∧ obj.data = sampleMeasures ∧
      sampleMeasures.length ≤ maxObjectBytes ∧ Measures (fun _ => "") obj symbol s m := by
  obtain ⟨m, h⟩ := exists_ok_of_isOk (x := validateObject (fun _ => "") sampleMeasures) (by decide +kernel)
  exact ⟨m, h, validateObject_measures h⟩

/-! ## Validating fails as the module says -/

/-- The failure is a `LayoutError`. -/
def IsLayoutError (e : Failure) : Prop := e.kind = .layoutError

theorem fails_requireLayout {condition : Prop} [Decidable condition] {message : String} :
    Fails IsLayoutError (requireLayout condition message) := fails_ensure rfl

theorem measure_fails {content : Bytes} (h : content.length = layoutSize) :
    Fails IsLayoutError (measure content) := by
  obtain ⟨values, hvalues⟩ :=
    @exists_unpack true content (List.replicate (2 * layoutFields.length) .i) h
  refine (fails_of_eq_ok (orFail_eq_ok_iff.mpr hvalues)).bind fun ns hns => ?_
  have hlength : ns.length = 28 := (unpack_eq_some_iff.mp (orFail_eq_ok_iff.mp hns)).1.length_eq.symm
  refine (fails_forM fun _ _ => fails_requireLayout).bind fun _ _ => ?_
  have hfields : ((pairUp ns).map Prod.fst).length = 14 := by
    rw [List.length_map, length_pairUp, hlength]
  refine (fails_readLayout hfields).bind fun layout _ => Fails.bind ?_ fun _ _ => fails_pure _ _
  exact (fails_forM fun _ _ => fails_requireLayout).bind fun _ _ => fails_requireLayout.bind fun _ _ =>
    fails_requireLayout.bind fun _ _ => fails_requireLayout

/-- **Validating raises nothing but `LayoutError`**, whatever the bytes are. -/
theorem validateObject_fails (sha256 : Bytes → String) (data : Bytes) :
    Fails IsLayoutError (validateObject sha256 data) := by
  refine fails_requireLayout.bind fun _ _ => ?_
  refine Fails.bind ?_ fun obj hparse => ?_
  · refine (parseRelocatable_fails data hexagonModel).mapError fun e he => ?_
    rw [IsLayoutError, asLayoutError, if_pos]
    rw [show e.kind = .elfError from he]
    decide
  obtain ⟨hobj, hdata⟩ := bounded_of_parseRelocatable (mapError_eq_ok_iff.mp hparse)
  have hheader := hobj.header
  rw [hobj.headerSize, hdata] at hheader
  have hword : 36 + 4 ≤ data.length := by
    refine Nat.le_trans ?_ hheader
    cases obj.width <;> decide
  refine (fails_andAlso fun _ => (fails_word hword).bind fun _ _ => fails_pure _ _).bind fun _ _ => ?_
  refine fails_requireLayout.bind fun _ _ => fails_requireLayout.bind fun _ _ => ?_
  refine (fails_mapM fun t _ => fails_requireLayout.bind fun _ _ => fails_requireLayout.bind fun _ _ =>
    fails_pure _ _).bind fun _ _ => fails_requireLayout.bind fun _ _ => ?_
  refine (fails_item (List.length_pos_of_ne_nil hobj.symbols)).bind fun _ _ => ?_
  refine fails_requireLayout.bind fun _ _ => (fails_item hobj.symbolTable).bind fun table _ => ?_
  refine fails_requireLayout.bind fun _ _ => fails_requireLayout.bind fun _ hunique => ?_
  rw [requireLayout_eq_ok_iff] at hunique
  refine (fails_item (by rw [hunique]; decide)).bind fun symbol _ => ?_
  refine fails_requireLayout.bind fun _ hformed => ?_
  rw [requireLayout_eq_ok_iff] at hformed
  refine (fails_item hformed.2.2.2.2.2).bind fun s hs => fails_requireLayout.bind fun _ hstorage => ?_
  rw [item_eq_ok_iff] at hs
  rw [requireLayout_eq_ok_iff] at hstorage
  refine (fails_forM fun p _ => fails_requireLayout.bind fun _ _ => fails_requireLayout).bind fun _ _ => ?_
  refine fails_requireLayout.bind fun _ _ => ?_
  have hne : s.kind ≠ 8 := by rw [hstorage.1]; decide
  refine (fails_of_eq_ok (sectionBytes_eq_ok hs hne)).bind fun content hcontent => ?_
  obtain ⟨t, ht, hlength⟩ := sectionBytes_length hobj hcontent
  rw [← Option.some.inj (hs.symm.trans ht), hstorage.2.2.1] at hlength
  exact (measure_fails hlength).bind fun ⟨_, _⟩ _ => fails_pure _ _

end Measures

/-- **Every reader of objects fails with its own exception**, whatever the bytes are: none lets an index, a
key or a number that is out of range escape. -/
theorem objects_fail_closed (sha256 : Bytes → String) (data : Bytes) (target : Dict) (model fixture : Value) :
    Fails IsElfError (parseRelocatable data model) ∧
      Fails IsElfError (calibrationObject sha256 data model fixture) ∧
      Fails IsSourceError (fixtureObject data target model) ∧
      Fails IsLayoutError (validateObject sha256 data) :=
  ⟨parseRelocatable_fails data model, calibrationObject_fails sha256 data model fixture,
    fixtureObject_fails data target model, validateObject_fails sha256 data⟩

end Elf
end Fragma
