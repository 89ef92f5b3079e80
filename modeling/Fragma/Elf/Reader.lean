import Fragma.Python.Failing
import Fragma.Python.Struct
import Fragma.Python.Value

/-!
# Relocatable objects

`parse_relocatable` of `fragma/elf.py`: the header, the section table with its names, and the one symbol
table with its names.  Every read is a slice, which cuts, or an `unpack_from`, an index or a search, which
may fail.

* `Relocatable`, `parseRelocatable`: what is read, and the function.
-/

namespace Fragma
namespace Elf

open Python Python.Struct Search

/-! ## Failures -/

/-- The classes of exceptions. -/
inductive FailureKind where
  | elfError
  | sourceError
  | layoutError
  | structError
  | indexError
  | keyError
  | valueError
  | zeroDivisionError
  deriving DecidableEq

/-- An exception with its text. -/
structure Failure where
  kind : FailureKind
  message : String
  deriving DecidableEq

/-- `require(condition, message)` of `fragma/elf.py`. -/
def require (condition : Prop) [Decidable condition] (message : String) : Except Failure Unit :=
  ensure condition ⟨.elfError, message⟩

/-- A value, or an exception of a class where there is none. -/
def orFail {α : Type} (o : Option α) (kind : FailureKind) : Except Failure α :=
  match o with
  | some a => .ok a
  | none => .error ⟨kind, ""⟩

/-- `items[index]`. -/
def item {α : Type} (items : List α) (index : ℕ) : Except Failure α := orFail items[index]? .indexError

/-- `struct.unpack_from`. -/
def unpackFrom (little : Bool) (codes : List Code) (data : Bytes) (offset : ℕ) :
    Except Failure (List ℕ) :=
  orFail (Struct.unpackFrom little codes data offset) .structError

/-- `data[start:start + size]` -/
def slice (data : Bytes) (start size : ℕ) : Bytes := (data.drop start).take size

/-- `range(start, stop, step)` -/
def rangeStep (start stop step : ℕ) : List ℕ := List.range' start ((stop - start + step - 1) / step) step

/-! ## What is read -/

/-- The class of an object. -/
inductive Width where
  | w32
  | w64
  deriving DecidableEq

def Width.bits : Width → ℕ
  | .w32 => 32
  | .w64 => 64

def Width.headerSize : Width → ℕ
  | .w32 => 52
  | .w64 => 64

def Width.sectionSize : Width → ℕ
  | .w32 => 40
  | .w64 => 64

def Width.symbolSize : Width → ℕ
  | .w32 => 16
  | .w64 => 24

def Width.headerCodes : Width → List Code
  | .w32 => [.h, .h, .i, .i, .i, .i, .i, .h, .h, .h, .h, .h, .h]
  | .w64 => [.h, .h, .i, .q, .q, .q, .i, .h, .h, .h, .h, .h, .h]

def Width.sectionCodes : Width → List Code
  | .w32 => [.i, .i, .i, .i, .i, .i, .i, .i, .i, .i]
  | .w64 => [.i, .i, .q, .q, .q, .q, .i, .i, .q, .q]

def Width.symbolCodes : Width → List Code
  | .w32 => [.i, .i, .i, .b, .b, .h]
  | .w64 => [.i, .b, .b, .h, .q, .q]

/-- The fields of the header. -/
@[ext] structure Header where
  kind : ℕ
  machine : ℕ
  version : ℕ
  entry : ℕ
  phoff : ℕ
  shoff : ℕ
  flags : ℕ
  ehsize : ℕ
  phentsize : ℕ
  phnum : ℕ
  shentsize : ℕ
  shnum : ℕ
  shstr : ℕ
  deriving DecidableEq

/-- A row of the section table; its name is an offset. -/
@[ext] structure Row where
  name : ℕ
  kind : ℕ
  flags : ℕ
  address : ℕ
  offset : ℕ
  size : ℕ
  link : ℕ
  info : ℕ
  alignment : ℕ
  entrySize : ℕ
  deriving DecidableEq

@[ext] structure Section where
  name : Bytes
  kind : ℕ
  flags : ℕ
  address : ℕ
  offset : ℕ
  size : ℕ
  link : ℕ
  info : ℕ
  alignment : ℕ
  entrySize : ℕ
  deriving DecidableEq

@[ext] structure Symbol where
  name : Bytes
  value : ℕ
  size : ℕ
  info : ℕ
  other : ℕ
  index : ℕ
  deriving DecidableEq

@[ext] structure Relocatable where
  data : Bytes
  width : Width
  little : Bool
  machine : ℕ
  headerSize : ℕ
  sectionOffset : ℕ
  sectionSize : ℕ
  sections : List Section
  symbols : List Symbol
  symbolTable : ℕ

/-- `section_bytes` of an object. -/
def Relocatable.sectionBytes (obj : Relocatable) (index : ℕ) : Except Failure Bytes := do
  let row ← item obj.sections index
  require (row.kind ≠ 8) "metadata points into a non-file-backed section"
  pure (slice obj.data row.offset row.size)

/-! ## Reading -/

/-- The machine fields that the model was checked for. -/
def checkedFields (model : Value) : Value :=
  let machdep := match model with
    | .dict entries => Value.get entries "machdep"
    | _ => .none
  match machdep with
  | .dict entries => Value.get entries "checked_fields"
  | _ => .none

/-- The pointer width and the byte order of a model. -/
def modelWidth (model : Value) : Except Failure (Width × Bool) :=
  match checkedFields model with
  | .dict fields =>
    match Value.get fields "sizeof_ptr", Value.get fields "little_endian" with
    | .int 4, .bool little => .ok (.w32, little)
    | .int 8, .bool little => .ok (.w64, little)
    | _, _ => .error ⟨.elfError, "fixture object requires checked pointer width and byte order"⟩
  | _ => .error ⟨.elfError, "fixture object requires checked machine fields"⟩

/-- The first bytes of an object. -/
def Width.ident (width : Width) (little : Bool) : Bytes :=
  [127, 69, 76, 70, if width = .w32 then 1 else 2, if little then 1 else 2, 1]

/-- The fields at the start. -/
def readHeader (width : Width) (little : Bool) (data : Bytes) : Except Failure Header := do
  match ← unpackFrom little width.headerCodes data 16 with
  | [kind, machine, version, entry, phoff, shoff, flags, ehsize, phentsize, phnum, shentsize, shnum,
      shstr] =>
    pure ⟨kind, machine, version, entry, phoff, shoff, flags, ehsize, phentsize, phnum, shentsize, shnum,
      shstr⟩
  | _ => .error ⟨.valueError, ""⟩

/-- A row of the section table. -/
def readRow (width : Width) (little : Bool) (data : Bytes) (offset : ℕ) : Except Failure Row := do
  match ← unpackFrom little width.sectionCodes data offset with
  | [name, kind, flags, address, offset, size, link, info, alignment, entrySize] =>
    pure ⟨name, kind, flags, address, offset, size, link, info, alignment, entrySize⟩
  | _ => .error ⟨.valueError, ""⟩

/-- A row of the symbol table, with the name as an offset. -/
def readSymbol (width : Width) (little : Bool) (data : Bytes) (offset : ℕ) :
    Except Failure (ℕ × ℕ × ℕ × ℕ × ℕ × ℕ) := do
  match width, ← unpackFrom little width.symbolCodes data offset with
  | .w32, [name, value, size, info, other, index] => pure (name, value, size, info, other, index)
  | .w64, [name, info, other, index, value, size] => pure (name, value, size, info, other, index)
  | _, _ => .error ⟨.valueError, ""⟩

/-- `section_bytes` of a row. -/
def rowBytes (data : Bytes) (rows : List Row) (index : ℕ) : Except Failure Bytes := do
  let row ← item rows index
  require (row.kind ≠ 8) "metadata points into a non-file-backed section"
  pure (slice data row.offset row.size)

/-- `string(table, offset)` -/
def string (table : Bytes) (offset : ℕ) : Except Failure Bytes := do
  require (offset < table.length) "ELF string offset is out of bounds"
  match find [0] table offset with
  | some stop => pure (slice table offset (stop - offset))
  | none => .error ⟨.elfError, "unterminated ELF string"⟩

/-- The check of one row. -/
def checkRow (data : Bytes) (shnum : ℕ) (row : Row) : Except Failure Unit :=
  require (row.offset ≤ data.length ∧ (row.kind = 8 ∨ row.offset + row.size ≤ data.length) ∧
    row.link < shnum ∧ (row.alignment = 0 ∨ row.alignment &&& (row.alignment - 1) = 0))
    "ELF section lies outside its bounded container"

/-- The section of a row. -/
def namedSection (names : Bytes) (row : Row) : Except Failure Section := do
  let name ← string names row.name
  pure ⟨name, row.kind, row.flags, row.address, row.offset, row.size, row.link, row.info, row.alignment,
    row.entrySize⟩

/-- The symbol of a row. -/
def namedSymbol (width : Width) (little : Bool) (data strings : Bytes) (offset : ℕ) :
    Except Failure Symbol := do
  let (name, value, size, info, other, index) ← readSymbol width little data offset
  let name ← string strings name
  pure ⟨name, value, size, info, other, index⟩

/-- Whether a row of the symbol table's link is a string table. -/
def linksStrings (rows : List Row) (shnum : ℕ) (table : Row) (symbolSize : ℕ) : Except Failure Bool :=
  if table.entrySize = symbolSize ∧ table.size ≥ symbolSize ∧ table.size % symbolSize = 0 ∧
      0 < table.link ∧ table.link < shnum then do
    let row ← item rows table.link
    pure (row.kind = 3)
  else pure false

/-- `parse_relocatable(data, model)` -/
def parseRelocatable (data : Bytes) (model : Value) : Except Failure Relocatable := do
  let (width, little) ← modelWidth model
  require (width.headerSize ≤ data.length ∧ data.take 7 = width.ident little)
    "truncated or wrong-class/byte-order ELF fixture"
  let h ← readHeader width little data
  require (h.kind = 1 ∧ h.version = 1 ∧ h.entry = 0 ∧ h.ehsize = width.headerSize ∧ h.phoff = 0 ∧
    h.phentsize = 0 ∧ h.phnum = 0 ∧ h.shentsize = width.sectionSize ∧ 2 ≤ h.shnum ∧ h.shnum < 0xff00 ∧
    0 < h.shstr ∧ h.shstr < h.shnum ∧ width.headerSize ≤ h.shoff ∧
    h.shoff + h.shnum * width.sectionSize ≤ data.length) "invalid relocatable ELF header/section bounds"
  let rows ← (List.range h.shnum).mapM fun i =>
    readRow width little data (h.shoff + i * width.sectionSize)
  let null ← item rows 0
  require (null = ⟨0, 0, 0, 0, 0, 0, 0, 0, 0, 0⟩) "unexpected ELF null section/extended numbering"
  rows.tail.forM (checkRow data h.shnum)
  let nameRow ← item rows h.shstr
  require (nameRow.kind = 3) "missing ELF section-name string table"
  let names ← rowBytes data rows h.shstr
  require ([0] <+: names) "invalid ELF section-name table"
  let sections ← rows.mapM (namedSection names)
  let tables := (List.range rows.length).filter fun i => (rows[i]?.map Row.kind) = some 2
  require (tables.length = 1) "missing or ambiguous ELF symbol table"
  let symbolTable ← item tables 0
  let table ← item rows symbolTable
  let linked ← linksStrings rows h.shnum table width.symbolSize
  require (linked = true) "invalid ELF symbol table/link/bounds"
  let strings ← rowBytes data rows table.link
  require ([0] <+: strings) "invalid ELF symbol-name table"
  let symbols ← (rangeStep table.offset (table.offset + table.size) width.symbolSize).mapM
    (namedSymbol width little data strings)
  pure ⟨data, width, little, h.machine, width.headerSize, h.shoff, width.sectionSize, sections, symbols,
    symbolTable⟩

/-! ## What the reads return -/

section Reads

variable {width : Width} {little : Bool} {data : Bytes} {offset : ℕ}

@[simp] theorem require_eq_ok_iff {condition : Prop} [Decidable condition] {message : String} {u : Unit} :
    require condition message = .ok u ↔ condition := ensure_eq_ok_iff

@[simp] theorem orFail_eq_ok_iff {α : Type} {o : Option α} {kind : FailureKind} {a : α} :
    orFail o kind = .ok a ↔ o = some a := by
  cases o with
  | none => simp [orFail]
  | some b => simp [orFail]

@[simp] theorem item_eq_ok_iff {α : Type} {items : List α} {index : ℕ} {a : α} :
    item items index = .ok a ↔ items[index]? = some a := orFail_eq_ok_iff

/-- Some integers stand packed at a place. -/
def Stored (little : Bool) (codes : List Code) (values : List ℕ) (data : Bytes) (offset : ℕ) : Prop :=
  Fits codes values ∧ OccursAt (pack little codes values) data offset

theorem unpackFrom_eq_ok_iff {codes : List Code} {values : List ℕ} :
    unpackFrom little codes data offset = .ok values ↔ Stored little codes values data offset :=
  orFail_eq_ok_iff.trans unpackFrom_eq_some_iff

theorem Stored.length_le {codes : List Code} {values : List ℕ} (h : Stored little codes values data offset) :
    offset + calcsize codes ≤ data.length :=
  length_pack h.1 ▸ h.2.length_le

/-- The fields of a header, in their order. -/
def Header.fields (h : Header) : List ℕ :=
  [h.kind, h.machine, h.version, h.entry, h.phoff, h.shoff, h.flags, h.ehsize, h.phentsize, h.phnum,
    h.shentsize, h.shnum, h.shstr]

/-- The fields of a row, in their order. -/
def Row.fields (row : Row) : List ℕ :=
  [row.name, row.kind, row.flags, row.address, row.offset, row.size, row.link, row.info, row.alignment,
    row.entrySize]

/-- The fields of a symbol, in the order of its class. -/
def symbolFields (width : Width) (name : ℕ) (symbol : Symbol) : List ℕ :=
  match width with
  | .w32 => [name, symbol.value, symbol.size, symbol.info, symbol.other, symbol.index]
  | .w64 => [name, symbol.info, symbol.other, symbol.index, symbol.value, symbol.size]

theorem readHeader_eq_ok_iff {h : Header} :
    readHeader width little data = .ok h ↔ Stored little width.headerCodes h.fields data 16 := by
  rw [readHeader, bind_eq_ok_iff, ← unpackFrom_eq_ok_iff]
  constructor
  · rintro ⟨values, hread, hvalues⟩
    split at hvalues
    · rw [hread, ← Except.ok.inj hvalues]
      rfl
    · exact absurd hvalues (by simp)
  · exact fun hread => ⟨h.fields, hread, rfl⟩

theorem readRow_eq_ok_iff {row : Row} :
    readRow width little data offset = .ok row ↔ Stored little width.sectionCodes row.fields data offset := by
  rw [readRow, bind_eq_ok_iff, ← unpackFrom_eq_ok_iff]
  constructor
  · rintro ⟨values, hread, hvalues⟩
    split at hvalues
    · rw [hread, ← Except.ok.inj hvalues]
      rfl
    · exact absurd hvalues (by simp)
  · exact fun hread => ⟨row.fields, hread, rfl⟩

theorem occursAt_singleton_iff {table : Bytes} {c : UInt8} {j : ℕ} :
    OccursAt [c] table j ↔ table[j]? = some c := by
  rw [OccursAt, ← List.head?_drop]
  constructor
  · rintro ⟨-, rest, hrest⟩
    rw [← hrest]
    rfl
  · intro hhead
    obtain ⟨rest, hrest⟩ := List.head?_eq_some_iff.mp hhead
    refine ⟨?_, rest, hrest.symm⟩
    have hlen : (table.drop j).length ≠ 0 := by rw [hrest]; simp
    rw [List.length_drop] at hlen
    omega

/-- A name stands in a table, with the zero byte that ends it. -/
def NameAt (table : Bytes) (offset : ℕ) (name : Bytes) : Prop :=
  (0 : UInt8) ∉ name ∧ OccursAt (name ++ [0]) table offset

theorem string_eq_ok_iff {table name : Bytes} :
    string table offset = .ok name ↔ NameAt table offset name := by
  rw [string, bind_eq_ok_iff]
  constructor
  · rintro ⟨_, hbound, hname⟩
    rw [require_eq_ok_iff] at hbound
    cases hfind : find [0] table offset with
    | none => rw [hfind] at hname; exact absurd hname (by simp)
    | some stop =>
      rw [hfind] at hname
      obtain ⟨hstart, hzero, hleast⟩ := find_eq_some_iff.mp hfind
      rw [occursAt_singleton_iff] at hzero
      obtain rfl := Except.ok.inj hname
      refine ⟨fun hmem => ?_, hbound.le, ?_⟩
      · obtain ⟨k, hk, hget⟩ := List.mem_iff_getElem.mp hmem
        have hlt : k < stop - offset := by
          rw [slice, List.length_take] at hk
          omega
        refine hleast (offset + k) (Nat.le_add_right _ _) (by omega) (occursAt_singleton_iff.mpr ?_)
        rw [← List.getElem?_drop, ← List.getElem?_take_of_lt hlt]
        exact List.getElem?_eq_some_iff.mpr ⟨hk, hget⟩
      · have htake : slice table offset (stop - offset) ++ [0] =
            (table.drop offset).take (stop - offset + 1) := by
          rw [slice, List.take_add_one, List.getElem?_drop, Nat.add_sub_cancel' hstart, hzero]
          rfl
        rw [htake]
        exact List.take_prefix _ _
  · rintro ⟨hfree, hocc⟩
    have hlen := hocc.length_le
    obtain ⟨hstart, rest, hrest⟩ := hocc
    rw [List.length_append, List.length_singleton] at hlen
    have hget : ∀ k, table[offset + k]? = (name ++ [0] ++ rest)[k]? := fun k => by
      rw [← List.getElem?_drop, ← hrest]
    have hfind : find [0] table offset = some (offset + name.length) := by
      refine find_eq_some_iff.mpr ⟨Nat.le_add_right _ _, occursAt_singleton_iff.mpr ?_, fun j hj hlt hocc => ?_⟩
      · rw [hget, List.append_assoc, List.getElem?_append_right le_rfl, Nat.sub_self]
        rfl
      · obtain ⟨k, rfl⟩ := Nat.exists_eq_add_of_le hj
        rw [occursAt_singleton_iff, hget, List.append_assoc, List.getElem?_append_left (by omega)] at hocc
        exact hfree (List.mem_of_getElem? hocc)
    refine ⟨(), require_eq_ok_iff.mpr (by omega), ?_⟩
    rw [hfind]
    change Except.ok (slice table offset (offset + name.length - offset)) = _
    rw [Nat.add_sub_cancel_left, slice, ← hrest, List.append_assoc, List.take_left]

/-- A symbol stands at a place, and its name in a table. -/
def SymbolAt (width : Width) (little : Bool) (data strings : Bytes) (offset : ℕ) (symbol : Symbol) : Prop :=
  ∃ name, Stored little width.symbolCodes (symbolFields width name symbol) data offset ∧
    NameAt strings name symbol.name

theorem namedSymbol_eq_ok_iff {strings : Bytes} {symbol : Symbol} :
    namedSymbol width little data strings offset = .ok symbol ↔
      SymbolAt width little data strings offset symbol := by
  simp only [SymbolAt, ← unpackFrom_eq_ok_iff, ← string_eq_ok_iff]
  rw [namedSymbol, bind_eq_ok_iff]
  constructor
  · rintro ⟨⟨n, value, size, info, other, index⟩, hread, h⟩
    obtain ⟨name, hname, hsymbol⟩ := bind_eq_ok_iff.mp h
    rw [← Except.ok.inj hsymbol]
    rw [readSymbol, bind_eq_ok_iff] at hread
    obtain ⟨values, hunpack, hvalues⟩ := hread
    refine ⟨n, ?_, hname⟩
    split at hvalues
    · obtain ⟨rfl, rfl, rfl, rfl, rfl, rfl⟩ := by simpa using Except.ok.inj hvalues
      exact hunpack
    · obtain ⟨rfl, rfl, rfl, rfl, rfl, rfl⟩ := by simpa using Except.ok.inj hvalues
      exact hunpack
    · exact absurd hvalues (by simp)
  · rintro ⟨n, hunpack, hname⟩
    refine ⟨(n, symbol.value, symbol.size, symbol.info, symbol.other, symbol.index), ?_,
      bind_eq_ok_iff.mpr ⟨symbol.name, hname, rfl⟩⟩
    rw [readSymbol, bind_eq_ok_iff]
    refine ⟨_, hunpack, ?_⟩
    cases width with
    | w32 => rfl
    | w64 => rfl

/-- A section is a row with its name. -/
def Names (names : Bytes) (row : Row) (s : Section) : Prop :=
  NameAt names row.name s.name ∧ s = ⟨s.name, row.kind, row.flags, row.address, row.offset, row.size,
    row.link, row.info, row.alignment, row.entrySize⟩

theorem namedSection_eq_ok_iff {names : Bytes} {row : Row} {s : Section} :
    namedSection names row = .ok s ↔ Names names row s := by
  rw [namedSection, bind_eq_ok_iff, Names]
  simp only [← string_eq_ok_iff]
  constructor
  · rintro ⟨name, hname, hs⟩
    rw [← Except.ok.inj hs]
    exact ⟨hname, rfl⟩
  · rintro ⟨hname, hs⟩
    exact ⟨s.name, hname, congrArg Except.ok hs.symm⟩

theorem forall₂_range'_iff {β : Type*} {R : ℕ → β → Prop} {start n step : ℕ} {bs : List β} :
    List.Forall₂ R (List.range' start n step) bs ↔
      bs.length = n ∧ ∀ i b, bs[i]? = some b → R (start + step * i) b := by
  rw [List.forall₂_iff_get]
  simp only [List.length_range', List.get_eq_getElem, List.getElem_range']
  constructor
  · rintro ⟨hlen, h⟩
    refine ⟨hlen.symm, fun i b hb => ?_⟩
    obtain ⟨hi, rfl⟩ := List.getElem?_eq_some_iff.mp hb
    exact h i (hlen ▸ hi) hi
  · rintro ⟨rfl, h⟩
    exact ⟨rfl, fun i _ hi => h i _ (List.getElem?_eq_getElem hi)⟩

theorem forall₂_range_iff {β : Type*} {R : ℕ → β → Prop} {n : ℕ} {bs : List β} :
    List.Forall₂ R (List.range n) bs ↔ bs.length = n ∧ ∀ i b, bs[i]? = some b → R i b := by
  rw [List.range_eq_range', forall₂_range'_iff]
  simp

/-! ## What an object is in its bytes -/

/-- The row lies inside the file, and names another row. -/
def Row.Inside (row : Row) (data : Bytes) (count : ℕ) : Prop :=
  row.offset ≤ data.length ∧ (row.kind = 8 ∨ row.offset + row.size ≤ data.length) ∧ row.link < count ∧
    (row.alignment = 0 ∨ row.alignment &&& (row.alignment - 1) = 0)

theorem checkRow_eq_ok_iff {count : ℕ} {row : Row} {u : Unit} :
    checkRow data count row = .ok u ↔ row.Inside data count := require_eq_ok_iff

/-- The bytes of a row. -/
def Row.content (row : Row) (data : Bytes) : Bytes := slice data row.offset row.size

/-- The rows hold one symbol table, with its names and its symbols. -/
structure SymbolTable (data : Bytes) (obj : Relocatable) (rows : List Row) (table strings : Row) : Prop where
  tableRow : rows[obj.symbolTable]? = some table
  kind : table.kind = 2
  single : ∀ i row, rows[i]? = some row → row.kind = 2 → i = obj.symbolTable
  entrySize : table.entrySize = obj.width.symbolSize
  size : table.size = obj.symbols.length * obj.width.symbolSize
  nonempty : obj.symbols ≠ []
  link : table.link ≠ 0
  stringsRow : rows[table.link]? = some strings
  stringsKind : strings.kind = 3
  stringsZero : [0] <+: strings.content data
  symbols : ∀ i symbol, obj.symbols[i]? = some symbol → SymbolAt obj.width obj.little data
    (strings.content data) (table.offset + i * obj.width.symbolSize) symbol

/-- The bytes are an image of the object: its header, its rows and their names, its symbols. -/
structure Image (data : Bytes) (obj : Relocatable) (h : Header) (rows : List Row) (names table strings : Row) :
    Prop where
  ident : obj.width.ident obj.little <+: data
  header : Stored obj.little obj.width.headerCodes h.fields data 16
  fixed : h = ⟨1, obj.machine, 1, 0, 0, obj.sectionOffset, h.flags, obj.width.headerSize, 0, 0,
    obj.width.sectionSize, rows.length, h.shstr⟩
  headerSize : obj.headerSize = obj.width.headerSize
  sectionSize : obj.sectionSize = obj.width.sectionSize
  bytes : obj.data = data
  several : 2 ≤ rows.length
  numbered : rows.length < 0xff00
  behind : obj.width.headerSize ≤ obj.sectionOffset
  stored : ∀ i row, rows[i]? = some row → Stored obj.little obj.width.sectionCodes row.fields data
    (obj.sectionOffset + i * obj.width.sectionSize)
  null : rows[0]? = some ⟨0, 0, 0, 0, 0, 0, 0, 0, 0, 0⟩
  inside : ∀ row ∈ rows.tail, row.Inside data rows.length
  namesRow : rows[h.shstr]? = some names
  namesIndex : h.shstr ≠ 0
  namesKind : names.kind = 3
  namesZero : [0] <+: names.content data
  sections : List.Forall₂ (Names (names.content data)) rows obj.sections
  symbolTable : SymbolTable data obj rows table strings

theorem calcsize_headerCodes (width : Width) : 16 + calcsize width.headerCodes = width.headerSize := by
  cases width <;> rfl

theorem calcsize_sectionCodes (width : Width) : calcsize width.sectionCodes = width.sectionSize := by
  cases width <;> rfl

theorem calcsize_symbolCodes (width : Width) : calcsize width.symbolCodes = width.symbolSize := by
  cases width <;> rfl

theorem rowBytes_eq_ok_iff {rows : List Row} {index : ℕ} {bs : Bytes} :
    rowBytes data rows index = .ok bs ↔
      ∃ row, rows[index]? = some row ∧ row.kind ≠ 8 ∧ bs = row.content data := by
  rw [rowBytes, bind_eq_ok_iff]
  simp only [item_eq_ok_iff]
  constructor
  · rintro ⟨row, hrow, h⟩
    obtain ⟨_, hkind, hbs⟩ := bind_eq_ok_iff.mp h
    exact ⟨row, hrow, require_eq_ok_iff.mp hkind, (Except.ok.inj hbs).symm⟩
  · rintro ⟨row, hrow, hkind, rfl⟩
    exact ⟨row, hrow, bind_eq_ok_iff.mpr ⟨(), require_eq_ok_iff.mpr hkind, rfl⟩⟩

theorem linksStrings_eq_ok_true_iff {rows : List Row} {table : Row} {shnum symbolSize : ℕ} :
    linksStrings rows shnum table symbolSize = .ok true ↔
      (table.entrySize = symbolSize ∧ symbolSize ≤ table.size ∧ table.size % symbolSize = 0 ∧
        0 < table.link ∧ table.link < shnum) ∧ ∃ row, rows[table.link]? = some row ∧ row.kind = 3 := by
  rw [linksStrings]
  split_ifs with h
  · rw [bind_eq_ok_iff]
    simp only [item_eq_ok_iff]
    constructor
    · rintro ⟨row, hrow, hkind⟩
      exact ⟨h, row, hrow, by simpa using Except.ok.inj hkind⟩
    · rintro ⟨-, row, hrow, hkind⟩
      exact ⟨row, hrow, congrArg Except.ok (decide_eq_true hkind)⟩
  · constructor
    · intro hfalse
      exact absurd (Except.ok.inj hfalse) (by decide)
    · exact fun hall => absurd hall.1 h

theorem rangeStep_eq {start size step : ℕ} (hstep : 0 < step) (h : size % step = 0) :
    rangeStep start (start + size) step = List.range' start (size / step) step := by
  obtain ⟨n, rfl⟩ := Nat.dvd_of_mod_eq_zero h
  rw [rangeStep, Nat.add_sub_cancel_left, Nat.mul_div_cancel_left n hstep, Nat.add_sub_assoc hstep,
    Nat.mul_add_div hstep, Nat.div_eq_of_lt (by omega), Nat.add_zero]

theorem symbolSize_pos (width : Width) : 0 < width.symbolSize := by
  cases width <;> decide

/-- A filter of places that keeps one place. -/
theorem filter_range_eq_singleton_iff {p : ℕ → Bool} {n i : ℕ} :
    (List.range n).filter p = [i] ↔ (i < n ∧ p i = true) ∧ ∀ j < n, p j = true → j = i := by
  constructor
  · intro h
    have hmem : ∀ j, (j < n ∧ p j = true) ↔ j = i := fun j => by
      rw [← List.mem_range, ← List.mem_filter, h, List.mem_singleton]
    exact ⟨(hmem i).mpr rfl, fun j hj hp => (hmem j).mp ⟨hj, hp⟩⟩
  · rintro ⟨hi, hall⟩
    refine List.perm_singleton.mp ((List.perm_ext_iff_of_nodup (List.nodup_range.filter _)
      (List.nodup_singleton i)).mpr fun j => ?_)
    rw [List.mem_filter, List.mem_range, List.mem_singleton]
    exact ⟨fun h => hall j h.1 h.2, fun h => h ▸ hi⟩

/-- **An object is read exactly where the bytes are an image of it.** -/
theorem parseRelocatable_eq_ok_iff {model : Value} {obj : Relocatable} :
    parseRelocatable data model = .ok obj ↔ modelWidth model = .ok (obj.width, obj.little) ∧
      ∃ h rows names table strings, Image data obj h rows names table strings := by
  constructor
  · intro hparse
    obtain ⟨⟨width, little⟩, hmodel, hparse⟩ := bind_eq_ok_iff.mp hparse
    obtain ⟨_, hident, hparse⟩ := bind_eq_ok_iff.mp hparse
    obtain ⟨h, hheader, hparse⟩ := bind_eq_ok_iff.mp hparse
    obtain ⟨_, hfixed, hparse⟩ := bind_eq_ok_iff.mp hparse
    obtain ⟨rows, hrows, hparse⟩ := bind_eq_ok_iff.mp hparse
    obtain ⟨null, hnull, hparse⟩ := bind_eq_ok_iff.mp hparse
    obtain ⟨_, hzero, hparse⟩ := bind_eq_ok_iff.mp hparse
    obtain ⟨_, hinside, hparse⟩ := bind_eq_ok_iff.mp hparse
    obtain ⟨nameRow, hnameRow, hparse⟩ := bind_eq_ok_iff.mp hparse
    obtain ⟨_, hnameKind, hparse⟩ := bind_eq_ok_iff.mp hparse
    obtain ⟨names, hnames, hparse⟩ := bind_eq_ok_iff.mp hparse
    obtain ⟨_, hnamesZero, hparse⟩ := bind_eq_ok_iff.mp hparse
    obtain ⟨sections, hsections, hparse⟩ := bind_eq_ok_iff.mp hparse
    obtain ⟨_, hsingle, hparse⟩ := bind_eq_ok_iff.mp hparse
    obtain ⟨symbolTable, hsymbolTable, hparse⟩ := bind_eq_ok_iff.mp hparse
    obtain ⟨table, htable, hparse⟩ := bind_eq_ok_iff.mp hparse
    obtain ⟨linked, hlinked, hparse⟩ := bind_eq_ok_iff.mp hparse
    obtain ⟨_, hlink, hparse⟩ := bind_eq_ok_iff.mp hparse
    obtain ⟨strings, hstrings, hparse⟩ := bind_eq_ok_iff.mp hparse
    obtain ⟨_, hstringsZero, hparse⟩ := bind_eq_ok_iff.mp hparse
    obtain ⟨symbols, hsymbols, hlast⟩ := bind_eq_ok_iff.mp hparse
    rw [require_eq_ok_iff] at hident hfixed hzero hnameKind hnamesZero hsingle hlink hstringsZero
    rw [item_eq_ok_iff] at hnull hnameRow hsymbolTable htable
    obtain ⟨hcount, hstored⟩ := forall₂_range_iff.mp (mapM_eq_ok_iff.mp hrows)
    obtain ⟨hkind, hversion, hentry, hehsize, hphoff, hphentsize, hphnum, hshentsize, hseveral, hnumbered,
      hindex, -, hbehind, -⟩ := hfixed
    obtain ⟨row, hrow, -, rfl⟩ := rowBytes_eq_ok_iff.mp hnames
    obtain rfl := Option.some.inj (hnameRow.symm.trans hrow)
    obtain ⟨i, htables⟩ := List.length_eq_one_iff.mp hsingle
    rw [htables] at hsymbolTable
    obtain rfl : i = symbolTable := Option.some.inj hsymbolTable
    obtain ⟨⟨-, hsymbols2⟩, honly⟩ := filter_range_eq_singleton_iff.mp htables
    rw [hlink] at hlinked
    obtain ⟨⟨hentrySize, hsize, hmod, hlinkpos, -⟩, stringRow, hstringRow, hstringKind⟩ :=
      linksStrings_eq_ok_true_iff.mp hlinked
    obtain ⟨_, hrow', -, rfl⟩ := rowBytes_eq_ok_iff.mp hstrings
    obtain rfl := Option.some.inj (hstringRow.symm.trans hrow')
    rw [rangeStep_eq (symbolSize_pos width) hmod] at hsymbols
    obtain ⟨hlength, hsymbolAt⟩ := forall₂_range'_iff.mp (mapM_eq_ok_iff.mp hsymbols)
    have htotal : table.size = symbols.length * width.symbolSize := by
      rw [hlength, Nat.div_mul_cancel (Nat.dvd_of_mod_eq_zero hmod)]
    have hne : symbols ≠ [] := by
      rintro rfl
      have hpos := symbolSize_pos width
      rw [htotal, List.length_nil, Nat.zero_mul] at hsize
      omega
    rw [← Except.ok.inj hlast]
    refine ⟨hmodel, h, rows, nameRow, table, stringRow, ?_⟩
    exact
      { ident := hident.2 ▸ List.take_prefix 7 data
        header := readHeader_eq_ok_iff.mp hheader
        fixed := Header.ext hkind rfl hversion hentry hphoff rfl rfl hehsize hphentsize hphnum hshentsize
          hcount.symm rfl
        headerSize := rfl
        sectionSize := rfl
        bytes := rfl
        several := hcount ▸ hseveral
        numbered := hcount ▸ hnumbered
        behind := hbehind
        stored := fun i row hrow => readRow_eq_ok_iff.mp (hstored i row hrow)
        null := hzero ▸ hnull
        inside := fun row hrow => hcount ▸ checkRow_eq_ok_iff.mp (forM_eq_ok_iff.mp hinside row hrow)
        namesRow := hnameRow
        namesIndex := hindex.ne'
        namesKind := hnameKind
        namesZero := hnamesZero
        sections := (mapM_eq_ok_iff.mp hsections).imp fun row s hs => namedSection_eq_ok_iff.mp hs
        symbolTable :=
          { tableRow := htable
            kind := by simpa [htable] using hsymbols2
            single := fun i row hrow hkind =>
              honly i (List.getElem?_eq_some_iff.mp hrow).1 (by simp [hrow, hkind])
            entrySize := hentrySize
            size := htotal
            nonempty := hne
            link := hlinkpos.ne'
            stringsRow := hstringRow
            stringsKind := hstringKind
            stringsZero := hstringsZero
            symbols := fun i symbol hsymbol => by
              rw [Nat.mul_comm]
              exact namedSymbol_eq_ok_iff.mp (hsymbolAt i symbol hsymbol) } }
  · rintro ⟨hmodel, h, rows, names, table, strings, himage⟩
    obtain ⟨hident, hheader, hfixed, hheaderSize, hsectionSize, rfl, hseveral, hnumbered, hbehind, hstored, hnull,
      hinside, hnamesRow, hnamesIndex, hnamesKind, hnamesZero, hsections, htable⟩ := himage
    have hsize := hheader.length_le
    rw [calcsize_headerCodes] at hsize
    have hmachine : h.machine = obj.machine := congrArg Header.machine hfixed
    have hshoff : h.shoff = obj.sectionOffset := congrArg Header.shoff hfixed
    have hshnum : h.shnum = rows.length := congrArg Header.shnum hfixed
    have hend : h.shoff + h.shnum * obj.width.sectionSize ≤ obj.data.length := by
      obtain ⟨row, hrow⟩ : ∃ row, rows[rows.length - 1]? = some row :=
        ⟨_, List.getElem?_eq_getElem (by omega)⟩
      have hlast := (hstored _ row hrow).length_le
      rw [calcsize_sectionCodes] at hlast
      obtain ⟨n, hn⟩ : ∃ n, rows.length = n + 1 := ⟨rows.length - 1, by omega⟩
      rw [hn, Nat.add_sub_cancel] at hlast
      rw [hshoff, hshnum, hn, Nat.add_one_mul]
      omega
    refine bind_eq_ok_iff.mpr ⟨_, hmodel, ?_⟩
    refine bind_eq_ok_iff.mpr ⟨(), require_eq_ok_iff.mpr ⟨hsize, ?_⟩, ?_⟩
    · obtain ⟨rest, hrest⟩ := hident
      rw [← hrest]
      exact List.take_left' rfl
    refine bind_eq_ok_iff.mpr ⟨h, readHeader_eq_ok_iff.mpr hheader, ?_⟩
    refine bind_eq_ok_iff.mpr ⟨(), require_eq_ok_iff.mpr ?_, ?_⟩
    · refine ⟨congrArg Header.kind hfixed, congrArg Header.version hfixed, congrArg Header.entry hfixed,
        congrArg Header.ehsize hfixed, congrArg Header.phoff hfixed, congrArg Header.phentsize hfixed,
        congrArg Header.phnum hfixed, congrArg Header.shentsize hfixed, hshnum ▸ hseveral,
        hshnum ▸ hnumbered, Nat.pos_of_ne_zero hnamesIndex, ?_, hshoff ▸ hbehind, hend⟩
      rw [hshnum]
      exact (List.getElem?_eq_some_iff.mp hnamesRow).1
    refine bind_eq_ok_iff.mpr ⟨rows, mapM_eq_ok_iff.mpr (forall₂_range_iff.mpr
      ⟨hshnum.symm, fun i row hrow => readRow_eq_ok_iff.mpr (hshoff ▸ hstored i row hrow)⟩), ?_⟩
    refine bind_eq_ok_iff.mpr ⟨_, item_eq_ok_iff.mpr hnull, ?_⟩
    refine bind_eq_ok_iff.mpr ⟨(), require_eq_ok_iff.mpr rfl, ?_⟩
    refine bind_eq_ok_iff.mpr ⟨(), forM_eq_ok_iff.mpr fun row hrow =>
      checkRow_eq_ok_iff.mpr (hshnum ▸ hinside row hrow), ?_⟩
    refine bind_eq_ok_iff.mpr ⟨names, item_eq_ok_iff.mpr hnamesRow, ?_⟩
    refine bind_eq_ok_iff.mpr ⟨(), require_eq_ok_iff.mpr hnamesKind, ?_⟩
    refine bind_eq_ok_iff.mpr ⟨_, rowBytes_eq_ok_iff.mpr ⟨names, hnamesRow, by omega, rfl⟩, ?_⟩
    refine bind_eq_ok_iff.mpr ⟨(), require_eq_ok_iff.mpr hnamesZero, ?_⟩
    refine bind_eq_ok_iff.mpr ⟨obj.sections, mapM_eq_ok_iff.mpr
      (hsections.imp fun row s hs => namedSection_eq_ok_iff.mpr hs), ?_⟩
    have htables : (List.range rows.length).filter (fun i => (rows[i]?.map Row.kind) = some 2) =
        [obj.symbolTable] := by
      refine filter_range_eq_singleton_iff.mpr ⟨⟨(List.getElem?_eq_some_iff.mp htable.tableRow).1, ?_⟩, ?_⟩
      · simp [htable.tableRow, htable.kind]
      · intro j hj hkind
        have hrow := List.getElem?_eq_getElem hj
        exact htable.single j _ hrow (by simpa [hrow] using hkind)
    have hmod : table.size % obj.width.symbolSize = 0 := by
      rw [htable.size, Nat.mul_mod_left]
    have hsymbolsPos := List.length_pos_of_ne_nil htable.nonempty
    refine bind_eq_ok_iff.mpr ⟨(), require_eq_ok_iff.mpr (by rw [htables]; rfl), ?_⟩
    refine bind_eq_ok_iff.mpr ⟨obj.symbolTable, item_eq_ok_iff.mpr (by rw [htables]; rfl), ?_⟩
    refine bind_eq_ok_iff.mpr ⟨table, item_eq_ok_iff.mpr htable.tableRow, ?_⟩
    refine bind_eq_ok_iff.mpr ⟨true, linksStrings_eq_ok_true_iff.mpr ⟨⟨htable.entrySize, ?_, hmod,
      Nat.pos_of_ne_zero htable.link, ?_⟩, strings, htable.stringsRow, htable.stringsKind⟩, ?_⟩
    · rw [htable.size]
      exact Nat.le_mul_of_pos_left _ hsymbolsPos
    · rw [hshnum]
      exact (List.getElem?_eq_some_iff.mp htable.stringsRow).1
    refine bind_eq_ok_iff.mpr ⟨(), require_eq_ok_iff.mpr rfl, ?_⟩
    have hstringsKind := htable.stringsKind
    refine bind_eq_ok_iff.mpr ⟨_, rowBytes_eq_ok_iff.mpr ⟨strings, htable.stringsRow, by omega, rfl⟩, ?_⟩
    refine bind_eq_ok_iff.mpr ⟨(), require_eq_ok_iff.mpr htable.stringsZero, ?_⟩
    refine bind_eq_ok_iff.mpr ⟨obj.symbols, mapM_eq_ok_iff.mpr ?_, congrArg Except.ok ?_⟩
    · rw [rangeStep_eq (symbolSize_pos _) hmod]
      refine forall₂_range'_iff.mpr ⟨?_, fun i symbol hsymbol => namedSymbol_eq_ok_iff.mpr ?_⟩
      · rw [htable.size, Nat.mul_div_cancel _ (symbolSize_pos _)]
      · rw [Nat.mul_comm]
        exact htable.symbols i symbol hsymbol
    · exact Relocatable.ext rfl rfl rfl hmachine hheaderSize.symm hshoff hsectionSize.symm rfl rfl rfl

/-! ## An object that was read is bounded -/

/-- The header, the section table and the sections lie inside the file. -/
structure Relocatable.Bounded (obj : Relocatable) : Prop where
  headerSize : obj.headerSize = obj.width.headerSize
  sectionSize : obj.sectionSize = obj.width.sectionSize
  header : obj.headerSize ≤ obj.data.length
  table : obj.sectionOffset + obj.sections.length * obj.sectionSize ≤ obj.data.length
  several : 2 ≤ obj.sections.length
  numbered : obj.sections.length < 0xff00
  sections : ∀ s ∈ obj.sections, s.kind = 8 ∨ s.offset + s.size ≤ obj.data.length
  null : ∀ s, obj.sections[0]? = some s → s.size = 0
  symbols : obj.symbols ≠ []
  symbolTable : obj.symbolTable < obj.sections.length

theorem Image.row_inside {obj : Relocatable} {h : Header} {rows : List Row} {names table strings : Row}
    (himage : Image data obj h rows names table strings) :
    ∀ row ∈ rows, row.kind = 8 ∨ row.offset + row.size ≤ data.length := by
  intro row hrow
  obtain ⟨i, hi, rfl⟩ := List.mem_iff_getElem.mp hrow
  cases i with
  | zero =>
    rw [Option.some.inj ((List.getElem?_eq_getElem hi).symm.trans himage.null)]
    exact .inr (Nat.zero_le _)
  | succ i =>
    refine (himage.inside _ (List.mem_of_getElem? (i := i) ?_)).2.1
    rw [List.getElem?_tail, List.getElem?_eq_getElem hi]

theorem Image.bounded {obj : Relocatable} {h : Header} {rows : List Row} {names table strings : Row}
    (himage : Image data obj h rows names table strings) : obj.Bounded := by
  have hlength := himage.sections.length_eq
  have hheader := himage.header.length_le
  rw [calcsize_headerCodes] at hheader
  constructor
  case headerSize => exact himage.headerSize
  case sectionSize => exact himage.sectionSize
  case header => rwa [himage.headerSize, himage.bytes]
  case table =>
    rw [himage.sectionSize, himage.bytes, ← hlength]
    obtain ⟨n, hn⟩ : ∃ n, rows.length = n + 1 := ⟨rows.length - 1, by have := himage.several; omega⟩
    have hlast := (himage.stored n _ (List.getElem?_eq_getElem (by omega))).length_le
    rw [calcsize_sectionCodes] at hlast
    rw [hn, Nat.add_one_mul]
    omega
  case several => exact hlength ▸ himage.several
  case numbered => exact hlength ▸ himage.numbered
  case sections =>
    intro s hs
    obtain ⟨row, hrow, hname⟩ := exists_of_forall₂_right himage.sections hs
    rw [hname.2, himage.bytes]
    exact himage.row_inside row hrow
  case null =>
    intro s hs
    obtain ⟨hi, rfl⟩ := List.getElem?_eq_some_iff.mp hs
    have hname := himage.sections.get (hlength ▸ hi) hi
    rw [List.get_eq_getElem, List.get_eq_getElem] at hname
    rw [hname.2, Option.some.inj ((List.getElem?_eq_getElem _).symm.trans himage.null)]
  case symbols => exact himage.symbolTable.nonempty
  case symbolTable => exact hlength ▸ (List.getElem?_eq_some_iff.mp himage.symbolTable.tableRow).1

theorem bounded_of_parseRelocatable {model : Value} {obj : Relocatable}
    (h : parseRelocatable data model = .ok obj) : obj.Bounded ∧ obj.data = data := by
  obtain ⟨-, header, rows, names, table, strings, himage⟩ := parseRelocatable_eq_ok_iff.mp h
  exact ⟨himage.bounded, himage.bytes⟩

/-! ## Reading fails as the module says -/

theorem readHeader_returns (h : width.headerSize ≤ data.length) :
    ∃ header, readHeader width little data = .ok header := by
  rw [← calcsize_headerCodes] at h
  obtain ⟨values, hread⟩ := @exists_unpackFrom little data 16 width.headerCodes h
  have hlen : values.length = 13 := by
    rw [length_of_unpackFrom hread]
    cases width <;> rfl
  match values, hlen with
  | [kind, machine, version, entry, phoff, shoff, flags, ehsize, phentsize, phnum, shentsize, shnum,
      shstr], _ =>
    exact ⟨_, bind_eq_ok_iff.mpr ⟨_, orFail_eq_ok_iff.mpr hread, rfl⟩⟩

theorem readRow_returns (h : offset + width.sectionSize ≤ data.length) :
    ∃ row, readRow width little data offset = .ok row := by
  rw [← calcsize_sectionCodes] at h
  obtain ⟨values, hread⟩ := @exists_unpackFrom little data offset width.sectionCodes h
  have hlen : values.length = 10 := by
    rw [length_of_unpackFrom hread]
    cases width <;> rfl
  match values, hlen with
  | [name, kind, flags, address, offset, size, link, info, alignment, entrySize], _ =>
    exact ⟨_, bind_eq_ok_iff.mpr ⟨_, orFail_eq_ok_iff.mpr hread, rfl⟩⟩

theorem readSymbol_returns (h : offset + width.symbolSize ≤ data.length) :
    ∃ symbol, readSymbol width little data offset = .ok symbol := by
  rw [← calcsize_symbolCodes] at h
  obtain ⟨values, hread⟩ := @exists_unpackFrom little data offset width.symbolCodes h
  have hlen : values.length = 6 := by
    rw [length_of_unpackFrom hread]
    cases width <;> rfl
  cases width with
  | w32 =>
    match values, hlen with
    | [name, value, size, info, other, index], _ =>
      exact ⟨_, bind_eq_ok_iff.mpr ⟨_, orFail_eq_ok_iff.mpr hread, rfl⟩⟩
  | w64 =>
    match values, hlen with
    | [name, info, other, index, value, size], _ =>
      exact ⟨_, bind_eq_ok_iff.mpr ⟨_, orFail_eq_ok_iff.mpr hread, rfl⟩⟩

/-- The failure is an `ELFError`. -/
def IsElfError (e : Failure) : Prop := e.kind = .elfError

theorem fails_require {condition : Prop} [Decidable condition] {message : String} :
    Fails IsElfError (require condition message) := fails_ensure rfl

theorem fails_item {α : Type} {P : Failure → Prop} {items : List α} {index : ℕ} (h : index < items.length) :
    Fails P (item items index) :=
  fails_of_eq_ok (item_eq_ok_iff.mpr (List.getElem?_eq_getElem h))

theorem modelWidth_fails (model : Value) : Fails IsElfError (modelWidth model) := by
  unfold modelWidth
  split
  · split
    · exact fails_ok _ _
    · exact fails_ok _ _
    · exact fails_error rfl
  · exact fails_error rfl

theorem string_fails (table : Bytes) (offset : ℕ) : Fails IsElfError (string table offset) := by
  refine fails_require.bind fun _ _ => ?_
  split
  · exact fails_pure _ _
  · exact fails_error rfl

theorem rowBytes_fails {rows : List Row} {index : ℕ} (h : index < rows.length) :
    Fails IsElfError (rowBytes data rows index) :=
  (fails_item h).bind fun _ _ => fails_require.bind fun _ _ => fails_pure _ _

theorem linksStrings_fails (rows : List Row) (table : Row) (symbolSize : ℕ) :
    Fails IsElfError (linksStrings rows rows.length table symbolSize) := by
  unfold linksStrings
  split_ifs with h
  · exact (fails_item h.2.2.2.2).bind fun _ _ => fails_pure _ _
  · exact fails_pure _ _

/-- The table of symbols lies inside the file. -/
theorem symbols_inside {rows : List Row} {table : Row} {i : ℕ}
    (hnull : rows[0]? = some ⟨0, 0, 0, 0, 0, 0, 0, 0, 0, 0⟩)
    (hinside : ∀ row ∈ rows.tail, row.Inside data rows.length) (hrow : rows[i]? = some table)
    (hkind : table.kind ≠ 8) (hkind0 : table.kind ≠ 0) : table.offset + table.size ≤ data.length := by
  cases i with
  | zero => exact absurd (congrArg Row.kind (Option.some.inj (hrow.symm.trans hnull))) hkind0
  | succ i =>
    have hmem : table ∈ rows.tail := by
      refine List.mem_of_getElem? (i := i) ?_
      rw [List.getElem?_tail]
      exact hrow
    exact (hinside table hmem).2.1.resolve_left hkind

/-- **Reading an object raises nothing but `ELFError`**, whatever the bytes are. -/
theorem parseRelocatable_fails (data : Bytes) (model : Value) :
    Fails IsElfError (parseRelocatable data model) := by
  refine (modelWidth_fails model).bind fun ⟨width, little⟩ _ => ?_
  refine fails_require.bind fun _ hident => ?_
  rw [require_eq_ok_iff] at hident
  obtain ⟨h, hheader⟩ := @readHeader_returns width little data hident.1
  refine (fails_of_eq_ok hheader).bind fun h _ => ?_
  refine fails_require.bind fun _ hfixed => ?_
  rw [require_eq_ok_iff] at hfixed
  obtain ⟨-, -, -, -, -, -, -, -, hseveral, -, -, hindex, -, hend⟩ := hfixed
  have hrow : ∀ i ∈ List.range h.shnum, Fails IsElfError
      (readRow width little data (h.shoff + i * width.sectionSize)) := by
    intro i hi
    rw [List.mem_range] at hi
    have hle := Nat.mul_le_mul_right width.sectionSize (Nat.succ_le_of_lt hi)
    rw [Nat.succ_mul] at hle
    obtain ⟨row, hrow⟩ := @readRow_returns width little data (h.shoff + i * width.sectionSize) (by omega)
    exact fails_of_eq_ok hrow
  refine (fails_mapM hrow).bind fun rows hrows => ?_
  have hcount := (mapM_eq_ok_iff.mp hrows).length_eq
  rw [List.length_range] at hcount
  rw [hcount] at hseveral hindex ⊢
  refine (fails_item (by omega)).bind fun null hnull => fails_require.bind fun _ hzero => ?_
  rw [item_eq_ok_iff] at hnull
  rw [require_eq_ok_iff] at hzero
  refine (fails_forM fun _ _ => fails_require).bind fun _ hinside => ?_
  refine (fails_item hindex).bind fun nameRow _ => fails_require.bind fun _ _ => ?_
  refine (rowBytes_fails hindex).bind fun names _ => fails_require.bind fun _ _ => ?_
  refine (fails_mapM fun row _ => (string_fails names row.name).bind fun _ _ => fails_pure _ _).bind
    fun sections _ => fails_require.bind fun _ hsingle => ?_
  rw [require_eq_ok_iff] at hsingle
  refine (fails_item (by rw [hsingle]; decide)).bind fun symbolTable hsymbolTable => ?_
  rw [item_eq_ok_iff] at hsymbolTable
  have hmem := List.mem_filter.mp (List.mem_of_getElem? hsymbolTable)
  rw [List.mem_range] at hmem
  refine (fails_item hmem.1).bind fun table htable => ?_
  rw [item_eq_ok_iff] at htable
  refine (linksStrings_fails rows table _).bind fun linked hlinked => fails_require.bind fun _ hlink => ?_
  rw [require_eq_ok_iff] at hlink
  rw [hlink] at hlinked
  obtain ⟨⟨-, -, hmod, -, hbound⟩, -⟩ := linksStrings_eq_ok_true_iff.mp hlinked
  refine (rowBytes_fails hbound).bind fun strings _ => fails_require.bind fun _ _ => ?_
  have hkind : table.kind = 2 := by simpa [htable] using hmem.2
  have hend := symbols_inside (hzero ▸ hnull)
    (fun row hrow => checkRow_eq_ok_iff.mp (forM_eq_ok_iff.mp hinside row hrow)) htable (by omega) (by omega)
  rw [rangeStep_eq (symbolSize_pos width) hmod]
  refine (fails_mapM fun offset hoffset => ?_).bind fun _ _ => fails_pure _ _
  obtain ⟨k, hk, rfl⟩ := List.mem_range'.mp hoffset
  have hle := Nat.mul_le_mul_left width.symbolSize (Nat.succ_le_of_lt hk)
  rw [Nat.mul_succ, Nat.mul_div_cancel' (Nat.dvd_of_mod_eq_zero hmod)] at hle
  obtain ⟨symbol, hsymbol⟩ := @readSymbol_returns width little data (table.offset + width.symbolSize * k)
    (by omega)
  exact (fails_of_eq_ok hsymbol).bind fun _ _ => (string_fails strings _).bind fun _ _ => fails_pure _ _

end Reads

end Elf
end Fragma
