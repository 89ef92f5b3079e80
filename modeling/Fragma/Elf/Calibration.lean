import Fragma.Elf.Reader
import Fragma.Keyed.Intervals

/-!
# The calibration object

`calibration_object` of `fragma/elf.py` reads the object that one fixed file compiles to.  It bounds every
section, symbol and relocation, and finds the one definition.

* `completeTables`: every entry of every table, checked.
* `calibrationObject`: what is observed in an object.
* `Complete`, `Calibrated`: what an object is whose tables pass, and one that is observed.
* `calibrationObject_calibrated`, `calibrationObject_fails`: what an accepted object is, and how others
  fail.
-/

namespace Fragma
namespace Elf

open Python Python.Struct Keyed

/-! ## Metadata of single machines -/

/-- The bytes of an ASCII text. -/
def ascii (s : String) : Bytes := s.toList.map fun c => UInt8.ofNat c.toNat

/-- `bytes.decode("latin1")` -/
def latin1 (bs : Bytes) : String := String.ofList (bs.map fun b => Char.ofNat b.toNat)

/-- An integer of four bytes. -/
def word (little : Bool) (data : Bytes) (offset : ℕ) : Except Failure ℕ := do
  let values ← unpackFrom little [.i] data offset
  item values 0

/-- `_alpha_function_metadata` -/
def alphaFunctionMetadata (obj : Relocatable) (symbol : Symbol) : Except Failure Bool :=
  andAlso (obj.width.bits = 64 ∧ obj.little = true ∧ obj.machine = 0x9026) do
    let flags ← word true obj.data 48
    andAlso (flags = 0 ∧ (symbol.other = 0x80 ∨ symbol.other = 0x88) ∧
        (symbol.info = 0x02 ∨ symbol.info = 0x12) ∧ symbol.name ≠ [] ∧ 0 < symbol.size ∧ 0 < symbol.index ∧
        symbol.index < obj.sections.length) do
      let s ← item obj.sections symbol.index
      pure (decide (s.kind = 1 ∧ s.flags &&& 6 = 6 ∧ s.flags &&& 1 = 0 ∧ symbol.value + symbol.size ≤ s.size))

/-- `_header_flags` -/
def headerFlags (obj : Relocatable) : Except Failure ℕ :=
  word obj.little obj.data (if obj.width.bits = 32 then 36 else 48)

/-- The sections that MIPS metadata stands in. -/
def mipsKinds : List (Bytes × ℕ) :=
  [(ascii ".reginfo", 0x70000006), (ascii ".MIPS.abiflags", 0x7000002a), (ascii ".llvm_addrsig", 0x6fff4c03)]

/-- Everything of a section but its name and its kind. -/
structure Shape where
  flags : ℕ
  address : ℕ
  size : ℕ
  link : ℕ
  info : ℕ
  alignment : ℕ
  entrySize : ℕ
  deriving DecidableEq

def Section.shape (s : Section) : Shape :=
  ⟨s.flags, s.address, s.size, s.link, s.info, s.alignment, s.entrySize⟩

/-- The record of the metadata. -/
def mipsMetadata : Value :=
  .dict
    [("header_flags", .str "0x70001001"),
      ("sections", .list [.str ".reginfo", .str ".MIPS.abiflags", .str ".llvm_addrsig"]),
      ("reginfo", .dict [("gpr_mask", .str "0x80000001"),
        ("cpr_masks", .list [.int 0, .int 0, .int 0, .int 0]), ("gp_value", .str "0x00000000")]),
      ("abi_flags", .dict [("version", .int 0), ("isa_level", .int 32), ("isa_revision", .int 2),
        ("gpr_size_encoding", .int 1), ("cpr1_size_encoding", .int 0), ("cpr2_size_encoding", .int 0),
        ("fp_abi_encoding", .int 3), ("isa_extension", .int 0), ("ases", .int 0), ("flags1", .int 1),
        ("flags2", .int 0)]),
      ("scope", .str "Exact MIPS32el/O32 container metadata only; no instruction, linker or runtime proof")]

/-- The one section of a name and a kind. -/
def selectMips (obj : Relocatable) (p : Bytes × ℕ) : Except Failure Section :=
  match obj.sections.filter fun s => s.name = p.1 ∨ s.kind = p.2 with
  | [s] => do
    require (s.name = p.1 ∧ s.kind = p.2) "missing, duplicate or mismatched MIPS calibration metadata"
    pure s
  | _ => .error ⟨.elfError, "missing, duplicate or mismatched MIPS calibration metadata"⟩

/-- The integers that a section holds. -/
def sectionFields (obj : Relocatable) (codes : List Code) (s : Section) : Except Failure (List ℕ) := do
  let index ← orFail (obj.sections.idxOf? s) .valueError
  let content ← obj.sectionBytes index
  orFail (Struct.unpack true codes content) .structError

/-- `_mips_calibration_metadata` -/
def mipsCalibrationMetadata (obj : Relocatable) : Except Failure (Option Value) := do
  let marked := obj.sections.filter fun s => s.name ∈ mipsKinds.map Prod.fst ∨ s.kind ∈ mipsKinds.map Prod.snd
  let exactRoute ← andAlso (obj.width.bits = 32 ∧ obj.little = true ∧ obj.machine = 8) do
    let flags ← headerFlags obj
    pure (decide (flags = 0x70001001))
  if exactRoute = false then do
    require (marked = []) "MIPS calibration metadata outside exact MIPS32el/O32 route"
    pure none
  else do
    let selected ← mipsKinds.mapM (selectMips obj)
    require (marked.length = mipsKinds.length) "unexpected extra MIPS calibration metadata"
    let reginfo ← item selected 0
    require (reginfo.shape = ⟨2, 0, 24, 0, 0, 4, 24⟩) "unexpected MIPS reginfo section shape"
    let registers ← sectionFields obj [.i, .i, .i, .i, .i, .i] reginfo
    require (registers = [0x80000001, 0, 0, 0, 0, 0]) "unexpected MIPS reginfo contents"
    let abi ← item selected 1
    require (abi.shape = ⟨2, 0, 24, 0, 0, 8, 24⟩) "unexpected MIPS ABI-flags section shape"
    let abiFields ← sectionFields obj [.h, .b, .b, .b, .b, .b, .b, .i, .i, .i, .i] abi
    require (abiFields = [0, 32, 2, 1, 0, 0, 3, 0, 0, 1, 0]) "unexpected MIPS ABI-flags contents"
    let addrsig ← item selected 2
    require (addrsig.shape = ⟨0x80000000, 0, 0, obj.symbolTable, 0, 1, 0⟩)
      "unexpected LLVM address-significance section shape"
    pure (some mipsMetadata)

/-! ## Complete tables -/

/-- A relocation: the section it stands in, the one it is for, where, and what. -/
structure Relocation where
  table : ℕ
  target : ℕ
  address : ℕ
  symbol : ℕ
  kind : ℕ
  deriving DecidableEq

/-- The kinds of sections that the object may have. -/
def kindSupported (obj : Relocatable) (mips : Option Value) (kind : ℕ) : Prop :=
  kind ∈ [1, 2, 3, 4, 7, 8, 9] ∨ obj.machine = 40 ∧ kind ∈ [0x70000001, 0x70000003] ∨
    mips.isSome = true ∧ kind ∈ [0x6fff4c03, 0x70000006, 0x7000002a]

instance decidableKindSupported (obj : Relocatable) (mips : Option Value) (kind : ℕ) :
    Decidable (kindSupported obj mips kind) :=
  inferInstanceAs (Decidable (_ ∨ _))

/-- The bytes that a section takes of the file. -/
def Section.stored (s : Section) : List (ℕ × ℕ) :=
  if s.kind ≠ 8 ∧ s.size ≠ 0 then [(s.offset, s.offset + s.size)] else []

/-- The contents of a string table. -/
def checkStrings (obj : Relocatable) (s : Section) (index : ℕ) : Except Failure Unit :=
  if s.kind = 3 then do
    let content ← obj.sectionBytes index
    require ([0] <+: content ∧ [0] <:+ content) "invalid complete ELF string table"
  else pure ()

/-- The link of an index of exceptions. -/
def checkIndex (obj : Relocatable) (s : Section) : Except Failure Unit :=
  if s.kind = 0x70000001 then do
    let linked ← andAlso (s.name = ascii ".ARM.exidx" ∧ s.flags = 0x82 ∧ s.info = 0 ∧ 0 < s.link ∧
        s.link < obj.sections.length) do
      let code ← item obj.sections s.link
      pure (decide (code.kind = 1 ∧ code.flags &&& 6 = 6))
    require (linked = true) "unexpected ARM exception-index metadata"
  else pure ()

/-- The turn of a section; what it takes of the file. -/
def checkSection (obj : Relocatable) (mips : Option Value) (p : Section × ℕ) :
    Except Failure (List (ℕ × ℕ)) := do
  let (s, index) := p
  require (kindSupported obj mips s.kind) "unsupported calibration ELF section kind"
  require (s.address = 0 ∧ s.flags &&& (0x200 ||| 0x400 ||| 0x800) = 0)
    "unsupported calibration ELF section address/group/TLS/compression"
  require (s.alignment = 0 ∨ s.offset % s.alignment = 0) "misaligned calibration ELF section"
  checkStrings obj s index
  require (s.kind ∈ [1, 3, 7, 8, 0x70000003] → s.link = s.info ∧ s.info = 0)
    "unexpected calibration ELF section link/info"
  checkIndex obj s
  pure s.stored

/-- The binding of a symbol. -/
def Symbol.binding (symbol : Symbol) : ℕ := symbol.info >>> 4

/-- The kind of a symbol. -/
def Symbol.kind (symbol : Symbol) : ℕ := symbol.info &&& 15

/-- The type, the binding and the order of a symbol. -/
def symbolTyped (obj : Relocatable) (firstGlobal : ℕ) (symbol : Symbol) (index : ℕ) : Except Failure Bool :=
  andAlso ((symbol.binding = 0 ∨ symbol.binding = 1 ∨ symbol.binding = 2) ∧ symbol.kind < 7) do
    let known ← orElse (symbol.other < 4) (alphaFunctionMetadata obj symbol)
    pure (known && decide (symbol.binding = 0 ↔ index < firstGlobal))

/-- The section and the extent of a symbol. -/
def checkPlace (obj : Relocatable) (symbol : Symbol) : Except Failure Unit :=
  if symbol.index = 0 then
    require (symbol.value = symbol.size ∧ symbol.size = 0) "undefined ELF symbol has a value/extent"
  else if symbol.index = 0xfff1 then
    require (symbol.kind = 4 ∧ symbol.binding = 0 ∧ symbol.value = symbol.size ∧ symbol.size = 0)
      "unsupported absolute ELF symbol"
  else do
    require (0 < symbol.index ∧ symbol.index < obj.sections.length)
      "unsupported/out-of-range ELF symbol section"
    let s ← item obj.sections symbol.index
    require (symbol.value + symbol.size ≤ s.size) "ELF symbol extent exceeds its section"

/-- The turn of a symbol. -/
def checkSymbol (obj : Relocatable) (firstGlobal : ℕ) (p : Symbol × ℕ) : Except Failure Unit := do
  let (symbol, index) := p
  let typed ← symbolTyped obj firstGlobal symbol index
  require (typed = true) "invalid ELF symbol type/binding/order"
  checkPlace obj symbol
  require (symbol.kind = 3 → symbol.binding = 0 ∧ 0 < symbol.index ∧ symbol.index < obj.sections.length ∧
    symbol.value = symbol.size ∧ symbol.size = 0) "invalid ELF section symbol"
  require (symbol.kind = 4 → symbol.index = 0xfff1) "invalid ELF file symbol"

/-- The size of an entry of a relocation table. -/
def entrySize (width : Width) (kind : ℕ) : ℕ :=
  match width with
  | .w32 => if kind = 4 then 12 else 8
  | .w64 => if kind = 4 then 24 else 16

/-- What every entry of a relocation table begins with. -/
def relocationCodes : Width → List Code
  | .w32 => [.i, .i]
  | .w64 => [.q, .q]

/-- The symbol that an entry names. -/
def relocationSymbol (width : Width) (info : ℕ) : ℕ := info >>> (if width.bits = 32 then 8 else 32)

/-- The kind that an entry names. -/
def relocationKind (width : Width) (info : ℕ) : ℕ :=
  info &&& (if width.bits = 32 then 0xff else 0xffffffff)

/-- An entry of a relocation table. -/
def readRelocation (obj : Relocatable) (index : ℕ) (s target : Section) (offset : ℕ) :
    Except Failure Relocation := do
  match ← unpackFrom obj.little (relocationCodes obj.width) obj.data offset with
  | [address, info] =>
    require (relocationSymbol obj.width info < obj.symbols.length ∧ address < target.size)
      "ELF relocation symbol/offset is out of bounds"
    pure ⟨index, s.info, address, relocationSymbol obj.width info, relocationKind obj.width info⟩
  | _ => .error ⟨.valueError, ""⟩

/-- The turn of a section in the second loop; its relocations. -/
def sectionRelocations (obj : Relocatable) (p : Section × ℕ) : Except Failure (List Relocation) := do
  let (s, index) := p
  if s.kind = 4 ∨ s.kind = 9 then do
    require (s.link = obj.symbolTable ∧ 0 < s.info ∧ s.info < obj.sections.length ∧
      s.entrySize = entrySize obj.width s.kind ∧ s.size % entrySize obj.width s.kind = 0)
      "invalid ELF relocation table/link/entry bounds"
    let target ← item obj.sections s.info
    require (target.flags &&& 4 = 0) "calibration executable section has relocations"
    (rangeStep s.offset (s.offset + s.size) (entrySize obj.width s.kind)).mapM
      (readRelocation obj index s target)
  else pure []

/-- The header and the section table. -/
def tableRanges (obj : Relocatable) : List (ℕ × ℕ) :=
  [(0, obj.headerSize), (obj.sectionOffset, obj.sectionOffset + obj.sections.length * obj.sectionSize)]

/-- `_complete_tables(obj)` -/
def completeTables (obj : Relocatable) : Except Failure (List Relocation × Option Value) := do
  let mips ← mipsCalibrationMetadata obj
  let stored ← obj.sections.zipIdx.tail.mapM (checkSection obj mips)
  require (Apart (tableRanges obj ++ stored.flatten)) "overlapping ELF headers/sections"
  let null ← item obj.symbols 0
  require (null = ⟨[], 0, 0, 0, 0, 0⟩) "invalid ELF null symbol"
  let table ← item obj.sections obj.symbolTable
  require (0 < table.info ∧ table.info ≤ obj.symbols.length) "invalid ELF local/global symbol boundary"
  obj.symbols.zipIdx.forM (checkSymbol obj table.info)
  let relocations ← obj.sections.zipIdx.mapM (sectionRelocations obj)
  pure (relocations.flatten, mips)

/-! ## What is observed -/

/-- What is said of an undefined symbol. -/
structure Undefined where
  name : String
  references : ℕ

/-- What is said of a symbol with Alpha metadata. -/
structure AlphaSymbol where
  name : String
  other : ℕ
  meaning : String
  binding : String
  sectionIndex : ℕ

/-- The one definition. -/
structure Definition where
  sectionName : String
  sectionIndex : ℕ
  sectionFlags : ℕ
  offset : ℕ
  size : ℕ
  bytesSha256 : String

/-- What `calibration_object` returns. -/
structure Calibration where
  bits : ℕ
  byteOrder : String
  machine : ℕ
  sectionCount : ℕ
  symbolCount : ℕ
  relocationCount : ℕ
  definition : Definition
  undefined : List Undefined
  alpha : List AlphaSymbol
  mips : Option Value

def calibrationName : Bytes := ascii "fragma_common24_compiler_calibration"

def unwindName : Bytes := ascii "__aeabi_unwind_cpp_pr0"

/-- The byte order's name. -/
def byteOrder (little : Bool) : String := if little then "little" else "big"

/-- Whether the observation of the fixture has the class, the byte order and the machine. -/
def fixtureAgrees (obj : Relocatable) (fixture : Value) : Bool :=
  match fixture with
  | .dict entries =>
    match Value.get entries "class", Value.get entries "machine_observed" with
    | .int bits, .int machine =>
      decide (0 < machine ∧ machine ≤ 0xffff) && Value.eq (Value.get entries "type") (.str "relocatable") &&
        decide (bits = obj.width.bits) &&
        Value.eq (Value.get entries "byte_order") (.str (byteOrder obj.little)) &&
        decide (machine = obj.machine)
    | _, _ => false
  | _ => false

/-- Whether a reference stands in the index of exceptions of a section. -/
def metadataUse (obj : Relocatable) (code : ℕ) (row : Relocation) : Except Failure Bool := do
  let table ← item obj.sections row.table
  andAlso (table.kind = 9) do
    let target ← item obj.sections row.target
    pure (decide (target.kind = 0x70000001 ∧ target.link = code ∧ target.size = 8 ∧ row.address = row.kind ∧
      row.kind = 0))

/-- The turn of a symbol in the loop over the undefined ones. -/
def checkUndefined (obj : Relocatable) (relocations : List Relocation) (code : ℕ) (undefined : List Undefined)
    (p : Symbol × ℕ) : Except Failure (List Undefined) :=
  if p.1.index ≠ 0 then pure undefined
  else do
    let references := relocations.filter fun row => row.symbol = p.2
    let marker ← andAlso (obj.width.bits = 32 ∧ obj.machine = 40 ∧ p.1.name = unwindName ∧
      p.1.info = 0x10 ∧ p.1.other = 0 ∧ references.length = 1) (references.allM (metadataUse obj code))
    require (marker = true) "unexpected undefined calibration symbol or non-metadata use"
    require (undefined = []) "duplicate ARM unwind metadata symbol"
    pure (undefined ++ [⟨latin1 p.1.name, references.length⟩])

/-- Whether a symbol is a global function that is defined and not empty. -/
def isDefinition (obj : Relocatable) (symbol : Symbol) : Except Failure Bool :=
  andAlso (symbol.info = 0x12) do
    let plain ← orElse (symbol.other = 0) (alphaFunctionMetadata obj symbol)
    pure (plain && decide (0 < symbol.size ∧ 0 < symbol.index ∧ symbol.index < obj.sections.length))

/-- What is said of a symbol whose metadata is Alpha's. -/
def alphaSymbol (obj : Relocatable) (symbol : Symbol) : Except Failure (List AlphaSymbol) := do
  if (← alphaFunctionMetadata obj symbol) = true then
    pure [⟨latin1 symbol.name, symbol.other,
      if symbol.other = 0x80 then "STO_ALPHA_NOPV" else "STO_ALPHA_STD_GPLOAD",
      if symbol.binding = 0 then "local" else "global", symbol.index⟩]
  else pure []

/-- `calibration_object(data, model, fixture_observation)` -/
def calibrationObject (sha256 : Bytes → String) (data : Bytes) (model fixture : Value) :
    Except Failure Calibration := do
  let obj ← parseRelocatable data model
  require (fixtureAgrees obj fixture = true)
    "positive object differs from genuine fixture class/byte-order/machine"
  let (relocations, mips) ← completeTables obj
  let named := obj.symbols.filter fun symbol => symbol.name = calibrationName
  require (named.length = 1) "missing or duplicate calibration definition"
  let symbol ← item named 0
  let defined ← isDefinition obj symbol
  require (defined = true) "calibration must be a global defined nonempty STT_FUNC"
  let s ← item obj.sections symbol.index
  require (s.kind = 1 ∧ s.flags &&& 6 = 6 ∧ s.flags &&& 1 = 0)
    "calibration definition lacks allocated executable file-backed storage"
  let undefined ← obj.symbols.zipIdx.tail.foldlM (checkUndefined obj relocations symbol.index) []
  let content ← obj.sectionBytes symbol.index
  let alpha ← obj.symbols.mapM (alphaSymbol obj)
  pure
    { bits := obj.width.bits
      byteOrder := byteOrder obj.little
      machine := obj.machine
      sectionCount := obj.sections.length
      symbolCount := obj.symbols.length
      relocationCount := relocations.length
      definition :=
        { sectionName := latin1 s.name
          sectionIndex := symbol.index
          sectionFlags := s.flags
          offset := symbol.value
          size := symbol.size
          bytesSha256 := sha256 (slice content symbol.value symbol.size) }
      undefined
      alpha := alpha.flatten
      mips }

/-! ## What complete tables say -/

/-- The header, the section table, and what the sections take of the file. -/
def fileRanges (obj : Relocatable) : List (ℕ × ℕ) := tableRanges obj ++ obj.sections.flatMap Section.stored

/-- A relocation is an entry of a table. -/
def RelocationAt (obj : Relocatable) (index : ℕ) (s : Section) (k : ℕ) (r : Relocation) : Prop :=
  r.table = index ∧ r.target = s.info ∧ ∃ info, r.symbol = relocationSymbol obj.width info ∧
    r.kind = relocationKind obj.width info ∧ Stored obj.little (relocationCodes obj.width) [r.address, info]
      obj.data (s.offset + k * entrySize obj.width s.kind)

/-- A relocation's symbol and its place exist, and the place is not in code. -/
def Relocation.Bounded (obj : Relocatable) (r : Relocation) : Prop :=
  r.symbol < obj.symbols.length ∧
    ∃ target, obj.sections[r.target]? = some target ∧ r.address < target.size ∧ target.flags &&& 4 = 0

/-- A symbol has its extent in a section, or it has none. -/
def Symbol.Placed (obj : Relocatable) (symbol : Symbol) : Prop :=
  (symbol.index = 0 ∨ symbol.index = 0xfff1) ∧ symbol.value = 0 ∧ symbol.size = 0 ∨
    ∃ s, obj.sections[symbol.index]? = some s ∧ symbol.value + symbol.size ≤ s.size

/-- The tables of an object are consistent. -/
structure Complete (obj : Relocatable) (relocations : List Relocation) : Prop where
  inside : ∀ r ∈ fileRanges obj, r.2 ≤ obj.data.length
  disjoint : (fileRanges obj).Pairwise fun a b => Disjoint (Set.Ico a.1 a.2) (Set.Ico b.1 b.2)
  placed : ∀ symbol ∈ obj.symbols, symbol.Placed obj
  boundary : ∃ table, obj.sections[obj.symbolTable]? = some table ∧ table.info ≤ obj.symbols.length ∧
    ∀ i symbol, obj.symbols[i]? = some symbol → (symbol.binding = 0 ↔ i < table.info)
  bounded : ∀ r ∈ relocations, r.Bounded obj
  entries : ∀ r ∈ relocations, ∃ i s k, obj.sections[i]? = some s ∧ (s.kind = 4 ∨ s.kind = 9) ∧
    k < s.size / entrySize obj.width s.kind ∧ RelocationAt obj i s k r
  every : ∀ i s k, obj.sections[i]? = some s → s.kind = 4 ∨ s.kind = 9 →
    k < s.size / entrySize obj.width s.kind → ∃ r ∈ relocations, RelocationAt obj i s k r

section Complete

variable {obj : Relocatable} {mips : Option Value}

theorem checkSection_eq_ok {p : Section × ℕ} {ranges : List (ℕ × ℕ)}
    (h : checkSection obj mips p = .ok ranges) : ranges = p.1.stored := by
  obtain ⟨_, -, h⟩ := bind_eq_ok_iff.mp h
  obtain ⟨_, -, h⟩ := bind_eq_ok_iff.mp h
  obtain ⟨_, -, h⟩ := bind_eq_ok_iff.mp h
  obtain ⟨_, -, h⟩ := bind_eq_ok_iff.mp h
  obtain ⟨_, -, h⟩ := bind_eq_ok_iff.mp h
  obtain ⟨_, -, h⟩ := bind_eq_ok_iff.mp h
  exact (Except.ok.inj h).symm

theorem entrySize_pos (width : Width) (kind : ℕ) : 0 < entrySize width kind := by
  cases width with
  | w32 => simp only [entrySize]; split_ifs <;> decide
  | w64 => simp only [entrySize]; split_ifs <;> decide

theorem readRelocation_eq_ok {index : ℕ} {s target : Section} {offset : ℕ} {r : Relocation}
    (h : readRelocation obj index s target offset = .ok r) :
    r.table = index ∧ r.target = s.info ∧ r.symbol < obj.symbols.length ∧ r.address < target.size ∧
      ∃ info, r.symbol = relocationSymbol obj.width info ∧ r.kind = relocationKind obj.width info ∧
        Stored obj.little (relocationCodes obj.width) [r.address, info] obj.data offset := by
  obtain ⟨values, hread, h⟩ := bind_eq_ok_iff.mp h
  rw [unpackFrom_eq_ok_iff] at hread
  split at h
  · obtain ⟨_, hbounds, h⟩ := bind_eq_ok_iff.mp h
    rw [require_eq_ok_iff] at hbounds
    rw [← Except.ok.inj h]
    exact ⟨rfl, rfl, hbounds.1, hbounds.2, _, rfl, rfl, hread⟩
  · exact absurd h (by simp)

/-- The relocations of a section. -/
theorem sectionRelocations_eq_ok {s : Section} {index : ℕ} {relocations : List Relocation}
    (h : sectionRelocations obj (s, index) = .ok relocations) :
    if s.kind = 4 ∨ s.kind = 9 then
      ∃ target, obj.sections[s.info]? = some target ∧ target.flags &&& 4 = 0 ∧
        relocations.length = s.size / entrySize obj.width s.kind ∧
        ∀ k r, relocations[k]? = some r → RelocationAt obj index s k r ∧ r.symbol < obj.symbols.length ∧
          r.address < target.size
    else relocations = [] := by
  rw [sectionRelocations] at h
  split_ifs at h ⊢ with hkind
  · obtain ⟨_, hbounds, h⟩ := bind_eq_ok_iff.mp h
    obtain ⟨target, htarget, h⟩ := bind_eq_ok_iff.mp h
    obtain ⟨_, hexec, h⟩ := bind_eq_ok_iff.mp h
    rw [require_eq_ok_iff] at hbounds hexec
    rw [item_eq_ok_iff] at htarget
    rw [rangeStep_eq (entrySize_pos _ _) hbounds.2.2.2.2, mapM_eq_ok_iff, forall₂_range'_iff] at h
    refine ⟨target, htarget, hexec, h.1, fun k r hr => ?_⟩
    obtain ⟨htable, hinfo, hsymbol, haddress, hstored⟩ := readRelocation_eq_ok (h.2 k r hr)
    rw [Nat.mul_comm] at hstored
    exact ⟨⟨htable, hinfo, hstored⟩, hsymbol, haddress⟩
  · exact (Except.ok.inj h).symm

theorem checkPlace_eq_ok {symbol : Symbol} {u : Unit} (h : checkPlace obj symbol = .ok u) :
    symbol.Placed obj := by
  rw [checkPlace] at h
  split_ifs at h with hzero habs
  · rw [require_eq_ok_iff] at h
    exact .inl ⟨.inl hzero, h.1.trans h.2, h.2⟩
  · rw [require_eq_ok_iff] at h
    exact .inl ⟨.inr habs, h.2.2.1.trans h.2.2.2, h.2.2.2⟩
  · obtain ⟨_, -, h⟩ := bind_eq_ok_iff.mp h
    obtain ⟨s, hs, hextent⟩ := bind_eq_ok_iff.mp h
    exact .inr ⟨s, item_eq_ok_iff.mp hs, require_eq_ok_iff.mp hextent⟩

theorem symbolTyped_eq_ok_true {firstGlobal : ℕ} {symbol : Symbol} {index : ℕ}
    (h : symbolTyped obj firstGlobal symbol index = .ok true) :
    symbol.binding = 0 ↔ index < firstGlobal := by
  obtain ⟨-, h⟩ := andAlso_eq_ok_true_iff.mp h
  obtain ⟨known, -, horder⟩ := bind_eq_ok_iff.mp h
  have horder := Except.ok.inj horder
  rw [Bool.and_eq_true, decide_eq_true_eq] at horder
  exact horder.2

/-- What the turn of a symbol says of it. -/
theorem checkSymbol_eq_ok {firstGlobal : ℕ} {symbol : Symbol} {index : ℕ} {u : Unit}
    (h : checkSymbol obj firstGlobal (symbol, index) = .ok u) :
    (symbol.binding = 0 ↔ index < firstGlobal) ∧ symbol.Placed obj := by
  obtain ⟨typed, htyped, h⟩ := bind_eq_ok_iff.mp h
  obtain ⟨_, hrequire, h⟩ := bind_eq_ok_iff.mp h
  obtain ⟨_, hplace, -⟩ := bind_eq_ok_iff.mp h
  rw [require_eq_ok_iff] at hrequire
  exact ⟨symbolTyped_eq_ok_true (hrequire ▸ htyped), checkPlace_eq_ok hplace⟩

theorem mem_stored_iff {s : Section} {r : ℕ × ℕ} :
    r ∈ s.stored ↔ s.kind ≠ 8 ∧ s.size ≠ 0 ∧ r = (s.offset, s.offset + s.size) := by
  rw [Section.stored]
  split_ifs with h
  · simp [h]
  · simp only [List.not_mem_nil, false_iff]
    exact fun hr => h ⟨hr.1, hr.2.1⟩

/-- No range of the file is empty. -/
theorem fileRanges_lt (hobj : obj.Bounded) : ∀ r ∈ fileRanges obj, r.1 < r.2 := by
  intro r hr
  rcases List.mem_append.mp hr with hr | hr
  · have hsize : 0 < obj.headerSize := by
      rw [hobj.headerSize]
      cases obj.width <;> decide
    have hrow : 0 < obj.sectionSize := by
      rw [hobj.sectionSize]
      cases obj.width <;> decide
    have hmany := hobj.several
    have htable : 0 < obj.sections.length * obj.sectionSize := Nat.mul_pos (by omega) hrow
    simp only [tableRanges, List.mem_cons, List.not_mem_nil, or_false] at hr
    rcases hr with rfl | rfl
    · exact hsize
    · exact Nat.lt_add_of_pos_right htable
  · obtain ⟨s, -, hr⟩ := List.mem_flatMap.mp hr
    obtain ⟨-, hne, rfl⟩ := mem_stored_iff.mp hr
    exact Nat.lt_add_of_pos_right (Nat.pos_of_ne_zero hne)

/-- Every range lies inside the file. -/
theorem fileRanges_le (hobj : obj.Bounded) : ∀ r ∈ fileRanges obj, r.2 ≤ obj.data.length := by
  intro r hr
  rcases List.mem_append.mp hr with hr | hr
  · simp only [tableRanges, List.mem_cons, List.not_mem_nil, or_false] at hr
    rcases hr with rfl | rfl
    · exact hobj.header
    · exact hobj.table
  · obtain ⟨s, hs, hr⟩ := List.mem_flatMap.mp hr
    obtain ⟨hkind, -, rfl⟩ := mem_stored_iff.mp hr
    exact (hobj.sections s hs).resolve_left hkind

/-- What the loop over the sections collects is what all sections take of the file. -/
theorem flatten_stored (hobj : obj.Bounded) {stored : List (List (ℕ × ℕ))}
    (h : obj.sections.zipIdx.tail.mapM (checkSection obj mips) = .ok stored) :
    stored.flatten = obj.sections.flatMap Section.stored := by
  rw [mapM_eq_ok_iff] at h
  have hmap := map_eq_map_of_forall₂ (f := Section.stored ∘ Prod.fst) (g := id)
    (h.imp fun p ranges hp => (checkSection_eq_ok hp).symm)
  rw [List.map_id, ← List.map_map, List.map_tail, List.zipIdx_map_fst] at hmap
  obtain ⟨null, rest, hsplit⟩ : ∃ null rest, obj.sections = null :: rest :=
    List.exists_cons_of_ne_nil (List.ne_nil_of_length_pos (Nat.lt_of_lt_of_le (by decide) hobj.several))
  have hnone : null.stored = [] :=
    if_neg fun h => h.2 (hobj.null null (by rw [hsplit]; rfl))
  rw [← hmap, hsplit, List.tail_cons, List.flatMap_cons, hnone, List.nil_append, List.flatMap]

/-- **Tables that pass the check are consistent.** -/
theorem complete_of_completeTables (hobj : obj.Bounded) {relocations : List Relocation}
    (h : completeTables obj = .ok (relocations, mips)) : Complete obj relocations := by
  obtain ⟨mips', -, h⟩ := bind_eq_ok_iff.mp h
  obtain ⟨stored, hstored, h⟩ := bind_eq_ok_iff.mp h
  obtain ⟨_, hapart, h⟩ := bind_eq_ok_iff.mp h
  obtain ⟨null, -, h⟩ := bind_eq_ok_iff.mp h
  obtain ⟨_, -, h⟩ := bind_eq_ok_iff.mp h
  obtain ⟨table, htable, h⟩ := bind_eq_ok_iff.mp h
  obtain ⟨_, hboundary, h⟩ := bind_eq_ok_iff.mp h
  obtain ⟨_, hsymbols, h⟩ := bind_eq_ok_iff.mp h
  obtain ⟨each, heach, h⟩ := bind_eq_ok_iff.mp h
  rw [require_eq_ok_iff] at hapart hboundary
  rw [item_eq_ok_iff] at htable
  rw [flatten_stored hobj hstored] at hapart
  have hsymbol : ∀ i symbol, obj.symbols[i]? = some symbol →
      checkSymbol obj table.info (symbol, i) = .ok () := fun i symbol hi =>
    forM_eq_ok_iff.mp hsymbols (symbol, i) (List.mem_zipIdx_iff_getElem?.mpr hi)
  rw [mapM_eq_ok_iff] at heach
  obtain ⟨rfl, -⟩ := Prod.mk.inj (Except.ok.inj h)
  constructor
  case inside => exact fileRanges_le hobj
  case disjoint => exact (apart_iff_pairwise_disjoint (fileRanges_lt hobj)).mp hapart
  case placed =>
    intro symbol hmem
    obtain ⟨i, hi⟩ := List.mem_iff_getElem?.mp hmem
    exact (checkSymbol_eq_ok (hsymbol i symbol hi)).2
  case boundary =>
    exact ⟨table, htable, hboundary.2, fun i symbol hi => (checkSymbol_eq_ok (hsymbol i symbol hi)).1⟩
  case bounded =>
    intro r hr
    obtain ⟨rs, hrs, hr⟩ := List.mem_flatten.mp hr
    obtain ⟨⟨s, i⟩, -, hread⟩ := exists_of_forall₂_right heach hrs
    have hall := sectionRelocations_eq_ok hread
    split_ifs at hall with hkind
    · obtain ⟨target, htarget, hexec, -, hall⟩ := hall
      obtain ⟨k, hk⟩ := List.mem_iff_getElem?.mp hr
      obtain ⟨hat, hsymbol, haddress⟩ := hall k r hk
      exact ⟨hsymbol, target, hat.2.1 ▸ htarget, haddress, hexec⟩
    · rw [hall] at hr
      exact absurd hr List.not_mem_nil
  case entries =>
    intro r hr
    obtain ⟨rs, hrs, hr⟩ := List.mem_flatten.mp hr
    obtain ⟨⟨s, i⟩, hi, hread⟩ := exists_of_forall₂_right heach hrs
    have hall := sectionRelocations_eq_ok hread
    split_ifs at hall with hkind
    · obtain ⟨target, -, -, hlength, hall⟩ := hall
      obtain ⟨k, hk⟩ := List.mem_iff_getElem?.mp hr
      exact ⟨i, s, k, List.mem_zipIdx_iff_getElem?.mp hi, hkind,
        hlength ▸ (List.getElem?_eq_some_iff.mp hk).1, (hall k r hk).1⟩
    · rw [hall] at hr
      exact absurd hr List.not_mem_nil
  case every =>
    intro i s k hi hkind hk
    obtain ⟨rs, hrs, hread⟩ := exists_of_forall₂_left heach
      (a := (s, i)) (List.mem_zipIdx_iff_getElem?.mpr hi)
    have hall := sectionRelocations_eq_ok hread
    rw [if_pos hkind] at hall
    obtain ⟨target, -, -, hlength, hall⟩ := hall
    have hr := List.getElem?_eq_getElem (hlength ▸ hk : k < rs.length)
    exact ⟨_, List.mem_flatten.mpr ⟨rs, hrs, List.getElem_mem _⟩, (hall k _ hr).1⟩

end Complete

/-! ## What an observed object is -/

/-- The one reference of a symbol, from the index of exceptions of a section. -/
def Unwinds (obj : Relocatable) (relocations : List Relocation) (code index : ℕ) : Prop :=
  ∃ row table target, relocations.filter (fun row => row.symbol = index) = [row] ∧
    obj.sections[row.table]? = some table ∧ table.kind = 9 ∧
    obj.sections[row.target]? = some target ∧ target.kind = 0x70000001 ∧ target.link = code ∧
    target.size = 8 ∧ row.address = 0 ∧ row.kind = 0

/-- The object is what the observation says: one definition of code in an object whose tables are
consistent, and nothing undefined but the marker of the ARM unwinder. -/
structure Calibrated (sha256 : Bytes → String) (obj : Relocatable) (relocations : List Relocation)
    (symbol : Symbol) (code : Section) (observed : Calibration) : Prop where
  complete : Complete obj relocations
  unique : obj.symbols.filter (fun symbol => symbol.name = calibrationName) = [symbol]
  global : symbol.binding = 1 ∧ symbol.kind = 2
  codeSection : obj.sections[symbol.index]? = some code
  executable : code.kind = 1 ∧ code.flags &&& 6 = 6 ∧ code.flags &&& 1 = 0
  nonempty : 0 < symbol.size
  extent : symbol.value + symbol.size ≤ code.size
  inside : code.offset + symbol.value + symbol.size ≤ obj.data.length
  unpatched : ∀ r ∈ relocations, r.target ≠ symbol.index
  definition : observed.definition =
    ⟨latin1 code.name, symbol.index, code.flags, symbol.value, symbol.size,
      sha256 (slice obj.data (code.offset + symbol.value) symbol.size)⟩
  undefined : ∀ i u, 0 < i → obj.symbols[i]? = some u → u.index = 0 →
    obj.width = .w32 ∧ obj.machine = 40 ∧ u.name = unwindName ∧ Unwinds obj relocations symbol.index i
  single : ∀ i j u v, 0 < i → 0 < j → obj.symbols[i]? = some u → obj.symbols[j]? = some v → u.index = 0 →
    v.index = 0 → i = j
  counts : observed.bits = obj.width.bits ∧ observed.byteOrder = byteOrder obj.little ∧
    observed.machine = obj.machine ∧ observed.sectionCount = obj.sections.length ∧
    observed.symbolCount = obj.symbols.length ∧ observed.relocationCount = relocations.length

section Calibrated

variable {obj : Relocatable} {relocations : List Relocation} {code : ℕ}

theorem isDefinition_eq_ok_true {symbol : Symbol} (h : isDefinition obj symbol = .ok true) :
    symbol.info = 0x12 ∧ 0 < symbol.size ∧ 0 < symbol.index ∧ symbol.index < obj.sections.length := by
  obtain ⟨hinfo, h⟩ := andAlso_eq_ok_true_iff.mp h
  obtain ⟨plain, -, hplain⟩ := bind_eq_ok_iff.mp h
  have hplain := Except.ok.inj hplain
  rw [Bool.and_eq_true, decide_eq_true_eq] at hplain
  exact ⟨hinfo, hplain.2⟩

theorem metadataUse_eq_ok_true {row : Relocation} (h : metadataUse obj code row = .ok true) :
    ∃ table target, obj.sections[row.table]? = some table ∧ table.kind = 9 ∧
      obj.sections[row.target]? = some target ∧ target.kind = 0x70000001 ∧ target.link = code ∧
      target.size = 8 ∧ row.address = 0 ∧ row.kind = 0 := by
  obtain ⟨table, htable, h⟩ := bind_eq_ok_iff.mp h
  obtain ⟨hkind, h⟩ := andAlso_eq_ok_true_iff.mp h
  obtain ⟨target, htarget, h⟩ := bind_eq_ok_iff.mp h
  rw [item_eq_ok_iff] at htable htarget
  obtain ⟨hk, hl, hs, ha, hz⟩ := of_decide_eq_true (Except.ok.inj h)
  exact ⟨table, target, htable, hkind, htarget, hk, hl, hs, ha.trans hz, hz⟩

/-- The turn of a defined symbol, and of an undefined one. -/
theorem checkUndefined_eq_ok {undefined next : List Undefined} {symbol : Symbol} {index : ℕ}
    (h : checkUndefined obj relocations code undefined (symbol, index) = .ok next) :
    symbol.index ≠ 0 ∧ next = undefined ∨
      symbol.index = 0 ∧ undefined = [] ∧ next ≠ [] ∧ obj.width = .w32 ∧ obj.machine = 40 ∧
        symbol.name = unwindName ∧ Unwinds obj relocations code index := by
  rw [checkUndefined] at h
  split_ifs at h with hindex
  · exact .inl ⟨hindex, (Except.ok.inj h).symm⟩
  · obtain ⟨marker, hmarker, h⟩ := bind_eq_ok_iff.mp h
    obtain ⟨_, hrequire, h⟩ := bind_eq_ok_iff.mp h
    obtain ⟨_, hempty, h⟩ := bind_eq_ok_iff.mp h
    rw [require_eq_ok_iff] at hrequire hempty
    rw [hrequire] at hmarker
    obtain ⟨⟨hbits, hmachine, hname, -, -, hone⟩, huse⟩ := andAlso_eq_ok_true_iff.mp hmarker
    obtain ⟨row, hrow⟩ := List.length_eq_one_iff.mp hone
    rw [hrow, allM_eq_ok_true_iff] at huse
    obtain ⟨table, target, huse⟩ := metadataUse_eq_ok_true (huse row List.mem_cons_self)
    refine .inr ⟨not_not.mp hindex, hempty, ?_, ?_, hmachine, hname, row, table, target, hrow, huse⟩
    · rw [← Except.ok.inj h]
      exact List.append_ne_nil_of_right_ne_nil _ (List.cons_ne_nil _ _)
    · cases hwidth : obj.width with
      | w32 => rfl
      | w64 => exact absurd (hwidth ▸ hbits) (by decide)

/-- The loop over the undefined symbols: each is the marker, and there is at most one. -/
theorem foldlM_checkUndefined {symbols : List (Symbol × ℕ)} {undefined next : List Undefined}
    (h : symbols.foldlM (checkUndefined obj relocations code) undefined = .ok next) :
    (undefined ≠ [] → next ≠ [] ∧ ∀ p ∈ symbols, p.1.index ≠ 0) ∧
      (∀ p ∈ symbols, p.1.index = 0 → obj.width = .w32 ∧ obj.machine = 40 ∧ p.1.name = unwindName ∧
        Unwinds obj relocations code p.2) ∧
      (symbols.filter fun p => p.1.index = 0).length ≤ 1 := by
  induction symbols generalizing undefined with
  | nil => exact ⟨fun hne => ⟨Except.ok.inj h ▸ hne, by simp⟩, by simp, by simp⟩
  | cons p symbols ih =>
    obtain ⟨mid, hmid, h⟩ := foldlM_cons_eq_ok_iff.mp h
    obtain ⟨hfull, hall, hcount⟩ := ih h
    rcases checkUndefined_eq_ok hmid with ⟨hindex, rfl⟩ | ⟨hindex, hempty, hne, hthis⟩
    · refine ⟨fun hne => ⟨(hfull hne).1, List.forall_mem_cons.mpr ⟨hindex, (hfull hne).2⟩⟩,
        List.forall_mem_cons.mpr ⟨fun hzero => absurd hzero hindex, hall⟩, ?_⟩
      rw [List.filter_cons_of_neg (by simpa using hindex)]
      exact hcount
    · refine ⟨fun hne' => absurd hempty hne', List.forall_mem_cons.mpr ⟨fun _ => hthis, hall⟩, ?_⟩
      have hnone : symbols.filter (fun p => p.1.index = 0) = [] :=
        List.filter_eq_nil_iff.mpr fun q hq => by simpa using (hfull hne).2 q hq
      rw [List.filter_cons_of_pos (by simpa using hindex), hnone]
      exact le_rfl

/-- Two members of a filtered list that has one element. -/
theorem eq_of_length_filter_le_one {α : Type*} {p : α → Bool} {as : List α} {a b : α}
    (h : (as.filter p).length ≤ 1) (ha : a ∈ as) (hb : b ∈ as) (hpa : p a = true) (hpb : p b = true) :
    a = b := by
  have hma := List.mem_filter.mpr ⟨ha, hpa⟩
  have hmb := List.mem_filter.mpr ⟨hb, hpb⟩
  obtain ⟨c, hc⟩ : ∃ c, as.filter p = [c] :=
    List.length_eq_one_iff.mp (le_antisymm h (List.length_pos_of_mem hma))
  rw [hc, List.mem_singleton] at hma hmb
  exact hma.trans hmb.symm

theorem mem_zipIdx_tail {α : Type*} {as : List α} {a : α} {i : ℕ} (hi : 0 < i) (ha : as[i]? = some a) :
    (a, i) ∈ as.zipIdx.tail := by
  obtain ⟨j, rfl⟩ : ∃ j, i = j + 1 := ⟨i - 1, by omega⟩
  refine List.mem_of_getElem? (i := j) ?_
  rw [List.getElem?_tail, List.getElem?_zipIdx, ha, Nat.zero_add]
  rfl

/-- A cut of a cut is a cut. -/
theorem slice_slice {data : Bytes} {start size offset length : ℕ} (h : offset + length ≤ size) :
    slice (slice data start size) offset length = slice data (start + offset) length := by
  rw [slice, slice, slice, List.drop_take, List.take_take, List.drop_drop]
  congr 1
  omega

/-- **An observed object is a calibration object.** -/
theorem calibrationObject_calibrated {sha256 : Bytes → String} {data : Bytes} {model fixture : Value}
    {observed : Calibration} (h : calibrationObject sha256 data model fixture = .ok observed) :
    ∃ obj relocations symbol code, parseRelocatable data model = .ok obj ∧ obj.data = data ∧
      fixtureAgrees obj fixture = true ∧ Calibrated sha256 obj relocations symbol code observed := by
  obtain ⟨obj, hparse, h⟩ := bind_eq_ok_iff.mp h
  obtain ⟨_, hfixture, h⟩ := bind_eq_ok_iff.mp h
  obtain ⟨⟨relocations, mips⟩, hcomplete, h⟩ := bind_eq_ok_iff.mp h
  obtain ⟨_, hunique, h⟩ := bind_eq_ok_iff.mp h
  obtain ⟨symbol, hsymbol, h⟩ := bind_eq_ok_iff.mp h
  obtain ⟨defined, hdefinition, h⟩ := bind_eq_ok_iff.mp h
  obtain ⟨_, hrequire, h⟩ := bind_eq_ok_iff.mp h
  obtain ⟨code, hcode, h⟩ := bind_eq_ok_iff.mp h
  obtain ⟨_, hexec, h⟩ := bind_eq_ok_iff.mp h
  obtain ⟨undefined, hundefined, h⟩ := bind_eq_ok_iff.mp h
  obtain ⟨content, hcontent, h⟩ := bind_eq_ok_iff.mp h
  obtain ⟨alpha, -, h⟩ := bind_eq_ok_iff.mp h
  rw [require_eq_ok_iff] at hfixture hunique hrequire hexec
  rw [item_eq_ok_iff] at hsymbol hcode
  obtain ⟨hobj, hdata⟩ := bounded_of_parseRelocatable hparse
  have hdone := complete_of_completeTables hobj hcomplete
  obtain ⟨only, honly⟩ := List.length_eq_one_iff.mp hunique
  rw [honly] at hsymbol
  obtain rfl : only = symbol := Option.some.inj hsymbol
  obtain ⟨hinfo, hsize, hpos, hlt⟩ := isDefinition_eq_ok_true (hrequire ▸ hdefinition)
  have hmem : only ∈ obj.symbols := (List.mem_filter.mp (honly ▸ List.mem_cons_self)).1
  have hextent : only.value + only.size ≤ code.size := by
    rcases hdone.placed only hmem with ⟨hindex, -⟩ | ⟨s, hs, hextent⟩
    · have := hobj.numbered
      omega
    · rwa [Option.some.inj (hcode.symm.trans hs)]
  have hcodeInside : code.offset + code.size ≤ obj.data.length :=
    (hobj.sections code (List.mem_of_getElem? hcode)).resolve_left (by rw [hexec.1]; decide)
  obtain ⟨row, hrow, hcontent⟩ := bind_eq_ok_iff.mp hcontent
  obtain ⟨_, -, hcontent⟩ := bind_eq_ok_iff.mp hcontent
  rw [item_eq_ok_iff, hcode] at hrow
  obtain rfl := Option.some.inj hrow
  obtain ⟨-, hmarkers, hcount⟩ := foldlM_checkUndefined hundefined
  rw [← Except.ok.inj h]
  refine ⟨obj, relocations, only, code, hparse, hdata, hfixture, ?_⟩
  exact
    { complete := hdone
      unique := honly
      global := by rw [Symbol.binding, Symbol.kind, hinfo]; decide
      codeSection := hcode
      executable := hexec
      nonempty := hsize
      extent := hextent
      inside := by omega
      unpatched := fun r hr htarget => by
        obtain ⟨-, target, htarget', -, hflags⟩ := hdone.bounded r hr
        rw [htarget, hcode] at htarget'
        obtain rfl := Option.some.inj htarget'
        have hsix := congrArg (· &&& 4) hexec.2.1
        simp only [Nat.and_assoc] at hsix
        rw [show 6 &&& 4 = 4 from rfl, hflags] at hsix
        exact absurd hsix (by decide)
      definition := by
        rw [← Except.ok.inj hcontent, slice_slice hextent]
      undefined := fun i u hi hu hindex => hmarkers (u, i) (mem_zipIdx_tail hi hu) hindex
      single := fun i j u v hi hj hu hv hiu hiv =>
        congrArg Prod.snd (eq_of_length_filter_le_one hcount (mem_zipIdx_tail hi hu) (mem_zipIdx_tail hj hv)
          (decide_eq_true hiu) (decide_eq_true hiv))
      counts := ⟨rfl, rfl, rfl, rfl, rfl, rfl⟩ }

end Calibrated

/-- An object of one section of bytes, one symbol for it, and their names. -/
def sampleObject (machine flags sectionFlags info : ℕ) (content name : Bytes) : Bytes :=
  let symbols := 52 + content.length
  let names := symbols + 32
  let sections := names + (name.length + 2)
  Width.w32.ident true ++ List.replicate 9 0 ++
    pack true Width.w32.headerCodes [1, machine, 1, 0, 0, sections, flags, 52, 0, 0, 40, 4, 3] ++
    content ++ pack true Width.w32.symbolCodes [0, 0, 0, 0, 0, 0] ++
    pack true Width.w32.symbolCodes [1, 0, content.length, info, 0, 1] ++ 0 :: name ++ [0] ++
    pack true Width.w32.sectionCodes [0, 0, 0, 0, 0, 0, 0, 0, 0, 0] ++
    pack true Width.w32.sectionCodes [0, 1, sectionFlags, 0, 52, content.length, 0, 0, 4, 0] ++
    pack true Width.w32.sectionCodes [0, 2, 0, 0, symbols, 32, 3, 1, 4, 16] ++
    pack true Width.w32.sectionCodes [0, 3, 0, 0, names, name.length + 2, 0, 0, 1, 0]

/-- The model of a machine with pointers of four bytes. -/
def sampleModel : Value :=
  .dict [("machdep", .dict [("checked_fields", .dict [("sizeof_ptr", .int 4), ("little_endian", .bool true)])])]

/-- An object with one function of four bytes. -/
def sampleCode : Bytes := sampleObject 243 0 6 0x12 [0x82, 0x80, 0x01, 0x00] calibrationName

def sampleFixture : Value :=
  .dict [("class", .int 32), ("machine_observed", .int 243), ("type", .str "relocatable"),
    ("byte_order", .str "little")]

theorem calibrationObject_calibrated_sample : ∃ observed,
    calibrationObject (fun _ => "") sampleCode sampleModel sampleFixture = .ok observed ∧
      ∃ obj relocations symbol code, parseRelocatable sampleCode sampleModel = .ok obj ∧
        obj.data = sampleCode ∧ fixtureAgrees obj sampleFixture = true ∧
        Calibrated (fun _ => "") obj relocations symbol code observed := by
  obtain ⟨observed, h⟩ := exists_ok_of_isOk
    (x := calibrationObject (fun _ => "") sampleCode sampleModel sampleFixture) (by decide +kernel)
  exact ⟨observed, h, calibrationObject_calibrated h⟩

/-! ## Observing fails as the module says -/

section Fails

variable {obj : Relocatable} {mips : Option Value}

theorem fails_sectionBytes {index : ℕ} (h : index < obj.sections.length) :
    Fails IsElfError (obj.sectionBytes index) :=
  (fails_item h).bind fun _ _ => fails_require.bind fun _ _ => fails_pure _ _

/-- The bytes of a section of bytes are there. -/
theorem sectionBytes_eq_ok {index : ℕ} {s : Section} (hs : obj.sections[index]? = some s)
    (hkind : s.kind ≠ 8) : obj.sectionBytes index = .ok (slice obj.data s.offset s.size) :=
  bind_eq_ok_iff.mpr ⟨s, item_eq_ok_iff.mpr hs, bind_eq_ok_iff.mpr ⟨(), require_eq_ok_iff.mpr hkind, rfl⟩⟩

theorem sectionBytes_length (hobj : obj.Bounded) {index : ℕ} {bs : Bytes}
    (h : obj.sectionBytes index = .ok bs) :
    ∃ s, obj.sections[index]? = some s ∧ bs.length = s.size := by
  obtain ⟨s, hs, h⟩ := bind_eq_ok_iff.mp h
  obtain ⟨_, hkind, h⟩ := bind_eq_ok_iff.mp h
  rw [item_eq_ok_iff] at hs
  rw [require_eq_ok_iff] at hkind
  have hinside := (hobj.sections s (List.mem_of_getElem? hs)).resolve_left hkind
  refine ⟨s, hs, ?_⟩
  rw [← Except.ok.inj h, slice, List.length_take, List.length_drop]
  omega

theorem fails_word {P : Failure → Prop} {little : Bool} {data : Bytes} {offset : ℕ}
    (h : offset + 4 ≤ data.length) : Fails P (word little data offset) := by
  obtain ⟨values, hread⟩ := @exists_unpackFrom little data offset [.i] h
  refine (fails_of_eq_ok (orFail_eq_ok_iff.mpr hread)).bind fun values' hvalues => fails_item ?_
  rw [length_of_unpackFrom (orFail_eq_ok_iff.mp hvalues)]
  decide

theorem fails_alphaFunctionMetadata (hobj : obj.Bounded) (symbol : Symbol) :
    Fails IsElfError (alphaFunctionMetadata obj symbol) := by
  refine fails_andAlso fun hroute => ?_
  have hsize : 64 ≤ obj.data.length := by
    have hheader := hobj.header
    rw [hobj.headerSize] at hheader
    cases hwidth : obj.width with
    | w32 => rw [hwidth] at hroute; exact absurd hroute.1 (by decide)
    | w64 => rwa [hwidth] at hheader
  refine (fails_word (by omega)).bind fun _ _ => fails_andAlso fun hsymbol => ?_
  exact (fails_item hsymbol.2.2.2.2.2.2).bind fun _ _ => fails_pure _ _

theorem fails_headerFlags (hobj : obj.Bounded) : Fails IsElfError (headerFlags obj) := by
  have hheader := hobj.header
  rw [hobj.headerSize] at hheader
  refine fails_word ?_
  cases hwidth : obj.width with
  | w32 => rw [hwidth] at hheader; exact Nat.le_trans (by decide) hheader
  | w64 => rw [hwidth] at hheader; exact Nat.le_trans (by decide) hheader

theorem selectMips_fails (p : Bytes × ℕ) : Fails IsElfError (selectMips obj p) := by
  unfold selectMips
  split
  · exact fails_require.bind fun _ _ => fails_pure _ _
  · exact fails_error rfl

theorem selectMips_mem {p : Bytes × ℕ} {s : Section} (h : selectMips obj p = .ok s) : s ∈ obj.sections := by
  unfold selectMips at h
  split at h
  case h_1 t hfilter =>
    obtain ⟨_, -, h⟩ := bind_eq_ok_iff.mp h
    rw [← Except.ok.inj h]
    exact List.mem_of_mem_filter (hfilter ▸ List.mem_cons_self)
  case h_2 => exact absurd h (by simp)

/-- The integers of a section of the size of their format. -/
theorem fails_sectionFields (hobj : obj.Bounded) {codes : List Code} {s : Section} (hs : s ∈ obj.sections)
    (hsize : s.size = calcsize codes) : Fails IsElfError (sectionFields obj codes s) := by
  obtain ⟨i, hfind⟩ := Option.isSome_iff_exists.mp (List.isSome_idxOf?.mpr hs)
  refine (fails_of_eq_ok (orFail_eq_ok_iff.mpr hfind)).bind fun index hindex => ?_
  obtain ⟨hlt, heq, -⟩ := List.idxOf?_eq_some_iff.mp (orFail_eq_ok_iff.mp hindex)
  refine (fails_sectionBytes hlt).bind fun content hcontent => ?_
  obtain ⟨t, ht, hlength⟩ := sectionBytes_length hobj hcontent
  rw [List.getElem?_eq_getElem hlt, heq] at ht
  rw [← Option.some.inj ht, hsize] at hlength
  obtain ⟨values, hvalues⟩ := @exists_unpack true content codes hlength
  exact fails_of_eq_ok (orFail_eq_ok_iff.mpr hvalues)

theorem mipsCalibrationMetadata_fails (hobj : obj.Bounded) :
    Fails IsElfError (mipsCalibrationMetadata obj) := by
  refine (fails_andAlso fun _ => (fails_headerFlags hobj).bind fun _ _ => fails_pure _ _).bind
    fun exactRoute _ => ?_
  split_ifs
  · exact fails_require.bind fun _ _ => fails_pure _ _
  refine (fails_mapM fun p _ => selectMips_fails p).bind fun selected hselected => ?_
  rw [mapM_eq_ok_iff] at hselected
  have hlength := hselected.length_eq
  have hmem : ∀ s ∈ selected, s ∈ obj.sections := fun s hs =>
    (exists_of_forall₂_right hselected hs).elim fun p hp => selectMips_mem hp.2
  have hthree : selected.length = 3 := hlength.symm
  refine fails_require.bind fun _ _ => ?_
  refine (fails_item (by omega)).bind fun reginfo hreginfo => fails_require.bind fun _ hshape => ?_
  rw [item_eq_ok_iff] at hreginfo
  rw [require_eq_ok_iff] at hshape
  have hsize : reginfo.size = calcsize [.i, .i, .i, .i, .i, .i] := congrArg Shape.size hshape
  refine (fails_sectionFields hobj (hmem _ (List.mem_of_getElem? hreginfo)) hsize).bind fun _ _ =>
    fails_require.bind fun _ _ => ?_
  refine (fails_item (by omega)).bind fun abi habi => fails_require.bind fun _ hshape' => ?_
  rw [item_eq_ok_iff] at habi
  rw [require_eq_ok_iff] at hshape'
  have hsize' : abi.size = calcsize [.h, .b, .b, .b, .b, .b, .b, .i, .i, .i, .i] := congrArg Shape.size hshape'
  refine (fails_sectionFields hobj (hmem _ (List.mem_of_getElem? habi)) hsize').bind fun _ _ =>
    fails_require.bind fun _ _ => ?_
  exact (fails_item (by omega)).bind fun _ _ => fails_require.bind fun _ _ => fails_pure _ _

theorem checkSection_fails {s : Section} {index : ℕ} (h : index < obj.sections.length) :
    Fails IsElfError (checkSection obj mips (s, index)) := by
  refine fails_require.bind fun _ _ => fails_require.bind fun _ _ => fails_require.bind fun _ _ => ?_
  refine Fails.bind ?_ fun _ _ => fails_require.bind fun _ _ => Fails.bind ?_ fun _ _ => fails_pure _ _
  · unfold checkStrings
    split_ifs
    · exact (fails_sectionBytes h).bind fun _ _ => fails_require
    · exact fails_pure _ _
  · unfold checkIndex
    split_ifs
    · refine Fails.bind (fails_andAlso fun hlink => ?_) fun _ _ => fails_require
      exact (fails_item hlink.2.2.2.2).bind fun _ _ => fails_pure _ _
    · exact fails_pure _ _

theorem checkSymbol_fails (hobj : obj.Bounded) (firstGlobal : ℕ) (p : Symbol × ℕ) :
    Fails IsElfError (checkSymbol obj firstGlobal p) := by
  refine Fails.bind ?_ fun _ _ => fails_require.bind fun _ _ => Fails.bind ?_ fun _ _ =>
    fails_require.bind fun _ _ => fails_require
  · exact fails_andAlso fun _ =>
      (fails_orElse fun _ => fails_alphaFunctionMetadata hobj p.1).bind fun _ _ => fails_pure _ _
  · unfold checkPlace
    split_ifs
    · exact fails_require
    · exact fails_require
    · refine fails_require.bind fun _ hindex => ?_
      rw [require_eq_ok_iff] at hindex
      exact (fails_item hindex.2).bind fun _ _ => fails_require

theorem calcsize_relocationCodes_le {width : Width} {kind : ℕ} :
    calcsize (relocationCodes width) ≤ entrySize width kind := by
  cases width with
  | w32 => simp only [entrySize]; split_ifs <;> decide
  | w64 => simp only [entrySize]; split_ifs <;> decide

theorem readRelocation_fails {index offset : ℕ} {s target : Section}
    (h : offset + calcsize (relocationCodes obj.width) ≤ obj.data.length) :
    Fails IsElfError (readRelocation obj index s target offset) := by
  obtain ⟨values, hread⟩ := @exists_unpackFrom obj.little obj.data offset (relocationCodes obj.width) h
  refine (fails_of_eq_ok (orFail_eq_ok_iff.mpr hread)).bind fun values' hvalues => ?_
  have hlength := length_of_unpackFrom (orFail_eq_ok_iff.mp hvalues)
  have htwo : (relocationCodes obj.width).length = 2 := by cases obj.width <;> rfl
  obtain ⟨address, info, rfl⟩ := List.length_eq_two.mp (hlength.trans htwo)
  exact fails_require.bind fun _ _ => fails_pure _ _

theorem sectionRelocations_fails (hobj : obj.Bounded) {s : Section} {index : ℕ}
    (hs : obj.sections[index]? = some s) : Fails IsElfError (sectionRelocations obj (s, index)) := by
  rw [sectionRelocations]
  split_ifs with hkind
  · refine fails_require.bind fun _ hbounds => ?_
    rw [require_eq_ok_iff] at hbounds
    refine (fails_item hbounds.2.2.1).bind fun target _ => fails_require.bind fun _ _ => ?_
    rw [rangeStep_eq (entrySize_pos _ _) hbounds.2.2.2.2]
    refine fails_mapM fun offset hoffset => readRelocation_fails ?_
    obtain ⟨k, hk, rfl⟩ := List.mem_range'.mp hoffset
    have hle := Nat.mul_le_mul_left (entrySize obj.width s.kind) (Nat.succ_le_of_lt hk)
    rw [Nat.mul_succ, Nat.mul_div_cancel' (Nat.dvd_of_mod_eq_zero hbounds.2.2.2.2)] at hle
    have hinside := (hobj.sections s (List.mem_of_getElem? hs)).resolve_left (by omega)
    have hsize : calcsize (relocationCodes obj.width) ≤ entrySize obj.width s.kind :=
      calcsize_relocationCodes_le
    omega
  · exact fails_pure _ _

theorem completeTables_fails (hobj : obj.Bounded) : Fails IsElfError (completeTables obj) := by
  have hlt : ∀ p ∈ obj.sections.zipIdx, p.2 < obj.sections.length := fun p hp =>
    (List.getElem?_eq_some_iff.mp (List.mem_zipIdx_iff_getElem?.mp hp)).1
  refine (mipsCalibrationMetadata_fails hobj).bind fun mips _ => ?_
  refine (fails_mapM fun p hp => checkSection_fails (hlt p (List.mem_of_mem_tail hp))).bind fun _ _ => ?_
  refine fails_require.bind fun _ _ => ?_
  refine (fails_item (List.length_pos_of_ne_nil hobj.symbols)).bind fun _ _ => ?_
  refine fails_require.bind fun _ _ => (fails_item hobj.symbolTable).bind fun table _ => ?_
  refine fails_require.bind fun _ _ => (fails_forM fun p _ => checkSymbol_fails hobj _ p).bind fun _ _ => ?_
  refine (fails_mapM fun p hp => ?_).bind fun _ _ => fails_pure _ _
  exact sectionRelocations_fails hobj (List.mem_zipIdx_iff_getElem?.mp hp)

/-- A reference stands in sections that exist. -/
theorem metadataUse_fails {relocations : List Relocation} (hcomplete : Complete obj relocations) {code : ℕ}
    {row : Relocation} (hrow : row ∈ relocations) : Fails IsElfError (metadataUse obj code row) := by
  obtain ⟨i, s, k, hs, -, -, htable, -⟩ := hcomplete.entries row hrow
  obtain ⟨-, target, htarget, -⟩ := hcomplete.bounded row hrow
  refine (fails_item ?_).bind fun _ _ => fails_andAlso fun _ => (fails_item ?_).bind fun _ _ => fails_pure _ _
  · rw [htable]
    exact (List.getElem?_eq_some_iff.mp hs).1
  · exact (List.getElem?_eq_some_iff.mp htarget).1

theorem checkUndefined_fails {relocations : List Relocation} (hcomplete : Complete obj relocations)
    {code : ℕ} {undefined : List Undefined} {p : Symbol × ℕ} :
    Fails IsElfError (checkUndefined obj relocations code undefined p) := by
  rw [checkUndefined]
  split_ifs
  · exact fails_pure _ _
  · refine (fails_andAlso fun _ => fails_allM fun row hrow => ?_).bind fun _ _ =>
      fails_require.bind fun _ _ => fails_require.bind fun _ _ => fails_pure _ _
    exact metadataUse_fails hcomplete (List.mem_of_mem_filter hrow)

theorem isDefinition_fails (hobj : obj.Bounded) (symbol : Symbol) :
    Fails IsElfError (isDefinition obj symbol) :=
  fails_andAlso fun _ => (fails_orElse fun _ => fails_alphaFunctionMetadata hobj symbol).bind
    fun _ _ => fails_pure _ _

theorem alphaSymbol_fails (hobj : obj.Bounded) (symbol : Symbol) :
    Fails IsElfError (alphaSymbol obj symbol) := by
  refine (fails_alphaFunctionMetadata hobj symbol).bind fun metadata _ => ?_
  cases metadata with
  | true => exact fails_pure _ _
  | false => exact fails_pure _ _

/-- **Observing an object raises nothing but `ELFError`**, whatever the bytes are. -/
theorem calibrationObject_fails (sha256 : Bytes → String) (data : Bytes) (model fixture : Value) :
    Fails IsElfError (calibrationObject sha256 data model fixture) := by
  refine (parseRelocatable_fails data model).bind fun obj hparse => ?_
  obtain ⟨hobj, -⟩ := bounded_of_parseRelocatable hparse
  refine fails_require.bind fun _ _ => ?_
  refine (completeTables_fails hobj).bind fun ⟨relocations, mips⟩ hcomplete => ?_
  have hdone := complete_of_completeTables hobj hcomplete
  refine fails_require.bind fun _ hunique => ?_
  rw [require_eq_ok_iff] at hunique
  refine (fails_item (by rw [hunique]; decide)).bind fun symbol _ => ?_
  refine (isDefinition_fails hobj symbol).bind fun defined hdefinition => ?_
  refine fails_require.bind fun _ hrequire => ?_
  rw [require_eq_ok_iff] at hrequire
  obtain ⟨-, -, -, hlt⟩ := isDefinition_eq_ok_true (hrequire ▸ hdefinition)
  refine (fails_item hlt).bind fun code _ => fails_require.bind fun _ _ => ?_
  refine (fails_foldlM fun undefined p _ => checkUndefined_fails hdone).bind fun _ _ => ?_
  refine (fails_sectionBytes hlt).bind fun _ _ => ?_
  exact (fails_mapM fun symbol _ => alphaSymbol_fails hobj symbol).bind fun _ _ => fails_pure _ _

end Fails

end Elf
end Fragma
