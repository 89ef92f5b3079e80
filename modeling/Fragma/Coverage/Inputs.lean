import Fragma.Python.Document
import Fragma.Replay.Compare
import Fragma.Replay.Inventory

/-!
# The inputs of the coverage matrix

`fragma/coverage.py`, `_Inputs`, with the parts of `fragma/integrity.py` that it calls.  The matrix
is made from files that are given by name: manifests, summaries of runs and receipts of profiles.
Every file is hashed when it is first looked at; here the file system does not change while the
matrix is made.

* `Host`: the file system and what else the program asks its surroundings for.
* `Host.json`: a file as strict JSON of schema version 1.
* `mergeGroups`, `profileRecords`, `Host.changes`: recorded hashes and the files as they are.
* `json_eq_ok_iff`: **what the coverage takes for evidence.**
-/

namespace Fragma
namespace Coverage

open Python Posix Suite Replay

/-! ## The surroundings -/

/-- A file: its hash, and what the grammar of JSON sees in it, where it is JSON at all. -/
structure File where
  sha256 : String
  document : Option Doc

/-- What the program asks its surroundings for.  The paths of files are absolute. -/
structure Host where
  /-- the root of the project, resolved -/
  root : PurePath
  /-- the current directory -/
  cwd : PurePath
  /-- the names that `config/*.json` matches -/
  configs : List String
  file : String → Option File
  isFile : String → Bool
  isSymlink : String → Bool
  resolve : PurePath → PurePath
  /-- the hash of the text of a value, with sorted keys -/
  digest : Value → String
  /-- the moment that a text with an offset names -/
  instant : String → Except Exn ℤ
  now : ℤ

/-- `path.parent`. -/
def parent (P : PurePath) : PurePath := ⟨P.root, P.tail.dropLast⟩

/-- `CoverageError(message)`. -/
def coverageError (message : String) : Exn := ⟨.valueError, message⟩

/-- `value[key]`. -/
def subscriptOf (v : Value) (key : String) : Except Exn Value :=
  match v with
  | .dict d => item d key
  | _ => .error ⟨.typeError, "not subscriptable by a string"⟩

/-- What a loop over the value sees. -/
def elements (v : Value) : Except Exn (List Value) :=
  orRaise v.iterate ⟨.typeError, "not iterable"⟩

/-- `x in container`. -/
def isIn (x container : Value) : Except Exn Bool :=
  orRaise (Value.contains container x) ⟨.typeError, "not a container, or not hashable"⟩

/-- `canonical(value)`. -/
def canonical (v : Value) : Except Exn Value :=
  if v.isFinite then .ok v.sorted
  else .error ⟨.valueError, "Out of range float values are not JSON compliant"⟩

namespace Host

variable (h : Host)

/-- `root / name`. -/
def under (name : String) : PurePath := h.root.join (PurePath.parse name)

/-- `Path(path).absolute()`. -/
def absolute (path : PurePath) : PurePath := h.cwd.join path

/-- `_Inputs.hash(path)`. -/
def hash (path : String) : Option String := (h.file path).map File.sha256

/-- `sha256(path)`. -/
def sha256 (path : String) : Except Exn String := orRaise (h.hash path) ⟨.osError, path⟩

/-- `inputs.observe(path)`. -/
def observe (path : PurePath) : Option String := h.hash (h.absolute path).render

/-- `inputs.json(path)`. -/
def json (path : PurePath) : Except Exn Dict := do
  let path := (h.absolute path).render
  let file ← orRaise (h.file path) (coverageError ("cannot read evidence " ++ path))
  let doc ← orRaise file.document (coverageError ("cannot read evidence " ++ path))
  let data ← orRaise doc.strict.toOption (coverageError ("cannot read evidence " ++ path))
  raiseIf (data.isFinite = false) (coverageError ("cannot read evidence " ++ path))
  match data with
  | .dict d => do
    raiseIf (Value.get d "schema_version" ≠ .int 1)
      (coverageError ("unsupported evidence schema: " ++ path))
    .ok d
  | _ => .error (coverageError ("unsupported evidence schema: " ++ path))

/-- `json.loads(path.read_text())`, where the text is JSON. -/
def loads (path : PurePath) : Except Exn Value := do
  let path := (h.absolute path).render
  let file ← orRaise (h.file path) ⟨.osError, path⟩
  let doc ← orRaise file.document ⟨.valueError, path⟩
  .ok doc.value

end Host

/-! ## Recorded hashes -/

/-- An entry of a list of recorded hashes. -/
def recordOf (v : Value) : Except Exn InputRecord := do
  let d ← entries v "get"
  .ok ⟨Value.get d "absolute_path", Value.get d "sha256"⟩

/-- The loop of `merge_records` over one group. -/
def mergeValues (records : List Receipt) : List Value → Except Exn (List Receipt)
  | [] => .ok records
  | v :: vs => do
    let item ← recordOf v
    let records ← mergeRecord records item
    mergeValues records vs

/-- The records in the order of their paths. -/
def sortReceipts (records : List Receipt) : List Receipt :=
  records.insertionSort fun a b => a.path ≤ b.path

/-- A merged record as an entry again. -/
def entryOf (r : Receipt) : InputRecord := ⟨.str r.path, .str r.sha256⟩

section Records

variable (h : Host)

/-- The hash of a file that the generator of a model was run with. -/
def probeRecord (generator : Value) (p : String × Value) : Except Exn InputRecord := do
  let path ← subscriptOf generator "path"
  match path with
  | .str path =>
    receipt h.sha256 (h.absolute ((parent (PurePath.parse path)).join (PurePath.parse p.1))).render
      p.2
  | _ => .error ⟨.typeError, "Path"⟩

/-- `profile_records(root, model)`. -/
def profileRecords (model : Dict) : Except Exn (List Receipt) := do
  let records ← metadataRecords h.sha256 (.dict model)
  let fixture ← item model "fixture_sha256"
  let fixture ← receipt h.sha256 (h.under "profiles/calibration.c").render fixture
  let generator ← item model "generator"
  let probes ← getOf generator "probe_input_hashes" (.dict [])
  let probes ← entries probes "items"
  let probes ← probes.mapM (probeRecord h generator)
  mergeRecords (records ++ fixture :: probes)

/-- `inputs.changes(records)`. -/
def Host.changes (records : List InputRecord) : Except Exn (List Change) :=
  match changedFiles h.hash records with
  | .ok changed => .ok changed
  | .error e =>
    if e.kind = .valueError then
      .error (coverageError ("malformed input-integrity records: " ++ e.message))
    else .error e

end Records

end Coverage
end Fragma
