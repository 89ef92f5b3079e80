import Fragma.Keyed.Join
import Fragma.Replay.Mapper
import Fragma.Suite.Integrity

/-!
# Hash claims and the inventory of a run

`metadata_records` of `fragma/integrity.py` collects the hashes that tool and model receipts name,
for the inventory of a run.  `metadata_claims` of `fragma/replay.py` reads the same receipts again
when the run is looked at later, and every claim has to be in the inventory.  The two go through a
receipt with different guards.

* `metadataRecords`, `metadataClaims`: the two collectors.
* `hashRecords`: the inventory, read as a table.
* `WellFormed`: paths are absolute and in normal form, and hashes are hashes.
* `metadataRecords_covers`: every claim is collected.
* `metadataClaims_inventoried`: **every claim is in the inventory**.
-/

namespace Fragma
namespace Replay

open Python Posix Suite

/-! ## The two collectors -/

/-- The path that an entry of a receipt names. -/
def namedPath (d : Dict) : Value :=
  Value.get d "absolute_path" (Value.get d "path" (Value.get d "resolved_path"))

/-- `str(Path(directory) / name)`. -/
def fileIn (directory name : String) : String :=
  ((PurePath.parse directory).join (PurePath.parse name)).render

/-- The claim of a named path. -/
def namedClaims (path sha : Value) : List (String × Value) :=
  match path with
  | .str path => if startsWith "/" path ∧ sha ≠ .none then [(path, sha)] else []
  | _ => []

/-- The claims of the files of a directory. -/
def fileClaims (directory files : Value) : List (String × Value) :=
  match directory, files with
  | .str directory, .dict files => files.map fun p => (fileIn directory p.1, p.2)
  | _, _ => []

/-- The claims of a dictionary itself. -/
def ownClaims (d : Dict) : List (String × Value) :=
  namedClaims (namedPath d) (Value.get d "sha256") ++
    fileClaims (Value.get d "directory") (Value.get d "files")

mutual

/-- `metadata_claims(value)`. -/
def metadataClaims : Value → List (String × Value)
  | .dict d => ownClaims d ++ metadataClaimsDict d
  | .list xs => metadataClaimsList xs
  | _ => []
termination_by structural v => v

def metadataClaimsList : List Value → List (String × Value)
  | [] => []
  | x :: xs => metadataClaims x ++ metadataClaimsList xs
termination_by structural xs => xs

def metadataClaimsDict : List (String × Value) → List (String × Value)
  | [] => []
  | p :: ps => metadataClaimsEntry p ++ metadataClaimsDict ps
termination_by structural ps => ps

def metadataClaimsEntry : String × Value → List (String × Value)
  | (_, v) => metadataClaims v
termination_by structural p => p

end

section Records

-- the hash of a file as it is now
variable (sha256 : String → Except Exn String)

/-- `receipt(path, expected)`, for an absolute path: a hash that is not given is taken now. -/
def receipt (path : String) (expected : Value) : Except Exn InputRecord :=
  if expected.truthy then .ok ⟨.str path, expected⟩
  else (sha256 path).map fun hash => ⟨.str path, .str hash⟩

/-- The record of a named path. -/
def namedRecords (path sha : Value) : List InputRecord :=
  match path, sha with
  | .str filename, .str expected =>
    if (PurePath.parse filename).IsAbsolute then [⟨.str filename, .str expected⟩] else []
  | _, _ => []

/-- The records of the files of a directory. -/
def fileRecords (directory files : Value) : Except Exn (List InputRecord) :=
  match directory, files with
  | .str directory, .dict files =>
    if (PurePath.parse directory).IsAbsolute then
      files.mapM fun p => receipt sha256 (fileIn directory p.1) p.2
    else .ok []
  | _, _ => .ok []

/-- The records of a dictionary itself. -/
def ownRecords (d : Dict) : Except Exn (List InputRecord) := do
  let files ← fileRecords sha256 (Value.get d "directory") (Value.get d "files")
  .ok (namedRecords (namedPath d) (Value.get d "sha256") ++ files)

/-- The record of an entry of which the key is a path. -/
def keyRecords (key : String) (v : Value) : List InputRecord :=
  match v with
  | .str hash =>
    if (PurePath.parse key).IsAbsolute ∧ isHex 64 hash then [⟨.str key, .str hash⟩] else []
  | _ => []

mutual

/-- `metadata_records(value)`. -/
def metadataRecords : Value → Except Exn (List InputRecord)
  | .dict d => do
    let own ← ownRecords sha256 d
    let below ← metadataRecordsDict d
    .ok (own ++ below)
  | .list xs => metadataRecordsList xs
  | _ => .ok []
termination_by structural v => v

def metadataRecordsList : List Value → Except Exn (List InputRecord)
  | [] => .ok []
  | x :: xs => do
    let first ← metadataRecords x
    let rest ← metadataRecordsList xs
    .ok (first ++ rest)
termination_by structural xs => xs

def metadataRecordsDict : List (String × Value) → Except Exn (List InputRecord)
  | [] => .ok []
  | p :: ps => do
    let first ← metadataRecordsEntry p
    let rest ← metadataRecordsDict ps
    .ok (first ++ rest)
termination_by structural ps => ps

def metadataRecordsEntry : String × Value → Except Exn (List InputRecord)
  | (key, v) => do
    let below ← metadataRecords v
    .ok (keyRecords key v ++ below)
termination_by structural p => p

end

end Records

/-! ## The inventory -/

/-- A merged record, as it stands in the summary of a run. -/
def rowOf (r : Receipt) : Value :=
  .dict [("absolute_path", .str r.path), ("sha256", .str r.sha256)]

/-- The checks of `hash_records` on a row, after the rows that were read. -/
def hashRow (result : List (String × String)) (row : Value) :
    Except ReplayError (String × String) :=
  match row with
  | .dict row =>
    match Value.get row "absolute_path" with
    | .str path => do
      require (PurePath.parse path).IsAbsolute "input has no absolute path"
      match Value.get row "sha256" with
      | .str sha => do
        require (isHex 64 sha = true) "input has malformed SHA256"
        require (path ∉ result.map Prod.fst) ("duplicate input path: " ++ path)
        .ok (path, sha)
      | _ => .error ⟨"input has malformed SHA256"⟩
    | _ => .error ⟨"input has no absolute path"⟩
  | _ => .error ⟨"input record must be an object"⟩

/-- The loop of `hash_records`. -/
def hashRows (result : List (String × String)) :
    List Value → Except ReplayError (List (String × String))
  | [] => .ok result
  | row :: rows => do
    let entry ← hashRow result row
    hashRows (result ++ [entry]) rows

/-- `hash_records(records)`. -/
def hashRecords (records : Value) : Except ReplayError (List (String × String)) :=
  match records with
  | .list rows => hashRows [] rows
  | _ => .error ⟨"input inventory must be an array"⟩

/-! ## Receipts -/

/-- A path is absolute and in normal form. -/
def isNormalPath (path : String) : Bool :=
  decide (PurePath.parse path).IsAbsolute && decide ((PurePath.parse path).render = path)

/-- A value is a hash. -/
def isHash (v : Value) : Bool :=
  match v with
  | .str s => isHex 64 s
  | _ => false

/-- A text is an absolute path in normal form. -/
def normalText (v : Value) : Bool :=
  match v with
  | .str path => isNormalPath path
  | _ => true

/-- The hashes of the files of a directory are hashes. -/
def filesWellFormed (directory files : Value) : Bool :=
  match directory, files with
  | .str _, .dict files => files.all fun p => isHash p.2
  | _, _ => true

/-- The paths and the hashes of a dictionary itself are right: those of its file, and the hashes of
the files of a directory. -/
def ownWellFormed (d : Dict) : Bool :=
  (["absolute_path", "path", "resolved_path", "directory"].all fun k =>
    normalText (Value.get d k)) &&
    (Value.get d "sha256" = .none || isHash (Value.get d "sha256")) &&
    filesWellFormed (Value.get d "directory") (Value.get d "files")

mutual

/-- Every path and every hash of a receipt is right, at any depth. -/
def wellFormed : Value → Bool
  | .dict d => ownWellFormed d && wellFormedDict d
  | .list xs => wellFormedList xs
  | _ => true
termination_by structural v => v

def wellFormedList : List Value → Bool
  | [] => true
  | x :: xs => wellFormed x && wellFormedList xs
termination_by structural xs => xs

def wellFormedDict : List (String × Value) → Bool
  | [] => true
  | p :: ps => wellFormedEntry p && wellFormedDict ps
termination_by structural ps => ps

def wellFormedEntry : String × Value → Bool
  | (_, v) => wellFormed v
termination_by structural p => p

end

/-- A claim of a path in normal form and a hash. -/
def Claimed (c : String × Value) : Prop :=
  ∃ hash, c.2 = .str hash ∧ isHex 64 hash = true ∧ isNormalPath c.1 = true

/-- Every claim is a record. -/
def Covers (records : List InputRecord) (claims : List (String × Value)) : Prop :=
  ∀ c ∈ claims, ⟨.str c.1, c.2⟩ ∈ records ∧ Claimed c

theorem Covers.append {rs rs' : List InputRecord} {cs cs' : List (String × Value)}
    (h : Covers rs cs) (h' : Covers rs' cs') : Covers (rs ++ rs') (cs ++ cs') := by
  intro c hc
  rcases List.mem_append.mp hc with hc | hc
  · exact ⟨List.mem_append_left _ (h c hc).1, (h c hc).2⟩
  · exact ⟨List.mem_append_right _ (h' c hc).1, (h' c hc).2⟩

theorem covers_nil (rs : List InputRecord) : Covers rs [] := fun _ h => absurd h List.not_mem_nil

/-- The file of an absolute directory has a path in normal form. -/
theorem isNormalPath_fileIn {directory : String} (h : isNormalPath directory = true) (name : String) :
    isNormalPath (fileIn directory name) = true := by
  unfold isNormalPath at h ⊢
  rw [Bool.and_eq_true, decide_eq_true_eq, decide_eq_true_eq] at h ⊢
  unfold fileIn
  rw [PurePath.parse_render]
  refine ⟨?_, rfl⟩
  unfold PurePath.join
  split_ifs with hname
  · exact hname
  · exact h.1

/-- What a hash is given for is not hashed again. -/
theorem receipt_of_isHash {sha256 : String → Except Exn String} {path : String} {v : Value}
    (h : isHash v = true) : receipt sha256 path v = .ok ⟨.str path, v⟩ := by
  cases v with
  | str s =>
    have hne : s ≠ "" := by
      rintro rfl
      exact absurd h (by decide)
    rw [receipt, if_pos (by simpa [Value.truthy] using hne)]
  | _ => exact absurd h (by simp [isHash])

theorem mapM_eq_map {ε α β : Type} {f : α → Except ε β} {g : α → β} {as : List α}
    (h : ∀ a ∈ as, f a = .ok (g a)) : as.mapM f = .ok (as.map g) := by
  induction as with
  | nil => rfl
  | cons a as ih =>
    obtain ⟨ha, has⟩ := List.forall_mem_cons.mp h
    rw [List.mapM_cons, ha, ih has]
    rfl

/-! ## Every claim is collected -/

/-- A field with another default has the value of the field, or the default. -/
theorem get_default (d : Dict) (k : String) (default : Value) :
    Value.get d k default = Value.get d k ∨ Value.get d k default = default := by
  unfold Value.get
  cases d.lookup k with
  | none => exact .inr rfl
  | some v => exact .inl rfl

theorem normalText_namedPath {d : Dict} (h : ownWellFormed d = true) :
    normalText (namedPath d) = true := by
  simp only [ownWellFormed, Bool.and_eq_true, List.all_eq_true] at h
  have hfield : ∀ k ∈ ["absolute_path", "path", "resolved_path", "directory"],
      normalText (Value.get d k) = true := h.1.1
  unfold namedPath
  rcases get_default d "absolute_path" (Value.get d "path" (Value.get d "resolved_path")) with heq | heq
  · rw [heq]
    exact hfield _ (by decide)
  · rw [heq]
    rcases get_default d "path" (Value.get d "resolved_path") with heq | heq
    · rw [heq]
      exact hfield _ (by decide)
    · rw [heq]
      exact hfield _ (by decide)

variable {sha256 : String → Except Exn String}

theorem isAbsolute_of_isNormalPath {path : String} (h : isNormalPath path = true) :
    (PurePath.parse path).IsAbsolute := by
  rw [isNormalPath, Bool.and_eq_true, decide_eq_true_eq] at h
  exact h.1

/-- A hash is a text. -/
theorem exists_of_isHash {v : Value} (h : isHash v = true) :
    ∃ hash, v = .str hash ∧ isHex 64 hash = true := by
  cases v with
  | str s => exact ⟨s, rfl, h⟩
  | _ => exact absurd h (by simp [isHash])

/-- The claim of a named path is collected. -/
theorem namedRecords_covers {path sha : Value} (hpath : normalText path = true)
    (hsha : sha = .none ∨ isHash sha = true) :
    Covers (namedRecords path sha) (namedClaims path sha) := by
  cases path with
  | str path =>
    intro c hc
    rw [namedClaims] at hc
    split_ifs at hc with hclaim
    · obtain rfl := List.mem_singleton.mp hc
      obtain ⟨hash, rfl, hhex⟩ := exists_of_isHash (hsha.resolve_left hclaim.2)
      refine ⟨?_, hash, rfl, hhex, hpath⟩
      rw [namedRecords, if_pos (isAbsolute_of_isNormalPath hpath)]
      exact List.mem_singleton_self _
    · exact absurd hc List.not_mem_nil
  | _ => exact covers_nil _

/-- The claims of the files of a directory are collected, and no file is hashed again. -/
theorem fileRecords_covers {directory files : Value} (hdirectory : normalText directory = true)
    (hfiles : filesWellFormed directory files = true) :
    ∃ records, fileRecords sha256 directory files = .ok records ∧
      Covers records (fileClaims directory files) := by
  unfold filesWellFormed at hfiles
  unfold fileRecords fileClaims
  split at hfiles
  · next directory files =>
    have hhash := List.all_eq_true.mp hfiles
    have hread : ∀ p ∈ files, receipt sha256 (fileIn directory p.1) p.2 =
        .ok ⟨.str (fileIn directory p.1), p.2⟩ := fun p hp => receipt_of_isHash (hhash p hp)
    rw [if_pos (isAbsolute_of_isNormalPath hdirectory), mapM_eq_map hread]
    refine ⟨_, rfl, fun c hc => ?_⟩
    obtain ⟨p, hp, rfl⟩ := List.mem_map.mp hc
    obtain ⟨hash, hvalue, hhex⟩ := exists_of_isHash (hhash p hp)
    exact ⟨List.mem_map.mpr ⟨p, hp, rfl⟩, hash, hvalue, hhex, isNormalPath_fileIn hdirectory p.1⟩
  · exact ⟨[], rfl, covers_nil _⟩

/-- The claims of a dictionary itself are collected. -/
theorem ownRecords_covers {d : Dict} (h : ownWellFormed d = true) :
    ∃ records, ownRecords sha256 d = .ok records ∧ Covers records (ownClaims d) := by
  have hnamed := normalText_namedPath h
  simp only [ownWellFormed, Bool.and_eq_true, List.all_eq_true, Bool.or_eq_true,
    decide_eq_true_eq] at h
  obtain ⟨⟨hpaths, hsha⟩, hfiles⟩ := h
  obtain ⟨files, hok, hcovers⟩ := fileRecords_covers (hpaths "directory" (by decide)) hfiles
  refine ⟨_, ?_, (namedRecords_covers hnamed hsha).append hcovers⟩
  rw [ownRecords, hok]
  rfl

mutual

/-- **Every claim is collected.** -/
theorem metadataRecords_covers : ∀ v : Value, wellFormed v = true →
    ∃ records, metadataRecords sha256 v = .ok records ∧ Covers records (metadataClaims v)
  | .none, _ => ⟨[], rfl, covers_nil _⟩
  | .bool _, _ => ⟨[], rfl, covers_nil _⟩
  | .int _, _ => ⟨[], rfl, covers_nil _⟩
  | .float _, _ => ⟨[], rfl, covers_nil _⟩
  | .str _, _ => ⟨[], rfl, covers_nil _⟩
  | .list xs, h => by
    rw [wellFormed] at h
    rw [metadataRecords, metadataClaims]
    exact metadataRecordsList_covers xs h
  | .dict d, h => by
    rw [wellFormed, Bool.and_eq_true] at h
    obtain ⟨own, hown, hcovers⟩ := @ownRecords_covers sha256 d h.1
    obtain ⟨below, hbelow, hcovers'⟩ := metadataRecordsDict_covers d h.2
    rw [metadataRecords, metadataClaims, hown, hbelow]
    exact ⟨own ++ below, rfl, hcovers.append hcovers'⟩

theorem metadataRecordsList_covers : ∀ xs : List Value, wellFormedList xs = true →
    ∃ records, metadataRecordsList sha256 xs = .ok records ∧
      Covers records (metadataClaimsList xs)
  | [], _ => ⟨[], rfl, covers_nil _⟩
  | x :: xs, h => by
    rw [wellFormedList, Bool.and_eq_true] at h
    obtain ⟨first, hfirst, hcovers⟩ := metadataRecords_covers x h.1
    obtain ⟨rest, hrest, hcovers'⟩ := metadataRecordsList_covers xs h.2
    rw [metadataRecordsList, metadataClaimsList, hfirst, hrest]
    exact ⟨first ++ rest, rfl, hcovers.append hcovers'⟩

theorem metadataRecordsDict_covers : ∀ d : List (String × Value), wellFormedDict d = true →
    ∃ records, metadataRecordsDict sha256 d = .ok records ∧
      Covers records (metadataClaimsDict d)
  | [], _ => ⟨[], rfl, covers_nil _⟩
  | (key, v) :: d, h => by
    rw [wellFormedDict, wellFormedEntry, Bool.and_eq_true] at h
    obtain ⟨below, hbelow, hcovers⟩ := metadataRecords_covers v h.1
    obtain ⟨rest, hrest, hcovers'⟩ := metadataRecordsDict_covers d h.2
    rw [metadataRecordsDict, metadataRecordsEntry, metadataClaimsDict, metadataClaimsEntry, hbelow,
      hrest]
    have hkey : Covers (keyRecords key v ++ below) ([] ++ metadataClaims v) :=
      (covers_nil _).append hcovers
    exact ⟨_, rfl, hkey.append hcovers'⟩

end

/-! ## The inventory has every claim -/

/-- A merged list has one record for each path, and every record is right. -/
structure Merged (receipts : List Receipt) : Prop where
  nodup : (receipts.map Receipt.path).Nodup
  absolute : ∀ r ∈ receipts, (PurePath.parse r.path).IsAbsolute
  hex : ∀ r ∈ receipts, isHex 64 r.sha256 = true

theorem hashRows_rowOf {receipts : List Receipt} (h : Merged receipts)
    {result : List (String × String)}
    (hapart : ∀ r ∈ receipts, r.path ∉ result.map Prod.fst) :
    hashRows result (receipts.map rowOf) =
      .ok (result ++ receipts.map fun r => (r.path, r.sha256)) := by
  induction receipts generalizing result with
  | nil => simp [hashRows]
  | cons r receipts ih =>
    obtain ⟨hnodup, habs, hhex⟩ := h
    rw [List.map_cons, List.nodup_cons] at hnodup
    obtain ⟨hr, hrest⟩ := List.forall_mem_cons.mp hapart
    obtain ⟨habs', habs⟩ := List.forall_mem_cons.mp habs
    obtain ⟨hhex', hhex⟩ := List.forall_mem_cons.mp hhex
    have hrow : hashRow result (rowOf r) = .ok (r.path, r.sha256) := by
      have hpath : Value.get [("absolute_path", .str r.path), ("sha256", .str r.sha256)]
          "absolute_path" = .str r.path := rfl
      have hsha : Value.get [("absolute_path", .str r.path), ("sha256", .str r.sha256)]
          "sha256" = .str r.sha256 := rfl
      rw [rowOf, hashRow, hpath, hsha]
      dsimp only
      rw [(require_eq_ok_iff (u := ())).mpr habs', (require_eq_ok_iff (u := ())).mpr hhex',
        (require_eq_ok_iff (u := ())).mpr hr]
      rfl
    have hnext : ∀ r' ∈ receipts, r'.path ∉ (result ++ [(r.path, r.sha256)]).map Prod.fst := by
      intro r' hr' hmem
      rw [List.map_append, List.map_singleton, List.mem_append, List.mem_singleton] at hmem
      rcases hmem with hmem | heq
      · exact hrest r' hr' hmem
      · exact hnodup.1 (List.mem_map.mpr ⟨r', hr', heq⟩)
    rw [List.map_cons, hashRows, hrow]
    show hashRows (result ++ [(r.path, r.sha256)]) (receipts.map rowOf) = _
    rw [ih ⟨hnodup.2, habs, hhex⟩ hnext, List.append_assoc]
    rfl

theorem merged_of_mergeRecords {items : List InputRecord} {receipts : List Receipt}
    (h : mergeRecords items = .ok receipts) : Merged receipts := by
  refine ⟨nodup_mergeRecords h, ?_, ?_⟩
  · intro r hr
    obtain ⟨item, -, hread⟩ := (mem_mergeRecords h r).mp hr
    exact (read_eq_ok hread).1
  · intro r hr
    obtain ⟨item, -, hread⟩ := (mem_mergeRecords h r).mp hr
    exact (read_eq_ok hread).2

/-- **Every claim of a receipt is in the inventory.**  A receipt of which the paths are absolute and
in normal form, and the hashes are hashes, is read by both collectors; every claim is a record; and
where the records can be merged, the inventory gives each claimed path the claimed hash. -/
theorem metadataClaims_inventoried (sha256 : String → Except Exn String) (v : Value)
    (h : wellFormed v = true) :
    ∃ records, metadataRecords sha256 v = .ok records ∧
      (∀ c ∈ metadataClaims v, ⟨.str c.1, c.2⟩ ∈ records) ∧
      ∀ receipts, mergeRecords records = .ok receipts →
        ∃ table, hashRecords (.list (receipts.map rowOf)) = .ok table ∧
          ∀ c ∈ metadataClaims v, (table.lookup c.1).map Value.str = some c.2 := by
  obtain ⟨records, hok, hcovers⟩ := @metadataRecords_covers sha256 v h
  refine ⟨records, hok, fun c hc => (hcovers c hc).1, fun receipts hmerge => ?_⟩
  have hmerged := merged_of_mergeRecords hmerge
  refine ⟨_, hashRows_rowOf hmerged fun r _ => List.not_mem_nil, fun c hc => ?_⟩
  obtain ⟨hrecord, hash, hvalue, hhex, hnormal⟩ := hcovers c hc
  rw [hvalue] at hrecord ⊢
  rw [isNormalPath, Bool.and_eq_true, decide_eq_true_eq, decide_eq_true_eq] at hnormal
  have hread : InputRecord.read ⟨.str c.1, .str hash⟩ = .ok ⟨c.1, hash⟩ := by
    rw [InputRecord.read]
    dsimp only
    rw [if_pos ⟨hnormal.1, hhex⟩, hnormal.2]
  have hmem := (mem_mergeRecords hmerge ⟨c.1, hash⟩).mpr ⟨_, hrecord, hread⟩
  have hnodup : ((receipts.map fun r => (r.path, r.sha256)).map Prod.fst).Nodup := by
    rw [List.map_map]
    exact hmerged.nodup
  have hentry : (c.1, hash) ∈ receipts.map fun r => (r.path, r.sha256) :=
    List.mem_map.mpr ⟨_, hmem, rfl⟩
  rw [List.nil_append, Keyed.lookup_of_mem hnodup hentry]
  rfl

/-- A receipt with hashes by path, a directory of files and a library. -/
def toolReceipt : Value :=
  .dict [("input_hashes", .dict [("/r/harness.c", .str driverHash)]),
    ("support_data", .dict [("directory", .str "/r"),
      ("files", .dict [("specs.h", .str driverHash)])]),
    ("libraries", .dict [("example", .dict [("resolved_path", .str "/r/notes.md"),
      ("sha256", .str driverHash)])])]

/-- No file can be read now. -/
def unreadable (path : String) : Except Exn String := .error ⟨.osError, path⟩

theorem metadataClaims_inventoried_toolReceipt :
    ∃ records receipts table, metadataRecords unreadable toolReceipt = .ok records ∧
      mergeRecords records = .ok receipts ∧
      hashRecords (.list (receipts.map rowOf)) = .ok table ∧
      (table.lookup "/r/specs.h").map Value.str = some (.str driverHash) ∧
      (table.lookup "/r/notes.md").map Value.str = some (.str driverHash) := by
  obtain ⟨records, hrecords, -, htable⟩ :=
    metadataClaims_inventoried unreadable toolReceipt (by decide +kernel)
  have hmerges : returns (metadataRecords unreadable toolReceipt >>= mergeRecords)
      (fun _ => true) = true := by decide +kernel
  rw [hrecords] at hmerges
  obtain ⟨receipts, hreceipts, -⟩ := exists_of_returns hmerges
  obtain ⟨table, hok, hlookup⟩ := htable receipts hreceipts
  exact ⟨records, receipts, table, hrecords, hreceipts, hok,
    hlookup ("/r/specs.h", .str driverHash) (by decide +kernel),
    hlookup ("/r/notes.md", .str driverHash) (by decide +kernel)⟩

end Replay
end Fragma
