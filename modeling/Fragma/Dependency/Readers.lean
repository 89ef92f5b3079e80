import Mathlib.Data.List.Dedup
import Mathlib.Data.List.Lex
import Mathlib.Data.List.Sort
import Mathlib.Data.Nat.Notation
import Fragma.Dependency.Rule
import Fragma.Posix.PurePath
import Fragma.Python.Loops

/-!
# Reading dependencies back

`dependency_paths` and `input_receipts` of `fragma/inputs.py`, and the second reader of the same format
in `_configured_kernel_check` of `fragma/profiles.py`.  Both split the rule with a shell lexer; the second
one does not halve the dollar signs.

* `Host`: the files and the repository that the readers look at.
* `dependencyPaths`, `inputReceipts`, `configuredInputs`: the functions.
* `dependencyPaths_rule`, `mem_configuredInputs`: what the readers return for a rule.
* `inputReceipts_eq_ok`: **one record for each path.**
-/

namespace Fragma
namespace Dependency

open Provenance Python Shlex Posix

/-! ## The functions -/

/-- What the readers look at. -/
structure Host where
  /-- `path.is_file()` -/
  isFile : PurePath → Bool
  /-- `path.resolve()` -/
  resolve : PurePath → PurePath
  resolve_resolve : ∀ P, resolve (resolve P) = resolve P
  /-- `sha256(path)` -/
  sha256 : PurePath → Except Exn String
  /-- `resolve_revision(tree, revision)` -/
  resolveRevision : PurePath → String → Except Exn String
  /-- the hash of what `git -C tree show object` writes, or nothing where it fails -/
  gitShow : PurePath → String → Except Exn (Option String)

def sourceError (message : String) : Exn := ⟨.valueError, message⟩

def profileError (message : String) : Exn := ⟨.valueError, message⟩

/-- `text.split(":", 1)[1]` -/
def afterColon (text : Text) : Except Exn Text :=
  match text.dropWhile (· ≠ ':') with
  | _ :: rest => .ok rest
  | [] => .error ⟨.indexError, "list index out of range"⟩

/-- The order of paths: by the parts between their slashes. -/
def sortKey (P : PurePath) : List Text := P.renderChars.splitOn '/'

/-- `sorted(set(paths))` -/
def sortPaths (paths : List PurePath) : List PurePath :=
  paths.dedup.insertionSort fun P Q => sortKey P ≤ sortKey Q

/-- `item if item.is_absolute() else cwd / item` for `item = Path(word)`. -/
def itemOf (cwd : PurePath) (word : Text) : PurePath :=
  if (PurePath.parseChars word).IsAbsolute then .parseChars word else cwd.join (.parseChars word)

/-- One word of the first reader. -/
def consumedInput (h : Host) (cwd : PurePath) (word : Text) : Except Exn PurePath := do
  raiseIf (h.isFile (itemOf cwd word) = false) (sourceError "missing consumed input")
  pure (h.resolve (itemOf cwd word))

/-- `dependency_paths(path, cwd)`, where the text of `path` is given if it is a file. -/
def dependencyPaths (h : Host) (path : Option Text) (cwd : PurePath) : Except Exn (List PurePath) := do
  let raw ← orRaise path (sourceError "preprocessor did not emit dependencies")
  let text := splice (normalise raw)
  raiseIf (¬ target <+: text) (sourceError "unexpected dependency-file target")
  let words ← split (undouble (← afterColon text))
  let paths ← words.mapM (consumedInput h cwd)
  raiseIf (paths = []) (sourceError "preprocessor emitted an empty dependency list")
  pure (sortPaths paths)

/-- A record of `check_snapshot_files`. -/
structure SnapshotRecord where
  path : String
  sha256 : String
  expectedSha256 : String
  passed : Bool
  deriving DecidableEq, Repr

/-- `check_snapshot_files(tree, revision, source, paths)` -/
def checkSnapshotFiles (h : Host) (tree : PurePath) (revision : String) (source : PurePath)
    (paths : List PurePath) : Except Exn (List SnapshotRecord) := do
  let commit ← h.resolveRevision tree revision
  let source := h.resolve source
  (sortPaths (paths.map h.resolve)).mapM fun path => do
    raiseIf (¬ path.IsRelativeTo source) (sourceError "input is outside source snapshot")
    let relative := (path.relativeTo source).render
    let expected ← orRaise (← h.gitShow tree (commit ++ ":" ++ relative))
      (sourceError "input is not tracked")
    let actual ← h.sha256 path
    pure ⟨relative, actual, expected, actual = expected⟩

/-- Where an input comes from. -/
inductive InputOrigin where
  | kernel
  | kernelBuild
  | project
  deriving DecidableEq, Repr

/-- The record of an input; those of the kernel carry the snapshot record too. -/
structure Receipt where
  origin : InputOrigin
  path : String
  absolutePath : String
  sha256 : String
  snapshot : Option SnapshotRecord
  deriving DecidableEq, Repr

/-- The build of a kernel: where its sources and its own files are. -/
structure Build where
  source : String
  path : String

/-- The origin of a path outside the snapshot, and the path below that place. -/
def otherOrigin (root buildPath path : PurePath) : Except Exn (InputOrigin × PurePath) :=
  if path.IsRelativeTo buildPath then .ok (.kernelBuild, path.relativeTo buildPath)
  else if path.IsRelativeTo root then .ok (.project, path.relativeTo root)
  else .error (sourceError "unclassified host header in proof inputs")

/-- The record of such a path. -/
def otherReceipt (h : Host) (root buildPath path : PurePath) : Except Exn Receipt := do
  let place ← otherOrigin root buildPath path
  let digest ← h.sha256 path
  pure ⟨place.1, place.2.render, path.render, digest, none⟩

/-- `input_receipts(root, kernel, revision, build, paths)` -/
def inputReceipts (h : Host) (root kernel : PurePath) (revision : String) (build : Build)
    (paths : List PurePath) : Except Exn (List Receipt) := do
  let source := h.resolve (.parse build.source)
  let buildPath := h.resolve (.parse build.path)
  let records ← checkSnapshotFiles h kernel revision source
    (paths.filter fun path => path.IsRelativeTo source)
  raiseIf (∃ record ∈ records, record.passed = false)
    (sourceError "consumed kernel source/header differs from pinned git revision")
  let others ← (paths.filter fun path => ¬ path.IsRelativeTo source).mapM (otherReceipt h root buildPath)
  pure (records.map (fun record => ⟨.kernel, record.path,
    (source.join (.parse record.path)).render, record.sha256, some record⟩) ++ others)

/-- `hashes[key] = value` -/
def setItem (hashes : List (String × String)) (key value : String) : List (String × String) :=
  if key ∈ hashes.map Prod.fst then hashes.map fun p => if p.1 = key then (key, value) else p
  else hashes ++ [(key, value)]

/-- One file of the second reader. -/
def configuredInput (h : Host) (directory snapshot kernel : PurePath) (revision : String)
    (hashes : List (String × String)) (value : Text) : Except Exn (List (String × String)) := do
  let path := h.resolve (itemOf directory value)
  let digest ← h.sha256 path
  if path.IsRelativeTo snapshot then
    let relative := (path.relativeTo snapshot).render
    let original ← h.gitShow kernel (revision ++ ":" ++ relative)
    raiseIf (original ≠ some digest) (profileError "Configured calibration source/header drift")
  pure (setItem hashes path.render digest)

/-- The dependencies of `_configured_kernel_check`: the hashes of the files that the text names. -/
def configuredInputs (h : Host) (text : Text) (directory snapshot kernel : PurePath)
    (revision : String) : Except Exn (List (String × String)) := do
  let words ← split (← afterColon (splice (normalise text)))
  words.foldlM (configuredInput h directory snapshot kernel revision) []

/-! ## What the functions return -/

theorem sortKey_injective : Function.Injective sortKey := fun P Q h => by
  have hjoin := congrArg ['/'].intercalate h
  rw [sortKey, sortKey, List.intercalate_splitOn, List.intercalate_splitOn] at hjoin
  exact PurePath.renderChars_injective hjoin

@[simp] theorem mem_sortPaths {paths : List PurePath} {P : PurePath} : P ∈ sortPaths paths ↔ P ∈ paths := by
  rw [sortPaths, List.mem_insertionSort, List.mem_dedup]

theorem nodup_sortPaths (paths : List PurePath) : (sortPaths paths).Nodup :=
  (List.perm_insertionSort _ _).nodup_iff.mpr (List.nodup_dedup paths)

/-- A sorted set is in strictly ascending order. -/
theorem pairwise_sortPaths (paths : List PurePath) :
    (sortPaths paths).Pairwise fun P Q => sortKey P < sortKey Q := by
  have hsorted : (sortPaths paths).Pairwise fun P Q => sortKey P ≤ sortKey Q :=
    List.pairwise_insertionSort _ _
  refine (hsorted.and (nodup_sortPaths paths)).imp fun ⟨hle, hne⟩ => ?_
  exact lt_of_le_of_ne hle fun heq => hne (sortKey_injective heq)

theorem splice_rule (ds : List Prerequisite) :
    splice (normalise (ruleText ds)) = target ++ splice (normalise (listText ds)) := by
  have hreturn : ¬ CutsLineEnding target (listText ds) := fun h => absurd h.1 (by decide)
  rw [ruleText, normalise_append hreturn, show normalise target = target from rfl,
    splice_append fun h => absurd h.1 (by decide)]
  rfl

theorem afterColon_rule (rest : Text) : afterColon (target ++ rest) = .ok rest := rfl

theorem consumedInput_eq_ok_iff {h : Host} {cwd : PurePath} {word : Text} {P : PurePath} :
    consumedInput h cwd word = .ok P ↔
      h.isFile (itemOf cwd word) = true ∧ h.resolve (itemOf cwd word) = P := by
  simp [consumedInput, bind_eq_ok_iff, pure, Except.pure]

/-- What the first reader returns for a rule. -/
theorem dependencyPaths_rule {h : Host} {ds : List Prerequisite} {cwd : PurePath} {paths : List PurePath} :
    dependencyPaths h (some (ruleText ds)) cwd = .ok paths ↔
      ∃ words, split (undouble (splice (normalise (listText ds)))) = .ok words ∧ words ≠ [] ∧
        (∀ w ∈ words, h.isFile (itemOf cwd w) = true) ∧
        paths = sortPaths (words.map fun w => h.resolve (itemOf cwd w)) := by
  have hmap : ∀ (words : List Text) (items : List PurePath), words.mapM (consumedInput h cwd) = .ok items ↔
      (∀ w ∈ words, h.isFile (itemOf cwd w) = true) ∧
        items = words.map fun w => h.resolve (itemOf cwd w) := by
    intro words items
    rw [mapM_eq_ok_iff]
    simp only [consumedInput_eq_ok_iff]
    constructor
    · intro hall
      refine ⟨fun w hw => ?_, ?_⟩
      · obtain ⟨P, -, hfile, -⟩ := exists_of_forall₂_left hall hw
        exact hfile
      · have hsame : words.map (fun w => h.resolve (itemOf cwd w)) = items.map id :=
          map_eq_map_of_forall₂ (hall.imp fun w P hP => hP.2)
        rw [hsame, List.map_id]
    · rintro ⟨hfile, rfl⟩
      exact List.forall₂_map_right_iff.mpr (List.forall₂_same.mpr fun w hw => ⟨hfile w hw, rfl⟩)
  constructor
  · intro hok
    obtain ⟨raw, hraw, hok⟩ := bind_eq_ok_iff.mp hok
    obtain ⟨-, -, hok⟩ := bind_eq_ok_iff.mp hok
    obtain ⟨rest, hrest, hok⟩ := bind_eq_ok_iff.mp hok
    obtain ⟨words, hwords, hok⟩ := bind_eq_ok_iff.mp hok
    obtain ⟨items, hitems, hok⟩ := bind_eq_ok_iff.mp hok
    obtain ⟨u, hne, hlast⟩ := bind_eq_ok_iff.mp hok
    rw [← Option.some.inj (orRaise_eq_ok_iff.mp hraw), splice_rule, afterColon_rule] at hrest
    rw [← Except.ok.inj hrest] at hwords
    obtain ⟨hfile, rfl⟩ := (hmap words items).mp hitems
    refine ⟨words, hwords, ?_, hfile, (Except.ok.inj hlast).symm⟩
    intro hnil
    exact raiseIf_eq_ok_iff.mp hne (by rw [hnil]; rfl)
  · rintro ⟨words, hwords, hne, hfile, rfl⟩
    refine bind_eq_ok_iff.mpr ⟨_, orRaise_eq_ok_iff.mpr rfl, bind_eq_ok_iff.mpr ⟨(), ?_, ?_⟩⟩
    · rw [splice_rule]
      exact raiseIf_eq_ok_iff.mpr (not_not.mpr (List.prefix_append _ _))
    · rw [splice_rule]
      refine bind_eq_ok_iff.mpr ⟨_, afterColon_rule _, bind_eq_ok_iff.mpr ⟨words, hwords, ?_⟩⟩
      refine bind_eq_ok_iff.mpr ⟨_, (hmap words _).mpr ⟨hfile, rfl⟩, bind_eq_ok_iff.mpr ⟨(), ?_, rfl⟩⟩
      exact raiseIf_eq_ok_iff.mpr (by simpa using hne)

theorem mem_setItem {hashes : List (String × String)} {key value name : String} :
    name ∈ (setItem hashes key value).map Prod.fst ↔ name = key ∨ name ∈ hashes.map Prod.fst := by
  unfold setItem
  split_ifs with hmem
  · have hkeys : (hashes.map fun p => if p.1 = key then (key, value) else p).map Prod.fst =
        hashes.map Prod.fst := by
      rw [List.map_map]
      refine List.map_congr_left fun p _ => ?_
      by_cases hp : p.1 = key <;> simp [hp]
    rw [hkeys]
    exact ⟨.inr, fun h => h.elim (fun heq => heq ▸ hmem) id⟩
  · simp [or_comm]

/-- What the second reader returns for a rule. -/
theorem mem_configuredInputs {h : Host} {ds : List Prerequisite} {cwd snapshot kernel : PurePath}
    {revision : String} {hashes : List (String × String)}
    (hok : configuredInputs h (ruleText ds) cwd snapshot kernel revision = .ok hashes) :
    ∃ words, split (splice (normalise (listText ds))) = .ok words ∧
      ∀ name, name ∈ hashes.map Prod.fst ↔ ∃ w ∈ words, name = (h.resolve (itemOf cwd w)).render := by
  obtain ⟨rest, hrest, hok⟩ := bind_eq_ok_iff.mp hok
  rw [splice_rule, afterColon_rule] at hrest
  obtain ⟨words, hwords, hfold⟩ := bind_eq_ok_iff.mp hok
  rw [← Except.ok.inj hrest] at hwords
  refine ⟨words, hwords, ?_⟩
  have hrun : ∀ (words : List Text) (before after : List (String × String)),
      words.foldlM (configuredInput h cwd snapshot kernel revision) before = .ok after →
      ∀ name, name ∈ after.map Prod.fst ↔ name ∈ before.map Prod.fst ∨
        ∃ w ∈ words, name = (h.resolve (itemOf cwd w)).render := by
    intro words
    induction words with
    | nil =>
      intro before after hnil name
      rw [List.foldlM_nil] at hnil
      rw [Except.ok.inj hnil]
      simp
    | cons w words ih =>
      intro before after hcons name
      obtain ⟨middle, hw, hrest⟩ := foldlM_cons_eq_ok_iff.mp hcons
      have hkeys : ∀ name, name ∈ middle.map Prod.fst ↔
          name = (h.resolve (itemOf cwd w)).render ∨ name ∈ before.map Prod.fst := by
        obtain ⟨digest, -, hw⟩ := bind_eq_ok_iff.mp hw
        intro name
        split_ifs at hw
        · obtain ⟨original, -, hw⟩ := bind_eq_ok_iff.mp hw
          obtain ⟨u, -, hlast⟩ := bind_eq_ok_iff.mp hw
          rw [← Except.ok.inj hlast, mem_setItem]
        · rw [← Except.ok.inj hw, mem_setItem]
      rw [ih middle after hrest name, hkeys]
      simp only [List.mem_cons, exists_eq_or_imp]
      tauto
  intro name
  rw [hrun words [] hashes hfold name]
  simp

/-! ## Receipts -/

theorem join_relativeTo {P Q : PurePath} (h : P.IsRelativeTo Q) : Q.join (P.relativeTo Q) = P := by
  obtain ⟨hroot, rest, hrest⟩ := h
  have hdrop : P.tail.drop Q.tail.length = rest := by rw [← hrest, List.drop_left]
  rw [PurePath.join, if_neg (by simp [PurePath.IsAbsolute, PurePath.relativeTo]), PurePath.relativeTo, hdrop]
  exact PurePath.ext hroot.symm hrest

/-- The snapshot records stand for the files in order. -/
theorem checkSnapshotFiles_eq_ok {h : Host} {tree source : PurePath} {revision : String}
    {paths : List PurePath} {records : List SnapshotRecord}
    (hok : checkSnapshotFiles h tree revision source paths = .ok records) :
    List.Forall₂ (fun P r => P.IsRelativeTo (h.resolve source) ∧
      r.path = (P.relativeTo (h.resolve source)).render) (sortPaths (paths.map h.resolve)) records := by
  obtain ⟨commit, -, hok⟩ := bind_eq_ok_iff.mp hok
  refine (mapM_eq_ok_iff.mp hok).imp fun P r hr => ?_
  obtain ⟨u, hrelative, hr⟩ := bind_eq_ok_iff.mp hr
  obtain ⟨shown, -, hr⟩ := bind_eq_ok_iff.mp hr
  obtain ⟨expected, -, hr⟩ := bind_eq_ok_iff.mp hr
  obtain ⟨actual, -, hlast⟩ := bind_eq_ok_iff.mp hr
  rw [← Except.ok.inj hlast]
  exact ⟨not_not.mp (raiseIf_eq_ok_iff.mp hrelative), rfl⟩

theorem otherReceipt_eq_ok {h : Host} {root buildPath P : PurePath} {r : Receipt}
    (hok : otherReceipt h root buildPath P = .ok r) : r.absolutePath = P.render ∧ r.origin ≠ .kernel := by
  obtain ⟨place, hplace, hok⟩ := bind_eq_ok_iff.mp hok
  obtain ⟨digest, -, hlast⟩ := bind_eq_ok_iff.mp hok
  rw [← Except.ok.inj hlast]
  refine ⟨rfl, ?_⟩
  unfold otherOrigin at hplace
  split_ifs at hplace
  · rw [← Except.ok.inj hplace]
    simp
  · rw [← Except.ok.inj hplace]
    simp

/-- **One record for each path, from the kernel just where the path is under its sources.** -/
theorem inputReceipts_eq_ok {h : Host} {root kernel : PurePath} {revision : String} {build : Build}
    {paths : List PurePath} {records : List Receipt} (hnodup : paths.Nodup)
    (hresolved : ∀ P ∈ paths, h.resolve P = P)
    (hok : inputReceipts h root kernel revision build paths = .ok records) :
    (records.map Receipt.absolutePath).Perm (paths.map PurePath.render) ∧
      ∀ r ∈ records, ∃ P ∈ paths, r.absolutePath = P.render ∧
        (r.origin = .kernel ↔ P.IsRelativeTo (h.resolve (.parse build.source))) := by
  obtain ⟨snapshots, hsnapshots, hok⟩ := bind_eq_ok_iff.mp hok
  obtain ⟨u, -, hok⟩ := bind_eq_ok_iff.mp hok
  obtain ⟨others, hothers, hlast⟩ := bind_eq_ok_iff.mp hok
  rw [← Except.ok.inj hlast]
  have hsame : ∀ ps : List PurePath, (∀ P ∈ ps, P ∈ paths) → ps.map h.resolve = ps := fun ps hps =>
    (List.map_congr_left fun P hP => hresolved P (hps P hP)).trans (List.map_id ps)
  have hkernel := checkSnapshotFiles_eq_ok hsnapshots
  rw [hsame _ fun P hP => (List.mem_filter.mp hP).1, h.resolve_resolve] at hkernel
  have hothers := (mapM_eq_ok_iff.mp hothers).imp fun P r hr => otherReceipt_eq_ok hr
  have hback : ∀ {P : PurePath} {r : SnapshotRecord},
      P.IsRelativeTo (h.resolve (.parse build.source)) ∧
        r.path = (P.relativeTo (h.resolve (.parse build.source))).render →
      ((h.resolve (.parse build.source)).join (.parse r.path)).render = P.render := by
    rintro P r ⟨hrelative, hpath⟩
    rw [hpath, PurePath.parse_render, join_relativeTo hrelative]
  constructor
  · have hsnapshot : (snapshots.map fun r =>
        ((h.resolve (.parse build.source)).join (.parse r.path)).render) =
          (sortPaths (paths.filter fun P => P.IsRelativeTo (h.resolve (.parse build.source)))).map
            PurePath.render :=
      (map_eq_map_of_forall₂ (hkernel.imp fun P r hr => (hback hr).symm)).symm
    have hother : others.map Receipt.absolutePath =
        (paths.filter fun P => ¬ P.IsRelativeTo (h.resolve (.parse build.source))).map PurePath.render :=
      (map_eq_map_of_forall₂ (hothers.imp fun P r hr => hr.1.symm)).symm
    have hsorted : (sortPaths (paths.filter fun P =>
        P.IsRelativeTo (h.resolve (.parse build.source)))).Perm
          (paths.filter fun P => P.IsRelativeTo (h.resolve (.parse build.source))) := by
      refine (List.perm_insertionSort _ _).trans ?_
      rw [(hnodup.filter _).dedup]
    rw [List.map_append, List.map_map]
    refine (List.Perm.of_eq (congrArg₂ _ hsnapshot hother)).trans ?_
    rw [← List.map_append]
    refine ((hsorted.append_right _).trans ?_).map _
    have hsplit := List.filter_append_perm
      (fun P : PurePath => decide (P.IsRelativeTo (h.resolve (.parse build.source)))) paths
    simpa using hsplit
  · intro r hr
    rcases List.mem_append.mp hr with hr | hr
    · obtain ⟨record, hrecord, rfl⟩ := List.mem_map.mp hr
      obtain ⟨P, hP, hPr⟩ := exists_of_forall₂_right hkernel hrecord
      refine ⟨P, (List.mem_filter.mp (mem_sortPaths.mp hP)).1, hback hPr, iff_of_true rfl hPr.1⟩
    · obtain ⟨P, hP, hpath, horigin⟩ := exists_of_forall₂_right hothers hr
      obtain ⟨hmem, hnot⟩ := List.mem_filter.mp hP
      exact ⟨P, hmem, hpath, iff_of_false horigin (by simpa using hnot)⟩

end Dependency
end Fragma
