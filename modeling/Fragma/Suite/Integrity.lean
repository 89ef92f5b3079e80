import Mathlib.Data.List.Sort
import Fragma.Posix.PurePath
import Fragma.Report.Companions

/-!
# Input drift

`fragma/integrity.py`: `merge_records`, `changed_files` and `invalidate`, and
`finalize_results` of `fragma/suite.py`.  A run records the hash of every input.  At the
end the files are hashed once more.  A target with a changed input loses its verdict,
and only after that the companions are resolved, so that a companion with a changed
input certifies nothing.

* `InputRecord`, `mergeRecords`, `changedFiles`: the recorded hashes and the current ones.
* `Drifts`, `changedFiles_eq_nil_iff`: what counts as a change.
* `Item`, `finalizeResults`: the last step of a run.
* `Finalized`, `finalizeResults_finalized`: **drift reaches every dependent verdict.**
-/

namespace Fragma
namespace Suite

open Python Posix Keyed Report

/-! ## Recorded hashes -/

/-- An entry of an input list, as it was recorded. -/
structure InputRecord where
  absolutePath : Value
  sha256 : Value

/-- An entry that passed its check. -/
structure Receipt where
  path : String
  sha256 : String
  deriving DecidableEq

/-- A receipt as an entry of an input list. -/
def Receipt.record (r : Receipt) : InputRecord := ⟨.str r.path, .str r.sha256⟩

/-- `SourceError(message)`. -/
def sourceError (message : String) : Exn := ⟨.valueError, message⟩

/-- The check of one entry.  The path is written in its normal form. -/
def InputRecord.read (item : InputRecord) : Except Exn Receipt :=
  match item.absolutePath, item.sha256 with
  | .str filename, .str expected =>
    if (PurePath.parse filename).IsAbsolute ∧ isHex 64 expected then
      .ok ⟨(PurePath.parse filename).render, expected⟩
    else .error (sourceError "malformed input-integrity record")
  | _, _ => .error (sourceError "malformed input-integrity record")

/-- One turn of `merge_records`. -/
def mergeRecord (records : List Receipt) (item : InputRecord) : Except Exn (List Receipt) := do
  let r ← item.read
  match findKey Receipt.path r.path records with
  | some seen =>
    if seen.sha256 ≠ r.sha256 then
      .error (sourceError ("conflicting observations of input: " ++ r.path))
    else .ok records
  | none => .ok (records ++ [r])

/-- The loop of `merge_records`. -/
def mergeFrom (records : List Receipt) : List InputRecord → Except Exn (List Receipt)
  | [] => .ok records
  | item :: items => do mergeFrom (← mergeRecord records item) items

/-- `merge_records(items)`. -/
def mergeRecords (items : List InputRecord) : Except Exn (List Receipt) :=
  (mergeFrom [] items).map fun records => records.insertionSort fun a b => a.path ≤ b.path

/-- A file whose hash is not the recorded one. -/
structure Change where
  receipt : Receipt
  actual : Option String
  deriving DecidableEq

/-- The entry that `changed_files` returns. -/
def Change.value (c : Change) : Value :=
  .dict [("absolute_path", .str c.receipt.path), ("sha256", .str c.receipt.sha256),
    ("actual_sha256", (c.actual.map Value.str).getD .none)]

section Hashes

-- the hash of a file, where there is one
variable (hash : String → Option String)

/-- The change of one file. -/
def changeOf (r : Receipt) : Option Change :=
  if hash r.path = some r.sha256 then none else some ⟨r, hash r.path⟩

/-- `changed_files(records)`. -/
def changedFiles (items : List InputRecord) : Except Exn (List Change) :=
  (mergeRecords items).map fun records => records.filterMap (changeOf hash)

/-- The entry has another hash now. -/
def Drifts (item : InputRecord) : Prop := ∃ r, item.read = .ok r ∧ hash r.path ≠ some r.sha256

end Hashes

/-! ## What a list of changes says -/

theorem mergeRecord_eq_ok {records out : List Receipt} {item : InputRecord}
    (h : mergeRecord records item = .ok out) :
    ∃ r, item.read = .ok r ∧ ∀ x, x ∈ out ↔ x ∈ records ∨ x = r := by
  unfold mergeRecord at h
  obtain ⟨r, hr, h⟩ := bind_eq_ok_iff.mp h
  refine ⟨r, hr, fun x => ?_⟩
  split at h
  · next seen hseen =>
    split_ifs at h with hsame
    obtain ⟨hmem, hpath⟩ := mem_of_findKey hseen
    have hr : seen = r := by
      rw [not_not] at hsame
      cases seen
      cases r
      simp only at hpath hsame
      rw [hpath, hsame]
    rw [← Except.ok.inj h]
    constructor
    · exact Or.inl
    · rintro (hx | rfl)
      · exact hx
      · exact hr ▸ hmem
  · rw [← Except.ok.inj h, List.mem_append, List.mem_singleton]

theorem mergeFrom_eq_ok {records out : List Receipt} {items : List InputRecord}
    (h : mergeFrom records items = .ok out) :
    (∀ item ∈ items, ∃ r, item.read = .ok r) ∧
      ∀ x, x ∈ out ↔ x ∈ records ∨ ∃ item ∈ items, item.read = .ok x := by
  induction items generalizing records with
  | nil =>
    rw [← Except.ok.inj h]
    exact ⟨fun item hitem => absurd hitem List.not_mem_nil, fun x => by simp⟩
  | cons item items ih =>
    rw [mergeFrom] at h
    obtain ⟨middle, hmiddle, h⟩ := bind_eq_ok_iff.mp h
    obtain ⟨r, hr, hmem⟩ := mergeRecord_eq_ok hmiddle
    obtain ⟨hread, hout⟩ := ih h
    refine ⟨List.forall_mem_cons.mpr ⟨⟨r, hr⟩, hread⟩, fun x => ?_⟩
    rw [hout, hmem, or_assoc, List.exists_mem_cons_iff, hr, Except.ok.injEq, eq_comm]

/-- The merged entries are the entries of the list. -/
theorem mem_mergeRecords {items : List InputRecord} {out : List Receipt}
    (h : mergeRecords items = .ok out) (x : Receipt) :
    x ∈ out ↔ ∃ item ∈ items, item.read = .ok x := by
  unfold mergeRecords at h
  cases hmerge : mergeFrom [] items with
  | error e =>
    rw [hmerge] at h
    exact absurd h (by simp [Except.map])
  | ok records =>
    rw [hmerge] at h
    rw [← Except.ok.inj h, List.mem_insertionSort, (mergeFrom_eq_ok hmerge).2]
    simp

/-- Every entry of a list that is merged passes its check. -/
theorem forall_read_of_mergeRecords {items : List InputRecord} {out : List Receipt}
    (h : mergeRecords items = .ok out) : ∀ item ∈ items, ∃ r, item.read = .ok r := by
  unfold mergeRecords at h
  cases hmerge : mergeFrom [] items with
  | error e =>
    rw [hmerge] at h
    exact absurd h (by simp [Except.map])
  | ok records => exact (mergeFrom_eq_ok hmerge).1

/-- An entry that passes its check is a hash of an absolute path. -/
theorem read_eq_ok {item : InputRecord} {r : Receipt} (h : item.read = .ok r) :
    (PurePath.parse r.path).IsAbsolute ∧ isHex 64 r.sha256 = true := by
  unfold InputRecord.read at h
  split at h
  · next filename expected _ _ =>
    split_ifs at h with hok
    obtain rfl := Except.ok.inj h
    exact ⟨by rw [PurePath.parse_render]; exact hok.1, hok.2⟩
  · exact absurd h (by simp)

theorem nodup_mergeRecord {records out : List Receipt} {item : InputRecord}
    (hnodup : (records.map Receipt.path).Nodup) (h : mergeRecord records item = .ok out) :
    (out.map Receipt.path).Nodup := by
  unfold mergeRecord at h
  obtain ⟨r, -, h⟩ := bind_eq_ok_iff.mp h
  split at h
  · split_ifs at h
    exact Except.ok.inj h ▸ hnodup
  · next hnone =>
    rw [← Except.ok.inj h, List.map_append, List.map_singleton]
    have hnew : r.path ∉ records.map Receipt.path := by
      intro hmem
      obtain ⟨seen, hseen, hpath⟩ := List.mem_map.mp hmem
      exact List.find?_eq_none.mp hnone seen hseen (decide_eq_true hpath)
    exact (List.perm_append_singleton _ _).nodup_iff.mpr (List.nodup_cons.mpr ⟨hnew, hnodup⟩)

theorem nodup_mergeFrom {records out : List Receipt} {items : List InputRecord}
    (hnodup : (records.map Receipt.path).Nodup) (h : mergeFrom records items = .ok out) :
    (out.map Receipt.path).Nodup := by
  induction items generalizing records with
  | nil => exact Except.ok.inj h ▸ hnodup
  | cons item items ih =>
    rw [mergeFrom] at h
    obtain ⟨middle, hmiddle, h⟩ := bind_eq_ok_iff.mp h
    exact ih (nodup_mergeRecord hnodup hmiddle) h

/-- **A merged list has one entry for each path.** -/
theorem nodup_mergeRecords {items : List InputRecord} {out : List Receipt}
    (h : mergeRecords items = .ok out) : (out.map Receipt.path).Nodup := by
  have hnil : (([] : List Receipt).map Receipt.path).Nodup := List.nodup_nil
  unfold mergeRecords at h
  cases hmerge : mergeFrom [] items with
  | error e =>
    rw [hmerge] at h
    exact absurd h (by simp [Except.map])
  | ok records =>
    rw [hmerge] at h
    rw [← Except.ok.inj h, ((List.perm_insertionSort _ _).map _).nodup_iff]
    exact nodup_mergeFrom hnil hmerge

/-- **No change is reported exactly when no entry drifts.** -/
theorem changedFiles_eq_nil_iff {hash : String → Option String} {items : List InputRecord}
    {changes : List Change} (h : changedFiles hash items = .ok changes) :
    changes = [] ↔ ∀ item ∈ items, ¬ Drifts hash item := by
  unfold changedFiles at h
  cases hmerge : mergeRecords items with
  | error e =>
    rw [hmerge] at h
    exact absurd h (by simp [Except.map])
  | ok records =>
    rw [hmerge] at h
    rw [← Except.ok.inj h, List.filterMap_eq_nil_iff]
    constructor
    · rintro hnone item hitem ⟨r, hr, hne⟩
      have hchange := hnone r ((mem_mergeRecords hmerge r).mpr ⟨item, hitem, hr⟩)
      unfold changeOf at hchange
      rw [if_neg hne] at hchange
      exact absurd hchange (by simp)
    · intro hsame r hr
      obtain ⟨item, hitem, hread⟩ := (mem_mergeRecords hmerge r).mp hr
      have heq : hash r.path = some r.sha256 := by
        by_contra hne
        exact hsame item hitem ⟨r, hread, hne⟩
      unfold changeOf
      rw [if_pos heq]

/-! ## The last step of a run -/

/-- The evidence of a target, as far as the last step looks at it. -/
structure Item where
  integrityInputs : List InputRecord
  evaluation : Record
  accepted : Bool
  status : Status
  changedInputs : List Change

namespace Item

/-- `invalidate(evidence, changes)`. -/
def invalidate (item : Item) (changes : List Change) : Item :=
  if changes = [] then item
  else
    { item with
      status := .inputChanged
      accepted := false
      changedInputs := changes
      evaluation :=
        { item.evaluation with
          status := .inputChanged
          accepted := false
          verified := false
          localPolicyPassed := false
          issues := item.evaluation.issues ++ [⟨.inputChanged,
            "A required input changed during the run",
            [("files", .list (changes.map Change.value))]⟩] } }

/-- `item.update(evaluation=…, accepted=…, status=…)`. -/
def update (item : Item) (evaluation : Record) : Item :=
  { item with
    evaluation := evaluation
    accepted := evaluation.accepted
    status := evaluation.status }

end Item

/-- The first loop of `finalize_results`. -/
def invalidateItem (hash : String → Option String) (shared : List Change) (item : Item) :
    Except Exn Item :=
  (changedFiles hash item.integrityInputs).map fun changes => item.invalidate (shared ++ changes)

/-- `finalize_results(items, shared_inputs)`. -/
def finalizeResults (hash : String → Option String) (items : List Item)
    (sharedInputs : List InputRecord) : Except Exn (List Item) := do
  let sharedChanges ← changedFiles hash sharedInputs
  let invalidated ←
    collect (fun item => (invalidateItem hash sharedChanges item).map fun i => [i]) items
  let finalized ← finalizeCompanions (invalidated.map Item.evaluation)
  .ok (List.zipWith Item.update invalidated finalized)

/-! ## Drift reaches every verdict -/

/-- A shared input or an input of the item drifts. -/
def Item.HasDrift (hash : String → Option String) (shared : List InputRecord) (item : Item) : Prop :=
  (∃ r ∈ shared, Drifts hash r) ∨ ∃ r ∈ item.integrityInputs, Drifts hash r

/-- What the last step guarantees for one item. -/
structure Finalized (hash : String → Option String) (shared : List InputRecord)
    (items : List Item) (item item' : Item) : Prop where
  unchanged : item'.accepted = true → ¬ item.HasDrift hash shared
  justified : item'.accepted = true →
    (item.evaluation.accepted = true ∧ ∀ id, ¬ item.evaluation.Waits id) ∨
      ∃ id, item.evaluation.Waits id ∧ item.evaluation.localPolicyPassed = true ∧
        ∃ c ∈ items, c.evaluation.targetId = id ∧ ¬ c.HasDrift hash shared
  invalidated : item.HasDrift hash shared → item'.accepted = false ∧ item'.status = .inputChanged ∧
    item'.evaluation.accepted = false ∧ item'.evaluation.verified = false ∧
    item'.evaluation.localPolicyPassed = false ∧ item'.evaluation.status = .inputChanged
  kept : ¬ item.HasDrift hash shared → item.evaluation.companionId = none →
    item'.evaluation = item.evaluation ∧ item'.accepted = item.evaluation.accepted ∧
      item'.status = item.evaluation.status

theorem invalidateItem_eq_ok {hash : String → Option String} {shared : List InputRecord}
    {sharedChanges : List Change} {item item' : Item}
    (hshared : changedFiles hash shared = .ok sharedChanges)
    (h : invalidateItem hash sharedChanges item = .ok item') :
    (¬ item.HasDrift hash shared ∧ item' = item) ∨
      (item.HasDrift hash shared ∧ item'.evaluation.targetId = item.evaluation.targetId ∧
        item'.evaluation.accepted = false ∧ item'.evaluation.verified = false ∧
        item'.evaluation.localPolicyPassed = false ∧ item'.evaluation.status = .inputChanged) := by
  unfold invalidateItem at h
  cases hown : changedFiles hash item.integrityInputs with
  | error e =>
    rw [hown] at h
    exact absurd h (by simp [Except.map])
  | ok changes =>
    rw [hown] at h
    have hout : item' = item.invalidate (sharedChanges ++ changes) := (Except.ok.inj h).symm
    rw [hout]
    have hdrift : sharedChanges ++ changes = [] ↔ ¬ item.HasDrift hash shared := by
      rw [List.append_eq_nil_iff, changedFiles_eq_nil_iff hshared, changedFiles_eq_nil_iff hown]
      simp [Item.HasDrift, not_or]
    unfold Item.invalidate
    split_ifs with hnil
    · exact Or.inl ⟨hdrift.mp hnil, rfl⟩
    · refine Or.inr ⟨?_, rfl, rfl, rfl, rfl, rfl⟩
      by_contra hno
      exact hnil (hdrift.mpr hno)

/-- Every record that the loop over the companions sees is one of the given ones, or
comes from one that waits. -/
def ComesFrom (records : List Record) (state : List Record) : Prop :=
  ∀ x ∈ state, ∃ y ∈ records, x.targetId = y.targetId ∧ ((∀ id, ¬ y.Waits id) → x = y)

theorem sweep_comesFrom (records : List Record) :
    List.Forall₂ (fun r r' => ∃ s, r ∈ s ∧ ComesFrom records s ∧ r' = Record.resolve s r) records
      (sweep Record.resolve records) := by
  refine forall₂_sweep (I := ComesFrom records) (fun x hx => ⟨x, hx, rfl, fun _ => rfl⟩) ?_
  intro front a back hI x hx
  rcases List.mem_append.mp hx with hx | hx
  · exact hI x (List.mem_append_left _ hx)
  · rcases List.mem_cons.mp hx with rfl | hx
    · obtain ⟨y, hy, hid, hsame⟩ := hI a (List.mem_append_right _ List.mem_cons_self)
      refine ⟨y, hy, (Record.targetId_resolve _ a).trans hid, fun hnone => ?_⟩
      rw [hsame hnone, Record.resolve_eq_self _ hnone]
    · exact hI x (List.mem_append_right _ (List.mem_cons_of_mem _ hx))

/-- What the loop over the companions does to one record. -/
theorem Finalized.of_resolve {hash : String → Option String} {shared : List InputRecord}
    {sharedChanges : List Change} {items invalidated : List Item} {item item' : Item}
    {state : List Record} (hshared : changedFiles hash shared = .ok sharedChanges)
    (hinvalidated : List.Forall₂ (fun i i' => invalidateItem hash sharedChanges i = .ok i') items
      invalidated)
    (hitem : invalidateItem hash sharedChanges item = .ok item')
    (hstate : ComesFrom (invalidated.map Item.evaluation) state) :
    Finalized hash shared items item (item'.update (Record.resolve state item'.evaluation)) := by
  -- a changed item waits for nothing, and stays as it is
  have hstays : item.HasDrift hash shared → ∀ id, ¬ item'.evaluation.Waits id := by
    intro hdrift id hw
    rcases invalidateItem_eq_ok hshared hitem with ⟨hno, -⟩ | ⟨-, -, -, -, -, hstatus⟩
    · exact hno hdrift
    · exact absurd (hstatus.symm.trans hw.2) (by decide)
  have hchanged : item.HasDrift hash shared → item'.evaluation.accepted = false ∧
      item'.evaluation.verified = false ∧ item'.evaluation.localPolicyPassed = false ∧
        item'.evaluation.status = .inputChanged := by
    intro hdrift
    rcases invalidateItem_eq_ok hshared hitem with ⟨hno, -⟩ | ⟨-, -, hrest⟩
    · exact absurd hdrift hno
    · exact hrest
  have hsame : ¬ item.HasDrift hash shared → item' = item := by
    intro hno
    rcases invalidateItem_eq_ok hshared hitem with ⟨-, heq⟩ | ⟨hdrift, -⟩
    · exact heq
    · exact absurd hdrift hno
  have hresolved : item.HasDrift hash shared →
      Record.resolve state item'.evaluation = item'.evaluation := fun hdrift =>
    Record.resolve_eq_self _ (hstays hdrift)
  have hunchanged : (Record.resolve state item'.evaluation).accepted = true →
      ¬ item.HasDrift hash shared := by
    intro haccepted hdrift
    rw [hresolved hdrift, (hchanged hdrift).1] at haccepted
    exact absurd haccepted (by simp)
  refine
    { unchanged := hunchanged
      justified := fun haccepted => ?_
      invalidated := fun hdrift => ?_
      kept := fun hno hnone => ?_ }
  · have heq := hsame (hunchanged haccepted)
    subst heq
    by_cases hwaits : ∃ id, item'.evaluation.Waits id
    · obtain ⟨id, hw⟩ := hwaits
      rcases hw.resolve_cases state with ⟨c, hc, hs, -⟩ | ⟨-, hreject⟩
      · obtain ⟨hmatch, hcertifies⟩ := Record.supports_iff.mp hs
        simp only [Record.matchesCompanion, Bool.and_eq_true] at hmatch
        refine Or.inr ⟨id, hw, by tauto, ?_⟩
        obtain ⟨hmem, hkey⟩ := mem_of_findKey hc
        obtain ⟨y, hy, hidy, hcy⟩ := hstate c hmem
        obtain ⟨i', hi', rfl⟩ := List.mem_map.mp hy
        obtain ⟨i, hi, hinv⟩ := exists_of_forall₂_right hinvalidated hi'
        rcases invalidateItem_eq_ok hshared hinv with ⟨hno, rfl⟩ | ⟨-, -, hacc, -, -, hst⟩
        · exact ⟨i', hi, hidy ▸ hkey, hno⟩
        · -- a changed companion is not accepted, so it supports nothing
          rw [hcy fun id' hw' => absurd (hst.symm.trans hw'.2) (by decide), Record.certifies, hacc]
            at hcertifies
          simp at hcertifies
      · exact absurd haccepted (by simp [Item.update, hreject, Record.reject])
    · have hnone : ∀ id, ¬ item'.evaluation.Waits id := fun id hw => hwaits ⟨id, hw⟩
      refine Or.inl ⟨?_, hnone⟩
      rw [← Record.resolve_eq_self state hnone]
      exact haccepted
  · obtain ⟨h1, h2, h3, h4⟩ := hchanged hdrift
    unfold Item.update
    rw [hresolved hdrift]
    exact ⟨h1, h4, h1, h2, h3, h4⟩
  · have heq := hsame hno
    subst heq
    have hres : Record.resolve state item'.evaluation = item'.evaluation :=
      Record.resolve_eq_self _ fun id hw => absurd (hnone.symm.trans hw.1) (by simp)
    unfold Item.update
    rw [hres]
    exact ⟨rfl, rfl, rfl⟩

theorem forall₂_update {records final : List Record} {invalidated : List Item}
    (h : List.Forall₂ (fun (i : Item) r' => ∃ s, i.evaluation ∈ s ∧ ComesFrom records s ∧
      r' = Record.resolve s i.evaluation) invalidated final) :
    List.Forall₂ (fun i i' => ∃ s, ComesFrom records s ∧
      i' = i.update (Record.resolve s i.evaluation)) invalidated
      (List.zipWith Item.update invalidated final) := by
  induction h with
  | nil => exact .nil
  | cons hhead _ ih =>
    obtain ⟨s, -, hs, rfl⟩ := hhead
    exact .cons ⟨s, hs, rfl⟩ ih

/-- **Input drift reaches every dependent verdict.**  After the last step an accepted
item has no drift, it was accepted or waited before, and a companion it waited for has
no drift either; an item with drift has no verdict left; and the others keep theirs. -/
theorem finalizeResults_finalized {hash : String → Option String} {items out : List Item}
    {shared : List InputRecord} (h : finalizeResults hash items shared = .ok out) :
    List.Forall₂ (Finalized hash shared items) items out := by
  unfold finalizeResults at h
  obtain ⟨sharedChanges, hshared, h⟩ := bind_eq_ok_iff.mp h
  obtain ⟨invalidated, hinvalidated, h⟩ := bind_eq_ok_iff.mp h
  obtain ⟨finalized, hfinalized, h⟩ := bind_eq_ok_iff.mp h
  obtain rfl := Except.ok.inj h
  have hitems := forall₂_of_collect_map hinvalidated
  obtain ⟨-, rfl⟩ := finalizeCompanions_eq_ok_iff.mp hfinalized
  have hsweep := sweep_comesFrom (invalidated.map Item.evaluation)
  rw [List.forall₂_map_left_iff] at hsweep
  have hupdate := forall₂_update hsweep
  exact forall₂_trans hitems hupdate fun i i' i'' hi ⟨s, hs, hi''⟩ =>
    hi'' ▸ Finalized.of_resolve hshared hitems hi hs

/-! ## A run with a changed driver -/

/-- The hash of `driver.c` when the run began. -/
def driverHash : String := "0123456789abcdef0123456789abcdef0123456789abcdef0123456789abcdef"

/-- A record of `/r/driver.c`. -/
def driverRecord : InputRecord := ⟨.str "/r/driver.c", .str driverHash⟩

/-- An item with an evaluation and the inputs that were recorded for it. -/
def itemOf (evaluation : Record) (inputs : List InputRecord) : Item :=
  ⟨inputs, evaluation, evaluation.accepted, evaluation.status, []⟩

/-- The driver of the companion is gone: neither the companion nor the item that waits
for it is accepted. -/
theorem finalizeResults_finalized_driver :
    ∃ out, finalizeResults (fun _ => none) [itemOf waiting [], itemOf refuting [driverRecord]] [] =
        .ok out ∧ (out.all fun i => !i.accepted) = true ∧
      List.Forall₂ (Finalized (fun _ => none) []
        [itemOf waiting [], itemOf refuting [driverRecord]])
        [itemOf waiting [], itemOf refuting [driverRecord]] out := by
  obtain ⟨out, h, hall⟩ := exists_of_returns (f := fun out : List Item => out.all fun i => !i.accepted)
    (x := finalizeResults (fun _ => none) [itemOf waiting [], itemOf refuting [driverRecord]] [])
    (by decide +kernel)
  exact ⟨out, h, hall, finalizeResults_finalized h⟩

end Suite
end Fragma
