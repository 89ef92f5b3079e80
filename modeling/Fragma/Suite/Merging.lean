import Mathlib.Data.List.Pairwise
import Fragma.Python.Loops
import Fragma.Suite.Integrity

/-!
# Merging groups of recorded inputs

`merge_records(*groups)` of `fragma/integrity.py` for records that come in several groups, as the
stages of a run hand them in.  A merged list is fixed by its members: it is sorted, and it holds the
receipts that were read.  So the order and the grouping of the records cannot matter.

* `mergeGroups`: the function, over its groups.
* `Conflict`: two records of one file with different hashes.
* `IsMerge`, `mergeRecords_eq_ok_iff`: what a merged list is.
* `mergeGroups_join`: **merging is a partial join.**
-/

namespace Fragma
namespace Suite

open Python Posix Keyed

/-! ## Groups -/

/-- `merge_records(*groups)`. -/
def mergeGroups (groups : List (List InputRecord)) : Except Exn (List Receipt) :=
  (groups.foldlM mergeFrom []).map fun records =>
    records.insertionSort fun a b => a.path ≤ b.path

/-- An absolute path with a hash of 64 digits. -/
def InputRecord.WellFormed (item : InputRecord) : Prop :=
  ∃ filename expected, item.absolutePath = .str filename ∧ item.sha256 = .str expected ∧
    (PurePath.parse filename).IsAbsolute ∧ isHex 64 expected = true

/-- Two records of one file, by its path in normal form, that carry different hashes. -/
def Conflict (a b : InputRecord) : Prop :=
  ∃ r s, a.read = .ok r ∧ b.read = .ok s ∧ r.path = s.path ∧ r.sha256 ≠ s.sha256

/-- The list is sorted by path, one entry for each, and holds the receipts of the records. -/
def IsMerge (items : List InputRecord) (out : List Receipt) : Prop :=
  out.Pairwise (fun r s => r.path < s.path) ∧ ∀ r, r ∈ out ↔ ∃ item ∈ items, item.read = .ok r

theorem InputRecord.WellFormed.read {item : InputRecord} (h : item.WellFormed) :
    ∃ r, item.read = .ok r := by
  obtain ⟨filename, expected, hpath, hhash, habs, hhex⟩ := h
  refine ⟨⟨(PurePath.parse filename).render, expected⟩, ?_⟩
  rw [InputRecord.read, hpath, hhash]
  exact if_pos ⟨habs, hhex⟩

/-- A receipt that was read is read back as it is. -/
theorem read_record {item : InputRecord} {r : Receipt} (h : item.read = .ok r) :
    r.record.read = .ok r := by
  obtain ⟨habs, hhex⟩ := read_eq_ok h
  obtain ⟨filename, hpath⟩ : ∃ filename, r.path = (PurePath.parse filename).render := by
    unfold InputRecord.read at h
    split at h
    · next filename expected _ _ =>
      split_ifs at h
      exact ⟨filename, (Except.ok.inj h) ▸ rfl⟩
    · exact absurd h (by simp)
  have hnorm : (PurePath.parse r.path).render = r.path := by
    rw [hpath, PurePath.parse_render]
  rw [InputRecord.read, Receipt.record]
  refine (if_pos ⟨habs, hhex⟩).trans ?_
  rw [hnorm]

theorem mergeFrom_append (records : List Receipt) (items items' : List InputRecord) :
    mergeFrom records (items ++ items') =
      (mergeFrom records items >>= fun middle => mergeFrom middle items') := by
  induction items generalizing records with
  | nil => rfl
  | cons item items ih =>
    rw [List.cons_append, mergeFrom, mergeFrom, bind_assoc]
    exact bind_congr fun middle => ih middle

/-- The groups are read one after another. -/
theorem mergeGroups_eq (groups : List (List InputRecord)) :
    mergeGroups groups = mergeRecords groups.flatten := by
  have hfold : ∀ records, groups.foldlM mergeFrom records = mergeFrom records groups.flatten := by
    induction groups with
    | nil => exact fun records => rfl
    | cons group groups ih =>
      intro records
      rw [List.foldlM_cons, List.flatten_cons, mergeFrom_append]
      exact bind_congr fun middle => ih middle
  rw [mergeGroups, mergeRecords, hfold]

/-! ## What a merged list is -/

theorem exists_mergeFrom (records : List Receipt) {items : List InputRecord}
    (hread : ∀ item ∈ items, ∃ r, item.read = .ok r)
    (hagree : ∀ r s, (r ∈ records ∨ ∃ item ∈ items, item.read = .ok r) →
      (s ∈ records ∨ ∃ item ∈ items, item.read = .ok s) → r.path = s.path → r = s) :
    ∃ out, mergeFrom records items = .ok out := by
  induction items generalizing records with
  | nil => exact ⟨records, rfl⟩
  | cons item items ih =>
    obtain ⟨⟨r, hr⟩, hread⟩ := List.forall_mem_cons.mp hread
    obtain ⟨middle, hmiddle⟩ : ∃ middle, mergeRecord records item = .ok middle := by
      cases hfind : findKey Receipt.path r.path records with
      | none =>
        refine ⟨records ++ [r], bind_eq_ok_iff.mpr ⟨r, hr, ?_⟩⟩
        simp only [hfind]
      | some seen =>
        obtain ⟨hmem, hpath⟩ := mem_of_findKey hfind
        have hsame : seen = r :=
          hagree seen r (.inl hmem) (.inr ⟨item, List.mem_cons_self, hr⟩) hpath
        refine ⟨records, bind_eq_ok_iff.mpr ⟨r, hr, ?_⟩⟩
        simp only [hfind]
        exact if_neg fun hne => hne (congrArg Receipt.sha256 hsame)
    obtain ⟨r', hr', hmem⟩ := mergeRecord_eq_ok hmiddle
    have hback : ∀ x, (x ∈ middle ∨ ∃ i ∈ items, i.read = .ok x) →
        x ∈ records ∨ ∃ i ∈ item :: items, i.read = .ok x := by
      rintro x (hx | ⟨i, hi, hx⟩)
      · rcases (hmem x).mp hx with hx | rfl
        · exact .inl hx
        · exact .inr ⟨item, List.mem_cons_self, hr'⟩
      · exact .inr ⟨i, List.mem_cons_of_mem _ hi, hx⟩
    obtain ⟨out, hout⟩ := ih middle hread fun x y hx hy => hagree x y (hback x hx) (hback y hy)
    exact ⟨out, by rw [mergeFrom, hmiddle]; exact hout⟩

theorem isMerge_of_mergeRecords {items : List InputRecord} {out : List Receipt}
    (h : mergeRecords items = .ok out) : IsMerge items out := by
  refine ⟨?_, mem_mergeRecords h⟩
  have hnodup := nodup_mergeRecords h
  have hsorted : out.Pairwise fun r s => r.path ≤ s.path := by
    unfold mergeRecords at h
    cases hmerge : mergeFrom [] items with
    | error e =>
      rw [hmerge] at h
      exact absurd h (by simp [Except.map])
    | ok records =>
      rw [hmerge] at h
      rw [← Except.ok.inj h]
      have : Std.Total (fun a b : Receipt => a.path ≤ b.path) := ⟨fun a b => le_total _ _⟩
      have : IsTrans Receipt fun a b => a.path ≤ b.path := ⟨fun a b c => le_trans⟩
      exact List.pairwise_insertionSort _ _
  rw [List.nodup_iff_pairwise_ne, List.pairwise_map] at hnodup
  exact (hsorted.and hnodup).imp fun hpair => lt_of_le_of_ne hpair.1 hpair.2

/-- Two merged lists with the same members are equal. -/
theorem IsMerge.unique {items items' : List InputRecord} {out out' : List Receipt}
    (h : IsMerge items out) (h' : IsMerge items' out') (hmem : ∀ r, r ∈ out ↔ r ∈ out') :
    out = out' := by
  have hnodup : ∀ l : List Receipt, l.Pairwise (fun r s => r.path < s.path) → l.Nodup :=
    fun l hl => hl.imp fun hlt heq => absurd (heq ▸ hlt) (lt_irrefl _)
  refine ((List.perm_ext_iff_of_nodup (hnodup _ h.1) (hnodup _ h'.1)).mpr hmem).eq_of_pairwise
    (fun r s _ _ hrs hsr => absurd (hrs.trans hsr) (lt_irrefl _)) h.1 h'.1

/-- Two entries of one path in a merged list are the same entry. -/
theorem IsMerge.eq_of_path {items : List InputRecord} {out : List Receipt} {r s : Receipt}
    (h : IsMerge items out) (hr : r ∈ out) (hs : s ∈ out) (hpath : r.path = s.path) : r = s := by
  by_contra hne
  have hpair : out.Pairwise fun r s => r.path ≠ s.path := h.1.imp fun hlt => ne_of_lt hlt
  have : Std.Symm fun r s : Receipt => r.path ≠ s.path := ⟨fun _ _ h => h.symm⟩
  exact hpair.forall hr hs hne hpath

theorem mergeRecords_eq_ok_iff {items : List InputRecord} {out : List Receipt} :
    mergeRecords items = .ok out ↔
      (∀ item ∈ items, ∃ r, item.read = .ok r) ∧ IsMerge items out := by
  constructor
  · exact fun h => ⟨forall_read_of_mergeRecords h, isMerge_of_mergeRecords h⟩
  · rintro ⟨hread, h⟩
    obtain ⟨records, hrecords⟩ := exists_mergeFrom [] hread fun r s hr hs hpath =>
      h.eq_of_path ((h.2 r).mpr (by simpa using hr)) ((h.2 s).mpr (by simpa using hs)) hpath
    have hout : mergeRecords items =
        .ok (records.insertionSort fun a b => a.path ≤ b.path) := by
      rw [mergeRecords, hrecords]
      rfl
    have hmerge := isMerge_of_mergeRecords hout
    rw [hout, h.unique hmerge fun r => by rw [h.2, hmerge.2]]

/-- A merged list depends on the receipts of its records and on nothing else. -/
theorem mergeRecords_eq_ok_congr {items items' : List InputRecord} {out : List Receipt}
    (hread : ∀ item ∈ items, ∃ r, item.read = .ok r)
    (hread' : ∀ item ∈ items', ∃ r, item.read = .ok r)
    (h : ∀ r, (∃ item ∈ items, item.read = .ok r) ↔ ∃ item ∈ items', item.read = .ok r) :
    mergeRecords items = .ok out ↔ mergeRecords items' = .ok out := by
  rw [mergeRecords_eq_ok_iff, mergeRecords_eq_ok_iff]
  simp only [IsMerge, h]
  exact ⟨fun hmerge => ⟨hread', hmerge.2⟩, fun hmerge => ⟨hread, hmerge.2⟩⟩

/-- **Records are refused exactly when two of them conflict.** -/
theorem mergeRecords_error_iff {items : List InputRecord}
    (hread : ∀ item ∈ items, ∃ r, item.read = .ok r) :
    (∃ e, mergeRecords items = .error e) ↔ ∃ a ∈ items, ∃ b ∈ items, Conflict a b := by
  constructor
  · rintro ⟨e, he⟩
    by_contra hnone
    have hagree : ∀ r s, (∃ item ∈ items, item.read = .ok r) → (∃ item ∈ items, item.read = .ok s) →
        r.path = s.path → r = s := by
      rintro r s ⟨a, ha, hr⟩ ⟨b, hb, hs⟩ hpath
      have hhash : r.sha256 = s.sha256 := by
        by_contra hne
        exact hnone ⟨a, ha, b, hb, r, s, hr, hs, hpath, hne⟩
      cases r
      cases s
      simp only at hpath hhash
      rw [hpath, hhash]
    obtain ⟨records, hrecords⟩ := exists_mergeFrom [] hread fun r s hr hs =>
      hagree r s (by simpa using hr) (by simpa using hs)
    rw [mergeRecords, hrecords] at he
    exact absurd he (by simp [Except.map])
  · rintro ⟨a, ha, b, hb, r, s, hr, hs, hpath, hne⟩
    cases hmerge : mergeRecords items with
    | error e => exact ⟨e, rfl⟩
    | ok out =>
      have h := isMerge_of_mergeRecords hmerge
      have heq := h.eq_of_path ((h.2 r).mpr ⟨a, ha, hr⟩) ((h.2 s).mpr ⟨b, hb, hs⟩) hpath
      exact absurd (congrArg Receipt.sha256 heq) hne

/-! ## Merging what is merged -/

/-- The entries of merged lists, handed in again. -/
def recordsOf (out : List Receipt) : List InputRecord := out.map Receipt.record

theorem reads_recordsOf {items : List InputRecord} {out : List Receipt}
    (h : mergeRecords items = .ok out) (r : Receipt) :
    (∃ item ∈ recordsOf out, item.read = .ok r) ↔ ∃ item ∈ items, item.read = .ok r := by
  rw [← mem_mergeRecords h]
  have hback : ∀ s ∈ out, s.record.read = .ok s := by
    intro s hs
    obtain ⟨item, -, hitem⟩ := (mem_mergeRecords h s).mp hs
    exact read_record hitem
  constructor
  · rintro ⟨item, hitem, hr⟩
    obtain ⟨s, hs, rfl⟩ := List.mem_map.mp hitem
    rw [hback s hs] at hr
    exact Except.ok.inj hr ▸ hs
  · exact fun hr => ⟨r.record, List.mem_map_of_mem hr, hback r hr⟩

theorem forall_read_recordsOf {items : List InputRecord} {out : List Receipt}
    (h : mergeRecords items = .ok out) : ∀ item ∈ recordsOf out, ∃ r, item.read = .ok r := by
  intro item hitem
  obtain ⟨s, hs, rfl⟩ := List.mem_map.mp hitem
  obtain ⟨item, -, hitem⟩ := (mem_mergeRecords h s).mp hs
  exact ⟨s, read_record hitem⟩

/-- Parts that are merged on their own hold what the whole holds. -/
theorem reads_parts {parts : List (List InputRecord)} {merged : List (List Receipt)}
    (h : List.Forall₂ (fun part out => mergeRecords part = .ok out) parts merged) :
    (∀ item ∈ parts.flatten, ∃ r, item.read = .ok r) ∧
    (∀ item ∈ (merged.map recordsOf).flatten, ∃ r, item.read = .ok r) ∧
    ∀ r, (∃ item ∈ parts.flatten, item.read = .ok r) ↔
      ∃ item ∈ (merged.map recordsOf).flatten, item.read = .ok r := by
  induction h with
  | nil => simp
  | @cons part out parts merged hpart _ ih =>
    obtain ⟨hread, hread', hsame⟩ := ih
    simp only [List.flatten_cons, List.map_cons, List.mem_append, or_and_right, exists_or]
    refine ⟨?_, ?_, fun r => or_congr (reads_recordsOf hpart r).symm (hsame r)⟩
    · rintro item (hitem | hitem)
      · exact forall_read_of_mergeRecords hpart item hitem
      · exact hread item hitem
    · rintro item (hitem | hitem)
      · exact forall_read_recordsOf hpart item hitem
      · exact hread' item hitem

theorem mergeRecords_parts {parts : List (List InputRecord)} {out : List Receipt} :
    mergeRecords parts.flatten = .ok out ↔
      ∃ merged, List.Forall₂ (fun part m => mergeRecords part = .ok m) parts merged ∧
        mergeRecords (merged.map recordsOf).flatten = .ok out := by
  constructor
  · intro h
    have hread := forall_read_of_mergeRecords h
    obtain ⟨merged, hmerged⟩ : ∃ merged, parts.mapM mergeRecords = .ok merged := by
      refine exists_ok_mapM fun part hpart => ?_
      have hsub : ∀ item ∈ part, item ∈ parts.flatten :=
        fun item hitem => List.mem_flatten.mpr ⟨part, hpart, hitem⟩
      cases hm : mergeRecords part with
      | ok m => exact ⟨m, rfl⟩
      | error e =>
        -- a conflict in a part is one in the whole
        obtain ⟨a, ha, b, hb, hab⟩ :=
          (mergeRecords_error_iff fun item hitem => hread item (hsub item hitem)).mp ⟨e, hm⟩
        obtain ⟨e', he'⟩ :=
          (mergeRecords_error_iff hread).mpr ⟨a, hsub a ha, b, hsub b hb, hab⟩
        rw [h] at he'
        exact absurd he' (by simp)
    rw [mapM_eq_ok_iff] at hmerged
    obtain ⟨hread, hread', hsame⟩ := reads_parts hmerged
    exact ⟨merged, hmerged, (mergeRecords_eq_ok_congr hread hread' hsame).mp h⟩
  · rintro ⟨merged, hmerged, h⟩
    obtain ⟨hread, hread', hsame⟩ := reads_parts hmerged
    exact (mergeRecords_eq_ok_congr hread hread' hsame).mpr h

/-! ## The join -/

/-- **Merging is a partial join.**  Groups of well-formed records are refused exactly when two
records conflict.  Otherwise the result is strictly sorted by path, with one record for each path, and
it depends neither on the order of the records nor on how they are grouped: merging it again changes
nothing, and merging merged parts gives what merging everything gives.  The files of the result are
unchanged exactly when every recorded file has the recorded hash. -/
theorem mergeGroups_join (groups : List (List InputRecord))
    (hwf : ∀ group ∈ groups, ∀ item ∈ group, item.WellFormed) :
    ((∃ e, mergeGroups groups = .error e) ↔
      ∃ a ∈ groups.flatten, ∃ b ∈ groups.flatten, Conflict a b) ∧
    (∀ out, mergeGroups groups = .ok out →
      out.Pairwise (fun r s => r.path < s.path) ∧
      (∀ item ∈ groups.flatten, ∃ r, item.read = .ok r ∧ r ∈ out ∧
        ∀ s ∈ out, s.path = r.path → s = r) ∧
      (∀ r ∈ out, ∃ item ∈ groups.flatten, item.read = .ok r) ∧
      (∀ groups' : List (List InputRecord), groups'.flatten.Perm groups.flatten →
        mergeGroups groups' = .ok out) ∧
      mergeGroups [recordsOf out] = .ok out ∧
      ∀ hash, changedFiles hash (recordsOf out) = .ok [] ↔
        ∀ item ∈ groups.flatten, ∃ r, item.read = .ok r ∧ hash r.path = some r.sha256) ∧
    ∀ (parts : List (List (List InputRecord))), parts.flatten = groups → ∀ out,
      (mergeGroups groups = .ok out ↔
        ∃ merged, List.Forall₂ (fun part m => mergeGroups part = .ok m) parts merged ∧
          mergeGroups (merged.map recordsOf) = .ok out) := by
  simp only [mergeGroups_eq]
  have hread : ∀ item ∈ groups.flatten, ∃ r, item.read = .ok r := by
    intro item hitem
    obtain ⟨group, hgroup, hitem⟩ := List.mem_flatten.mp hitem
    exact (hwf group hgroup item hitem).read
  refine ⟨mergeRecords_error_iff hread, fun out h => ?_, ?_⟩
  · have hmerge := isMerge_of_mergeRecords h
    have hidem : mergeRecords (recordsOf out) = .ok out :=
      (mergeRecords_eq_ok_congr (forall_read_recordsOf h) hread (reads_recordsOf h)).mpr h
    refine ⟨hmerge.1, fun item hitem => ?_, fun r hr => (hmerge.2 r).mp hr, fun groups' hperm => ?_,
      by rwa [List.flatten_singleton], fun hash => ?_⟩
    · obtain ⟨r, hr⟩ := hread item hitem
      have hmem := (hmerge.2 r).mpr ⟨item, hitem, hr⟩
      exact ⟨r, hr, hmem, fun s hs hpath => hmerge.eq_of_path hs hmem hpath⟩
    · refine (mergeRecords_eq_ok_congr (fun item hitem => hread item (hperm.mem_iff.mp hitem)) hread
        fun r => ?_).mpr h
      simp only [hperm.mem_iff]
    · obtain ⟨changes, hchanges⟩ : ∃ changes, changedFiles hash (recordsOf out) = .ok changes :=
        ⟨_, by rw [changedFiles, hidem]; rfl⟩
      rw [hchanges, Except.ok.injEq, changedFiles_eq_nil_iff hchanges]
      constructor
      · intro hsame item hitem
        obtain ⟨r, hr⟩ := hread item hitem
        obtain ⟨item', hitem', hr'⟩ := (reads_recordsOf h r).mpr ⟨item, hitem, hr⟩
        exact ⟨r, hr, by_contra fun hne => hsame item' hitem' ⟨r, hr', hne⟩⟩
      · rintro hsame item' hitem' ⟨r, hr', hne⟩
        obtain ⟨item, hitem, hr⟩ := (reads_recordsOf h r).mp ⟨item', hitem', hr'⟩
        obtain ⟨r', hr'', heq⟩ := hsame item hitem
        rw [hr] at hr''
        exact hne (Except.ok.inj hr'' ▸ heq)
  · rintro parts rfl out
    have hflat : parts.flatten.flatten = (parts.map List.flatten).flatten := by
      rw [List.flatten_flatten]
    rw [hflat, mergeRecords_parts]
    simp only [List.forall₂_map_left_iff]

/-- Two stages that record one file, once with a doubled slash in its path. -/
theorem mergeGroups_join_example :
    ∃ out, mergeGroups [[⟨.str "/src/b.c", .str (String.ofList (List.replicate 64 '0'))⟩],
        [⟨.str "/src//a.c", .str (String.ofList (List.replicate 64 '1'))⟩,
          ⟨.str "/src/b.c", .str (String.ofList (List.replicate 64 '0'))⟩]] = .ok out ∧
      out.map Receipt.path = ["/src/a.c", "/src/b.c"] ∧ mergeGroups [recordsOf out] = .ok out := by
  have hwf : ∀ group ∈ [[⟨.str "/src/b.c", .str (String.ofList (List.replicate 64 '0'))⟩],
      [⟨.str "/src//a.c", .str (String.ofList (List.replicate 64 '1'))⟩,
        ⟨.str "/src/b.c", .str (String.ofList (List.replicate 64 '0'))⟩]],
      ∀ item ∈ group, InputRecord.WellFormed item := by
    simp only [List.forall_mem_cons, List.not_mem_nil, false_implies, implies_true, and_true]
    exact ⟨⟨_, _, rfl, rfl, by decide +kernel⟩, ⟨_, _, rfl, rfl, by decide +kernel⟩,
      ⟨_, _, rfl, rfl, by decide +kernel⟩⟩
  obtain ⟨-, h, -⟩ := mergeGroups_join _ hwf
  refine ⟨[⟨"/src/a.c", String.ofList (List.replicate 64 '1')⟩,
    ⟨"/src/b.c", String.ofList (List.replicate 64 '0')⟩], ?_, by decide, (h _ ?_).2.2.2.2.1⟩
  · decide +kernel
  · decide +kernel

end Suite
end Fragma
