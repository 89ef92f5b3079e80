import Fragma.Keyed.Sweep
import Fragma.Python.Exn
import Fragma.Python.Text
import Fragma.Report.Issues

/-!
# Companions

`fragma/report.py`, `finalize_companions`.  A calibration whose uncertainty is expected
waits for a companion that refutes the mapped properties.  The loop goes over the
records, and it looks companions up among the very records that it updates.

A record that waits can be the companion of another one that waits.  Whether the first
is promoted before the second is examined then depends on the order of the records.

* `Record`, `supports`, `resolve`, `finalizeCompanions`: the loop.
* `Depends`: a promotable record that another waiting record wants.
* `finalizeCompanions_eq_map`: without one, every record is judged against the input.
* `CompanionPolicy`: the law, in three parts.
* `companionPolicy_iff`: **the law holds exactly without such a pair.**
-/

namespace Fragma
namespace Report

open Python Keyed

/-! ## Records -/

/-- `record["companion_evidence"]`. -/
structure CompanionEvidence where
  targetId : String
  propertyMap : List (String × String)
  confirmedInvalidProperties : List String
  mappingReason : Option String
  deriving DecidableEq

/-- An evaluation record, as far as the companion policy looks at it. -/
structure Record where
  targetId : String
  profile : Value
  source : Value
  role : Value
  analysis : Value
  status : Status
  functions : List String
  accepted : Bool
  verified : Bool
  localPolicyPassed : Bool
  issues : List Issue
  confirmedInvalidProperties : List String
  requiredCompanion : Option String
  expectedUnresolved : List String
  expectedInvalid : List String
  companionPropertyMap : List (String × String)
  companionMappingReason : Option String
  companionEvidence : Option CompanionEvidence

namespace Record

/-- `record.get("required_companion")`, if it is not empty. -/
def companionId (r : Record) : Option String := r.requiredCompanion.filter fun id => id ≠ ""

/-- The record waits for its companion. -/
def Waits (r : Record) (id : String) : Prop := r.companionId = some id ∧ r.status = .needsCompanion

instance (r : Record) (id : String) : Decidable (r.Waits id) :=
  inferInstanceAs (Decidable (_ ∧ _))

/-- `mapped`. -/
def mapped (r : Record) : Bool :=
  r.expectedUnresolved ≠ [] && (r.companionPropertyMap.map Prod.fst ⊆ r.expectedUnresolved) &&
    (r.expectedUnresolved ⊆ r.companionPropertyMap.map Prod.fst) &&
    r.companionPropertyMap.all fun p => p.2 ≠ ""

/-- The values of the mapping. -/
def targets (r : Record) : List String := r.companionPropertyMap.map Prod.snd

/-- `success`: the companion establishes what the record waits for. -/
def supports (r c : Record) : Bool :=
  r.mapped && r.localPolicyPassed &&
    (r.companionMappingReason.any fun reason => !isBlank reason) &&
    c.accepted && c.localPolicyPassed && !c.verified && c.status = .calibrationPassed &&
    c.role = .str "calibration" && r.role = .str "calibration" &&
    (r.targets ⊆ c.confirmedInvalidProperties) && (r.targets ⊆ c.expectedInvalid) &&
    Value.eq c.profile r.profile && Value.eq c.source r.source && r.functions ≠ [] &&
    (c.functions ⊆ r.functions) && (r.functions ⊆ c.functions) && !Value.eq c.analysis r.analysis

/-- The record after its companion has established what it waits for. -/
def promote (r c : Record) : Record :=
  { r with
    accepted := true
    verified := false
    status := .calibrationPassed
    companionEvidence := some ⟨c.targetId, r.companionPropertyMap, c.confirmedInvalidProperties,
      r.companionMappingReason⟩ }

/-- The record after its companion has failed. -/
def reject (r : Record) (id : String) : Record :=
  { r with
    accepted := false
    verified := false
    status := .issue .incomplete
    issues := r.issues ++ [⟨.incomplete, "Independent invalidating calibration companion is " ++
      "missing, failed, or does not establish the exact mapped properties",
      [("companion", .str id)]⟩] }

/-- One turn of the loop. -/
def resolve (records : List Record) (r : Record) : Record :=
  match r.companionId with
  | none => r
  | some id =>
    if r.status ≠ .needsCompanion then r
    else
      match findKey targetId id records with
      | some c => if r.supports c then r.promote c else r.reject id
      | none => r.reject id

end Record

/-- `finalize_companions(results)`. -/
def finalizeCompanions (records : List Record) : Except Exn (List Record) :=
  if (records.map Record.targetId).Nodup then .ok (sweep Record.resolve records)
  else .error ⟨.reportError, "Duplicate target IDs during companion policy"⟩

/-- Records with distinct identities are finalised by the loop. -/
theorem finalizeCompanions_eq_ok_iff {records final : List Record} :
    finalizeCompanions records = .ok final ↔
      (records.map Record.targetId).Nodup ∧ final = sweep Record.resolve records := by
  unfold finalizeCompanions
  split_ifs with h
  · simp [h, eq_comm]
  · simp [h]

/-! ## One turn -/

namespace Record

/-- The part of `success` that no turn changes. -/
def matchesCompanion (r c : Record) : Bool :=
  r.mapped && r.localPolicyPassed &&
    (r.companionMappingReason.any fun reason => !isBlank reason) &&
    c.localPolicyPassed && c.role = .str "calibration" && r.role = .str "calibration" &&
    (r.targets ⊆ c.confirmedInvalidProperties) && (r.targets ⊆ c.expectedInvalid) &&
    Value.eq c.profile r.profile && Value.eq c.source r.source && r.functions ≠ [] &&
    (c.functions ⊆ r.functions) && (r.functions ⊆ c.functions) && !Value.eq c.analysis r.analysis

/-- The part of `success` that a turn can change. -/
def certifies (c : Record) : Bool := c.accepted && !c.verified && c.status = .calibrationPassed

theorem supports_iff {r c : Record} :
    r.supports c = true ↔ r.matchesCompanion c = true ∧ c.certifies = true := by
  simp only [supports, matchesCompanion, certifies, Bool.and_eq_true]
  tauto

theorem certifies_promote (r c : Record) : (r.promote c).certifies = true := rfl

theorem matchesCompanion_promote (r c d : Record) :
    r.matchesCompanion (c.promote d) = r.matchesCompanion c := rfl

/-- A record that waits supports nothing. -/
theorem Waits.supports_eq_false {c : Record} {id : String} (h : c.Waits id) (r : Record) :
    r.supports c = false := by
  rw [Bool.eq_false_iff]
  intro hs
  have hc := (supports_iff.mp hs).2
  rw [certifies, h.2] at hc
  simp at hc

@[simp] theorem targetId_resolve (records : List Record) (r : Record) :
    (resolve records r).targetId = r.targetId := by
  unfold resolve
  split
  · rfl
  · split_ifs
    · rfl
    · split
      · split_ifs
        · rfl
        · rfl
      · rfl

/-- A turn leaves a record that does not wait. -/
theorem resolve_eq_self (records : List Record) {r : Record} (h : ∀ id, ¬ r.Waits id) :
    resolve records r = r := by
  unfold resolve
  split
  · rfl
  · next id hid =>
    rw [if_pos fun hs => h id ⟨hid, hs⟩]

/-- A turn promotes a record that waits for a companion that supports it. -/
theorem Waits.resolve_of_supports {records : List Record} {r c : Record} {id : String}
    (h : r.Waits id) (hc : findKey targetId id records = some c) (hs : r.supports c = true) :
    resolve records r = r.promote c := by
  unfold resolve
  rw [h.1]
  dsimp only
  rw [if_neg (not_not.mpr h.2), hc]
  dsimp only
  rw [if_pos hs]

/-- A turn rejects a record that waits for a companion that does not. -/
theorem Waits.resolve_of_not {records : List Record} {r : Record} {id : String} (h : r.Waits id)
    (hc : ∀ c, findKey targetId id records = some c → r.supports c = false) :
    resolve records r = r.reject id := by
  unfold resolve
  rw [h.1]
  dsimp only
  rw [if_neg (not_not.mpr h.2)]
  split
  · next c hfind =>
    rw [if_neg (by rw [hc c hfind]; simp)]
  · rfl

/-- What a turn does to a record that waits. -/
theorem Waits.resolve_cases {r : Record} {id : String} (h : r.Waits id) (records : List Record) :
    (∃ c, findKey targetId id records = some c ∧ r.supports c = true ∧
      resolve records r = r.promote c) ∨
    ((∀ c, findKey targetId id records = some c → r.supports c = false) ∧
      resolve records r = r.reject id) := by
  by_cases hc : ∃ c, findKey targetId id records = some c ∧ r.supports c = true
  · obtain ⟨c, hfind, hs⟩ := hc
    exact Or.inl ⟨c, hfind, hs, h.resolve_of_supports hfind hs⟩
  · have hnot : ∀ c, findKey targetId id records = some c → r.supports c = false := by
      intro c hfind
      rw [Bool.eq_false_iff]
      exact fun hs => hc ⟨c, hfind, hs⟩
    exact Or.inr ⟨hnot, h.resolve_of_not hnot⟩

theorem waits_unique {r : Record} {id id' : String} (h : r.Waits id) (h' : r.Waits id') :
    id = id' := Option.some.inj (h.1.symm.trans h'.1)

end Record

/-! ## Promotable records that another one wants -/

/-- A waiting record wants one that waits itself and that its own companion, as it is on
input, supports. -/
def Depends (records : List Record) : Prop :=
  ∃ r ∈ records, ∃ c ∈ records, ∃ d ∈ records,
    r.Waits c.targetId ∧ c.Waits d.targetId ∧ c.supports d = true ∧ r.matchesCompanion c = true

instance (records : List Record) : Decidable (Depends records) :=
  inferInstanceAs (Decidable (∃ r ∈ records, ∃ c ∈ records, ∃ d ∈ records, _))

theorem Depends.perm {records records' : List Record} (hperm : records.Perm records')
    (h : Depends records) : Depends records' := by
  obtain ⟨r, hr, c, hc, d, hd, hrest⟩ := h
  exact ⟨r, hperm.mem_iff.mp hr, c, hperm.mem_iff.mp hc, d, hperm.mem_iff.mp hd, hrest⟩

/-- **Without a wanted promotable record, every record is judged against the input.** -/
theorem sweep_resolve_eq_map {records : List Record} (h : ¬ Depends records) :
    sweep Record.resolve records = records.map (Record.resolve records) := by
  classical
  refine sweep_eq_map fun front r back hsplit => ?_
  by_cases hwaits : ∃ id, r.Waits id
  · obtain ⟨id, hw⟩ := hwaits
    have hr : r ∈ records := by simp [hsplit]
    -- what the turn finds is what stands on input, or what the front makes of it
    have hfind : findKey Record.targetId id (front.map (Record.resolve records) ++ r :: back) =
        (findKey Record.targetId id records).map fun c =>
          if c ∈ front then Record.resolve records c else c := by
      rw [hsplit, findKey_append, findKey_append, findKey_map (Record.targetId_resolve _)]
      cases hfront : findKey Record.targetId id front with
      | some c =>
        rw [Option.some_or, Option.map_some, Option.some_or, Option.map_some,
          if_pos (mem_of_findKey hfront).1]
      | none =>
        rw [Option.none_or, Option.map_none, Option.none_or]
        cases hback : findKey Record.targetId id (r :: back) with
        | none => rfl
        | some c =>
          have hnot : c ∉ front := by
            intro hc
            have hkey := (mem_of_findKey hback).2
            exact absurd (decide_eq_true hkey) (List.find?_eq_none.mp hfront c hc)
          rw [Option.map_some, if_neg hnot]
    rcases hw.resolve_cases records with ⟨c, hc, hs, hres⟩ | ⟨hnot, hres⟩
    · -- a companion that supports the record does not wait, so it stays
      have hstays : Record.resolve records c = c := Record.resolve_eq_self _ fun id' hw' =>
        absurd hs (by rw [hw'.supports_eq_false]; simp)
      rw [hres]
      refine hw.resolve_of_supports ?_ hs
      rw [hfind, hc, Option.map_some, hstays, ite_self]
    · rw [hres]
      refine hw.resolve_of_not fun c' hc' => ?_
      rw [hfind] at hc'
      obtain ⟨c, hc, rfl⟩ := Option.map_eq_some_iff.mp hc'
      obtain ⟨hmem, hkey⟩ := mem_of_findKey hc
      by_cases hfront : c ∈ front
      · rw [if_pos hfront]
        by_cases hcw : ∃ id', c.Waits id'
        · obtain ⟨id', hcw⟩ := hcw
          rcases hcw.resolve_cases records with ⟨d, hd, hds, hpromote⟩ | ⟨-, hreject⟩
          · -- the companion is promoted: it must not match, or the pair depends
            rw [Bool.eq_false_iff]
            intro hsupports
            rw [hpromote, Record.supports_iff, Record.matchesCompanion_promote] at hsupports
            obtain ⟨hdmem, hdkey⟩ := mem_of_findKey hd
            exact h ⟨r, hr, c, hmem, d, hdmem, hkey ▸ hw, hdkey ▸ hcw, hds, hsupports.1⟩
          · rw [hreject, Bool.eq_false_iff]
            intro hsupports
            have hcert := (Record.supports_iff.mp hsupports).2
            exact absurd hcert (by simp [Record.certifies, Record.reject])
        · rw [Record.resolve_eq_self _ fun id' hw' => hcw ⟨id', hw'⟩]
          exact hnot c hc
      · rw [if_neg hfront]
        exact hnot c hc
  · have hnone : ∀ id, ¬ r.Waits id := fun id hw => hwaits ⟨id, hw⟩
    rw [Record.resolve_eq_self _ hnone, Record.resolve_eq_self _ hnone]

/-! ## The law -/

/-- What the records say about a target: accepted, verified, status. -/
def verdictOf (records : List Record) (id : String) : Option (Bool × Bool × Status) :=
  (findKey Record.targetId id records).map fun r => (r.accepted, r.verified, r.status)

/-- Whatever the order of the records is, every target gets the same verdict. -/
def OrderIndependent (records : List Record) : Prop :=
  ∀ records', records.Perm records' → ∃ final final', finalizeCompanions records = .ok final ∧
    finalizeCompanions records' = .ok final' ∧ ∀ id, verdictOf final' id = verdictOf final id

/-- Accepted records lead, along companions that are accepted, to one that was accepted
on input. -/
inductive Grounded (records final : List Record) : Record → Prop where
  | input {r r' : Record} (hr : r ∈ records) (haccepted : r.accepted = true) (hr' : r' ∈ final)
      (hid : r'.targetId = r.targetId) (haccepted' : r'.accepted = true) :
      Grounded records final r'
  | link {r c : Record} (hr : r ∈ final) (haccepted : r.accepted = true)
      (hcompanion : r.companionId = some c.targetId) (hc : Grounded records final c) :
      Grounded records final r

/-- The records wait for one another. -/
def WaitForEachOther (cycle : List Record) : Prop :=
  ∀ r ∈ cycle, ∃ c ∈ cycle, r.Waits c.targetId

/-- The law of companions: the order does not matter, acceptance is grounded, and
records that wait for one another are not accepted. -/
structure CompanionPolicy (records : List Record) : Prop where
  order : OrderIndependent records
  grounded : ∀ final, finalizeCompanions records = .ok final → ∀ r ∈ final, r.accepted = true →
    Grounded records final r
  cycles : ∀ final, finalizeCompanions records = .ok final → ∀ cycle, cycle ⊆ records →
    WaitForEachOther cycle → ∀ r ∈ cycle, ∀ r' ∈ final, r'.targetId = r.targetId →
      r'.accepted = false

/-! ## Grounded acceptance -/

theorem grounded_of_sweepFrom {records final done todo : List Record}
    (hfinal : sweepFrom Record.resolve done todo = final) (htodo : todo ⊆ records)
    (hdone : ∀ r ∈ done, r.accepted = true → Grounded records final r) :
    ∀ r ∈ final, r.accepted = true → Grounded records final r := by
  induction todo generalizing done with
  | nil => exact hfinal ▸ hdone
  | cons a todo ih =>
    refine ih hfinal (fun x hx => htodo (List.mem_cons_of_mem _ hx)) fun r hr haccepted => ?_
    rcases List.mem_append.mp hr with hr | hr
    · exact hdone r hr haccepted
    · obtain rfl := List.mem_singleton.mp hr
      have hin : Record.resolve (done ++ a :: todo) a ∈ final := by
        rw [← hfinal]
        refine (prefix_sweepFrom _ (done ++ [Record.resolve (done ++ a :: todo) a]) todo).subset ?_
        exact List.mem_append_right _ (List.mem_singleton_self _)
      have ha : a ∈ records := htodo List.mem_cons_self
      by_cases hwaits : ∃ id, a.Waits id
      · obtain ⟨id, hw⟩ := hwaits
        rcases hw.resolve_cases (done ++ a :: todo) with ⟨c, hc, hs, hres⟩ | ⟨-, hres⟩
        · obtain ⟨hmem, hkey⟩ := mem_of_findKey hc
          have hcert := (Record.supports_iff.mp hs).2
          have hcaccepted : c.accepted = true := by
            rw [Record.certifies, Bool.and_eq_true, Bool.and_eq_true] at hcert
            exact hcert.1.1
          have hstays : ∀ s, Record.resolve s c = c := fun s =>
            Record.resolve_eq_self _ fun id' hw' => absurd hs (by rw [hw'.supports_eq_false]; simp)
          have hgrounded : Grounded records final c := by
            rcases List.mem_append.mp hmem with hmem | hmem
            · exact hdone c hmem hcaccepted
            · refine .input (htodo hmem) hcaccepted ?_ rfl hcaccepted
              rw [← hfinal]
              exact mem_sweepFrom_of_stays hstays hmem
          refine .link hin haccepted ?_ hgrounded
          rw [hres, hkey]
          exact hw.1
        · rw [hres] at haccepted
          exact absurd haccepted (by simp [Record.reject])
      · have hself : Record.resolve (done ++ a :: todo) a = a :=
          Record.resolve_eq_self _ fun id hw => hwaits ⟨id, hw⟩
        rw [hself] at haccepted hin ⊢
        exact .input ha haccepted hin rfl haccepted

/-- **Acceptance is grounded**, whatever the records are. -/
theorem grounded_of_accepted {records : List Record} :
    ∀ r ∈ sweep Record.resolve records, r.accepted = true →
      Grounded records (sweep Record.resolve records) r :=
  grounded_of_sweepFrom rfl (List.Subset.refl _) fun _ hr => absurd hr List.not_mem_nil

/-! ## Cycles -/

/-- **Records that wait for one another are not accepted**, whatever the order is. -/
theorem not_accepted_of_cycle {records cycle : List Record}
    (hnodup : (records.map Record.targetId).Nodup) (hsub : cycle ⊆ records)
    (hcycle : WaitForEachOther cycle) :
    ∀ r ∈ cycle, ∀ r' ∈ sweep Record.resolve records, r'.targetId = r.targetId →
      r'.accepted = false := by
  have hsame : ∀ x ∈ records, ∀ r ∈ cycle, x.targetId = r.targetId → x = r := fun x hx r hr hid =>
    List.inj_on_of_nodup_map hnodup hx (hsub hr) hid
  have h := sweep_induction Record.resolve
    (I := fun done todo => todo ⊆ records ∧ ∀ r ∈ cycle, ∀ r' ∈ done,
      r'.targetId = r.targetId → r'.accepted = false)
    (fun done a todo hI => by
      obtain ⟨htodo, hdone⟩ := hI
      refine ⟨fun x hx => htodo (List.mem_cons_of_mem _ hx), fun r hr r' hr' hid => ?_⟩
      rcases List.mem_append.mp hr' with hr' | hr'
      · exact hdone r hr r' hr' hid
      · obtain rfl := List.mem_singleton.mp hr'
        rw [Record.targetId_resolve] at hid
        obtain rfl := hsame a (htodo List.mem_cons_self) r hr hid
        obtain ⟨c, hc, hw⟩ := hcycle a hr
        rw [hw.resolve_of_not fun c' hc' => ?_]
        · rfl
        · obtain ⟨hmem, hkey⟩ := mem_of_findKey hc'
          rcases List.mem_append.mp hmem with hmem | hmem
          · -- an earlier record of the cycle was rejected
            rw [Bool.eq_false_iff]
            intro hs
            have hcert := (Record.supports_iff.mp hs).2
            rw [Record.certifies, hdone c hc c' hmem hkey] at hcert
            simp at hcert
          · -- a later one still waits
            obtain rfl := hsame c' (htodo hmem) c hc hkey
            obtain ⟨d, -, hw'⟩ := hcycle c' hc
            exact hw'.supports_eq_false _) (l := records)
    ⟨List.Subset.refl _, fun r _ r' hr' => absurd hr' List.not_mem_nil⟩
  exact fun r hr r' hr' => h.2 r hr r' hr'

/-! ## The order -/

theorem nodup_sweep {records : List Record} (hnodup : (records.map Record.targetId).Nodup) :
    ((sweep Record.resolve records).map Record.targetId).Nodup := by
  rw [map_key_sweep Record.targetId_resolve]
  exact hnodup

theorem verdictOf_eq {records : List Record} (hnodup : (records.map Record.targetId).Nodup)
    {r : Record} (hr : r ∈ sweep Record.resolve records) :
    verdictOf (sweep Record.resolve records) r.targetId =
      some (r.accepted, r.verified, r.status) := by
  rw [verdictOf, (findKey_eq_some_iff (nodup_sweep hnodup)).mpr ⟨hr, rfl⟩, Option.map_some]

/-- A turn only sees which records there are. -/
theorem resolve_perm {records records' : List Record} (hperm : records.Perm records')
    (hnodup : (records.map Record.targetId).Nodup) (r : Record) :
    Record.resolve records' r = Record.resolve records r := by
  unfold Record.resolve
  split
  · rfl
  · rw [findKey_perm hperm hnodup]

/-- **Without a wanted promotable record, the order does not matter.** -/
theorem orderIndependent_of_not_depends {records : List Record}
    (hnodup : (records.map Record.targetId).Nodup) (h : ¬ Depends records) :
    OrderIndependent records := by
  intro records' hperm
  have hnodup' : (records'.map Record.targetId).Nodup := (hperm.map _).nodup_iff.mp hnodup
  refine ⟨_, _, finalizeCompanions_eq_ok_iff.mpr ⟨hnodup, rfl⟩,
    finalizeCompanions_eq_ok_iff.mpr ⟨hnodup', rfl⟩, fun id => ?_⟩
  have h' : ¬ Depends records' := fun hd => h (hd.perm hperm.symm)
  have hresolve : Record.resolve records' = Record.resolve records :=
    funext fun r => resolve_perm hperm hnodup r
  rw [sweep_resolve_eq_map h', sweep_resolve_eq_map h, hresolve]
  unfold verdictOf
  rw [findKey_map (Record.targetId_resolve _), findKey_map (Record.targetId_resolve _),
    findKey_perm hperm hnodup]

/-- **With one, it does**: the record is accepted behind its companion and rejected in
front of it. -/
theorem not_orderIndependent_of_depends {records : List Record}
    (hnodup : (records.map Record.targetId).Nodup) (h : Depends records) :
    ¬ OrderIndependent records := by
  classical
  intro hindependent
  obtain ⟨r, hr, c, hc, d, hd, hrc, hcd, hs, hmatch⟩ := h
  have hne : r ≠ c := by
    rintro rfl
    have hself : r = d := List.inj_on_of_nodup_map hnodup hr hd (Record.waits_unique hrc hcd)
    rw [← hself, hrc.supports_eq_false] at hs
    exact absurd hs (by simp)
  have hdne : ∀ id, ¬ d.Waits id := fun id hw => absurd hs (by rw [hw.supports_eq_false]; simp)
  have hbehind : records.Perm (c :: r :: (records.erase c).erase r) :=
    (List.perm_cons_erase hc).trans
      ((List.perm_cons_erase ((List.mem_erase_of_ne hne).mpr hr)).cons c)
  have hfront : records.Perm (r :: c :: (records.erase c).erase r) :=
    hbehind.trans (List.Perm.swap r c _)
  set rest := (records.erase c).erase r with hrest
  have hnodup₁ : ((c :: r :: rest).map Record.targetId).Nodup := (hbehind.map _).nodup_iff.mp hnodup
  have hnodup₂ : ((r :: c :: rest).map Record.targetId).Nodup := (hfront.map _).nodup_iff.mp hnodup
  -- behind its companion
  have hfindd : findKey Record.targetId d.targetId (c :: r :: rest) = some d :=
    (findKey_eq_some_iff hnodup₁).mpr ⟨hbehind.mem_iff.mp hd, rfl⟩
  have hturn : Record.resolve (c :: r :: rest) c = c.promote d := hcd.resolve_of_supports hfindd hs
  have hfindc : findKey Record.targetId c.targetId ([c.promote d] ++ r :: rest) =
      some (c.promote d) := by
    rw [List.singleton_append, findKey, List.find?_cons]
    simp [Record.promote]
  have hsupports : r.supports (c.promote d) = true := by
    rw [Record.supports_iff, Record.matchesCompanion_promote]
    exact ⟨hmatch, Record.certifies_promote c d⟩
  have hmem₁ : r.promote (c.promote d) ∈ sweep Record.resolve (c :: r :: rest) := by
    have hprefix := prefix_sweepFrom Record.resolve
      ([c.promote d] ++ [Record.resolve ([c.promote d] ++ r :: rest) r]) rest
    rw [hrc.resolve_of_supports hfindc hsupports] at hprefix
    have hsweep : sweep Record.resolve (c :: r :: rest) =
        sweepFrom Record.resolve ([c.promote d] ++ [r.promote (c.promote d)]) rest := by
      rw [sweep, sweepFrom, sweepFrom, List.nil_append, List.nil_append, hturn,
        hrc.resolve_of_supports hfindc hsupports]
    rw [hsweep]
    exact hprefix.subset (by simp)
  -- in front of it
  have hfindc' : findKey Record.targetId c.targetId (r :: c :: rest) = some c :=
    (findKey_eq_some_iff hnodup₂).mpr ⟨hfront.mem_iff.mp hc, rfl⟩
  have hturn' : Record.resolve (r :: c :: rest) r = r.reject c.targetId :=
    hrc.resolve_of_not fun c' hc' => by
      rw [hfindc'] at hc'
      obtain rfl := Option.some.inj hc'
      exact hcd.supports_eq_false r
  have hmem₂ : r.reject c.targetId ∈ sweep Record.resolve (r :: c :: rest) := by
    have hsweep : sweep Record.resolve (r :: c :: rest) =
        sweepFrom Record.resolve [r.reject c.targetId] (c :: rest) := by
      rw [sweep, sweepFrom, List.nil_append, List.nil_append, hturn']
    rw [hsweep]
    exact (prefix_sweepFrom _ _ _).subset (List.mem_singleton_self _)
  have h₁ := verdictOf_eq hnodup₁ hmem₁
  have h₂ := verdictOf_eq hnodup₂ hmem₂
  have hboth : verdictOf (sweep Record.resolve (c :: r :: rest)) r.targetId =
      verdictOf (sweep Record.resolve (r :: c :: rest)) r.targetId := by
    obtain ⟨x, y, hx, hy, hxy⟩ := hindependent _ hbehind
    obtain ⟨x', z, hx', hz, hxz⟩ := hindependent _ hfront
    rw [finalizeCompanions_eq_ok_iff] at hx hy hx' hz
    rw [← hy.2, ← hz.2, hxy, hxz, hx.2, hx'.2]
  have hid₁ : (r.promote (c.promote d)).targetId = r.targetId := rfl
  have hid₂ : (r.reject c.targetId).targetId = r.targetId := rfl
  rw [hid₁] at h₁
  rw [hid₂] at h₂
  rw [h₁, h₂] at hboth
  exact absurd hboth (by simp [Record.promote, Record.reject])

/-- **The law of companions holds exactly when no waiting record wants a promotable
one.**  Grounded acceptance and the rejection of cycles hold in any case; the order
matters as soon as there is such a pair. -/
theorem companionPolicy_iff {records : List Record} (hnodup : (records.map Record.targetId).Nodup) :
    CompanionPolicy records ↔ ¬ Depends records := by
  refine ⟨fun h hd => not_orderIndependent_of_depends hnodup hd h.order, fun h => ?_⟩
  exact
    { order := orderIndependent_of_not_depends hnodup h
      grounded := fun final hfinal => by
        rw [(finalizeCompanions_eq_ok_iff.mp hfinal).2]
        exact grounded_of_accepted
      cycles := fun final hfinal cycle hsub hcycle => by
        rw [(finalizeCompanions_eq_ok_iff.mp hfinal).2]
        exact not_accepted_of_cycle hnodup hsub hcycle }

/-! ## A chain of three -/

/-- A calibration that refutes `wrong` on its own. -/
def refuting : Record where
  targetId := "c"
  profile := .str "arm32"
  source := .str "lib/f.c"
  role := .str "calibration"
  analysis := .str "eva"
  status := .calibrationPassed
  functions := ["f"]
  accepted := true
  verified := false
  localPolicyPassed := true
  issues := []
  confirmedInvalidProperties := ["wrong"]
  requiredCompanion := none
  expectedUnresolved := []
  expectedInvalid := ["wrong"]
  companionPropertyMap := []
  companionMappingReason := none
  companionEvidence := none

/-- A calibration of WP that waits for `refuting`, and refutes `bad` itself. -/
def waiting : Record :=
  { refuting with
    targetId := "b"
    analysis := .str "wp"
    status := .needsCompanion
    accepted := false
    confirmedInvalidProperties := ["bad"]
    requiredCompanion := some "c"
    expectedUnresolved := ["open"]
    expectedInvalid := ["bad"]
    companionPropertyMap := [("open", "wrong")]
    companionMappingReason := some "the same specification" }

/-- A calibration of Eva that waits for `waiting`. -/
def wanting : Record :=
  { waiting with
    targetId := "a"
    analysis := .str "eva"
    confirmedInvalidProperties := []
    requiredCompanion := some "b"
    expectedUnresolved := ["late"]
    expectedInvalid := []
    companionPropertyMap := [("late", "bad")] }

/-- The law holds of the two records at the end of the chain. -/
theorem companionPolicy_iff_pair : CompanionPolicy [waiting, refuting] :=
  (companionPolicy_iff (by decide)).mpr (by decide)

/-- The three records are judged by their order: `wanting` is rejected in front of
`waiting` and accepted behind it. -/
theorem companionChain_order :
    ([wanting, waiting, refuting].map Record.targetId).Nodup ∧
      ¬ CompanionPolicy [wanting, waiting, refuting] := by
  refine ⟨by decide, fun h => ?_⟩
  obtain ⟨final, final', hfinal, hfinal', hsame⟩ :=
    h.order [waiting, wanting, refuting] (List.Perm.swap _ _ _)
  rw [finalizeCompanions_eq_ok_iff] at hfinal hfinal'
  have hverdict := hsame "a"
  rw [hfinal.2, hfinal'.2] at hverdict
  revert hverdict
  decide

end Report
end Fragma
