import Mathlib.Order.Bounds.Basic
import Fragma.Keyed.Worklist
import Fragma.Python.Exn
import Fragma.Python.Value

/-!
# Selecting targets

`fragma/suite.py`, `select_targets`.  A run names targets, suites and profiles; the registered
targets that pass all the filters are selected, and with every target the companion that it
requires, the companion's companion, and so on.

* `SelectionError`, `companionOf`, `passesFilters`, `selectTargets`: the function.
* `Registry`: a registry of targets.
* `Passes`, `CompanionClosed`, `Reachable`: what the filters and the companions say.
* `selectTargets_isLeast`: **the selection is the least closed set, each target once.**
* `selectTargets_fails_iff`: **it fails exactly when a filter names what is not registered,
  nothing passes, or a reachable companion is not registered.**
-/

namespace Fragma
namespace Suite

open Python Keyed

/-- The exceptions of the selection: `SuiteError` in its four places, and what looking at a
record can raise. -/
inductive SelectionError where
  | unknownTargets (names : List String)
  | unknownSuites (names : List String)
  | emptySelection
  | missingCompanion (companion : Value)
  | missingKey (key : String)
  | unhashable (v : Value)
  deriving DecidableEq

/-- `value[key]`. -/
def field (t : Dict) (key : String) : Except SelectionError Value :=
  match t.lookup key with
  | some v => .ok v
  | none => .error (.missingKey key)

/-- `v in names`, for a list of names. -/
def isNamed (names : List String) (v : Value) : Bool := names.any fun n => decide (v = .str n)

/-- `{t["suite"] for t in targets.values()}`. -/
def knownSuites (targets : List (String × Dict)) : Except SelectionError (List Value) :=
  collect (fun p => do
    let v ← field p.2 "suite"
    if v.hashable then .ok [v] else .error (.unhashable v)) targets

/-- `sorted(set(names))`. -/
def sortedSet (names : List String) : List String :=
  names.dedup.mergeSort fun a b => decide (a ≤ b)

/-- The three filters, for one registered target. -/
def passesFilters (ids suites profileIds : List String) (p : String × Dict) :
    Except SelectionError Bool :=
  if ids ≠ [] ∧ p.1 ∉ ids then .ok false
  else do
    let inSuites ← if suites = [] then .ok true else (field p.2 "suite").map (isNamed suites)
    if ¬ inSuites then .ok false
    else if profileIds = [] then .ok true
    else (field p.2 "profile").map (isNamed profileIds)

/-- `target.get("required_companion")`, where it counts. -/
def companionOf (t : Dict) : Option Value :=
  (t.lookup "required_companion").filter Value.truthy

/-- The companion of the target with an identifier, as another registered target. -/
def companionLink (targets : List (String × Dict)) (id : String) :
    Except SelectionError (Option { s // s ∈ targets.map Prod.fst }) :=
  match (targets.lookup id).bind companionOf with
  | none => .ok none
  | some c =>
    if ¬ c.hashable then .error (.unhashable c)
    else
      match c with
      | .str s => if hs : s ∈ targets.map Prod.fst then .ok (some ⟨s, hs⟩)
        else .error (.missingCompanion c)
      | _ => .error (.missingCompanion c)

/-- `select_targets(targets, ids=ids, suites=suites, profile_ids=profile_ids)`.  The selection
and the pending targets are kept by their identifiers. -/
def selectTargets (targets : List (String × Dict)) (ids suites profileIds : List String) :
    Except SelectionError (List Dict) :=
  let unknown := ids.filter fun i => i ∉ targets.map Prod.fst
  if unknown ≠ [] then .error (.unknownTargets (sortedSet unknown))
  else do
    let known ← knownSuites targets
    let unknownSuites := suites.filter fun s => ¬ known.any fun v => decide (v = .str s)
    if unknownSuites ≠ [] then .error (.unknownSuites (sortedSet unknownSuites))
    else do
      let selected ← select (passesFilters ids suites profileIds) targets
      if selected = [] then .error .emptySelection
      else do
        let final ← drain (companionLink targets) (selected.map Prod.fst)
          (selected.map Prod.fst).reverse
        .ok (final.filterMap fun i => targets.lookup i)

/-! ## Registries -/

/-- A registry of targets: the identifiers are distinct, every record has its own, and every
record names a suite and a profile. -/
structure Registry where
  targets : List (String × Dict)
  nodup : (targets.map Prod.fst).Nodup
  id : ∀ p ∈ targets, p.2.lookup "id" = some (.str p.1)
  suite : ∀ p ∈ targets, ∃ s, p.2.lookup "suite" = some (.str s)
  profile : ∀ p ∈ targets, ∃ s, p.2.lookup "profile" = some (.str s)

variable (R : Registry) (ids suites profileIds : List String)

/-- The registered target passes all nonempty filters. -/
def Passes (p : String × Dict) : Prop :=
  (ids ≠ [] → p.1 ∈ ids) ∧
    (suites ≠ [] → ∃ s ∈ suites, p.2.lookup "suite" = some (.str s)) ∧
    (profileIds ≠ [] → ∃ s ∈ profileIds, p.2.lookup "profile" = some (.str s))

/-- With each target, a set of targets has the companion that it requires. -/
def CompanionClosed (S : Set Dict) : Prop :=
  ∀ t ∈ S, ∀ c, companionOf t = some c → ∃ q ∈ R.targets, c = .str q.1 ∧ q.2 ∈ S

/-- The targets that pass, their companions, the companions' companions, and so on, as far as
they are registered. -/
inductive Reachable : Dict → Prop where
  | passes {p : String × Dict} : p ∈ R.targets → Passes ids suites profileIds p → Reachable p.2
  | companion {t : Dict} {q : String × Dict} : Reachable t → q ∈ R.targets →
      companionOf t = some (.str q.1) → Reachable q.2

variable {R ids suites profileIds}

namespace Registry

theorem lookup_iff {i : String} {t : Dict} : R.targets.lookup i = some t ↔ (i, t) ∈ R.targets := by
  refine ⟨mem_of_lookup, fun hmem => ?_⟩
  cases hlook : R.targets.lookup i with
  | none =>
    have hne := List.lookup_eq_none_iff.mp hlook _ hmem
    exact absurd hne (by simp)
  | some t' =>
    have hpair := List.inj_on_of_nodup_map R.nodup (mem_of_lookup hlook) hmem rfl
    rw [(Prod.mk.inj hpair).2]

/-- A record stands under one identifier. -/
theorem eq_of_record {p q : String × Dict} (hp : p ∈ R.targets) (hq : q ∈ R.targets)
    (h : p.2 = q.2) : p = q := by
  have hid := R.id p hp
  rw [h, R.id q hq] at hid
  exact Prod.ext (Value.str.inj (Option.some.inj hid)).symm h

end Registry

/-! ## The filters -/

theorem isNamed_iff {names : List String} {v : Value} :
    isNamed names v = true ↔ ∃ s ∈ names, v = .str s := by
  simp [isNamed]

theorem field_eq {t : Dict} {key : String} {v : Value} (h : t.lookup key = some v) :
    field t key = .ok v := by
  rw [field, h]

theorem passesFilters_iff {p : String × Dict} (hp : p ∈ R.targets) :
    ∃ b, passesFilters ids suites profileIds p = .ok b ∧
      (b = true ↔ Passes ids suites profileIds p) := by
  obtain ⟨suite, hsuite⟩ := R.suite p hp
  obtain ⟨profile, hprofile⟩ := R.profile p hp
  have hin : ∀ (names : List String) (v : String),
      (∃ s ∈ names, some (Value.str v) = some (.str s)) ↔ isNamed names (.str v) = true := by
    intro names v
    rw [isNamed_iff]
    simp
  unfold passesFilters Passes
  rw [field_eq hsuite, field_eq hprofile, hsuite, hprofile, hin, hin]
  by_cases hids : ids ≠ [] ∧ p.1 ∉ ids
  · rw [if_pos hids]
    exact ⟨false, rfl, by simp only [Bool.false_eq_true, false_iff]; exact fun h => hids.2 (h.1 hids.1)⟩
  · rw [if_neg hids]
    have hpassed : ids ≠ [] → p.1 ∈ ids := fun hne => by
      by_contra hnot
      exact hids ⟨hne, hnot⟩
    rw [and_iff_right hpassed]
    by_cases hs : suites = []
    · by_cases hpr : profileIds = []
      · exact ⟨true, by simp [hs, hpr, bind, Except.bind], by simp [hs, hpr]⟩
      · exact ⟨isNamed profileIds (.str profile),
          by simp [hs, hpr, bind, Except.bind, Except.map], by simp [hs, hpr]⟩
    · cases hnamed : isNamed suites (.str suite) with
      | false => exact ⟨false, by simp [hs, hnamed, bind, Except.bind, Except.map], by simp [hs]⟩
      | true =>
        by_cases hpr : profileIds = []
        · exact ⟨true, by simp [hs, hpr, hnamed, bind, Except.bind, Except.map],
            by simp [hpr]⟩
        · exact ⟨isNamed profileIds (.str profile),
            by simp [hs, hpr, hnamed, bind, Except.bind, Except.map], by simp [hpr]⟩

theorem mem_select_iff {selected : List (String × Dict)}
    (h : select (passesFilters ids suites profileIds) R.targets = .ok selected) :
    (∀ p, p ∈ selected ↔ p ∈ R.targets ∧ Passes ids suites profileIds p) ∧
      (selected.map Prod.fst).Nodup := by
  obtain ⟨-, rfl⟩ := select_eq_ok_iff.mp h
  refine ⟨fun p => ?_, (List.filter_sublist.map Prod.fst).nodup R.nodup⟩
  rw [List.mem_filter, holds_iff]
  refine and_congr_right fun hp => ?_
  obtain ⟨b, hb, hpass⟩ := @passesFilters_iff R ids suites profileIds p hp
  rw [hb, ← hpass, Except.ok.injEq]

theorem exists_select (R : Registry) (ids suites profileIds : List String) :
    ∃ selected, select (passesFilters ids suites profileIds) R.targets = .ok selected := by
  refine ⟨_, select_eq_ok_iff.mpr ⟨fun p hp => ?_, rfl⟩⟩
  obtain ⟨b, hb, -⟩ := @passesFilters_iff R ids suites profileIds p hp
  exact ⟨b, hb⟩

theorem exists_knownSuites (R : Registry) : ∃ known, knownSuites R.targets = .ok known ∧
    ∀ s, Value.str s ∈ known ↔ ∃ p ∈ R.targets, p.2.lookup "suite" = some (.str s) := by
  have hone : ∀ p ∈ R.targets, ∃ s, p.2.lookup "suite" = some (.str s) ∧
      (do
        let v ← field p.2 "suite"
        if v.hashable then .ok [v] else .error (.unhashable v) :
          Except SelectionError (List Value)) = .ok [.str s] := by
    intro p hp
    obtain ⟨s, hs⟩ := R.suite p hp
    exact ⟨s, hs, by rw [field_eq hs]; rfl⟩
  obtain ⟨known, hknown⟩ := collect_ok_of_forall fun p hp => by
    obtain ⟨s, -, hs⟩ := hone p hp
    exact ⟨_, hs⟩
  refine ⟨known, hknown, fun s => ?_⟩
  rw [mem_of_collect_eq_ok hknown]
  constructor
  · rintro ⟨p, hp, cs, hcs, hmem⟩
    obtain ⟨s', hs', hone'⟩ := hone p hp
    rw [hone'] at hcs
    obtain rfl := Except.ok.inj hcs
    obtain rfl : s = s' := by simpa using hmem
    exact ⟨p, hp, hs'⟩
  · rintro ⟨p, hp, hs⟩
    obtain ⟨s', hs', hone'⟩ := hone p hp
    rw [hs] at hs'
    obtain rfl : s = s' := by simpa using hs'
    exact ⟨p, hp, _, hone', List.mem_singleton_self _⟩

/-! ## The companions -/

/-- What the link of a registered target is: nothing, its registered companion, or a failure. -/
theorem companionLink_cases {i : String} {t : Dict} (hmem : (i, t) ∈ R.targets) :
    (companionOf t = none ∧ companionLink R.targets i = .ok none) ∨
    (∃ q ∈ R.targets, companionOf t = some (.str q.1) ∧
      ∃ b, b.1 = q.1 ∧ companionLink R.targets i = .ok (some b)) ∨
    (∃ c, companionOf t = some c ∧ (∀ q ∈ R.targets, c ≠ .str q.1) ∧
      ∃ e, companionLink R.targets i = .error e) := by
  unfold companionLink
  rw [Registry.lookup_iff.mpr hmem, Option.bind_some]
  cases hc : companionOf t with
  | none => exact .inl ⟨rfl, rfl⟩
  | some c =>
    refine .inr ?_
    cases c with
    | str s =>
      by_cases hs : s ∈ R.targets.map Prod.fst
      · obtain ⟨q, hq, rfl⟩ := List.mem_map.mp hs
        exact .inl ⟨q, hq, rfl, ⟨q.1, hs⟩, rfl, by
          simp only [Value.hashable, not_true_eq_false, if_false, dif_pos hs]⟩
      · refine .inr ⟨_, rfl, fun q hq heq => ?_, .missingCompanion (.str s), by
          simp only [Value.hashable, not_true_eq_false, if_false, dif_neg hs]⟩
        exact hs (List.mem_map.mpr ⟨q, hq, (Value.str.inj heq).symm⟩)
    | none => exact .inr ⟨_, rfl, fun _ _ => by simp, _, rfl⟩
    | bool b => exact .inr ⟨_, rfl, fun _ _ => by simp, _, rfl⟩
    | int n => exact .inr ⟨_, rfl, fun _ _ => by simp, _, rfl⟩
    | float x => exact .inr ⟨_, rfl, fun _ _ => by simp, _, rfl⟩
    | list xs => exact .inr ⟨_, rfl, fun _ _ => by simp, _, rfl⟩
    | dict ps => exact .inr ⟨_, rfl, fun _ _ => by simp, _, rfl⟩

section Links

variable {start : List (String × Dict)}
  (hstart : ∀ p, p ∈ start ↔ p ∈ R.targets ∧ Passes ids suites profileIds p)

include hstart

/-- What the links lead to is reachable. -/
theorem reachable_of_linked {i : String}
    (h : Linked (companionLink R.targets) (start.map Prod.fst) i) :
    ∃ t, (i, t) ∈ R.targets ∧ Reachable R ids suites profileIds t := by
  induction h with
  | start hi =>
    obtain ⟨p, hp, rfl⟩ := List.mem_map.mp hi
    obtain ⟨hmem, hpass⟩ := (hstart p).mp hp
    exact ⟨p.2, hmem, .passes hmem hpass⟩
  | link _ hlink ih =>
    obtain ⟨t, hmem, hreach⟩ := ih
    rcases companionLink_cases hmem with ⟨-, hnone⟩ | ⟨q, hq, hc, b, hb, hsome⟩ | ⟨_, -, -, e, herr⟩
    · rw [hnone] at hlink
      exact absurd hlink (by simp)
    · rw [hsome] at hlink
      obtain rfl := Option.some.inj (Except.ok.inj hlink)
      rw [hb]
      exact ⟨q.2, hq, .companion hreach hq hc⟩
    · rw [herr] at hlink
      exact absurd hlink (by simp)

/-- What is reachable is linked. -/
theorem linked_of_reachable {t : Dict} (h : Reachable R ids suites profileIds t) :
    ∃ i, (i, t) ∈ R.targets ∧ Linked (companionLink R.targets) (start.map Prod.fst) i := by
  induction h with
  | @passes p hmem hpass =>
    exact ⟨p.1, hmem, .start (List.mem_map.mpr ⟨p, (hstart p).mpr ⟨hmem, hpass⟩, rfl⟩)⟩
  | @companion t q _ hq hc ih =>
    obtain ⟨i, hmem, hlinked⟩ := ih
    refine ⟨q.1, hq, ?_⟩
    rcases companionLink_cases hmem with ⟨hnone, -⟩ | ⟨q', -, hc', b, hb, hsome⟩ | ⟨c, hc', hno, -⟩
    · rw [hnone] at hc
      exact absurd hc (by simp)
    · rw [hc'] at hc
      have hname : q'.1 = q.1 := Value.str.inj (Option.some.inj hc)
      rw [← hname, ← hb]
      exact .link hlinked hsome
    · rw [hc'] at hc
      exact absurd (Option.some.inj hc) (hno q hq)

end Links

/-! ## The selection -/

theorem selectTargets_eq_ok_iff {selected : List Dict} :
    selectTargets R.targets ids suites profileIds = .ok selected ↔
      (∀ i ∈ ids, ∃ p ∈ R.targets, p.1 = i) ∧
      (∀ s ∈ suites, ∃ p ∈ R.targets, p.2.lookup "suite" = some (.str s)) ∧
      ∃ start, select (passesFilters ids suites profileIds) R.targets = .ok start ∧ start ≠ [] ∧
        ∃ final, drain (companionLink R.targets) (start.map Prod.fst)
          (start.map Prod.fst).reverse = .ok final ∧
          selected = final.filterMap fun i => R.targets.lookup i := by
  obtain ⟨known, hknown, hsuites⟩ := exists_knownSuites R
  obtain ⟨start, hstart⟩ := exists_select R ids suites profileIds
  have hids : (ids.filter fun i => i ∉ R.targets.map Prod.fst) = [] ↔
      ∀ i ∈ ids, ∃ p ∈ R.targets, p.1 = i := by
    rw [List.filter_eq_nil_iff]
    simp
  have hnames : (suites.filter fun s => ¬ known.any fun v => decide (v = .str s)) = [] ↔
      ∀ s ∈ suites, ∃ p ∈ R.targets, p.2.lookup "suite" = some (.str s) := by
    rw [List.filter_eq_nil_iff]
    simp [← hsuites]
  unfold selectTargets
  dsimp only
  rw [hknown, hstart, ← hids, ← hnames]
  split_ifs with h1
  · exact ⟨fun h => absurd h (by simp), fun h => absurd h.1 h1⟩
  · rw [ne_eq, not_not] at h1
    simp only [bind, Except.bind]
    split_ifs with h2 h3
    · exact ⟨fun h => absurd h (by simp), fun h => absurd h.2.1 h2⟩
    · simp [h3]
    · rw [ne_eq, not_not] at h2
      simp only [Except.ok.injEq, exists_eq_left', h1, h2, h3, true_and, ne_eq, not_false_eq_true]
      cases drain (companionLink R.targets) (start.map Prod.fst) (start.map Prod.fst).reverse with
      | error e => simp
      | ok final => simp [eq_comm]

/-- A required companion that is not registered can be reached. -/
def MissingCompanion (R : Registry) (ids suites profileIds : List String) : Prop :=
  ∃ t c, Reachable R ids suites profileIds t ∧ companionOf t = some c ∧
    ∀ q ∈ R.targets, c ≠ .str q.1

theorem drain_returns_iff {start : List (String × Dict)}
    (hstart : select (passesFilters ids suites profileIds) R.targets = .ok start) :
    (∃ final, drain (companionLink R.targets) (start.map Prod.fst)
      (start.map Prod.fst).reverse = .ok final) ↔ ¬ MissingCompanion R ids suites profileIds := by
  obtain ⟨hmem, hnodup⟩ := mem_select_iff hstart
  have hfails : (∃ e, drain (companionLink R.targets) (start.map Prod.fst)
      (start.map Prod.fst).reverse = .error e) ↔ _ := drain_fails_iff hnodup
  have hmissing : (∃ i, Linked (companionLink R.targets) (start.map Prod.fst) i ∧
      ∃ e, companionLink R.targets i = .error e) ↔ MissingCompanion R ids suites profileIds := by
    constructor
    · rintro ⟨i, hlinked, e, he⟩
      obtain ⟨t, ht, hreach⟩ := reachable_of_linked hmem hlinked
      rcases companionLink_cases ht with ⟨-, hnone⟩ | ⟨_, -, -, b, -, hsome⟩ | ⟨c, hc, hno, -⟩
      · rw [hnone] at he
        exact absurd he (by simp)
      · rw [hsome] at he
        exact absurd he (by simp)
      · exact ⟨t, c, hreach, hc, hno⟩
    · rintro ⟨t, c, hreach, hc, hno⟩
      obtain ⟨i, ht, hlinked⟩ := linked_of_reachable hmem hreach
      rcases companionLink_cases ht with ⟨hnone, -⟩ | ⟨q, hq, hc', -⟩ | ⟨_, -, -, e, he⟩
      · rw [hnone] at hc
        exact absurd hc (by simp)
      · rw [hc'] at hc
        exact absurd (Option.some.inj hc).symm (hno q hq)
      · exact ⟨i, hlinked, e, he⟩
  rw [← hmissing, ← hfails]
  cases drain (companionLink R.targets) (start.map Prod.fst) (start.map Prod.fst).reverse with
  | error e => simp
  | ok final => simp

/-- The records of a list of registered identifiers, each once. -/
theorem records_nodup {final : List String} (hnodup : final.Nodup) :
    (final.filterMap fun i => R.targets.lookup i).Nodup := by
  refine hnodup.filterMap fun i j t hi hj => ?_
  have hpair := Registry.eq_of_record (Registry.lookup_iff.mp hi) (Registry.lookup_iff.mp hj) rfl
  exact (Prod.mk.inj hpair).1

theorem mem_selected_iff {start : List (String × Dict)} {final : List String}
    (hstart : select (passesFilters ids suites profileIds) R.targets = .ok start)
    (hfinal : drain (companionLink R.targets) (start.map Prod.fst)
      (start.map Prod.fst).reverse = .ok final) (t : Dict) :
    t ∈ (final.filterMap fun i => R.targets.lookup i) ↔ Reachable R ids suites profileIds t := by
  obtain ⟨hmem, hnodup⟩ := mem_select_iff hstart
  have hlinked := (mem_drain hnodup hfinal).2
  rw [List.mem_filterMap]
  constructor
  · rintro ⟨i, hi, hlook⟩
    obtain ⟨t', ht', hreach⟩ := reachable_of_linked hmem ((hlinked i).mp hi)
    rw [Registry.lookup_iff.mpr ht'] at hlook
    exact Option.some.inj hlook ▸ hreach
  · intro hreach
    obtain ⟨i, hi, hlink⟩ := linked_of_reachable hmem hreach
    exact ⟨i, (hlinked i).mpr hlink, Registry.lookup_iff.mpr hi⟩

/-- **The selection is the least companion-closed set** of registered targets that has every
target passing the filters, and each target is there once.  It fails exactly when a filter names
an identifier or a suite that no registered target has, no target passes the filters, or a
required companion that can be reached is not registered. -/
theorem selectTargets_spec (R : Registry) (ids suites profileIds : List String) :
    (∀ selected, selectTargets R.targets ids suites profileIds = .ok selected →
      selected.Nodup ∧
      IsLeast {S : Set Dict | (∀ p ∈ R.targets, Passes ids suites profileIds p → p.2 ∈ S) ∧
        CompanionClosed R S} {t | t ∈ selected}) ∧
    ((∃ e, selectTargets R.targets ids suites profileIds = .error e) ↔
      (∃ i ∈ ids, ∀ p ∈ R.targets, p.1 ≠ i) ∨
      (∃ s ∈ suites, ∀ p ∈ R.targets, p.2.lookup "suite" ≠ some (.str s)) ∨
      (∀ p ∈ R.targets, ¬ Passes ids suites profileIds p) ∨
      MissingCompanion R ids suites profileIds) := by
  constructor
  · intro selected h
    obtain ⟨-, -, start, hstart, -, final, hfinal, rfl⟩ := selectTargets_eq_ok_iff.mp h
    obtain ⟨hmem, hnodup⟩ := mem_select_iff hstart
    have hselected := mem_selected_iff hstart hfinal
    have hcomplete := (drain_returns_iff hstart).mp ⟨final, hfinal⟩
    refine ⟨records_nodup (mem_drain hnodup hfinal).1, ⟨fun p hp hpass => ?_, fun t ht c hc => ?_⟩,
      fun S hS t ht => ?_⟩
    · exact (hselected p.2).mpr (.passes hp hpass)
    · have hreach := (hselected t).mp ht
      by_contra hno
      refine hcomplete ⟨t, c, hreach, hc, fun q hq heq => hno ⟨q, hq, heq, ?_⟩⟩
      exact (hselected q.2).mpr (.companion hreach hq (heq ▸ hc))
    · have hreach := (hselected t).mp ht
      clear ht
      induction hreach with
      | passes hp hpass => exact hS.1 _ hp hpass
      | companion _ hq hc ih =>
        obtain ⟨q', hq', heq, hq'S⟩ := hS.2 _ ih _ hc
        have hpair := List.inj_on_of_nodup_map R.nodup hq hq' (Value.str.inj heq)
        exact hpair ▸ hq'S
  · obtain ⟨start, hstart⟩ := exists_select R ids suites profileIds
    obtain ⟨hmem, -⟩ := mem_select_iff hstart
    have hempty : start = [] ↔ ∀ p ∈ R.targets, ¬ Passes ids suites profileIds p := by
      rw [List.eq_nil_iff_forall_not_mem]
      exact ⟨fun h p hp hpass => h p ((hmem p).mpr ⟨hp, hpass⟩),
        fun h p hp => h p ((hmem p).mp hp).1 ((hmem p).mp hp).2⟩
    have hok : (∃ selected, selectTargets R.targets ids suites profileIds = .ok selected) ↔
        (∀ i ∈ ids, ∃ p ∈ R.targets, p.1 = i) ∧
        (∀ s ∈ suites, ∃ p ∈ R.targets, p.2.lookup "suite" = some (.str s)) ∧
        ¬ (∀ p ∈ R.targets, ¬ Passes ids suites profileIds p) ∧
        ¬ MissingCompanion R ids suites profileIds := by
      rw [← hempty, ← drain_returns_iff hstart]
      constructor
      · rintro ⟨selected, h⟩
        obtain ⟨hids, hsuites, start', hstart', hne, final, hfinal, -⟩ :=
          selectTargets_eq_ok_iff.mp h
        obtain rfl := Except.ok.inj (hstart.symm.trans hstart')
        exact ⟨hids, hsuites, hne, final, hfinal⟩
      · rintro ⟨hids, hsuites, hne, final, hfinal⟩
        exact ⟨_, selectTargets_eq_ok_iff.mpr ⟨hids, hsuites, start, hstart, hne, final, hfinal, rfl⟩⟩
    have hfails : (∃ e, selectTargets R.targets ids suites profileIds = .error e) ↔
        ¬ ∃ selected, selectTargets R.targets ids suites profileIds = .ok selected := by
      cases selectTargets R.targets ids suites profileIds with
      | error e => simp
      | ok selected => simp
    rw [hfails, hok, not_and_or, not_and_or, not_and_or, not_not, not_not]
    push Not
    rfl

/-- A record that requires a companion. -/
def linkedRecord (i companion : String) : String × Dict :=
  (i, [("id", .str i), ("suite", .str "core"), ("profile", .str "x86_64-gcc"),
    ("required_companion", .str companion)])

/-- Two targets that require each other, and one that requires the first of them. -/
def cyclicRegistry : Registry where
  targets := [linkedRecord "a" "b", linkedRecord "b" "a", linkedRecord "c" "a"]
  nodup := by decide
  id := by decide
  suite := fun p hp => ⟨"core", by revert p hp; decide⟩
  profile := fun p hp => ⟨"x86_64-gcc", by revert p hp; decide⟩

theorem selectTargets_spec_cycle :
    IsLeast {S : Set Dict | (∀ p ∈ cyclicRegistry.targets, Passes ["a"] [] [] p → p.2 ∈ S) ∧
      CompanionClosed cyclicRegistry S}
      {t | t ∈ [(linkedRecord "a" "b").2, (linkedRecord "b" "a").2]} :=
  ((selectTargets_spec cyclicRegistry ["a"] [] []).1 _ (by decide +kernel)).2

end Suite
end Fragma
