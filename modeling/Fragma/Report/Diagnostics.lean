import Fragma.Python.Raises
import Fragma.Report.Waivers

/-!
# Malformed diagnostics

`evaluate_target` takes any list of values as warnings, and a warning that is no diagnostic makes
it report a tool error.  On a target, goals and rows that are what they should be, nothing before
that raises an exception but the gate of the reviews, and of what that raises three kinds are
caught.

* `Formed`: a target, its goals and its rows are what they should be.
* `validatedNative_raises`: what the gate of the native observations raises is caught.
* `evaluateTarget_returns_iff`: **everything but the reviews returns.**
* `evaluateTarget_malformed`: **a malformed warning is a tool error.**
-/

namespace Fragma
namespace Report

open Python Posix

/-! ## What a target should be -/

/-- A list of texts. -/
def IsTexts (v : Value) : Prop := ∃ ss : List String, v = .list (ss.map .str)

/-- A target with its lists of names, and with an entry point. -/
structure TargetFormed (target : Dict) : Prop where
  unresolved : IsTexts (Value.get target "expected_unresolved" (.list []))
  invalid : IsTexts (Value.get target "expected_invalid" (.list []))
  claims : IsTexts (Value.get target "claims" (.list []))
  goals : IsTexts (Value.get target "required_goals" (.list []))
  entry : ∃ s, Value.get target "entry" (.str "main") = .str s

/-- A record of the property report. -/
structure RowFormed (d : Dict) : Prop where
  texts : ∀ field ∈ ["function", "path", "kind", "property"], ∃ s, Value.get d field = .str s
  line : ∃ n, Value.get d "line" = .int n
  names : IsTexts (Value.get d "names" (.list []))
  count : ∃ n, Value.get d "exported_duplicate_count" (.int 1) = .int n

/-- The target, the goals and the rows are what they should be. -/
structure Formed (host : Host) (target : Dict) (wpGoals properties : Value)
    (declared : Declaration) (goals : List Goal) (rows : List Row) : Prop where
  declares : declaration target = some declared
  fields : TargetFormed target
  goals_read : readGoals host target wpGoals = .ok (goals, [])
  rows_read : ∃ ds : List Dict, properties = .list (ds.map .dict) ∧ (∀ d ∈ ds, RowFormed d) ∧
    List.Forall₂ Row.Reads rows (ds.map .dict)

theorem IsTexts.contains {v : Value} (h : IsTexts v) (x : Value) :
    ∃ b, Value.contains v x = some b := by
  obtain ⟨ss, rfl⟩ := h
  exact ⟨_, rfl⟩

/-- The set of a list of texts. -/
theorem IsTexts.toSet {v : Value} (h : IsTexts v) :
    ∃ xs, Value.toSet v = some xs ∧ ∀ x ∈ xs, ∃ s, x = .str s := by
  obtain ⟨ss, rfl⟩ := h
  have hhashable : (ss.map Value.str).all Value.hashable = true := by
    rw [List.all_map]
    exact List.all_eq_true.mpr fun _ _ => rfl
  refine ⟨Value.distinct (ss.map .str), ?_, fun x hx => ?_⟩
  · rw [Value.toSet, Value.iterate]
    exact if_pos hhashable
  · obtain ⟨s, -, rfl⟩ := List.mem_map.mp (Value.mem_of_mem_distinct hx)
    exact ⟨s, rfl⟩

/-! ## What returns on a formed row -/

/-- A row that was read from a formed record. -/
structure Row.Formed (r : Row) : Prop where
  texts : ∀ field ∈ ["function", "path", "kind", "property"], ∃ s, r.get field = .str s
  line : ∃ n, r.get "line" = .int n
  names : IsTexts (r.get "names" (.list []))
  count : ∃ n, r.get "exported_duplicate_count" (.int 1) = .int n

theorem Row.Reads.formed {r : Row} {d : Dict} (h : r.Reads (.dict d)) (hd : RowFormed d) :
    r.Formed := by
  obtain ⟨d', heq, -, -, hrecord⟩ := h
  obtain rfl := Value.dict.inj heq
  have hget : ∀ {field} default, field ≠ "outcome" → r.get field default = Value.get d field default := by
    intro field default hne
    rw [Row.get, hrecord, Value.get_set_of_ne d _ _ hne]
  refine ⟨fun field hfield => ?_, ?_, ?_, ?_⟩
  · rw [hget _ (by rintro rfl; exact absurd hfield (by decide))]
    exact hd.texts field hfield
  · rw [hget _ (by decide)]
    exact hd.line
  · rw [hget _ (by decide)]
    exact hd.names
  · rw [hget _ (by decide)]
    exact hd.count

namespace Row.Formed

variable {r : Row} (h : r.Formed)
include h

theorem named (name : Value) : ∃ b, r.named name = .ok b := by
  obtain ⟨b, hb⟩ := h.names.contains name
  exact ⟨b, orRaise_eq_ok_iff.mpr hb⟩

theorem inSelected (selected : List Value) : ∃ b, inSelected selected r = .ok b := by
  obtain ⟨f, hf⟩ := h.texts "function" (by decide)
  refine ⟨Value.member selected (.str f), ?_⟩
  rw [Report.inSelected, hf]
  rfl

theorem isMerged : ∃ b, r.isMerged = .ok b := by
  obtain ⟨n, hn⟩ := h.count
  refine ⟨decide (1 < n), ?_⟩
  rw [Row.isMerged, hn]
  rfl

theorem hashable : r.identity.all Value.hashable = true := by
  rw [List.all_eq_true]
  intro v hv
  obtain ⟨field, hfield, rfl⟩ := List.mem_map.mp hv
  by_cases hline : field = "line"
  · obtain ⟨n, hn⟩ := h.line
    rw [hline, hn]
    rfl
  · obtain ⟨s, hs⟩ := h.texts field (by
      simp only [List.mem_cons, List.not_mem_nil, or_false] at hfield ⊢
      tauto)
    rw [hs]
    rfl

/-- The names of a row are texts. -/
theorem aliases (goals : List Goal) :
    ∃ xs, propertyAliases r goals = .ok xs ∧ ∀ x ∈ xs, ∃ s, x = .str s := by
  obtain ⟨names, hnames, htexts⟩ := h.names.toSet
  obtain ⟨kind, hkind⟩ := h.texts "kind" (by decide)
  refine ⟨names ++ ((goals.filter (isLocated r)).filter fun g => compatible kind g.property).map
    fun g => .str g.property, ?_, ?_⟩
  · unfold propertyAliases
    rw [hnames, hkind]
    rfl
  · intro x hx
    rcases List.mem_append.mp hx with hx | hx
    · exact htexts x hx
    · obtain ⟨g, -, rfl⟩ := List.mem_map.mp hx
      exact ⟨_, rfl⟩

end Row.Formed

/-! ## What returns on formed rows -/

theorem evaChecks_returns (host : Host) {rows : List Row} (hrows : ∀ r ∈ rows, r.Formed)
    (warnings expectedInvalid : List Value) :
    ∃ checks, evaChecks host rows warnings expectedInvalid = .ok checks := by
  refine collect_ok_of_forall fun name _ => ?_
  have hselect : ∃ matched, select (isAmbiguousCheck name) rows = .ok matched := by
    refine ⟨_, select_eq_ok_iff.mpr ⟨fun r hr => ?_, rfl⟩⟩
    unfold isAmbiguousCheck
    split_ifs
    · exact (hrows r hr).named name
    · exact ⟨false, rfl⟩
  obtain ⟨matched, hmatched⟩ := hselect
  unfold evaCheck
  rw [hmatched]
  dsimp only [bind, Except.bind]
  split
  · split
    · exact ⟨_, rfl⟩
    · exact ⟨_, rfl⟩
  · exact ⟨_, rfl⟩

theorem isLinked_returns {e : Evidence} {g : Goal} {rows : List Row} (hrows : ∀ r ∈ rows, r.Formed) :
    ∃ b, isLinked e g rows = .ok b := by
  induction rows with
  | nil => exact ⟨false, rfl⟩
  | cons r rs ih =>
    obtain ⟨xs, hxs, -⟩ := (hrows r List.mem_cons_self).aliases [g]
    rw [isLinked, hxs]
    dsimp only [bind, Except.bind]
    split_ifs
    · exact ⟨true, rfl⟩
    · exact ih fun r' hr' => hrows r' (List.mem_cons_of_mem _ hr')

theorem wpAnalysis_returns {e : Evidence} (htarget : TargetFormed e.target)
    (hrows : ∀ r ∈ e.rows, r.Formed) : ∃ analysis, wpAnalysis e = .ok analysis := by
  have hlinked : ∀ g, ∃ b, isLinked e g (e.rows.filter (atGoal g)) = .ok b := fun g =>
    isLinked_returns fun r hr => hrows r (List.mem_of_mem_filter hr)
  have hlinks : ∃ links, collect (linkIssues e) e.goals = .ok links := by
    refine collect_ok_of_forall fun g _ => ?_
    unfold linkIssues
    obtain ⟨b, hb⟩ := hlinked g
    rw [hb]
    dsimp only [bind, Except.bind]
    split_ifs
    · exact ⟨_, rfl⟩
    · exact ⟨_, rfl⟩
    · exact ⟨_, rfl⟩
  have homissions : ∃ omissions, collect (omission e) e.goals = .ok omissions := by
    refine collect_ok_of_forall fun g _ => ?_
    unfold omission
    obtain ⟨b, hb⟩ := hlinked g
    rw [hb]
    dsimp only [bind, Except.bind]
    split_ifs
    · exact ⟨_, rfl⟩
    · exact ⟨_, rfl⟩
    · exact ⟨_, rfl⟩
  have hbaseline : ∃ baseline, orRaise (Value.get e.target "required_goals" (.list [])).iterate
      (typeError "object is not iterable") = .ok baseline := by
    obtain ⟨ss, hss⟩ := htarget.goals
    rw [hss]
    exact ⟨_, rfl⟩
  exact exists_ok_bind hbaseline fun _ _ => exists_ok_bind hlinks fun _ _ =>
    exists_ok_bind homissions fun _ _ => ⟨_, rfl⟩

theorem evaAnalysis_returns {e : Evidence} (htarget : TargetFormed e.target)
    (hrows : ∀ r ∈ e.rows, r.Formed) (wpGoals : Value) :
    ∃ analysis, evaAnalysis e wpGoals = .ok analysis := by
  have hrequired : ∃ required, collect (evaRequire e) e.declared.required = .ok required := by
    refine collect_ok_of_forall fun name _ => ?_
    have hselect : ∃ matched, select (evaNamed e name) e.rows = .ok matched := by
      refine ⟨_, select_eq_ok_iff.mpr ⟨fun r hr => ?_, rfl⟩⟩
      obtain ⟨b, hb⟩ := (hrows r hr).inSelected (evaSelected e)
      unfold evaNamed
      rw [hb]
      dsimp only [bind, Except.bind]
      split_ifs
      · exact (hrows r hr).named _
      · exact ⟨false, rfl⟩
    exact exists_ok_bind hselect fun _ _ => ⟨_, rfl⟩
  have hentry : (entryOf e).hashable = true := by
    obtain ⟨entry, hentry⟩ := htarget.entry
    rw [entryOf, hentry]
    rfl
  exact exists_ok_bind (exists_ok_raiseIf (not_not.mpr hentry)) fun _ _ =>
    exists_ok_bind hrequired fun _ _ => ⟨_, rfl⟩

theorem analyse_returns {e : Evidence} (htarget : TargetFormed e.target)
    (hrows : ∀ r ∈ e.rows, r.Formed) (wpGoals : Value) :
    ∃ analysis, analyse e wpGoals = .ok analysis := by
  unfold analyse
  split_ifs
  · exact wpAnalysis_returns htarget hrows
  · exact evaAnalysis_returns htarget hrows wpGoals
  · exact ⟨_, rfl⟩

/-- Texts can be sorted. -/
theorem sortable_of_texts {xs : List Value} (h : ∀ x ∈ xs, ∃ s, x = .str s) :
    sortable (Value.distinct xs) = true := by
  unfold sortable
  rw [Bool.or_eq_true, Bool.or_eq_true]
  refine .inl (.inr (List.all_eq_true.mpr fun x hx => ?_))
  obtain ⟨s, rfl⟩ := h x (Value.mem_of_mem_distinct hx)
  rfl

theorem rowIssues_returns {e : Evidence} {rows : List Row} (hrows : ∀ r ∈ rows, r.Formed)
    (seen : List (List Value)) : ∃ issues, rowIssues e seen rows = .ok issues := by
  induction rows generalizing seen with
  | nil => exact ⟨[], rfl⟩
  | cons r rs ih =>
    have hr := hrows r List.mem_cons_self
    have hidentity : ∃ issues, identityIssues seen r = .ok issues := by
      refine exists_ok_bind (exists_ok_raiseIf (not_not.mpr hr.hashable)) fun _ _ => ?_
      split_ifs
      · exact ⟨_, rfl⟩
      · exact ⟨_, rfl⟩
    have hjudge : ∃ issues, judgeRow e r = .ok issues := by
      obtain ⟨xs, hxs, htexts⟩ := hr.aliases e.goals
      refine exists_ok_bind ⟨xs, hxs⟩ fun xs' hxs' => ?_
      obtain rfl := Except.ok.inj (hxs.symm.trans hxs')
      have hsorted : ¬ (r.outcome = .pending ∧ ¬ sortable (Value.distinct xs)) := fun hpending =>
        hpending.2 (sortable_of_texts htexts)
      refine exists_ok_bind (exists_ok_raiseIf hsorted) fun _ _ => ?_
      split_ifs
      · exact ⟨_, rfl⟩
      · exact ⟨_, rfl⟩
    have hrest := ih (fun r' hr' => hrows r' (List.mem_cons_of_mem _ hr')) (r.identity :: seen)
    exact exists_ok_bind hidentity fun _ _ => exists_ok_bind hjudge fun _ _ =>
      exists_ok_bind hrest fun _ _ => ⟨_, rfl⟩

theorem unresolvedRows_returns {e : Evidence} {rows : List Row} (hrows : ∀ r ∈ rows, r.Formed) :
    ∃ unresolved, unresolvedRows e rows = .ok unresolved := by
  refine collect_ok_of_forall fun r hr => ?_
  obtain ⟨xs, hxs, -⟩ := (hrows r hr).aliases e.goals
  rw [hxs]
  exact ⟨_, rfl⟩

theorem warningIssue_returns {e : Evidence} (htarget : TargetFormed e.target) (p : Value × ℕ) :
    ∃ issues, warningIssue e p = .ok issues := by
  obtain ⟨claimed, hclaimed⟩ := htarget.claims.contains (.str "runtime-safety")
  unfold warningIssue
  split
  · exact ⟨_, rfl⟩
  · split_ifs
    · exact ⟨_, rfl⟩
    · exact ⟨_, rfl⟩
    · exact ⟨_, rfl⟩
    · refine exists_ok_bind ⟨claimed, orRaise_eq_ok_iff.mpr hclaimed⟩ fun _ _ => ?_
      split_ifs
      · exact ⟨_, rfl⟩
      · exact ⟨_, rfl⟩
    · exact ⟨_, rfl⟩

/-! ## What `evaluate_target` catches -/

/-- `except (ReportError, OSError, ValueError)`. -/
def Caught (kind : ExnKind) : Prop := kind = .reportError ∨ kind = .osError ∨ kind = .valueError

theorem caught_reportError (message : String) : Caught (reportError message).kind := .inl rfl

theorem reviewing_returns_iff {α : Type} {x : Except Exn α} (default : α) :
    (∃ r, reviewing x default = .ok r) ↔ Raises Caught x := by
  unfold reviewing
  constructor
  · rintro ⟨r, h⟩ e rfl
    dsimp only at h
    split_ifs at h with hcaught
    exact hcaught
  · intro h
    cases x with
    | ok a => exact ⟨_, rfl⟩
    | error e => exact ⟨_, if_pos (h e rfl)⟩

/-- The observations of a target with names have names. -/
theorem nativeObserved_named {target envelope : Dict} {negative observed : List Value}
    {ss : List String} (hrequired : Value.get target "required_properties" = .list (ss.map .str))
    (h : nativeObserved target envelope negative = .ok observed) :
    ∀ v ∈ observed, ∃ d name, v = .dict d ∧ Value.get d "name" = .str name := by
  unfold nativeObserved at h
  split at h
  · next vs hvs =>
    dsimp only at h
    split_ifs at h with hexact
    obtain ⟨-, hlength, hnames⟩ := hexact
    rw [← Except.ok.inj h]
    intro v hv
    have hdict := List.filterMap_length_eq_length.mp hlength v hv
    obtain ⟨d, rfl⟩ : ∃ d, v = .dict d := by
      cases v with
      | dict d => exact ⟨d, rfl⟩
      | _ => exact absurd hdict (by simp [observationName])
    have hmem : Value.get d "name" ∈ vs.filterMap observationName :=
      List.mem_filterMap.mpr ⟨_, hv, rfl⟩
    have hdefault : Value.get target "required_properties" (.list []) = .list (ss.map .str) := by
      unfold Value.get at hrequired ⊢
      cases hlookup : target.lookup "required_properties" with
      | none =>
        rw [hlookup] at hrequired
        exact absurd hrequired (by simp)
      | some w =>
        rw [hlookup] at hrequired
        exact hrequired
    rw [hdefault] at hnames
    have hnorm : (vs.filterMap observationName).map Value.norm = (ss.map Value.str).map Value.norm := by
      have hsame := (Value.eq_iff.mp hnames).2
      rwa [Value.Same, Value.norm, Value.norm, Value.list.injEq, Value.normList_eq_map,
        Value.normList_eq_map] at hsame
    have hin := hnorm ▸ List.mem_map_of_mem hmem
    rw [List.map_map] at hin
    obtain ⟨s, -, hs⟩ := List.mem_map.mp hin
    exact ⟨d, s, rfl, Value.norm_eq_str_iff.mp hs.symm⟩
  · exact absurd h (by simp)

section Host

variable {host : Host} (hhost : ∀ file, Raises Caught (host.resolve file))
include hhost

theorem reviewPath_raises (root : PurePath) (v : Value) : Raises Caught (reviewPath host root v) := by
  unfold reviewPath
  split
  · refine (raises_raiseIf (caught_reportError _)).bind fun _ _ => (hhost _).bind fun _ _ => ?_
    exact (raises_raiseIf (caught_reportError _)).bind fun _ _ => raises_ok
  · exact raises_error (caught_reportError _)

/-- An observation with a name raises nothing else. -/
theorem nativeObservation_raises {scope : NativeScope} (hscope : scope.host = host)
    (hrows : ∀ r ∈ scope.rows, r.Formed) {d : Dict} {name : String}
    (hname : Value.get d "name" = .str name) :
    Raises Caught (nativeObservation scope (.dict d)) := by
  have hplaced : Raises Caught (nativePlaced scope d) := by
    unfold nativePlaced
    split_ifs
    · rw [hscope]
      exact (reviewPath_raises hhost _ _).bind fun _ _ => raises_ok
    · exact raises_ok
  have hmatches : ∀ r ∈ scope.rows, Raises Caught (nativeMatches scope name d r) := by
    intro r hr
    unfold nativeMatches
    split_ifs
    · obtain ⟨b, hb⟩ := (hrows r hr).named (.str name)
      exact raises_of_eq_ok hb
    · exact raises_ok
  unfold nativeObservation
  dsimp only
  rw [hname]
  dsimp only
  refine (raises_raiseIf (caught_reportError _)).bind fun _ _ => hplaced.bind fun _ _ =>
    (raises_raiseIf (caught_reportError _)).bind fun _ _ =>
      (raises_select hmatches).bind fun matched _ => ?_
  split
  · split_ifs
    · exact raises_ok
    · exact raises_error (caught_reportError _)
    · exact raises_ok
    · exact raises_error (caught_reportError _)
  · exact raises_error (caught_reportError _)

/-- **The native gate raises nothing else**, for a target with names. -/
theorem validatedNative_raises {target : Dict} (native : Value) {rows : List Row} {ss : List String}
    (hrequired : Value.get target "required_properties" = .list (ss.map .str))
    (hinvalid : IsTexts (Value.get target "expected_invalid" (.list [])))
    (hrows : ∀ r ∈ rows, r.Formed) : Raises Caught (validatedNative host target native rows) := by
  have hfield : ∀ envelope field targetField,
      Raises Caught (nativeField target envelope field targetField) := by
    intro envelope field targetField
    unfold nativeField
    split
    · split_ifs
      · exact raises_ok
      · exact raises_error (caught_reportError _)
    · exact raises_error (caught_reportError _)
  have hroot : ∀ envelope, Raises Caught (nativeRoot host envelope) := by
    intro envelope
    unfold nativeRoot
    split
    · split_ifs
      · exact (hhost _).map
      · exact raises_error (caught_reportError _)
    · exact raises_error (caught_reportError _)
  have hreceipt : ∀ envelope, Raises Caught (nativeReceipt envelope) := by
    intro envelope
    unfold nativeReceipt
    split
    · split
      · split_ifs
        · exact raises_ok
        · exact raises_error (caught_reportError _)
      · exact raises_error (caught_reportError _)
    · exact raises_error (caught_reportError _)
  have hobserved : ∀ envelope negative, Raises Caught (nativeObserved target envelope negative) := by
    intro envelope negative
    unfold nativeObserved
    split
    · dsimp only
      split_ifs
      · exact raises_ok
      · exact raises_error (caught_reportError _)
    · exact raises_error (caught_reportError _)
  unfold validatedNative
  split
  · exact raises_ok
  · next envelope =>
    refine (raises_raiseIf (caught_reportError _)).bind fun _ _ => (hfield _ _ _).bind fun _ _ =>
      (hfield _ _ _).bind fun _ _ => (hfield _ _ _).bind fun _ _ => (hfield _ _ _).bind fun _ _ =>
      (raises_raiseIf (caught_reportError _)).bind fun _ _ => (hroot _).bind fun root _ =>
      (reviewPath_raises hhost _ _).bind fun _ _ => (hreceipt _).bind fun _ _ =>
      (reviewPath_raises hhost _ _).bind fun _ _ => ?_
    obtain ⟨negative, hnegative, -⟩ := hinvalid.toSet
    refine (raises_of_eq_ok (orRaise_eq_ok_iff.mpr hnegative)).bind fun _ _ =>
      (hobserved _ _).bind fun observed hok => raises_collect fun v hv => ?_
    obtain ⟨d, name, rfl, hname⟩ := nativeObserved_named hrequired hok v hv
    exact nativeObservation_raises hhost rfl hrows hname
  · exact raises_error (caught_reportError _)

end Host

/-! ## Everything but the reviews returns -/

/-- The required properties of a declared target are texts. -/
theorem required_of_declaration {target : Dict} {declared : Declaration}
    (h : declaration target = some declared) :
    ∃ ss : List String, Value.get target "required_properties" = .list (ss.map .str) := by
  unfold declaration at h
  obtain ⟨_, -, h⟩ := Option.bind_eq_some_iff.mp h
  obtain ⟨_, -, h⟩ := Option.bind_eq_some_iff.mp h
  obtain ⟨required, hrequired, -⟩ := Option.bind_eq_some_iff.mp h
  unfold namesOf at hrequired
  split at hrequired
  · next vs hvs =>
    split_ifs at hrequired with hnames
    refine ⟨required, ?_⟩
    rw [hvs, ← Option.some.inj hrequired, Value.list.injEq]
    have hall := List.all_eq_true.mp hnames.2.1
    clear hrequired hnames hvs
    induction vs with
    | nil => rfl
    | cons v vs ih =>
      have htail := ih fun x hx => hall x (List.mem_cons_of_mem _ hx)
      cases v with
      | str s => exact congrArg (Value.str s :: ·) htail
      | _ => exact absurd (hall _ List.mem_cons_self) (by simp [Value.isName])
  · exact absurd hrequired (by simp)

/-- A row is read where its record is formed. -/
theorem Row.Reads.readRow_eq {r : Row} {v : Value} (h : r.Reads v) : readRow v = .ok (.row r) := by
  obtain ⟨d, rfl, hfields, hstatus, hrecord⟩ := h
  unfold readRow
  dsimp only
  rw [if_pos hfields]
  split
  · next status hs =>
    obtain rfl := Value.str.inj (hstatus.symm.trans hs)
    split
    · next outcome houtcome =>
      obtain rfl := Option.some.inj (houtcome.symm.trans r.status_eq)
      cases r
      dsimp only at hrecord
      subst hrecord
      rfl
    · next hnone => exact absurd (hnone.symm.trans r.status_eq) (by simp)
  · next hne => exact absurd hstatus (hne _)

theorem readRows_eq {rows : List Row} {vs : List Value} (h : List.Forall₂ Row.Reads rows vs) :
    readRows vs = .ok (rows.map .row) := by
  induction h with
  | nil => rfl
  | @cons r v rows vs hr _ ih =>
    unfold readRows at ih ⊢
    refine collect_cons_eq_ok_iff.mpr ⟨[.row r], rows.map .row, ?_, ih, rfl⟩
    rw [hr.readRow_eq]
    rfl

theorem filterMap_row?_map (rows : List Row) :
    (rows.map RowReading.row).filterMap RowReading.row? = rows := by
  rw [List.filterMap_map]
  exact List.filterMap_some

section Formed

variable {host : Host} {target : Dict} {wpGoals properties : Value} {declared : Declaration}
  {goals : List Goal} {rows : List Row} (h : Formed host target wpGoals properties declared goals rows)
include h

theorem Formed.rows_formed : ∀ r ∈ rows, r.Formed := by
  obtain ⟨ds, -, hds, hreads⟩ := h.rows_read
  clear h
  intro r hr
  induction ds generalizing rows with
  | nil =>
    cases hreads
    exact absurd hr List.not_mem_nil
  | cons d ds ih =>
    cases hreads with
    | cons hhead htail =>
      rcases List.mem_cons.mp hr with rfl | hr
      · exact hhead.formed (hds d List.mem_cons_self)
      · exact ih (fun d' hd' => hds d' (List.mem_cons_of_mem _ hd')) htail hr

/-- The rows that the evaluation reads. -/
theorem Formed.readRows_eq : ∃ readings, readRows (propertyRecords properties).1 = .ok readings ∧
    readings.filterMap RowReading.row? = rows := by
  obtain ⟨ds, rfl, -, hreads⟩ := h.rows_read
  refine ⟨rows.map .row, ?_, filterMap_row?_map rows⟩
  have hrecords : (propertyRecords (.list (ds.map .dict))).1 = ds.map .dict := by
    cases ds with
    | nil => rfl
    | cons d ds => rfl
  rw [hrecords]
  exact Report.readRows_eq hreads

/-- The reading returns exactly where the gate of the reviews does. -/
theorem gather_eq (hhost : ∀ file, Raises Caught (host.resolve file)) (review native : Value)
    (ws : List Value) :
    ∃ (evidence : Approved → Evidence) (found : List Issue → List Issue),
      (∀ approved, (evidence approved).target = target ∧ (evidence approved).rows = rows ∧
        (evidence approved).warnings = ws) ∧
      gather host target declared wpGoals properties (.list ws) review native =
        (reviewing (validatedReviews host target review goals rows ws declared.analysisFunctions)
          .empty).map fun reviews => (evidence reviews.1, found reviews.2) := by
  have hrows := h.rows_formed
  obtain ⟨readings, hreadings, hread⟩ := h.readRows_eq
  obtain ⟨unresolved, hunresolved, -⟩ := h.fields.unresolved.toSet
  obtain ⟨invalid, hinvalid, -⟩ := h.fields.invalid.toSet
  obtain ⟨checks, hchecks⟩ := evaChecks_returns host hrows ws invalid
  obtain ⟨ss, hss⟩ := required_of_declaration h.declares
  obtain ⟨accepted, haccepted⟩ := (reviewing_returns_iff []).mpr
    (validatedNative_raises hhost native hss h.fields.invalid hrows)
  refine ⟨fun approved => ⟨host, target, declared, unresolved, invalid, rows, ws, checks, goals,
    approved, accepted.1⟩, fun issues => expectationIssues target declared unresolved invalid ++
    (propertyRecords properties).2 ++ readings.filterMap RowReading.issue? ++ [] ++ [] ++ issues ++
    accepted.2, fun approved => ⟨rfl, rfl, rfl⟩, ?_⟩
  unfold gather
  simp only [hunresolved, hinvalid, orRaise, hreadings, bind, Except.bind, hread, warningList,
    hchecks, h.goals_read, haccepted]
  cases reviewing (validatedReviews host target review goals rows ws declared.analysisFunctions)
    .empty with
  | error e => rfl
  | ok reviews => rfl

/-- **Everything but the reviews returns.** -/
theorem evaluateTarget_returns_iff (hhost : ∀ file, Raises Caught (host.resolve file))
    (returncode review native : Value) (ws : List Value) :
    (∃ result, evaluateTarget host target wpGoals properties returncode (.list ws) review native =
        .ok result) ↔
      Raises Caught (validatedReviews host target review goals rows ws
        declared.analysisFunctions) := by
  obtain ⟨evidence, found, hevidence, hgather⟩ := gather_eq h hhost review native ws
  unfold evaluateTarget
  rw [h.declares, ← reviewing_returns_iff .empty]
  dsimp only
  unfold evaluateDeclared
  rw [hgather]
  constructor
  · rintro ⟨result, hresult⟩
    obtain ⟨p, hp, -⟩ := bind_eq_ok_iff.mp hresult
    cases hreviews : reviewing (validatedReviews host target review goals rows ws
        declared.analysisFunctions) .empty with
    | error e =>
      rw [hreviews] at hp
      exact absurd hp (by simp [Except.map])
    | ok reviews => exact ⟨reviews, rfl⟩
  · rintro ⟨reviews, hreviews⟩
    rw [hreviews]
    obtain ⟨htarget, hrows, -⟩ := hevidence reviews.1
    have hformed : ∀ r ∈ (evidence reviews.1).rows, r.Formed := hrows ▸ h.rows_formed
    have hfields : TargetFormed (evidence reviews.1).target := htarget ▸ h.fields
    refine exists_ok_bind ⟨_, rfl⟩ fun p hp => ?_
    obtain rfl := Except.ok.inj hp
    refine exists_ok_bind (analyse_returns hfields hformed wpGoals) fun analysis _ => ?_
    have hselect : ∃ selected, select (inSelected analysis.selected) (evidence reviews.1).rows =
        .ok selected := ⟨_, select_eq_ok_iff.mpr ⟨fun r hr => (hformed r hr).inSelected _, rfl⟩⟩
    refine exists_ok_bind hselect fun selected hselected => ?_
    have hchosen : ∀ r ∈ selected, r.Formed := by
      intro r hr
      rw [(select_eq_ok_iff.mp hselected).2] at hr
      exact hformed r (List.mem_of_mem_filter hr)
    have hmerged : ∃ merged, select Row.isMerged selected = .ok merged :=
      ⟨_, select_eq_ok_iff.mpr ⟨fun r hr => (hchosen r hr).isMerged, rfl⟩⟩
    have hjudged : ∃ judged, selectedIssues (evidence reviews.1) selected = .ok judged :=
      exists_ok_bind (rowIssues_returns hchosen []) fun _ _ => ⟨_, rfl⟩
    exact exists_ok_bind hmerged fun _ _ => exists_ok_bind hjudged fun _ _ =>
      exists_ok_bind (unresolvedRows_returns hchosen) fun _ _ =>
        exists_ok_bind (collect_ok_of_forall fun p _ => warningIssue_returns hfields p)
          fun _ _ => ⟨_, rfl⟩

end Formed

/-! ## Malformed diagnostics -/

/-- A warning that is neither a text nor an object with a message and a severity. -/
def Malformed (w : Value) : Prop :=
  (∀ s, w ≠ .str s) ∧ ∀ d message severity, w = .dict d → Value.get d "message" = .str message →
    Value.get d "severity" = .str severity → severity ∉ ["warning", "error", "unsupported"]

theorem diagnosticOf_eq_none_iff {w : Value} : diagnosticOf w = none ↔ Malformed w := by
  unfold diagnosticOf Malformed
  constructor
  · intro h
    refine ⟨fun s hs => ?_, ?_⟩
    · rw [hs] at h
      exact absurd h (by simp)
    · rintro d message severity rfl hmessage hseverity hin
      dsimp only at h
      rw [hmessage] at h
      dsimp only at h
      have hany : (["warning", "error", "unsupported"].any fun s =>
          decide (Value.get d "severity" = .str s)) = true :=
        List.any_eq_true.mpr ⟨severity, hin, decide_eq_true hseverity⟩
      rw [if_pos hany] at h
      exact absurd h (by simp)
  · rintro ⟨htext, hobject⟩
    split
    · next s => exact absurd rfl (htext s)
    · next d =>
      split
      · next message hmessage =>
        split_ifs with hany
        · obtain ⟨severity, hin, hseverity⟩ := List.any_eq_true.mp hany
          exact absurd hin (hobject d message severity rfl hmessage (of_decide_eq_true hseverity))
        · rfl
      · rfl
    · rfl

/-- What has a tool error is not accepted, and keeps it. -/
theorem conclude_of_toolError {result : Evaluation} (role : Value) (unresolved : List Value)
    (haccepted : result.accepted = false) (h : ∃ i ∈ result.issues, i.kind = .toolError) :
    (result.conclude role unresolved).accepted = false ∧
      ∃ i ∈ (result.conclude role unresolved).issues, i.kind = .toolError := by
  obtain ⟨i, hi, hkind⟩ := h
  unfold Evaluation.conclude
  rw [if_pos (List.ne_nil_of_mem hi)]
  exact ⟨haccepted, i, hi, hkind⟩

/-- **A malformed warning is a tool error.** -/
theorem evaluateTarget_malformed {host : Host} {target : Dict} {declared : Declaration}
    {wpGoals properties returncode review native : Value} {ws : List Value} {result : Evaluation}
    (hdeclares : declaration target = some declared)
    (h : evaluateTarget host target wpGoals properties returncode (.list ws) review native =
      .ok result) {w : Value} (hw : w ∈ ws) (hmalformed : Malformed w) :
    result.accepted = false ∧ ∃ i ∈ result.issues, i.kind = .toolError := by
  unfold evaluateTarget at h
  rw [hdeclares] at h
  dsimp only at h
  unfold evaluateDeclared at h
  obtain ⟨⟨e, found⟩, hgather, h⟩ := bind_eq_ok_iff.mp h
  dsimp only at h
  obtain ⟨analysis, -, h⟩ := bind_eq_ok_iff.mp h
  obtain ⟨selected, -, h⟩ := bind_eq_ok_iff.mp h
  obtain ⟨merged, -, h⟩ := bind_eq_ok_iff.mp h
  obtain ⟨judged, -, h⟩ := bind_eq_ok_iff.mp h
  obtain ⟨unresolved, -, h⟩ := bind_eq_ok_iff.mp h
  obtain ⟨warned, hwarned, h⟩ := bind_eq_ok_iff.mp h
  have hwarnings : e.warnings = ws := by
    unfold gather at hgather
    obtain ⟨_, -, hgather⟩ := bind_eq_ok_iff.mp hgather
    obtain ⟨_, -, hgather⟩ := bind_eq_ok_iff.mp hgather
    obtain ⟨_, -, hgather⟩ := bind_eq_ok_iff.mp hgather
    obtain ⟨_, -, hgather⟩ := bind_eq_ok_iff.mp hgather
    obtain ⟨_, -, hgather⟩ := bind_eq_ok_iff.mp hgather
    obtain ⟨_, -, hgather⟩ := bind_eq_ok_iff.mp hgather
    obtain ⟨_, -, hgather⟩ := bind_eq_ok_iff.mp hgather
    rw [← (Prod.mk.inj (Except.ok.inj hgather)).1]
    rfl
  obtain ⟨index, hindex⟩ := List.mem_iff_getElem?.mp (hwarnings ▸ hw)
  have hissue : issue .toolError "Malformed warning diagnostic" [("warning_index", .int index)] ∈
      warned := by
    refine (mem_of_collect_eq_ok hwarned).mpr
      ⟨(w, index), List.mem_zipIdx_iff_getElem?.mpr hindex, _, ?_, List.mem_singleton_self _⟩
    unfold warningIssue
    rw [diagnosticOf_eq_none_iff.mpr hmalformed]
  have hmem : issue .toolError "Malformed warning diagnostic" [("warning_index", .int index)] ∈
      returncodeIssues returncode ++ found ++ analysis.issues ++ judged ++ warned :=
    List.mem_append_right _ hissue
  rw [← Except.ok.inj h]
  exact conclude_of_toolError _ _ rfl ⟨_, hmem, rfl⟩

end Report
end Fragma
