import Fragma.Report.Evaluate

/-!
# What a passed gate means

One lemma for each gate of `evaluate_target`: what holds when it reports nothing.  An
accepted evaluation has passed them all, and `Accepted` says what was read and what the
gates looked at.

* `Row.Reads`, `readRows_reads`: the rows are the records of the property report.
* `Gathered`, `gather_gathered`: the reading, where it found no issue.
* `goalIssues_eq_nil`, `requiredIssues_eq_nil`, `linkIssues_eq_nil`, …: the gates.
* `Accepted`, `evaluateTarget_accepted`: **an accepted evaluation passed every gate.**
-/

namespace Fragma
namespace Report

open Python

/-! ## Reading the rows -/

/-- A row is the record that it was read from, with its outcome. -/
def Row.Reads (r : Row) (v : Value) : Prop :=
  ∃ d, v = .dict d ∧ rowFields.all (Value.has d) = true ∧ Value.get d "status" = .str r.status ∧
    r.record = Value.set d "outcome" (.str r.outcome.text)

theorem readRow_reads {v : Value} {r : Row} (h : readRow v = .ok (.row r)) : r.Reads v := by
  unfold readRow at h
  split at h
  · next d =>
    split_ifs at h with hfields
    · split at h
      · next status hstatus =>
        split at h
        · next outcome heq =>
          obtain rfl := RowReading.row.inj (Except.ok.inj h)
          exact ⟨d, rfl, hfields, hstatus, rfl⟩
        · exact absurd (Except.ok.inj h) (by simp)
      · split_ifs at h
        exact absurd (Except.ok.inj h) (by simp)
    · exact absurd (Except.ok.inj h) (by simp)
  · exact absurd (Except.ok.inj h) (by simp)

/-- **The rows are the records**, where none was rejected. -/
theorem readRows_reads {vs : List Value} {readings : List RowReading}
    (h : readRows vs = .ok readings) (hissues : readings.filterMap RowReading.issue? = []) :
    List.Forall₂ Row.Reads (readings.filterMap RowReading.row?) vs := by
  have hall := forall₂_of_collect_map h
  clear h
  induction hall with
  | nil => exact .nil
  | @cons v reading vs readings hr _ ih =>
    cases reading with
    | rejected i => exact absurd hissues (by simp [RowReading.issue?])
    | row r =>
      have htail : readings.filterMap RowReading.issue? = [] := by
        simpa [RowReading.issue?] using hissues
      exact .cons (readRow_reads hr) (ih htail)

/-! ## Reading everything -/

/-- What was read, where the reading found no issue. -/
structure Gathered (host : Host) (target : Dict) (declared : Declaration)
    (wpGoals properties warnings review native : Value) (e : Evidence) : Prop where
  host_eq : e.host = host
  target_eq : e.target = target
  declared_eq : e.declared = declared
  unresolved : Value.toSet (Value.get target "expected_unresolved" (.list [])) =
    some e.expectedUnresolved
  invalid : Value.toSet (Value.get target "expected_invalid" (.list [])) = some e.expectedInvalid
  expectations : expectationIssues target declared e.expectedUnresolved e.expectedInvalid = []
  rows : ∃ vs, properties = .list vs ∧ vs ≠ [] ∧ List.Forall₂ Row.Reads e.rows vs
  warnings : warnings = .list e.warnings
  checks : evaChecks host e.rows e.warnings e.expectedInvalid = .ok e.checks
  goals : readGoals host target wpGoals = .ok (e.goals, [])
  reviews : validatedReviews host target review e.goals e.rows e.warnings
    declared.analysisFunctions = .ok e.reviews
  native : validatedNative host target native e.rows = .ok e.native

theorem reviewing_eq_ok_nil {α : Type} {x : Except Exn α} {default a : α}
    (h : reviewing x default = .ok (a, [])) : x = .ok a := by
  unfold reviewing at h
  split at h
  · rw [(Prod.mk.inj (Except.ok.inj h)).1]
  · split_ifs at h
    exact absurd (Prod.mk.inj (Except.ok.inj h)).2 (by simp)

theorem propertyRecords_eq {v : Value} (h : (propertyRecords v).2 = []) :
    v = .list (propertyRecords v).1 ∧ (propertyRecords v).1 ≠ [] := by
  unfold propertyRecords at h ⊢
  split
  · exact ⟨rfl, by simp⟩
  · next hne =>
    split at h
    · next a as => exact absurd rfl (hne a as)
    · exact absurd h (by simp)

theorem warningList_eq {v : Value} (h : (warningList v).2 = []) : v = .list (warningList v).1 := by
  unfold warningList at h ⊢
  split
  · rfl
  · next hne =>
    split at h
    · next vs => exact absurd rfl (hne vs)
    · exact absurd h (by simp)

theorem gather_gathered {host : Host} {target : Dict} {declared : Declaration}
    {wpGoals properties warnings review native : Value} {e : Evidence}
    (h : gather host target declared wpGoals properties warnings review native = .ok (e, [])) :
    Gathered host target declared wpGoals properties warnings review native e := by
  unfold gather at h
  obtain ⟨unresolved, hunresolved, h⟩ := bind_eq_ok_iff.mp h
  obtain ⟨invalid, hinvalid, h⟩ := bind_eq_ok_iff.mp h
  obtain ⟨readings, hreadings, h⟩ := bind_eq_ok_iff.mp h
  obtain ⟨checks, hchecks, h⟩ := bind_eq_ok_iff.mp h
  obtain ⟨goals, hgoals, h⟩ := bind_eq_ok_iff.mp h
  obtain ⟨reviews, hreviews, h⟩ := bind_eq_ok_iff.mp h
  obtain ⟨accepted, haccepted, h⟩ := bind_eq_ok_iff.mp h
  obtain ⟨rfl, hissues⟩ := Prod.mk.inj (Except.ok.inj h)
  simp only [List.append_eq_nil_iff] at hissues
  obtain ⟨⟨⟨⟨⟨⟨hexpect, hrecords⟩, hrows⟩, hwarnings⟩, hgoalIssues⟩, hreviewIssues⟩, hnative⟩ :=
    hissues
  obtain ⟨goals, goalIssues⟩ := goals
  obtain ⟨reviews, reviewIssues⟩ := reviews
  obtain ⟨accepted, nativeIssues⟩ := accepted
  dsimp only at hgoalIssues hreviewIssues hnative
  subst hgoalIssues hreviewIssues hnative
  have hproperties := propertyRecords_eq hrecords
  exact
    { host_eq := rfl
      target_eq := rfl
      declared_eq := rfl
      unresolved := orRaise_eq_ok_iff.mp hunresolved
      invalid := orRaise_eq_ok_iff.mp hinvalid
      expectations := hexpect
      rows := ⟨_, hproperties.1, hproperties.2, readRows_reads hreadings hrows⟩
      warnings := warningList_eq hwarnings
      checks := hchecks
      goals := hgoals
      reviews := reviewing_eq_ok_nil hreviews
      native := reviewing_eq_ok_nil haccepted }

/-! ## The gates -/

theorem returncodeIssues_eq_nil_iff {v : Value} : returncodeIssues v = [] ↔ v = .int 0 := by
  unfold returncodeIssues
  split_ifs with h
  · simp [h]
  · simp [h]

/-- The expectations are disjoint sets of required properties, of a calibration. -/
theorem expectationIssues_eq_nil {target : Dict} {d : Declaration} {unresolved invalid : List Value}
    (h : expectationIssues target d unresolved invalid = []) :
    Value.meet invalid unresolved = [] ∧
      Value.subset (unresolved ++ invalid) (d.required.map .str) = true ∧
      (invalid ≠ [] ∨ unresolved ≠ [] → Value.get target "role" = .str "calibration") ∧
      d.functions ⊆ d.analysisFunctions := by
  unfold expectationIssues at h
  simp only [List.append_eq_nil_iff] at h
  obtain ⟨⟨⟨⟨hsets, hrole⟩, -⟩, -⟩, hfunctions⟩ := h
  refine ⟨?_, ?_, fun hexpect => ?_, ?_⟩
  · by_contra hne
    rw [if_pos (Or.inl hne)] at hsets
    exact absurd hsets (by simp)
  · by_contra hne
    rw [if_pos (Or.inr hne)] at hsets
    exact absurd hsets (by simp)
  · by_contra hne
    rw [if_pos ⟨hexpect, hne⟩] at hrole
    exact absurd hrole (by simp)
  · by_contra hne
    rw [if_neg hne] at hfunctions
    exact absurd hfunctions (by simp)

theorem functionIssues_eq_nil {e : Evidence} {func : String} (h : functionIssues e func = []) :
    ∃ g ∈ e.goals, g.smoke = false ∧ g.function = func := by
  unfold functionIssues at h
  split_ifs at h with hany
  simpa using hany

theorem goalIssues_eq_nil {e : Evidence} {g : Goal} (h : goalIssues e g = []) :
    g.function ∈ e.declared.analysisFunctions ∧
      (g.smoke = true → smokeIssues e g = []) ∧ (g.smoke = false → ordinaryIssues e g = []) := by
  unfold goalIssues at h
  obtain ⟨hfunction, hrest⟩ := List.append_eq_nil_iff.mp h
  refine ⟨?_, fun hs => ?_, fun hs => ?_⟩
  · by_contra hne
    rw [if_neg hne] at hfunction
    exact absurd hfunction (by simp)
  · rwa [if_pos hs] at hrest
  · rwa [if_neg (by simp [hs])] at hrest

/-- A smoke goal that passed is no tool failure, and a proved one is reviewed. -/
theorem smokeIssues_eq_nil {e : Evidence} {g : Goal} (h : smokeIssues e g = []) :
    g.outcome ≠ .toolError ∧
      (g.outcome = .inconsistent → ∃ d, e.reviews.smoke.lookup g.goal = some d) := by
  unfold smokeIssues at h
  split at h
  · next houtcome =>
    split_ifs at h with hreviewed
    exact ⟨by simp [houtcome], fun _ => Option.isSome_iff_exists.mp hreviewed⟩
  · exact absurd h (by simp)
  · next hinconsistent htool => exact ⟨htool, fun h => absurd h hinconsistent⟩

/-- An ordinary goal that passed is valid, or its outcome is expected. -/
theorem ordinaryIssues_eq_nil {e : Evidence} {g : Goal} (h : ordinaryIssues e g = []) :
    g.outcome = .valid ∨
      (e.unresolvedExpected g.property = true ∧ (g.outcome = .unknown ∨ g.outcome = .timeout)) ∨
      (e.invalidExpected g.property = true ∧ g.outcome = .invalid) := by
  unfold ordinaryIssues at h
  split_ifs at h with hvalid hunresolved hinvalid
  · exact Or.inl hvalid
  · exact Or.inr (Or.inl hunresolved)
  · exact Or.inr (Or.inr hinvalid)

theorem mem_goalsOf {e : Evidence} {name : String} {g : Goal} :
    g ∈ goalsOf e name ↔ g ∈ e.goals ∧ g.smoke = false ∧ g.property = name := by
  simp [goalsOf]

/-- A required property that passed has a goal, and an expected refutation has an
invalid one. -/
theorem requiredIssues_eq_nil {e : Evidence} {name : String} (h : requiredIssues e name = []) :
    goalsOf e name ≠ [] ∧
      (e.unresolvedExpected name = true → ¬ (goalsOf e name).all fun g => g.outcome = .valid) ∧
      (e.invalidExpected name = true → ∃ g ∈ goalsOf e name, g.outcome = .invalid) := by
  unfold requiredIssues at h
  dsimp only at h
  split_ifs at h with hmatched hunresolved hinvalid hany
  · refine ⟨hmatched, fun hu hv => hunresolved ⟨hu, hv⟩, fun _ => ?_⟩
    simpa using hany
  · exact ⟨hmatched, fun hu hv => hunresolved ⟨hu, hv⟩, fun hi => absurd hi hinvalid⟩

theorem isLinked_eq_true {e : Evidence} {g : Goal} {rs : List Row}
    (h : isLinked e g rs = .ok true) :
    ∃ r ∈ rs, ∃ aliases, propertyAliases r [g] = .ok aliases ∧ .str g.property ∈ aliases := by
  induction rs with
  | nil => exact absurd (Except.ok.inj h) (by simp)
  | cons r rs ih =>
    rw [isLinked] at h
    obtain ⟨aliases, haliases, h⟩ := bind_eq_ok_iff.mp h
    split_ifs at h with hmember
    · exact ⟨r, List.mem_cons_self, aliases, haliases, Value.member_str_iff.mp hmember⟩
    · obtain ⟨r', hr', hrest⟩ := ih h
      exact ⟨r', List.mem_cons_of_mem _ hr', hrest⟩

/-- A goal that passed is about a loop variant, or a row at its place has its property
among its names. -/
theorem linkIssues_eq_nil {e : Evidence} {g : Goal} (h : linkIssues e g = .ok [])
    (hsmoke : g.smoke = false) (hvariant : hasSubstring "_loop_variant" g.property = false) :
    ∃ r ∈ e.rows, atGoal g r = true ∧
      ∃ aliases, propertyAliases r [g] = .ok aliases ∧ .str g.property ∈ aliases := by
  unfold linkIssues at h
  rw [if_neg (by simp [hsmoke])] at h
  obtain ⟨linked, hlinked, h⟩ := bind_eq_ok_iff.mp h
  split_ifs at h with hcond
  · have htrue : linked = true := by simpa [hvariant] using hcond
    obtain ⟨r, hr, hrest⟩ := isLinked_eq_true (htrue ▸ hlinked)
    obtain ⟨hmem, hat⟩ := List.mem_filter.mp hr
    exact ⟨r, hmem, hat, hrest⟩
  · exact absurd (Except.ok.inj h) (by simp)

theorem baselineIssues_eq_nil {e : Evidence} {name : Value} (h : baselineIssues e name = []) :
    ∃ g ∈ e.goals, Value.eq (.str g.goal) name = true := by
  unfold baselineIssues at h
  split_ifs at h with hany
  simpa using hany

/-- A required property of Eva that passed has rows.  They are valid, or they refute it
in one of the three ways. -/
theorem evaRequired_eq_nil {e : Evidence} {name : String} {matched : List Row}
    (h : (evaRequired e name matched).issues = []) :
    matched ≠ [] ∧
      (e.invalidExpected name = false → ∀ r ∈ matched, r.outcome = .valid) ∧
      (e.invalidExpected name = true → (evaRequired e name matched).confirmed = [name] ∧
        ((∀ r ∈ matched, r.outcome = .invalid ∨ e.checkConfirms r (.str name) = true) ∨
          (matched.length = 1 ∧ ∀ r ∈ matched, e.nativeConfirms r (.str name) = true))) := by
  unfold evaRequired at h ⊢
  dsimp only at h ⊢
  by_cases hempty : matched = []
  · rw [if_pos hempty] at h
    exact absurd h (by simp)
  · rw [if_neg hempty] at h ⊢
    refine ⟨hempty, fun hexpected => ?_, fun hexpected => ?_⟩
    · rw [if_neg (by simp [hexpected])] at h
      split_ifs at h with hvalid
      simpa using hvalid
    · rw [if_pos hexpected] at h ⊢
      split_ifs at h ⊢ with hreported hnative
      · exact ⟨rfl, Or.inl (by simpa using hreported)⟩
      · exact ⟨rfl, Or.inr ⟨hnative.1, by simpa using hnative.2⟩⟩

/-- A row that passed is proved, or trusted, or an expectation explains it. -/
theorem judgeRow_eq_nil {e : Evidence} {r : Row} (h : judgeRow e r = .ok []) :
    ∃ aliases, propertyAliases r e.goals = .ok aliases ∧
      (r.outcome = .valid ∨ r.isTrusted = true ∨ excused e r aliases = true) := by
  unfold judgeRow at h
  obtain ⟨aliases, haliases, h⟩ := bind_eq_ok_iff.mp h
  obtain ⟨_, -, h⟩ := bind_eq_ok_iff.mp h
  split_ifs at h with hcond
  · exact ⟨aliases, haliases, hcond⟩
  · exact absurd (Except.ok.inj h) (by simp)

/-- Without expectations nothing is excused. -/
theorem excused_eq_false {e : Evidence} {r : Row} {aliases : List Value}
    (hunresolved : e.expectedUnresolved = []) (hinvalid : e.expectedInvalid = []) :
    excused e r aliases = false := by
  have hmeet : Value.meet aliases [] = [] := by simp [Value.meet, Value.member]
  unfold excused
  rw [hunresolved, hinvalid, hmeet]
  simp

theorem identityIssues_eq_nil {seen : List (List Value)} {r : Row}
    (h : identityIssues seen r = .ok []) :
    r.isAmbiguous = false ∧ ∀ i ∈ seen, ¬ Value.Same (.list r.identity) (.list i) := by
  unfold identityIssues at h
  obtain ⟨_, -, h⟩ := bind_eq_ok_iff.mp h
  split_ifs at h with hcond
  · exact absurd (Except.ok.inj h) (by simp)
  · rw [not_or] at hcond
    exact ⟨by simpa using hcond.1, by simpa using hcond.2⟩

/-- **The loop over the rows reports nothing when no row does**: every row passes, none
is marked as ambiguous, and no two have the same identity. -/
theorem rowIssues_eq_nil {e : Evidence} {seen : List (List Value)} {rs : List Row}
    (h : rowIssues e seen rs = .ok []) :
    (∀ r ∈ rs, judgeRow e r = .ok [] ∧ r.isAmbiguous = false ∧
      ∀ i ∈ seen, ¬ Value.Same (.list r.identity) (.list i)) ∧
    rs.Pairwise fun r r' => ¬ Value.Same (.list r'.identity) (.list r.identity) := by
  induction rs generalizing seen with
  | nil => exact ⟨fun r hr => absurd hr List.not_mem_nil, .nil⟩
  | cons r rs ih =>
    rw [rowIssues] at h
    obtain ⟨identity, hidentity, h⟩ := bind_eq_ok_iff.mp h
    obtain ⟨outcome, houtcome, h⟩ := bind_eq_ok_iff.mp h
    obtain ⟨rest, hrest, h⟩ := bind_eq_ok_iff.mp h
    have hnil := Except.ok.inj h
    simp only [List.append_eq_nil_iff] at hnil
    obtain ⟨⟨rfl, rfl⟩, rfl⟩ := hnil
    obtain ⟨hambiguous, hseen⟩ := identityIssues_eq_nil hidentity
    obtain ⟨hall, hpairwise⟩ := ih hrest
    refine ⟨fun r' hr' => ?_, List.pairwise_cons.mpr ⟨fun r' hr' => ?_, hpairwise⟩⟩
    · rcases List.mem_cons.mp hr' with rfl | hmem
      · exact ⟨houtcome, hambiguous, hseen⟩
      · obtain ⟨hj, ha, hs⟩ := hall r' hmem
        exact ⟨hj, ha, fun i hi => hs i (List.mem_cons_of_mem _ hi)⟩
    · exact (hall r' hr').2.2 r.identity List.mem_cons_self

/-- A warning that passed is no error; it is reviewed, or it says nothing of what is
unsupported or skipped. -/
theorem warningIssue_eq_nil {e : Evidence} {p : Value × ℕ} (h : warningIssue e p = .ok []) :
    ∃ message severity, diagnosticOf p.1 = some (message, severity) ∧ severity ≠ .str "error" ∧
      ((∃ d, e.reviews.warnings.lookup p.2 = some d) ∨
        severity ≠ .str "unsupported" ∧ saysUnsupported e.host message = false ∧
          (hasSubstring "Missing RTE guards" message = true →
            Value.contains (Value.get e.target "claims" (.list [])) (.str "runtime-safety") =
              some false)) := by
  unfold warningIssue at h
  split at h
  · exact absurd (Except.ok.inj h) (by simp)
  · next message severity hdiagnostic =>
    split_ifs at h with herror hreviewed hunsupported hguards
    · exact absurd (Except.ok.inj h) (by simp)
    · exact ⟨message, severity, hdiagnostic, herror, Or.inl (Option.isSome_iff_exists.mp hreviewed)⟩
    · exact absurd (Except.ok.inj h) (by simp)
    · obtain ⟨claimed, hclaimed, h⟩ := bind_eq_ok_iff.mp h
      rw [orRaise_eq_ok_iff] at hclaimed
      split_ifs at h with hc
      · exact absurd (Except.ok.inj h) (by simp)
      · rw [not_or] at hunsupported
        refine ⟨message, severity, hdiagnostic, herror, Or.inr ⟨hunsupported.1, ?_, fun _ => ?_⟩⟩
        · simpa using hunsupported.2
        · rw [hclaimed]
          simpa using hc
    · rw [not_or] at hunsupported
      exact ⟨message, severity, hdiagnostic, herror, Or.inr ⟨hunsupported.1,
        by simpa using hunsupported.2, fun hg => absurd hg hguards⟩⟩

/-! ## Accepted evaluations -/

theorem conclude_accepted {result : Evaluation} {role : Value} {unresolved : List Value}
    (hresult : result.accepted = false)
    (h : (result.conclude role unresolved).accepted = true) :
    result.issues = [] ∧ unresolved = [] ∧ ((result.conclude role unresolved).verified =
      (result.verified || decide (role = .str "proof"))) ∧
      (result.conclude role unresolved).confirmedInvalidProperties =
        result.confirmedInvalidProperties := by
  unfold Evaluation.conclude at h ⊢
  split_ifs at h ⊢ with hissues hunresolved hrole
  · exact absurd h (by simp [hresult])
  · exact absurd h (by simp [hresult])
  · rw [not_not] at hissues hunresolved
    exact ⟨hissues, hunresolved, by simp [hrole], rfl⟩
  · rw [not_not] at hissues hunresolved
    exact ⟨hissues, hunresolved, by simp [hrole], rfl⟩

theorem conclude_verified {result : Evaluation} {role : Value} {unresolved : List Value}
    (hresult : result.verified = false)
    (h : (result.conclude role unresolved).verified = true) :
    (result.conclude role unresolved).accepted = true := by
  unfold Evaluation.conclude at h ⊢
  split_ifs at h ⊢
  · exact absurd h (by simp [hresult])
  · exact absurd h (by simp [hresult])
  · rfl
  · rfl

/-- What an accepted evaluation has read, and what its gates looked at. -/
structure Accepted (host : Host) (target : Dict)
    (wpGoals properties returncode warnings review native : Value) (result : Evaluation)
    (declared : Declaration) (e : Evidence) (analysis : Analysis) (selected : List Row) :
    Prop where
  declared_eq : declaration target = some declared
  returncode : returncode = .int 0
  gathered : Gathered host target declared wpGoals properties warnings review native e
  no_unresolved : e.expectedUnresolved = []
  analysed : analyse e wpGoals = .ok analysis
  no_issues : analysis.issues = []
  selected_eq : select (inSelected analysis.selected) e.rows = .ok selected
  selected_ne_nil : selected ≠ []
  rows : rowIssues e [] selected = .ok []
  warnings : collect (warningIssue e) e.warnings.zipIdx = .ok []
  confirmed : result.confirmedInvalidProperties = analysis.confirmed
  verified : result.verified = decide (Value.get target "role" (.str "proof") = .str "proof")

theorem selectedIssues_eq_nil {e : Evidence} {rs : List Row} (h : selectedIssues e rs = .ok []) :
    rs ≠ [] ∧ rowIssues e [] rs = .ok [] := by
  unfold selectedIssues at h
  obtain ⟨issues, hissues, h⟩ := bind_eq_ok_iff.mp h
  obtain ⟨hempty, rfl⟩ := List.append_eq_nil_iff.mp (Except.ok.inj h)
  refine ⟨fun hnil => ?_, hissues⟩
  rw [if_pos hnil] at hempty
  exact absurd hempty (by simp)

/-- The smoke goals that the reviews waive. -/
def waivedSmoke (e : Evidence) : List (Goal × Dict) :=
  e.goals.filterMap fun g =>
    if g.smoke ∧ g.outcome = .inconsistent then
      (e.reviews.smoke.lookup g.goal).map fun d => (g, d) else none

/-- The warnings that the reviews waive. -/
def waivedWarnings (e : Evidence) : List (ℕ × Value × Dict) :=
  e.warnings.zipIdx.filterMap (reviewedWarning e)

theorem conclude_reviewed (result : Evaluation) (role : Value) (unresolved : List Value) :
    (result.conclude role unresolved).reviewedSmoke = result.reviewedSmoke ∧
      (result.conclude role unresolved).reviewedWarnings = result.reviewedWarnings ∧
      (result.conclude role unresolved).reviewedUnreachableProperties =
        result.reviewedUnreachableProperties := by
  unfold Evaluation.conclude
  split_ifs
  · exact ⟨rfl, rfl, rfl⟩
  · exact ⟨rfl, rfl, rfl⟩
  · exact ⟨rfl, rfl, rfl⟩
  · exact ⟨rfl, rfl, rfl⟩

/-- **An accepted evaluation passed every gate**, and records what the reviews waive. -/
theorem evaluateTarget_reviewed {host : Host} {target : Dict}
    {wpGoals properties returncode warnings review native : Value} {result : Evaluation}
    (h : evaluateTarget host target wpGoals properties returncode warnings review native = .ok result)
    (haccepted : result.accepted = true) :
    ∃ declared e analysis selected, Accepted host target wpGoals properties returncode warnings
        review native result declared e analysis selected ∧
      result.reviewedSmoke = waivedSmoke e ∧ result.reviewedWarnings = waivedWarnings e ∧
      result.reviewedUnreachableProperties = e.reviews.unreachable := by
  unfold evaluateTarget at h
  split at h
  · next declared hdeclared =>
    unfold evaluateDeclared at h
    obtain ⟨⟨e, found⟩, hgather, h⟩ := bind_eq_ok_iff.mp h
    dsimp only at h
    obtain ⟨analysis, hanalysis, h⟩ := bind_eq_ok_iff.mp h
    obtain ⟨selected, hselected, h⟩ := bind_eq_ok_iff.mp h
    obtain ⟨merged, -, h⟩ := bind_eq_ok_iff.mp h
    obtain ⟨judged, hjudged, h⟩ := bind_eq_ok_iff.mp h
    obtain ⟨unresolved, -, h⟩ := bind_eq_ok_iff.mp h
    obtain ⟨warned, hwarned, h⟩ := bind_eq_ok_iff.mp h
    have hresult := Except.ok.inj h
    rw [← hresult] at haccepted
    obtain ⟨hissues, hunresolved, hverified, hconfirmed⟩ := conclude_accepted (by rfl) haccepted
    rw [hresult] at hverified hconfirmed
    have hnil : returncodeIssues returncode ++ found ++ analysis.issues ++ judged ++ warned = [] :=
      hissues
    simp only [List.append_eq_nil_iff] at hnil
    obtain ⟨⟨⟨⟨hreturncode, rfl⟩, hgates⟩, rfl⟩, rfl⟩ := hnil
    obtain ⟨hne, hrows⟩ := selectedIssues_eq_nil hjudged
    refine ⟨declared, e, analysis, selected,
      { declared_eq := hdeclared
        returncode := returncodeIssues_eq_nil_iff.mp hreturncode
        gathered := gather_gathered hgather
        no_unresolved := hunresolved
        analysed := hanalysis
        no_issues := hgates
        selected_eq := hselected
        selected_ne_nil := hne
        rows := hrows
        warnings := hwarned
        confirmed := hconfirmed
        verified := hverified.trans (Bool.false_or _) }, ?_⟩
    rw [← hresult]
    exact conclude_reviewed _ _ _
  · rw [← Except.ok.inj h] at haccepted
    exact absurd haccepted (by simp [Evaluation.start])

/-- An accepted evaluation passed every gate. -/
theorem evaluateTarget_accepted {host : Host} {target : Dict}
    {wpGoals properties returncode warnings review native : Value} {result : Evaluation}
    (h : evaluateTarget host target wpGoals properties returncode warnings review native = .ok result)
    (haccepted : result.accepted = true) :
    ∃ declared e analysis selected, Accepted host target wpGoals properties returncode warnings
      review native result declared e analysis selected := by
  obtain ⟨declared, e, analysis, selected, haccepted, -⟩ := evaluateTarget_reviewed h haccepted
  exact ⟨declared, e, analysis, selected, haccepted⟩

/-- A verified target is accepted. -/
theorem accepted_of_verified {host : Host} {target : Dict}
    {wpGoals properties returncode warnings review native : Value} {result : Evaluation}
    (h : evaluateTarget host target wpGoals properties returncode warnings review native = .ok result)
    (hverified : result.verified = true) : result.accepted = true := by
  unfold evaluateTarget at h
  split at h
  · next declared hdeclared =>
    unfold evaluateDeclared at h
    obtain ⟨⟨e, found⟩, -, h⟩ := bind_eq_ok_iff.mp h
    dsimp only at h
    obtain ⟨_, -, h⟩ := bind_eq_ok_iff.mp h
    obtain ⟨_, -, h⟩ := bind_eq_ok_iff.mp h
    obtain ⟨_, -, h⟩ := bind_eq_ok_iff.mp h
    obtain ⟨_, -, h⟩ := bind_eq_ok_iff.mp h
    obtain ⟨_, -, h⟩ := bind_eq_ok_iff.mp h
    obtain ⟨_, -, h⟩ := bind_eq_ok_iff.mp h
    rw [← Except.ok.inj h] at hverified ⊢
    exact conclude_verified (by rfl) hverified
  · rw [← Except.ok.inj h] at hverified
    exact absurd hverified (by simp [Evaluation.start])

end Report
end Fragma
