import Fragma.Report.Soundness

/-!
# What an accepted calibration guarantees

A calibration declares properties that must fail.  When it is accepted, each of them
was refuted by evidence that reached it: by WP an invalid goal; by Eva a row that says
`Invalid`, or an ambiguous row with a diagnostic of its own, or an ambiguous row that a
native run corroborates.  A status that only says that a row is dead refutes nothing.

* `WpRefuted`, `Diagnosed`, `Corroborated`, `EvaRefuted`: the evidence.
* `Row.eq_of_ambiguousCheck`: a row that equals the row of a diagnostic is that row.
* `Calibrated`, `evaluateTarget_calibrated`: **an accepted calibration is calibrated.**
-/

namespace Fragma
namespace Report

open Python

/-! ## Evidence -/

/-- WP refuted the property: a goal is invalid, and no other goal is undecided. -/
structure WpRefuted (goals : List Goal) (name : String) : Prop where
  refuted : ∃ g ∈ goals, g.smoke = false ∧ g.property = name ∧ g.verdict = .invalid
  decided : ∀ g ∈ goals, g.smoke = false → g.property = name →
    g.verdict = .valid ∨ g.verdict = .invalid

/-- The row is the only ambiguous check with the name, and one warning says that this
check was reached and was invalid. -/
structure Diagnosed (host : Host) (rows : List Row) (warnings : List Value) (name : String)
    (r : Row) : Prop where
  check : r.get "kind" = .str "user check"
  status : r.status = "Invalid or unreachable"
  only : ∀ r' ∈ rows, r'.get "kind" = .str "user check" → r'.status = "Invalid or unreachable" →
    r'.HasName name → r' = r
  diagnostic : ∃ w, warnings.filterMap (isDiagnostic host (.str name) r) = [w]

/-- The row is the only one with the name, and it is the row of a native observation
that reached the check and saw it false. -/
structure Corroborated (host : Host) (target : Dict) (declared : Declaration) (native : Value)
    (rows : List Row) (name : String) (r : Row) : Prop where
  only : ∀ r' ∈ rows, r'.Selected target declared → r'.HasName name → r' = r
  observed : ∃ a : NativeAccepted, a.name = name ∧ a.Observed host target native rows ∧
    r.eq a.row = true

/-- Eva refuted the property: there are rows, and each of them has evidence. -/
structure EvaRefuted (host : Host) (target : Dict) (declared : Declaration) (native : Value)
    (rows : List Row) (warnings : List Value) (name : String) : Prop where
  labelled : ∃ r ∈ rows, r.Selected target declared ∧ r.HasName name
  refuted : ∀ r ∈ rows, r.Selected target declared → r.HasName name →
    r.status = "Invalid" ∨ Diagnosed host rows warnings name r ∨
      Corroborated host target declared native rows name r

/-- What an accepted calibration guarantees.  The names that must fail are confirmed and
refuted; the other required names hold. -/
structure Calibrated (host : Host) (target : Dict) (wpGoals properties native : Value)
    (warnings : List Value) (declared : Declaration) (goals : List Goal) (rows : List Row)
    (confirmed : List String) : Prop where
  declares : declaration target = some declared
  rows_read : ∃ vs, properties = .list vs ∧ List.Forall₂ Row.Reads rows vs
  goals_read : Value.get target "analysis" = .str "wp" →
    ∃ vs, wpGoals = .list vs ∧ List.Forall₂ (Goal.Reads host) goals vs
  analysis : Value.get target "analysis" = .str "wp" ∨ Value.get target "analysis" = .str "eva"
  refuted : ∃ vs, (Value.get target "expected_invalid" (.list [])).iterate = some vs ∧
    ∀ v ∈ vs, ∃ name ∈ declared.required, v = .str name ∧ name ∈ confirmed ∧
      (Value.get target "analysis" = .str "wp" → WpRefuted goals name) ∧
      (Value.get target "analysis" = .str "eva" →
        EvaRefuted host target declared native rows warnings name)
  held : ∃ vs, (Value.get target "expected_invalid" (.list [])).iterate = some vs ∧
    ∀ name ∈ declared.required, .str name ∉ vs →
      (Value.get target "analysis" = .str "wp" →
        (∃ g ∈ goals, g.smoke = false ∧ g.property = name) ∧
          ∀ g ∈ goals, g.smoke = false → g.property = name → g.verdict = .valid) ∧
      (Value.get target "analysis" = .str "eva" →
        (∃ r ∈ rows, r.Selected target declared ∧ r.HasName name) ∧
          ∀ r ∈ rows, r.Selected target declared → r.HasName name → r.status = "Valid")
  dead : ∀ r ∈ rows, r.Selected target declared → r.outcome = .unreachable →
    (∃ name, Diagnosed host rows warnings name r) ∨
      ∃ a : NativeAccepted, a.Observed host target native rows ∧ r.eq a.row = true

/-! ## The row of a diagnostic -/

theorem Row.Reads.get_status {r : Row} {v : Value} (h : r.Reads v) :
    r.get "status" = .str r.status := by
  obtain ⟨d, -, -, hstatus, hrecord⟩ := h
  rw [Row.get, hrecord, Value.get_set_of_ne d _ _ (by decide), hstatus]

theorem exists_reads_of_mem {rows : List Row} {vs : List Value}
    (h : List.Forall₂ Row.Reads rows vs) {r : Row} (hr : r ∈ rows) : ∃ v, r.Reads v := by
  induction h with
  | nil => exact absurd hr List.not_mem_nil
  | cons hread _ ih =>
    rcases List.mem_cons.mp hr with rfl | hmem
    · exact ⟨_, hread⟩
    · exact ih hmem

/-- Equal rows have equal entries. -/
theorem Row.eq.get_eq_str {r r' : Row} (h : r.eq r' = true) {field s : String}
    (hs : r'.get field = .str s) : r.get field = .str s := by
  have hsame := Value.Same.get (Value.eq_iff.mp h).2 field .none
  exact Value.same_str_iff.mp (hsame.trans (hs ▸ Value.same_refl _))

/-- Equal rows have the same names. -/
theorem Row.eq.named {r r' : Row} (h : r.eq r' = true) (name : String) :
    r.named (.str name) = r'.named (.str name) := by
  have hcontains := Value.Same.contains
    (Value.Same.get (Value.eq_iff.mp h).2 "names" (.list [])) name
  exact congrArg (fun o => orRaise o (typeError "argument is not iterable")) hcontains

theorem isAmbiguousCheck_eq_true {name : String} {r : Row} :
    isAmbiguousCheck (.str name) r = .ok true ↔
      r.get "kind" = .str "user check" ∧ r.status = "Invalid or unreachable" ∧ r.HasName name := by
  unfold isAmbiguousCheck
  split_ifs with h
  · rw [Bool.and_eq_true, Value.eq_str_iff, decide_eq_true_eq] at h
    exact ⟨fun hn => ⟨h.1, h.2, hn⟩, fun hn => hn.2.2⟩
  · rw [Bool.and_eq_true, Value.eq_str_iff, decide_eq_true_eq] at h
    exact ⟨fun hn => absurd (Except.ok.inj hn) (by simp), fun hn => absurd ⟨hn.1, hn.2.1⟩ h⟩

theorem evaCheck_eq_ok {host : Host} {rows : List Row} {warnings : List Value} {name : Value}
    {checks : List EvaCheck} {c : EvaCheck} (h : evaCheck host rows warnings name = .ok checks)
    (hc : c ∈ checks) :
    c.name = name ∧ select (isAmbiguousCheck name) rows = .ok [c.row] ∧
      warnings.filterMap (isDiagnostic host name c.row) = [c.diagnostic] := by
  unfold evaCheck at h
  obtain ⟨matched, hmatched, h⟩ := bind_eq_ok_iff.mp h
  split at h
  · next r =>
    split at h
    · next w hw =>
      rw [← Except.ok.inj h, List.mem_singleton] at hc
      subst hc
      exact ⟨rfl, hmatched, hw⟩
    · rw [← Except.ok.inj h] at hc
      exact absurd hc List.not_mem_nil
  · rw [← Except.ok.inj h] at hc
    exact absurd hc List.not_mem_nil

section Accepted

variable {host : Host} {target : Dict} {wpGoals properties returncode warnings review native : Value}
  {result : Evaluation} {declared : Declaration} {e : Evidence} {analysis : Analysis}
  {selected : List Row}

/-- The rows of an accepted target were read from records. -/
theorem Accepted.row_status
    (h : Accepted host target wpGoals properties returncode warnings review native result
      declared e analysis selected) {r : Row} (hr : r ∈ e.rows) :
    r.get "status" = .str r.status := by
  obtain ⟨vs, -, -, hreads⟩ := h.gathered.rows
  obtain ⟨v, hv⟩ := exists_reads_of_mem hreads hr
  exact Row.Reads.get_status hv

/-- **A row that equals the row of a diagnostic is that row**, and so it is diagnosed. -/
theorem Accepted.diagnosed
    (h : Accepted host target wpGoals properties returncode warnings review native result
      declared e analysis selected) {r : Row} (hr : r ∈ e.rows) {name : String}
    (hconfirms : e.checkConfirms r (.str name) = true) :
    Diagnosed host e.rows e.warnings name r := by
  unfold Evidence.checkConfirms at hconfirms
  split at hconfirms
  · next c hfind =>
    have hfound := List.find?_some hfind
    have hname : c.name = .str name := Value.same_str_iff.mp (of_decide_eq_true hfound)
    have hmem := List.mem_of_find?_eq_some hfind
    obtain ⟨name', -, checks, hchecks, hc⟩ := (mem_of_collect_eq_ok h.gathered.checks).mp hmem
    obtain ⟨rfl, hselect, hdiagnostic⟩ := evaCheck_eq_ok hchecks hc
    rw [hname] at hselect hdiagnostic
    obtain ⟨-, hfilter⟩ := select_eq_ok_iff.mp hselect
    have honly : ∀ r' ∈ e.rows, r'.get "kind" = .str "user check" →
        r'.status = "Invalid or unreachable" → r'.HasName name → r' = c.row := by
      intro r' hr' hkind hstatus hnamed
      have : r' ∈ e.rows.filter (holds (isAmbiguousCheck (.str name))) :=
        List.mem_filter.mpr ⟨hr', holds_iff.mpr (isAmbiguousCheck_eq_true.mpr
          ⟨hkind, hstatus, hnamed⟩)⟩
      rw [← hfilter] at this
      exact List.mem_singleton.mp this
    have hrow : c.row ∈ e.rows ∧ isAmbiguousCheck (.str name) c.row = .ok true := by
      have : c.row ∈ e.rows.filter (holds (isAmbiguousCheck (.str name))) :=
        hfilter ▸ List.mem_singleton_self _
      exact ⟨List.mem_of_mem_filter this, holds_iff.mp (List.mem_filter.mp this).2⟩
    obtain ⟨hkind, hstatus, hnamed⟩ := isAmbiguousCheck_eq_true.mp hrow.2
    have hkind' := Row.eq.get_eq_str hconfirms hkind
    have hstatus' : r.status = "Invalid or unreachable" := by
      have := Row.eq.get_eq_str hconfirms (h.row_status hrow.1)
      rw [h.row_status hr, hstatus] at this
      exact Value.str.inj this
    have hnamed' : r.HasName name := (Row.eq.named hconfirms name).trans hnamed
    obtain rfl := honly r hr hkind' hstatus' hnamed'
    exact ⟨hkind, hstatus, honly, c.diagnostic, hdiagnostic⟩
  · exact absurd hconfirms (by simp)

/-- A row that equals the row of an accepted observation is corroborated by it. -/
theorem Accepted.observed
    (h : Accepted host target wpGoals properties returncode warnings review native result
      declared e analysis selected) {r : Row} {name : String}
    (hconfirms : e.nativeConfirms r (.str name) = true) :
    ∃ a : NativeAccepted, a.name = name ∧ a.Observed host target native e.rows ∧
      r.eq a.row = true := by
  unfold Evidence.nativeConfirms at hconfirms
  split at hconfirms
  · next a hfind =>
    have hfound := List.find?_some hfind
    have hname : Value.str a.name = .str name := Value.same_str_iff.mp (of_decide_eq_true hfound)
    exact ⟨a, Value.str.inj hname,
      validatedNative_observed h.gathered.native (List.mem_of_find?_eq_some hfind), hconfirms⟩
  · exact absurd hconfirms (by simp)

/-- The expected failures of an accepted target are required properties. -/
theorem Accepted.expected_required
    (h : Accepted host target wpGoals properties returncode warnings review native result
      declared e analysis selected) {v : Value} (hv : Value.member e.expectedInvalid v = true) :
    ∃ name ∈ declared.required, v = .str name := by
  obtain ⟨-, hsubset, -, -⟩ := expectationIssues_eq_nil h.gathered.expectations
  obtain ⟨y, hy, hsame⟩ := Value.member_iff.mp hv
  have hmember := List.all_eq_true.mp hsubset y (List.mem_append_right _ hy)
  obtain ⟨name, hname, rfl⟩ := Value.exists_str_of_member hmember
  exact ⟨name, hname, Value.same_str_iff.mp hsame⟩

/-- WP confirmed and refuted an expected failure. -/
theorem Accepted.wp_refuted
    (h : Accepted host target wpGoals properties returncode warnings review native result
      declared e analysis selected) (hwp : Value.get target "analysis" = .str "wp") {name : String}
    (hname : name ∈ declared.required) (hexpected : e.invalidExpected name = true) :
    name ∈ analysis.confirmed ∧ WpRefuted e.goals name := by
  obtain ⟨-, hgoals, hrequired, -, hconfirmed⟩ := h.wp_gates hwp
  obtain ⟨hne, -, hinvalid⟩ := requiredIssues_eq_nil (hrequired name hname)
  obtain ⟨g, hg, houtcome⟩ := hinvalid hexpected
  have hunresolved : e.unresolvedExpected name = false := by
    simp [Evidence.unresolvedExpected, h.no_unresolved, Value.member]
  obtain ⟨hmem, hs, hproperty⟩ := mem_goalsOf.mp hg
  refine ⟨?_, ⟨g, hmem, hs, hproperty, (Goal.outcome_eq_invalid hs).mp houtcome⟩,
    fun g' hg' hs' hproperty' => ?_⟩
  · rw [hconfirmed, List.mem_filter]
    refine ⟨hname, ?_⟩
    unfold wpConfirms
    rw [hunresolved, hexpected]
    simpa [hne] using ⟨g, hg, houtcome⟩
  · rcases ordinaryIssues_eq_nil ((goalIssues_eq_nil (hgoals g' hg')).2.2 hs') with hv | hu | hi
    · exact Or.inl ((Goal.outcome_eq_valid hs').mp hv)
    · rw [hproperty', hunresolved] at hu
      exact absurd hu.1 (by simp)
    · exact Or.inr ((Goal.outcome_eq_invalid hs').mp hi.2)

/-- Eva confirmed and refuted an expected failure. -/
theorem Accepted.eva_refuted
    (h : Accepted host target wpGoals properties returncode warnings review native result
      declared e analysis selected) (heva : Value.get target "analysis" = .str "eva") {name : String}
    (hname : name ∈ declared.required) (hexpected : e.invalidExpected name = true) :
    name ∈ analysis.confirmed ∧
      EvaRefuted host target declared native e.rows e.warnings name := by
  obtain ⟨matched, hissues, hconfirmed, hmem⟩ := h.eva_required heva hname
  obtain ⟨hne, -, hinvalid⟩ := evaRequired_eq_nil hissues
  obtain ⟨hself, hcases⟩ := hinvalid hexpected
  obtain ⟨r₀, rs, hrs⟩ := List.exists_cons_of_ne_nil hne
  refine ⟨hconfirmed name (hself ▸ List.mem_singleton_self _),
    ⟨r₀, (hmem r₀).mp (hrs ▸ List.mem_cons_self)⟩, fun r hr hs hn => ?_⟩
  have hin : r ∈ matched := (hmem r).mpr ⟨hr, hs, hn⟩
  rcases hcases with hreported | ⟨hlength, hnative⟩
  · rcases hreported r hin with hout | hcheck
    · exact Or.inl (csvOutcome_eq_invalid (hout ▸ r.status_eq))
    · exact Or.inr (Or.inl (h.diagnosed hr hcheck))
  · refine Or.inr (Or.inr ⟨fun r' hr' hs' hn' => ?_, h.observed (hnative r hin)⟩)
    obtain ⟨x, hx⟩ := List.length_eq_one_iff.mp hlength
    have h1 : r ∈ [x] := hx ▸ hin
    have h2 : r' ∈ [x] := hx ▸ (hmem r').mpr ⟨hr', hs', hn'⟩
    rw [List.mem_singleton.mp h1, List.mem_singleton.mp h2]

/-- The row of a function that counts has evidence of its own when its status says that
it is dead. -/
theorem Accepted.dead_explained
    (h : Accepted host target wpGoals properties returncode warnings review native result
      declared e analysis selected) {r : Row} (hr : r ∈ e.rows) (hs : r.Selected target declared)
    (hdead : r.outcome = .unreachable) :
    (∃ name, Diagnosed host e.rows e.warnings name r) ∨
      ∃ a : NativeAccepted, a.Observed host target native e.rows ∧ r.eq a.row = true := by
  have hstr : ∀ aliases : List Value, ∀ v ∈ Value.meet aliases e.expectedInvalid,
      ∃ name, v = .str name := by
    intro aliases v hv
    obtain ⟨name, -, hname⟩ := h.expected_required (List.mem_filter.mp hv).2
    exact ⟨name, hname⟩
  obtain ⟨aliases, -, hvalid | htrusted | hexcused⟩ := judgeRow_eq_nil (h.row_judged hr hs).1
  · rw [hdead] at hvalid
    exact absurd hvalid (by decide)
  · unfold Row.isTrusted at htrusted
    rw [hdead] at htrusted
    exact absurd htrusted (by simp)
  · unfold excused at hexcused
    simp only [hdead, Bool.or_eq_true, Bool.and_eq_true, List.any_eq_true, reduceCtorEq,
      decide_false, Bool.false_eq_true, false_or, or_false, and_false, decide_true, true_and]
      at hexcused
    rcases hexcused with ⟨-, v, hv, hcheck⟩ | ⟨v, hv, hnative⟩
    · obtain ⟨name, rfl⟩ := hstr aliases v hv
      exact Or.inl ⟨name, h.diagnosed hr hcheck⟩
    · obtain ⟨name, rfl⟩ := hstr aliases v hv
      obtain ⟨a, -, hobserved, heq⟩ := h.observed hnative
      exact Or.inr ⟨a, hobserved, heq⟩

/-- The required properties that are expected to hold do. -/
theorem Accepted.wp_held
    (h : Accepted host target wpGoals properties returncode warnings review native result
      declared e analysis selected) (hwp : Value.get target "analysis" = .str "wp") {name : String}
    (hname : name ∈ declared.required) (hexpected : e.invalidExpected name = false) :
    (∃ g ∈ e.goals, g.smoke = false ∧ g.property = name) ∧
      ∀ g ∈ e.goals, g.smoke = false → g.property = name → g.verdict = .valid := by
  obtain ⟨-, hgoals, hrequired, -, -⟩ := h.wp_gates hwp
  obtain ⟨g, gs, hgs⟩ :=
    List.exists_cons_of_ne_nil (requiredIssues_eq_nil (hrequired name hname)).1
  refine ⟨⟨g, mem_goalsOf.mp (hgs ▸ List.mem_cons_self)⟩, fun g' hg' hs' hproperty' => ?_⟩
  rcases ordinaryIssues_eq_nil ((goalIssues_eq_nil (hgoals g' hg')).2.2 hs') with hv | hu | hi
  · exact (Goal.outcome_eq_valid hs').mp hv
  · exact absurd hu.1 (by simp [Evidence.unresolvedExpected, h.no_unresolved, Value.member])
  · rw [hproperty', hexpected] at hi
    exact absurd hi.1 (by simp)

theorem Accepted.eva_held
    (h : Accepted host target wpGoals properties returncode warnings review native result
      declared e analysis selected) (heva : Value.get target "analysis" = .str "eva") {name : String}
    (hname : name ∈ declared.required) (hexpected : e.invalidExpected name = false) :
    (∃ r ∈ e.rows, r.Selected target declared ∧ r.HasName name) ∧
      ∀ r ∈ e.rows, r.Selected target declared → r.HasName name → r.status = "Valid" := by
  obtain ⟨matched, hissues, -, hmem⟩ := h.eva_required heva hname
  obtain ⟨hne, hvalid, -⟩ := evaRequired_eq_nil hissues
  obtain ⟨r₀, rs, hrs⟩ := List.exists_cons_of_ne_nil hne
  refine ⟨⟨r₀, (hmem r₀).mp (hrs ▸ List.mem_cons_self)⟩, fun r hr hs hn => ?_⟩
  exact csvOutcome_eq_valid (hvalid hexpected r ((hmem r).mpr ⟨hr, hs, hn⟩) ▸ r.status_eq)

end Accepted

/-- **An accepted calibration is calibrated**, and it is never verified.  Whatever the
reports and the envelopes are, the names that must fail were refuted by evidence that
reached them, and the other required names hold. -/
theorem evaluateTarget_calibrated {host : Host} {target : Dict}
    {wpGoals properties returncode warnings review native : Value} {result : Evaluation}
    (hrole : Value.get target "role" = .str "calibration")
    (h : evaluateTarget host target wpGoals properties returncode warnings review native = .ok result)
    (haccepted : result.accepted = true) :
    result.verified = false ∧ ∃ declared goals rows diagnostics, warnings = .list diagnostics ∧
      Calibrated host target wpGoals properties native diagnostics declared goals rows
        result.confirmedInvalidProperties := by
  obtain ⟨declared, e, analysis, selected, hacc⟩ := evaluateTarget_accepted h haccepted
  obtain ⟨records, hrecords, -, hreads⟩ := hacc.gathered.rows
  obtain ⟨vs, hvs, hdistinct⟩ := Value.toSet_eq_some hacc.gathered.invalid
  have hmember : ∀ v, Value.member e.expectedInvalid v = Value.member vs v := by
    intro v
    rw [hdistinct, Value.member_distinct]
  refine ⟨?_, declared, e.goals, e.rows, e.warnings, hacc.gathered.warnings,
    { declares := hacc.declared_eq
      rows_read := ⟨records, hrecords, hreads⟩
      goals_read := hacc.goals_read
      analysis := hacc.analysis_known
      refuted := ⟨vs, hvs, fun v hv => ?_⟩
      held := ⟨vs, hvs, fun name hname hout => ?_⟩
      dead := fun r hr hs => hacc.dead_explained hr hs }⟩
  · rw [hacc.verified, Value.get_of_get hrole]
    decide
  · have hexpected : Value.member e.expectedInvalid v = true := by
      rw [hmember, Value.member_iff]
      exact ⟨v, hv, Value.same_refl v⟩
    obtain ⟨name, hname, rfl⟩ := hacc.expected_required hexpected
    rw [hacc.confirmed]
    rcases hacc.analysis_known with hwp | heva
    · obtain ⟨hconfirmed, hrefuted⟩ := hacc.wp_refuted hwp hname hexpected
      exact ⟨name, hname, rfl, hconfirmed, fun _ => hrefuted, fun heva =>
        absurd (hwp.symm.trans heva) (by decide)⟩
    · obtain ⟨hconfirmed, hrefuted⟩ := hacc.eva_refuted heva hname hexpected
      exact ⟨name, hname, rfl, hconfirmed, fun hwp => absurd (hwp.symm.trans heva) (by decide),
        fun _ => hrefuted⟩
  · have hexpected : e.invalidExpected name = false := by
      rw [Evidence.invalidExpected, hmember, Bool.eq_false_iff]
      exact fun hin => hout (Value.member_str_iff.mp hin)
    exact ⟨fun hwp => hacc.wp_held hwp hname hexpected, fun heva =>
      hacc.eva_held heva hname hexpected⟩

/-! ## An accepted calibration -/

/-- A calibration with one check that must fail. -/
def checkTarget : Dict :=
  [("id", .str "check"), ("role", .str "calibration"), ("analysis", .str "eva"),
    ("entry", .str "probe"), ("functions", .list [.str "probe"]),
    ("required_properties", .list [.str "wrong"]), ("expected_invalid", .list [.str "wrong"])]

/-- The row of the check, as the export has it. -/
def checkRows : Value :=
  .list [.dict [("status", .str "Invalid or unreachable"), ("function", .str "probe"),
    ("path", .str "/k/probe.c"), ("line", .int 7), ("kind", .str "user check"),
    ("property", .str "wrong: x == 0"), ("names", .list [.str "wrong"])]]

/-- Eva's diagnostic about the check. -/
def checkWarnings : Value :=
  .list [.dict [("plugin", .str "eva:alarm"), ("severity", .str "warning"),
    ("path", .str "/k/probe.c"), ("line", .int 7),
    ("message", .str "check 'wrong' got status invalid.")]]

theorem evaluateTarget_calibrated_check :
    ∃ result, evaluateTarget plainHost checkTarget (.list []) checkRows (.int 0) checkWarnings .none
        .none = .ok result ∧ result.accepted = true ∧ result.verified = false ∧
      ∃ declared goals rows diagnostics, checkWarnings = .list diagnostics ∧
        Calibrated plainHost checkTarget (.list []) checkRows .none diagnostics declared goals rows
          result.confirmedInvalidProperties := by
  obtain ⟨result, h, haccepted⟩ := exists_of_returns (f := fun r : Evaluation => r.accepted)
    (x := evaluateTarget plainHost checkTarget (.list []) checkRows (.int 0) checkWarnings .none .none)
    (by decide +kernel)
  exact ⟨result, h, haccepted, evaluateTarget_calibrated (by decide) h haccepted⟩

end Report
end Fragma
