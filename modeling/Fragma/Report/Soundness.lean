import Fragma.Report.Gates

/-!
# What a verified target guarantees

A target is only reported as verified when everything about it is proved.  The process
returned zero, the target expects no failure, every ordinary goal is valid by a prover,
every required property is there, every row of an analysed function is proved or
trusted, and whatever was waived has a declared review of its own.

* `WpProved`, `EvaProved`: what the two analyses have shown.
* `RowsProved`, `SmokeReviewed`, `WarningsClear`: the rows, the smoke goals and the
  warnings.
* `Proved`, `evaluateTarget_verified`: **a verified target is proved.**
-/

namespace Fragma
namespace Report

open Python

/-! ## The statement -/

/-- The functions whose rows count: the declared ones, and for Eva the entry point. -/
def selectedFunctions (target : Dict) (declared : Declaration) : List Value :=
  declared.analysisFunctions.map .str ++
    if Value.get target "analysis" = .str "eva" then [Value.get target "entry" (.str "main")] else []

/-- The row has the name. -/
def Row.HasName (r : Row) (name : String) : Prop := r.named (.str name) = .ok true

/-- The row belongs to a function that counts. -/
def Row.Selected (r : Row) (target : Dict) (declared : Declaration) : Prop :=
  Value.member (selectedFunctions target declared) (r.get "function") = true

/-- What WP has shown of a verified target. -/
structure WpProved (host : Host) (target : Dict) (wpGoals : Value) (declared : Declaration)
    (goals : List Goal) (rows : List Row) : Prop where
  read : ∃ vs, wpGoals = .list vs ∧ List.Forall₂ (Goal.Reads host) goals vs
  valid : ∀ g ∈ goals, g.smoke = false → g.verdict = .valid ∧ ∃ p ∈ g.provers, 0 < p.success
  expected : ∀ g ∈ goals, g.function ∈ declared.analysisFunctions
  covered : ∀ f ∈ declared.analysisFunctions, ∃ g ∈ goals, g.smoke = false ∧ g.function = f
  required : ∀ name ∈ declared.required, ∃ g ∈ goals, g.smoke = false ∧ g.property = name
  linked : ∀ g ∈ goals, g.smoke = false → hasSubstring "_loop_variant" g.property = false →
    ∃ r ∈ rows, r.get "path" = .str g.path ∧ Value.eq (r.get "line") (.int g.line) = true ∧
      r.get "function" = .str g.function ∧
      ∃ aliases, propertyAliases r [g] = .ok aliases ∧ .str g.property ∈ aliases

/-- What Eva has shown of a verified target. -/
structure EvaProved (target : Dict) (declared : Declaration) (rows : List Row) : Prop where
  labelled : ∀ name ∈ declared.required, ∃ r ∈ rows, r.Selected target declared ∧ r.HasName name
  valid : ∀ name ∈ declared.required, ∀ r ∈ rows, r.Selected target declared → r.HasName name →
    r.status = "Valid"

/-- Every row of a function that counts is proved or trusted, and no two are about the
same property. -/
structure RowsProved (target : Dict) (properties : Value) (declared : Declaration)
    (rows : List Row) : Prop where
  read : ∃ vs, properties = .list vs ∧ List.Forall₂ Row.Reads rows vs
  nonempty : ∃ r ∈ rows, r.Selected target declared
  proved : ∀ r ∈ rows, r.Selected target declared →
    r.status = "Valid" ∨ (r.outcome = .assumed ∧
      ∃ kind ∈ ["precondition", "axiom", "assumption"], r.get "kind" = .str kind)
  unambiguous : ∀ r ∈ rows, r.Selected target declared → r.isAmbiguous = false
  distinct : (rows.filter fun r => Value.member (selectedFunctions target declared)
    (r.get "function")).Pairwise fun r r' => ¬ Value.Same (.list r'.identity) (.list r.identity)

/-- A smoke goal that was proved, and so shows a dead path, has an approval. -/
structure SmokeReviewed (goals : List Goal) (approved : Approved) : Prop where
  ran : ∀ g ∈ goals, g.smoke = true → g.verdict ≠ .failed ∧ g.verdict ≠ .error
  reviewed : ∀ g ∈ goals, g.smoke = true → g.verdict = .valid ∨ g.passed = false →
    ∃ d, (g.goal, d) ∈ approved.smoke

/-- No warning is an error, and one that says that something is unsupported, skipped or
not guarded has an approval. -/
def WarningsClear (host : Host) (target : Dict) (warnings : Value) (approved : Approved) : Prop :=
  ∃ vs, warnings = .list vs ∧ ∀ index v, vs[index]? = some v →
    ∃ message severity, diagnosticOf v = some (message, severity) ∧ severity ≠ .str "error" ∧
      ((∃ d, (index, d) ∈ approved.warnings) ∨
        severity ≠ .str "unsupported" ∧ saysUnsupported host message = false ∧
          (hasSubstring "Missing RTE guards" message = true →
            Value.contains (Value.get target "claims" (.list [])) (.str "runtime-safety") =
              some false))

/-- Everything that a verified target guarantees. -/
structure Proved (host : Host) (target : Dict)
    (wpGoals properties returncode warnings review : Value) (declared : Declaration)
    (goals : List Goal) (rows : List Row) (approved : Approved) : Prop where
  declares : declaration target = some declared
  returncode : returncode = .int 0
  no_invalid : (Value.get target "expected_invalid" (.list [])).iterate = some []
  no_unresolved : (Value.get target "expected_unresolved" (.list [])).iterate = some []
  analysis : Value.get target "analysis" = .str "wp" ∨ Value.get target "analysis" = .str "eva"
  functions : declared.functions ⊆ declared.analysisFunctions
  wp : Value.get target "analysis" = .str "wp" → WpProved host target wpGoals declared goals rows
  eva : Value.get target "analysis" = .str "eva" → EvaProved target declared rows
  rows_proved : RowsProved target properties declared rows
  smoke_reviewed : SmokeReviewed goals approved
  warnings_clear : WarningsClear host target warnings approved
  approvals : (approved.smoke = [] ∧ approved.warnings = []) ∨
    ∃ d vs, review = .dict d ∧ warnings = .list vs ∧ approved.Justified host target d goals vs

/-! ## The proof -/

theorem toSet_eq_nil {v : Value} (h : v.toSet = some []) : v.iterate = some [] := by
  obtain ⟨xs, hxs, hdistinct⟩ := Value.toSet_eq_some h
  cases xs with
  | nil => exact hxs
  | cons x xs => exact absurd hdistinct (by simp [Value.distinct])

section Accepted

variable {host : Host} {target : Dict} {wpGoals properties returncode warnings review native : Value}
  {result : Evaluation} {declared : Declaration} {e : Evidence} {analysis : Analysis}
  {selected : List Row}

/-- The functions that the gates select are the ones that count. -/
theorem Accepted.selected_functions
    (h : Accepted host target wpGoals properties returncode warnings review native result
      declared e analysis selected) : analysis.selected = selectedFunctions target declared := by
  have hanalysed := h.analysed
  unfold analyse at hanalysed
  rw [h.gathered.target_eq, h.gathered.declared_eq] at hanalysed
  unfold selectedFunctions
  split_ifs at hanalysed with hwp heva
  · unfold wpAnalysis at hanalysed
    obtain ⟨_, -, hanalysed⟩ := bind_eq_ok_iff.mp hanalysed
    obtain ⟨_, -, hanalysed⟩ := bind_eq_ok_iff.mp hanalysed
    obtain ⟨_, -, hanalysed⟩ := bind_eq_ok_iff.mp hanalysed
    rw [← Except.ok.inj hanalysed, if_neg (by rw [hwp]; simp), List.append_nil,
      h.gathered.declared_eq]
  · unfold evaAnalysis at hanalysed
    obtain ⟨_, -, hanalysed⟩ := bind_eq_ok_iff.mp hanalysed
    obtain ⟨_, -, hanalysed⟩ := bind_eq_ok_iff.mp hanalysed
    rw [← Except.ok.inj hanalysed, if_pos heva]
    unfold evaSelected entryOf
    rw [h.gathered.target_eq, h.gathered.declared_eq]
  · rw [if_neg heva, List.append_nil, ← Except.ok.inj hanalysed]

theorem holds_inSelected {functions : List Value} {r : Row} {b : Bool}
    (h : inSelected functions r = .ok b) : b = Value.member functions (r.get "function") := by
  unfold inSelected at h
  split_ifs at h
  exact (Except.ok.inj h).symm

/-- The selected rows are the rows of the functions that count. -/
theorem Accepted.selected_rows
    (h : Accepted host target wpGoals properties returncode warnings review native result
      declared e analysis selected) :
    selected = e.rows.filter fun r =>
      Value.member (selectedFunctions target declared) (r.get "function") := by
  obtain ⟨hall, hfilter⟩ := select_eq_ok_iff.mp h.selected_eq
  rw [hfilter]
  refine List.filter_congr fun r hr => ?_
  obtain ⟨b, hb⟩ := hall r hr
  rw [h.selected_functions] at hb ⊢
  rw [holds, hb]
  exact holds_inSelected hb

theorem Accepted.mem_selected
    (h : Accepted host target wpGoals properties returncode warnings review native result
      declared e analysis selected) {r : Row} :
    r ∈ selected ↔ r ∈ e.rows ∧ r.Selected target declared := by
  rw [h.selected_rows, List.mem_filter]
  rfl

/-- The rows of an accepted target passed, whatever is expected. -/
theorem Accepted.row_judged
    (h : Accepted host target wpGoals properties returncode warnings review native result
      declared e analysis selected) {r : Row} (hr : r ∈ e.rows) (hs : r.Selected target declared) :
    judgeRow e r = .ok [] ∧ r.isAmbiguous = false :=
  let judged := (rowIssues_eq_nil h.rows).1 r (h.mem_selected.mpr ⟨hr, hs⟩)
  ⟨judged.1, judged.2.1⟩

/-- The goals of an accepted WP target are the records of its report. -/
theorem Accepted.goals_read
    (h : Accepted host target wpGoals properties returncode warnings review native result
      declared e analysis selected) (hwp : Value.get target "analysis" = .str "wp") :
    ∃ vs, wpGoals = .list vs ∧ List.Forall₂ (Goal.Reads host) e.goals vs := by
  have hread := h.gathered.goals
  unfold readGoals at hread
  rw [if_pos hwp] at hread
  split at hread
  · next goals hgoals =>
    rw [← (Prod.mk.inj (Except.ok.inj hread)).1]
    obtain ⟨vs, hvs, -, hreads⟩ := wpRows_reads hgoals
    exact ⟨vs, hvs, hreads⟩
  · split_ifs at hread
    · exact absurd (Prod.mk.inj (Except.ok.inj hread)).2 (by simp)
    · exact absurd (Prod.mk.inj (Except.ok.inj hread)).2 (by simp)

/-- The goals of a target of another analysis are none. -/
theorem Accepted.goals_eq_nil
    (h : Accepted host target wpGoals properties returncode warnings review native result
      declared e analysis selected) (hwp : Value.get target "analysis" ≠ .str "wp") :
    e.goals = [] := by
  have hread := h.gathered.goals
  unfold readGoals at hread
  rw [if_neg hwp] at hread
  exact (Prod.mk.inj (Except.ok.inj hread)).1.symm

/-- The gates of WP reported nothing. -/
theorem Accepted.wp_gates
    (h : Accepted host target wpGoals properties returncode warnings review native result
      declared e analysis selected) (hwp : Value.get target "analysis" = .str "wp") :
    (∀ f ∈ declared.analysisFunctions, functionIssues e f = []) ∧
      (∀ g ∈ e.goals, goalIssues e g = []) ∧
      (∀ name ∈ declared.required, requiredIssues e name = []) ∧
      (∀ g ∈ e.goals, linkIssues e g = .ok []) ∧
      analysis.confirmed = declared.required.filter (wpConfirms e) := by
  have hanalysed := h.analysed
  unfold analyse at hanalysed
  rw [h.gathered.target_eq, if_pos hwp] at hanalysed
  unfold wpAnalysis at hanalysed
  obtain ⟨baseline, -, hanalysed⟩ := bind_eq_ok_iff.mp hanalysed
  obtain ⟨links, hlinks, hanalysed⟩ := bind_eq_ok_iff.mp hanalysed
  obtain ⟨omissions, -, hanalysed⟩ := bind_eq_ok_iff.mp hanalysed
  have hnil := h.no_issues
  rw [← Except.ok.inj hanalysed] at hnil ⊢
  simp only [List.append_eq_nil_iff, List.flatMap_eq_nil_iff] at hnil
  obtain ⟨⟨⟨⟨⟨hfunctions, hgoals⟩, hrequired⟩, -⟩, rfl⟩, -⟩ := hnil
  rw [h.gathered.declared_eq] at hfunctions hrequired ⊢
  exact ⟨hfunctions, hgoals, hrequired, collect_eq_nil_iff.mp hlinks, rfl⟩

/-- The gates of Eva reported nothing. -/
theorem Accepted.eva_gates
    (h : Accepted host target wpGoals properties returncode warnings review native result
      declared e analysis selected) (heva : Value.get target "analysis" = .str "eva") :
    ∃ required, collect (evaRequire e) declared.required = .ok required ∧
      (∀ x ∈ required, x.issues = []) ∧ analysis.confirmed = required.flatMap Required.confirmed := by
  have hanalysed := h.analysed
  unfold analyse at hanalysed
  rw [h.gathered.target_eq, if_neg (by rw [heva]; simp), if_pos heva] at hanalysed
  unfold evaAnalysis at hanalysed
  obtain ⟨_, -, hanalysed⟩ := bind_eq_ok_iff.mp hanalysed
  obtain ⟨required, hrequired, hanalysed⟩ := bind_eq_ok_iff.mp hanalysed
  have hnil := h.no_issues
  rw [← Except.ok.inj hanalysed] at hnil ⊢
  simp only [List.append_eq_nil_iff, List.flatMap_eq_nil_iff] at hnil
  rw [h.gathered.declared_eq] at hrequired
  exact ⟨required, hrequired, hnil.2, rfl⟩

/-- The rows that have a required name, and what their gate found. -/
theorem Accepted.eva_required
    (h : Accepted host target wpGoals properties returncode warnings review native result
      declared e analysis selected) (heva : Value.get target "analysis" = .str "eva")
    {name : String} (hname : name ∈ declared.required) :
    ∃ matched, (evaRequired e name matched).issues = [] ∧
      (∀ n ∈ (evaRequired e name matched).confirmed, n ∈ analysis.confirmed) ∧
      ∀ r, r ∈ matched ↔ r ∈ e.rows ∧ r.Selected target declared ∧ r.HasName name := by
  obtain ⟨required, hrequired, hissues, hconfirmed⟩ := h.eva_gates heva
  obtain ⟨found, hfound⟩ := forall_of_collect_eq_ok hrequired name hname
  have hmem := fun x => (mem_of_collect_eq_ok hrequired (b := x)).mpr
  unfold evaRequire at hfound
  obtain ⟨matched, hmatched, hfound'⟩ := bind_eq_ok_iff.mp hfound
  have hin : evaRequired e name matched ∈ required :=
    hmem _ ⟨name, hname, _, hfound, by rw [← Except.ok.inj hfound']; exact List.mem_singleton_self _⟩
  have hselected : evaSelected e = selectedFunctions target declared := by
    unfold evaSelected selectedFunctions entryOf
    rw [if_pos heva, h.gathered.target_eq, h.gathered.declared_eq]
  refine ⟨matched, hissues _ hin, fun n hn => ?_, fun r => ?_⟩
  · rw [hconfirmed, List.mem_flatMap]
    exact ⟨_, hin, hn⟩
  · obtain ⟨hall, rfl⟩ := select_eq_ok_iff.mp hmatched
    rw [List.mem_filter, holds_iff]
    refine and_congr_right fun hr => ?_
    obtain ⟨b, hb⟩ := hall r hr
    unfold evaNamed at hb ⊢
    obtain ⟨inside, hinside, hb⟩ := bind_eq_ok_iff.mp hb
    have hvalue := holds_inSelected hinside
    rw [hselected] at hvalue
    rw [bind_eq_ok_iff]
    constructor
    · rintro ⟨inside', hinside', hnamed⟩
      obtain rfl := Except.ok.inj (hinside.symm.trans hinside')
      split_ifs at hnamed with hcond
      · exact ⟨hvalue.symm.trans hcond, hnamed⟩
      · exact absurd (Except.ok.inj hnamed) (by simp)
    · rintro ⟨hsel, hnamed⟩
      refine ⟨inside, hinside, ?_⟩
      rw [if_pos (hvalue.trans hsel)]
      exact hnamed

/-- The warnings of an accepted target are clear. -/
theorem Accepted.warnings_clear
    (h : Accepted host target wpGoals properties returncode warnings review native result
      declared e analysis selected) : WarningsClear host target warnings e.reviews := by
  refine ⟨e.warnings, h.gathered.warnings, fun index v hv => ?_⟩
  have hnil := collect_eq_nil_iff.mp h.warnings (v, index) (List.mem_zipIdx_iff_getElem?.mpr hv)
  obtain ⟨message, severity, hdiagnostic, herror, hcases⟩ := warningIssue_eq_nil hnil
  rw [h.gathered.host_eq, h.gathered.target_eq] at hcases
  refine ⟨message, severity, hdiagnostic, herror, hcases.imp ?_ id⟩
  rintro ⟨d, hd⟩
  exact ⟨d, mem_of_lookup hd⟩

/-- The smoke goals of an accepted target are reviewed. -/
theorem Accepted.smoke_reviewed
    (h : Accepted host target wpGoals properties returncode warnings review native result
      declared e analysis selected) : SmokeReviewed e.goals e.reviews := by
  by_cases hwp : Value.get target "analysis" = .str "wp"
  · have hgate : ∀ g ∈ e.goals, g.smoke = true → g.outcome ≠ .toolError ∧
        (g.outcome = .inconsistent → ∃ d, e.reviews.smoke.lookup g.goal = some d) :=
      fun g hg hs => smokeIssues_eq_nil ((goalIssues_eq_nil ((h.wp_gates hwp).2.1 g hg)).2.1 hs)
    have hran : ∀ g ∈ e.goals, g.smoke = true → ¬ (g.verdict = .failed ∨ g.verdict = .error) := by
      intro g hg hs hfailed
      refine (hgate g hg hs).1 ?_
      rw [Goal.outcome, if_pos hs, if_pos hfailed]
    refine ⟨fun g hg hs => not_or.mp (hran g hg hs), fun g hg hs hdead => ?_⟩
    obtain ⟨d, hd⟩ := (hgate g hg hs).2 (by
      rw [Goal.outcome, if_pos hs, if_neg (hran g hg hs), if_pos hdead])
    exact ⟨d, mem_of_lookup hd⟩
  · rw [h.goals_eq_nil hwp]
    exact ⟨fun g hg => absurd hg List.not_mem_nil, fun g hg => absurd hg List.not_mem_nil⟩

/-- The rows of an accepted target that expects no failure are proved or trusted. -/
theorem Accepted.rows_proved
    (h : Accepted host target wpGoals properties returncode warnings review native result
      declared e analysis selected) (hinvalid : e.expectedInvalid = []) :
    RowsProved target properties declared e.rows := by
  obtain ⟨vs, hvs, -, hreads⟩ := h.gathered.rows
  refine ⟨⟨vs, hvs, hreads⟩, ?_, fun r hr hs => ?_, fun r hr hs => (h.row_judged hr hs).2, ?_⟩
  · obtain ⟨r, rs, hrs⟩ := List.exists_cons_of_ne_nil h.selected_ne_nil
    exact ⟨r, h.mem_selected.mp (hrs ▸ List.mem_cons_self)⟩
  · obtain ⟨aliases, -, hvalid | htrusted | hexcused⟩ := judgeRow_eq_nil (h.row_judged hr hs).1
    · exact Or.inl (csvOutcome_eq_valid (hvalid ▸ r.status_eq))
    · unfold Row.isTrusted at htrusted
      rw [Bool.and_eq_true, decide_eq_true_eq, List.any_eq_true] at htrusted
      obtain ⟨hassumed, kind, hkind, heq⟩ := htrusted
      exact Or.inr ⟨hassumed, kind, hkind, of_decide_eq_true heq⟩
    · exact absurd hexcused (by simp [excused_eq_false h.no_unresolved hinvalid])
  · rw [← h.selected_rows]
    exact (rowIssues_eq_nil h.rows).2

/-- The goals of an accepted WP target that expects no failure are proved. -/
theorem Accepted.wp_proved
    (h : Accepted host target wpGoals properties returncode warnings review native result
      declared e analysis selected) (hwp : Value.get target "analysis" = .str "wp")
    (hinvalid : e.expectedInvalid = []) : WpProved host target wpGoals declared e.goals e.rows := by
  obtain ⟨hfunctions, hgoals, hrequired, hlinks, -⟩ := h.wp_gates hwp
  have hgate := fun g hg => goalIssues_eq_nil (hgoals g hg)
  have hvalid : ∀ g ∈ e.goals, g.smoke = false → g.verdict = .valid := by
    intro g hg hs
    rcases ordinaryIssues_eq_nil ((hgate g hg).2.2 hs) with hv | ⟨hu, -⟩ | ⟨hi, -⟩
    · exact (Goal.outcome_eq_valid hs).mp hv
    · exact absurd hu (by simp [Evidence.unresolvedExpected, h.no_unresolved, Value.member])
    · exact absurd hi (by simp [Evidence.invalidExpected, hinvalid, Value.member])
  refine
    { read := h.goals_read hwp
      valid := fun g hg hs => ⟨hvalid g hg hs, g.proved hs (hvalid g hg hs)⟩
      expected := fun g hg => h.gathered.declared_eq ▸ (hgate g hg).1
      covered := fun f hf => functionIssues_eq_nil (hfunctions f hf)
      required := fun name hname => ?_
      linked := fun g hg hs hvariant => ?_ }
  · obtain ⟨g, gs, hgs⟩ :=
      List.exists_cons_of_ne_nil (requiredIssues_eq_nil (hrequired name hname)).1
    exact ⟨g, mem_goalsOf.mp (hgs ▸ List.mem_cons_self)⟩
  · obtain ⟨r, hr, hat, haliases⟩ := linkIssues_eq_nil (hlinks g hg) hs hvariant
    unfold atGoal at hat
    rw [Bool.and_eq_true, Bool.and_eq_true, Value.eq_str_iff, Value.eq_str_iff] at hat
    exact ⟨r, hr, hat.1.1, hat.1.2, hat.2, haliases⟩

/-- The required properties of an accepted Eva target that expects no failure are
valid. -/
theorem Accepted.eva_proved
    (h : Accepted host target wpGoals properties returncode warnings review native result
      declared e analysis selected) (heva : Value.get target "analysis" = .str "eva")
    (hinvalid : e.expectedInvalid = []) : EvaProved target declared e.rows := by
  have hgate : ∀ name ∈ declared.required, ∃ matched, matched ≠ [] ∧
      (∀ r ∈ matched, r.outcome = .valid) ∧
      ∀ r, r ∈ matched ↔ r ∈ e.rows ∧ r.Selected target declared ∧ r.HasName name := by
    intro name hname
    obtain ⟨matched, hissues, -, hmem⟩ := h.eva_required heva hname
    obtain ⟨hne, hvalid, -⟩ := evaRequired_eq_nil hissues
    exact ⟨matched, hne,
      hvalid (by simp [Evidence.invalidExpected, hinvalid, Value.member]), hmem⟩
  refine ⟨fun name hname => ?_, fun name hname r hr hs hn => ?_⟩
  · obtain ⟨matched, hne, -, hmem⟩ := hgate name hname
    obtain ⟨r, rs, hrs⟩ := List.exists_cons_of_ne_nil hne
    exact ⟨r, (hmem r).mp (hrs ▸ List.mem_cons_self)⟩
  · obtain ⟨matched, -, hvalid, hmem⟩ := hgate name hname
    exact csvOutcome_eq_valid (hvalid r ((hmem r).mpr ⟨hr, hs, hn⟩) ▸ r.status_eq)

end Accepted

/-- The analysis of an accepted target is one of the two. -/
theorem Accepted.analysis_known {host : Host} {target : Dict}
    {wpGoals properties returncode warnings review native : Value} {result : Evaluation}
    {declared : Declaration} {e : Evidence} {analysis : Analysis} {selected : List Row}
    (h : Accepted host target wpGoals properties returncode warnings review native result
      declared e analysis selected) :
    Value.get target "analysis" = .str "wp" ∨ Value.get target "analysis" = .str "eva" := by
  have hanalysed := h.analysed
  unfold analyse at hanalysed
  rw [h.gathered.target_eq] at hanalysed
  split_ifs at hanalysed with hwp heva
  · exact Or.inl hwp
  · exact Or.inr heva
  · have hnil := h.no_issues
    rw [← Except.ok.inj hanalysed] at hnil
    exact absurd hnil (by simp)

/-- **A verified target is proved.**  Whatever the reports and the envelopes are, the
evaluation says `verified` only when all of this holds. -/
theorem evaluateTarget_verified {host : Host} {target : Dict}
    {wpGoals properties returncode warnings review native : Value} {result : Evaluation}
    (h : evaluateTarget host target wpGoals properties returncode warnings review native = .ok result)
    (hverified : result.verified = true) :
    ∃ declared goals rows approved,
      Proved host target wpGoals properties returncode warnings review declared goals rows
        approved := by
  obtain ⟨declared, e, analysis, selected, hacc⟩ :=
    evaluateTarget_accepted h (accepted_of_verified h hverified)
  have hrole : Value.get target "role" (.str "proof") = .str "proof" :=
    of_decide_eq_true (hacc.verified.symm.trans hverified)
  obtain ⟨-, -, hcalibration, hfunctions⟩ := expectationIssues_eq_nil hacc.gathered.expectations
  have hinvalid : e.expectedInvalid = [] := by
    by_contra hne
    have := Value.get_of_get (hcalibration (Or.inl hne)) (.str "proof")
    rw [hrole] at this
    exact absurd this (by decide)
  refine ⟨declared, e.goals, e.rows, e.reviews,
    { declares := hacc.declared_eq
      returncode := hacc.returncode
      no_invalid := toSet_eq_nil (hinvalid ▸ hacc.gathered.invalid)
      no_unresolved := toSet_eq_nil (hacc.no_unresolved ▸ hacc.gathered.unresolved)
      analysis := hacc.analysis_known
      functions := hfunctions
      wp := fun hwp => hacc.wp_proved hwp hinvalid
      eva := fun heva => hacc.eva_proved heva hinvalid
      rows_proved := hacc.rows_proved hinvalid
      smoke_reviewed := hacc.smoke_reviewed
      warnings_clear := hacc.warnings_clear
      approvals := ?_ }⟩
  refine (validatedReviews_justified hacc.gathered.reviews).imp id ?_
  rintro ⟨d, hd, hjustified⟩
  exact ⟨d, e.warnings, hd, hacc.gathered.warnings, hjustified⟩

/-! ## A verified target -/

/-- A host that resolves a path to itself. -/
def plainHost : Host where
  resolve := .ok
  digest := fun _ => ""
  display := fun _ => ""
  isAlnum := Char.isAlphanum

/-- A target with one function and one postcondition. -/
def absTarget : Dict :=
  [("id", .str "abs"), ("role", .str "proof"), ("analysis", .str "wp"),
    ("functions", .list [.str "abs"]), ("required_properties", .list [.str "abs_ensures"])]

/-- The goal of the postcondition. -/
def absGoals : Value :=
  .list [.dict [("goal", .str "typed_abs_ensures"), ("property", .str "abs_ensures"),
    ("function", .str "abs"), ("file", .str "/k/abs.c"), ("line", .int 3), ("smoke", .bool false),
    ("passed", .bool true), ("verdict", .str "valid"),
    ("provers", .list [.dict [("prover", .str "z3"), ("time", .int 1), ("success", .int 1)]])]]

/-- The row of the postcondition. -/
def absRows : Value :=
  .list [.dict [("status", .str "Valid"), ("function", .str "abs"), ("path", .str "/k/abs.c"),
    ("line", .int 3), ("kind", .str "postcondition"), ("property", .str "ensures")]]

theorem evaluateTarget_verified_abs :
    ∃ result, evaluateTarget plainHost absTarget absGoals absRows (.int 0) (.list []) .none .none =
        .ok result ∧ result.verified = true ∧
      ∃ declared goals rows approved, Proved plainHost absTarget absGoals absRows (.int 0) (.list [])
        .none declared goals rows approved := by
  obtain ⟨result, h, hverified⟩ := exists_of_returns (f := fun r : Evaluation => r.verified)
    (x := evaluateTarget plainHost absTarget absGoals absRows (.int 0) (.list []) .none .none)
    (by decide +kernel)
  exact ⟨result, h, hverified, evaluateTarget_verified h hverified⟩

end Report
end Fragma
