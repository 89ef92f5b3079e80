import Fragma.Python.Value

/-!
# Issues and the verdict

`fragma/report.py`, the end of `evaluate_target`.  The policy collects issues.  A target
with no issue passes; otherwise its status is the gravest kind among them.

* `IssueKind`, `Issue`: what is collected.
* `Status`, `statusOf`: the status that a list of issues leads to.
* `statusOf_perm`: it does not depend on their order.
-/

namespace Fragma
namespace Report

open Python

/-- The kinds of issues: those that the status looks for, the gravest first, and the
one that a changed input leaves. -/
inductive IssueKind where
  | toolError
  | inconsistent
  | unsupported
  | reviewRequired
  | incomplete
  | invalid
  | timeout
  | unknown
  | inputChanged
  deriving DecidableEq, Repr

/-- One entry of `result["issues"]`. -/
structure Issue where
  kind : IssueKind
  message : String
  data : Dict

/-- `result["status"]`. -/
inductive Status where
  | issue (kind : IssueKind)
  | failed
  | needsCompanion
  | passed
  | calibrationPassed
  | inputChanged
  | profileBlocked
  | error
  deriving DecidableEq, Repr

/-- The kinds in the order in which the status looks for them. -/
def gravity : List IssueKind :=
  [.toolError, .inconsistent, .unsupported, .reviewRequired, .incomplete, .invalid, .timeout,
    .unknown]

/-- The status of a target with issues: the gravest kind. -/
def statusOf (issues : List Issue) : Status :=
  match gravity.find? fun kind => issues.any fun i => i.kind = kind with
  | some kind => .issue kind
  | none => .failed

/-- **The status only depends on which kinds of issues there are.** -/
theorem statusOf_congr {issues issues' : List Issue}
    (h : ∀ kind, (∃ i ∈ issues, i.kind = kind) ↔ ∃ i ∈ issues', i.kind = kind) :
    statusOf issues = statusOf issues' := by
  have hany : (fun kind => issues.any fun i => i.kind = kind) =
      fun kind => issues'.any fun i => i.kind = kind := by
    funext kind
    rw [Bool.eq_iff_iff, List.any_eq_true, List.any_eq_true]
    simpa only [decide_eq_true_eq] using h kind
  unfold statusOf
  rw [hany]

theorem statusOf_perm {issues issues' : List Issue} (h : issues.Perm issues') :
    statusOf issues = statusOf issues' :=
  statusOf_congr fun _ => exists_congr fun _ => and_congr_left fun _ => h.mem_iff

end Report
end Fragma
