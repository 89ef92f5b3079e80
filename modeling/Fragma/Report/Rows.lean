import Fragma.Report.Goals
import Fragma.Report.Issues

/-!
# The rows of a property report

`fragma/report.py`: the statuses of the property export, the check of a row in
`evaluate_target`, and `_property_aliases`.

A `Row` is a record that has the fields of a property and a known status.  Its
outcome follows from its status.  A row is known under the names that the export gave
it and under the properties of the goals that stand at its place.

* `RowOutcome`, `csvStatuses`, `csvOutcome`.
* `Row`, `RowReading`, `readRow`: the check of one record.
* `isLocated`, `compatible`, `propertyAliases`: the names of a row.
-/

namespace Fragma
namespace Report

open Python

/-! ## Statuses -/

/-- What a property contributes to the evaluation. -/
inductive RowOutcome where
  | valid
  | invalid
  | unknown
  | pending
  | assumed
  | inconsistent
  | unreachable
  deriving DecidableEq, Repr

/-- The word for an outcome. -/
def RowOutcome.text : RowOutcome → String
  | .valid => "valid"
  | .invalid => "invalid"
  | .unknown => "unknown"
  | .pending => "pending"
  | .assumed => "assumed"
  | .inconsistent => "inconsistent"
  | .unreachable => "unreachable"

/-- `CSV_STATUSES`. -/
def csvStatuses : List (String × RowOutcome) :=
  [("Valid", .valid), ("Invalid", .invalid), ("Unknown", .unknown),
    ("Partially proven", .pending), ("Considered valid", .assumed),
    ("Inconsistent", .inconsistent), ("Never tried", .unknown),
    ("Valid_under_hyp", .pending), ("Invalid_under_hyp", .pending),
    ("Valid_but_dead", .unreachable), ("Invalid_but_dead", .unreachable),
    ("Unknown_but_dead", .unreachable), ("Considered_valid", .assumed),
    ("Valid (under hypotheses)", .pending), ("Invalid (under hypotheses)", .pending),
    ("Valid (dead)", .unreachable), ("Invalid (dead)", .unreachable),
    ("Unknown (dead)", .unreachable), ("Unreachable", .unreachable), ("Dead", .unreachable),
    ("Invalid or unreachable", .unreachable)]

/-- `CSV_STATUSES.get(status)`. -/
def csvOutcome (status : String) : Option RowOutcome := csvStatuses.lookup status

/-- One status only is a proof. -/
theorem csvOutcome_eq_valid {status : String} (h : csvOutcome status = some .valid) :
    status = "Valid" := by
  have key : ∀ p ∈ csvStatuses, p.2 = .valid → p.1 = "Valid" := by decide
  exact key _ (mem_of_lookup h) rfl

/-- One status only is a refutation. -/
theorem csvOutcome_eq_invalid {status : String} (h : csvOutcome status = some .invalid) :
    status = "Invalid" := by
  have key : ∀ p ∈ csvStatuses, p.2 = .invalid → p.1 = "Invalid" := by decide
  exact key _ (mem_of_lookup h) rfl

/-! ## Rows -/

/-- A property record that passed its check, with `outcome` among its entries. -/
structure Row where
  record : Dict
  status : String
  outcome : RowOutcome
  status_eq : csvOutcome status = some outcome

/-- `row[field]`. -/
def Row.get (r : Row) (field : String) (default : Value := .none) : Value :=
  Value.get r.record field default

/-- `row == row'`. -/
def Row.eq (r r' : Row) : Bool := Value.eq (.dict r.record) (.dict r'.record)

/-- A record is a row, or is reported. -/
inductive RowReading where
  | row (r : Row)
  | rejected (i : Issue)

/-- The fields that a row has to have. -/
def rowFields : List String := ["status", "function", "path", "line", "kind", "property"]

/-- The check of one record. -/
def readRow : Value → Except Exn RowReading
  | .dict d =>
    if rowFields.all (Value.has d) then
      match Value.get d "status" with
      | .str status =>
        match h : csvOutcome status with
        | some outcome =>
          .ok (.row ⟨Value.set d "outcome" (.str outcome.text), status, outcome, h⟩)
        | none => .ok (.rejected ⟨.toolError, "Unknown consolidated property status",
            [("property_status", .str status)]⟩)
      | v =>
        if v.hashable then .ok (.rejected ⟨.toolError, "Unknown consolidated property status",
          [("property_status", v)]⟩)
        else .error ⟨.typeError, "unhashable type"⟩
    else .ok (.rejected ⟨.toolError, "Malformed consolidated property record", []⟩)
  | _ => .ok (.rejected ⟨.toolError, "Malformed consolidated property record", []⟩)

/-- The loop over the records. -/
def readRows (vs : List Value) : Except Exn (List RowReading) :=
  collect (fun v => (readRow v).map fun r => [r]) vs

/-- The rows among the records. -/
def RowReading.row? : RowReading → Option Row
  | .row r => some r
  | .rejected _ => none

/-- The issues among the records. -/
def RowReading.issue? : RowReading → Option Issue
  | .row _ => none
  | .rejected i => some i

/-! ## The names of a row -/

/-- The goal stands where the row does. -/
def isLocated (r : Row) (g : Goal) : Bool :=
  !g.smoke && Value.eq (.str g.function) (r.get "function") &&
    Value.eq (.int g.line) (r.get "line") && Value.eq (.str g.path) (r.get "path")

/-- A goal with this property can be about a row of this kind. -/
def compatible (kind property : String) : Bool :=
  (kind = "postcondition" && (hasSubstring "_ensures" property || hasSubstring "_exits" property)) ||
    (kind = "termination clause" &&
      (hasSubstring "_terminates" property || hasSubstring "_termination" property)) ||
    (kind = "assigns clause" && hasSubstring "_assigns" property) ||
    (kind = "loop invariant" && hasSubstring "_loop_invariant" property) ||
    (kind = "loop variant" && hasSubstring "_loop_variant" property) ||
    (startsWith "precondition" kind && hasSubstring "_requires" property) ||
    (kind = "user assertion" && hasSubstring "_assert_" property) ||
    (kind = "user check" && hasSubstring "_check_" property) ||
    (kind ∉ ["postcondition", "termination clause", "assigns clause", "loop invariant",
        "user assertion", "user check"] && hasSubstring "_assert_rte_" property)

/-- `_property_aliases(row, goals)`. -/
def propertyAliases (r : Row) (goals : List Goal) : Except Exn (List Value) := do
  let names ← orRaise (Value.toSet (r.get "names" (.list []))) ⟨.typeError, "names"⟩
  let located := goals.filter (isLocated r)
  match r.get "kind" with
  | .str kind =>
    .ok (names ++ (located.filter fun g => compatible kind g.property).map fun g => .str g.property)
  | _ => if located = [] then .ok names else .error ⟨.attributeError, "startswith"⟩

end Report
end Fragma
