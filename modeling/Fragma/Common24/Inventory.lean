import Fragma.Common24.Expected
import Fragma.Python.Failing
import Fragma.Python.Tsv
import Mathlib.Data.List.Sort

/-!
# The inventory of a report

`evaluate_inventory` of `fragma/common24.py`.  The goals and the rows of a report are compared with what the
source is expected to have; whatever differs is an issue.

* `readGoal`, `readRow`: what the reports hold.
* `readReport`, `evaluateInventory`: the function, its checks first.
* `Exact`: a report that is exactly the expected inventory.
* `inventoryIssues_eq_nil_iff`: **a report without an issue is exact**.
-/

namespace Fragma
namespace Common24

open Python Keyed Provenance

/-! ## Reading the reports -/

/-- A goal of the report. -/
structure InventoryGoal where
  record : Value
  goal : String
  property : String
  function : String
  path : String
  line : ℤ
  smoke : Bool
  passed : Bool
  verdict : String

/-- A row of the report. -/
structure InventoryRow where
  function : String
  kind : String
  path : String
  property : String
  status : String
  line : ℤ
  names : List String
  ambiguous : Bool

/-- `Common24Error(message)` -/
def malformed (message : String) : Exn := ⟨.valueError, message⟩

/-- `report.WP_VERDICTS` -/
def wpVerdicts : List String := ["valid", "invalid", "unknown", "timeout", "failed", "noresult", "error"]

def readDict (v : Value) (e : Exn) : Except Exn Dict :=
  match v with
  | .dict item => .ok item
  | _ => .error e

def readBool (v : Value) (e : Exn) : Except Exn Bool :=
  match v with
  | .bool b => .ok b
  | _ => .error e

def readText (v : Value) (e : Exn) : Except Exn String :=
  match v with
  | .str s => .ok s
  | _ => .error e

def readList (v : Value) (e : Exn) : Except Exn (List Value) :=
  match v with
  | .list vs => .ok vs
  | _ => .error e

/-- A line, which is positive. -/
def readLine (v : Value) (e : Exn) : Except Exn ℤ :=
  match v with
  | .int n => if 0 < n then .ok n else .error e
  | _ => .error e

/-- `item.get("verdict") in report.WP_VERDICTS` -/
def readVerdict (v : Value) (e : Exn) : Except Exn String := do
  raiseIf (v.hashable = false) ⟨.typeError, "unhashable"⟩
  let verdict ← readText v e
  raiseIf (verdict ∉ wpVerdicts) e
  pure verdict

/-- The checks of a goal. -/
def readGoal (v : Value) : Except Exn InventoryGoal := do
  let item ← readDict v (malformed "malformed parsed goal")
  let smoke ← readBool (Value.get item "smoke") (malformed "malformed parsed goal")
  let place := malformed "malformed parsed goal identity/location"
  let goal ← readText (Value.get item "goal") place
  let property ← readText (Value.get item "property") place
  let function ← readText (Value.get item "function") place
  let path ← readText (Value.get item "path") place
  let line ← readLine (Value.get item "line") place
  let passed ← readBool (Value.get item "passed") (malformed "malformed parsed goal verdict")
  let verdict ← readVerdict (Value.get item "verdict") (malformed "malformed parsed goal verdict")
  pure ⟨v, goal, property, function, path, line, smoke, passed, verdict⟩

/-- The checks of a row. -/
def readRow (v : Value) : Except Exn InventoryRow := do
  let item ← readDict v (malformed "malformed parsed property")
  let place := malformed "malformed parsed property identity/location"
  let function ← readText (Value.get item "function") place
  let kind ← readText (Value.get item "kind") place
  let path ← readText (Value.get item "path") place
  let property ← readText (Value.get item "property") place
  let status ← readText (Value.get item "status") place
  let line ← readLine (Value.get item "line") place
  let names ← readList (Value.get item "names") place
  let names ← names.mapM fun name => readText name place
  pure ⟨function, kind, path, property, status, line, names,
    (Value.get item "exported_identity_ambiguous").truthy⟩

/-! ## Issues of goals -/

/-- The place and the property of a goal, under its name. -/
def InventoryGoal.entry (g : InventoryGoal) : String × GoalEntry := (g.goal, ⟨g.function, g.line, g.property⟩)

/-- A goal is proved at the source. -/
def InventoryGoal.Proved (path : String) (g : InventoryGoal) : Prop :=
  g.path = path ∧ g.passed = true ∧ g.verdict = "valid"

instance decidableProved (path : String) (g : InventoryGoal) : Decidable (g.Proved path) :=
  inferInstanceAs (Decidable (_ ∧ _))

/-- The issues of the goals that are no smoke goals. -/
def ordinaryIssues (path : String) (e : Expected) (ordinary : List InventoryGoal) : List String :=
  (ordinary.filter fun g => ¬g.Proved path).map
      (fun g => "ordinary goal not valid at authenticated source: " ++ g.goal) ++
    if SameEntries (ordinary.map InventoryGoal.entry) e.goals then []
    else ["ordinary goal identity/location inventory differs"]

/-- A smoke goal is one that is expected. -/
def SmokeEntry.Claimed (host : Host) (path : String) (g : InventoryGoal) (entry : SmokeEntry) : Prop :=
  g.path = path ∧ g.function = entry.function ∧ g.line = entry.line ∧ entry.pattern.Matches host g.property

instance decidableClaimed (host : Host) (path : String) (g : InventoryGoal) (entry : SmokeEntry) :
    Decidable (entry.Claimed host path g) :=
  inferInstanceAs (Decidable (_ ∧ _))

/-- The loop over the smoke goals, each of which claims what it matches first. -/
def smokeIssues (host : Host) (path : String) : List InventoryGoal → List SmokeEntry → List String
  | [], left => if left = [] then [] else ["missing smoke inventory"]
  | g :: gs, left =>
    (if g.goal = "typed_" ++ g.property then [] else ["smoke goal/property identity differs"]) ++
      match left.find? fun entry => entry.Claimed host path g with
      | none => "unexpected smoke identity/location" :: smokeIssues host path gs left
      | some entry => smokeIssues host path gs (left.erase entry)

/-! ## Issues of rows -/

def InventoryRow.key (r : InventoryRow) : RowKey := ⟨r.function, r.line, r.kind⟩

/-- What names a row. -/
structure RowIdentity where
  key : RowKey
  path : String
  property : String
  deriving DecidableEq

def InventoryRow.identity (r : InventoryRow) : RowIdentity := ⟨r.key, r.path, r.property⟩

/-- The loop over the rows. -/
def rowIssues (path : String) : List RowIdentity → List InventoryRow → List String
  | _, [] => []
  | seen, r :: rs =>
    (if r.identity ∈ seen ∨ r.ambiguous = true then ["duplicate or ambiguous consolidated property"] else []) ++
      (if r.path = path ∧ r.status = "Valid" then []
        else ["consolidated property is not exactly Valid at authenticated source"]) ++
      rowIssues path (r.identity :: seen) rs

/-- The one row at a place, if there is one only. -/
def soleRow (rows : List InventoryRow) (key : RowKey) : Option InventoryRow :=
  match rows.filter fun r => r.key = key with
  | [r] => some r
  | _ => none

/-- One row stands at a place, and it has a name. -/
def Labelled (rows : List InventoryRow) (key : RowKey) (label : String) : Prop :=
  ∃ r ∈ soleRow rows key, label ∈ r.names

instance decidableLabelled (rows : List InventoryRow) (key : RowKey) (label : String) :
    Decidable (Labelled rows key label) :=
  inferInstanceAs (Decidable (∃ r ∈ soleRow rows key, label ∈ r.names))

/-- One row stands where the function starts, and says that the function does not exit. -/
def NeverExits (rows : List InventoryRow) (f : SourceFunction) : Prop :=
  ∃ r ∈ soleRow rows ⟨f.function, f.line, "postcondition"⟩, strip r.property.toList = "\\false".toList

instance decidableNeverExits (rows : List InventoryRow) (f : SourceFunction) : Decidable (NeverExits rows f) :=
  inferInstanceAs (Decidable (∃ r ∈ soleRow rows _, _))

/-- The text or the name that a row of some kinds has. -/
def InventoryRow.clauseIssues (r : InventoryRow) : List String :=
  (if r.kind = "termination clause" ∧ r.property ≠ "\\true" then ["source termination clause differs"] else []) ++
  (if r.kind = "assigns clause" ∧ r.property ≠
      (if r.function ∈ kernelFunctions.drop 2 then "assigns *(p + (0 .. 2));" else "assigns \\nothing;") then
    ["source frame clause differs"] else []) ++
  (if r.kind = "precondition" ∧
      (if r.function ∈ kernelFunctions.take 2 then "readable" else "writable") ∉ r.names then
    ["source precondition label differs"] else []) ++
  if startsWith "precondition of " r.kind ∧
      (if hasSubstring "__get_" r.kind then "readable" else "writable") ∉ r.names then
    ["direct-call precondition label differs"] else []

/-- `prop.split("_ensures_", 1)[1]`, where the property names a clause. -/
def ensuresLabel (property : String) : Option String :=
  (Search.find "_ensures_".toList property.toList 0).map fun i =>
    String.ofList (property.toList.drop (i + "_ensures_".length))

/-- The clauses that have to be named. -/
def ensuresMarks (e : Expected) : List (Mark × String) :=
  e.goals.filterMap fun p => (ensuresLabel p.2.property).map fun label =>
    (⟨p.2.function, p.2.line, label⟩, p.2.property)

/-- The line of a function. -/
def lineOf (fs : List SourceFunction) (name : String) : ℤ :=
  ((fs.find? fun f => f.function = name).map SourceFunction.line).getD 0

/-- The predicates at a place of runtime guards. -/
def guardPredicates (fs : List SourceFunction) (g : Guard) : List (String × String) :=
  if g.function ∈ kernelFunctions.take 2 then
    (["0", "1", "2"].flatMap fun i => [("mem_access", "\\valid_read(p + " ++ i ++ ")"),
      ("pointer_value", "\\null ≡ p + " ++ i ++ " ∨ \\object_pointer(p + " ++ i ++ ")")]) ++
    (if "be24".toList <:+ g.function.toList then ["0", "1"] else ["1", "2"]).map fun i =>
      ("shift", "0 ≤ (int)*(p + " ++ i ++ ")")
  else
    let index := g.line - lineOf fs g.function - 5
    let temporary := if index = 0 then "tmp" else "tmp_" ++ toString (index - 1)
    [("mem_access", "\\valid(" ++ temporary ++ ")"),
      ("pointer_value", "\\null ≡ p + 1 ∨ \\object_pointer(p + 1)")]

/-- The rows at a place. -/
def rowsAt (rows : List InventoryRow) (g : Guard) : List (String × String) :=
  (rows.filter fun r => r.function = g.function ∧ r.line = g.line).map fun r => (r.kind, r.property)

/-- The issues of the rows. -/
def propertyIssues (path : String) (source : Source) (e : Expected) (rows : List InventoryRow) : List String :=
  rowIssues path [] rows ++
    (if SameCounts (rows.map InventoryRow.key) e.rows then []
      else ["consolidated source/kind inventory differs"]) ++
    (e.assertions.filter fun m => ¬Labelled rows ⟨m.function, m.line, "user assertion"⟩ m.name).map
      (fun m => "source assertion label missing: " ++ m.function ++ ":" ++ m.name) ++
    (source.functions.filter fun f => ¬NeverExits rows f).map
      (fun f => "implicit exit clause missing: " ++ f.function) ++
    rows.flatMap InventoryRow.clauseIssues ++
    ((ensuresMarks e).filter fun p => ¬Labelled rows ⟨p.1.function, p.1.line, "postcondition"⟩ p.1.name).map
      (fun p => "functional postcondition label differs: " ++ p.2) ++
    (e.guards.filter fun g => ¬SameCounts (rowsAt rows g) (guardPredicates source.functions g)).map
      fun g => "source runtime-guard predicates differ: " ++ g.function ++ ":" ++ toString g.line

/-! ## The evaluation -/

def dependencyFields : List String :=
  ["unresolved_dependencies", "trusted_dependencies", "dependency_report_omissions"]

/-- The message of an issue about a goal without a row. -/
def missingLink : String := "WP property is missing from the consolidated dependency report"

/-- What the evaluation says of dependencies: whether there are none that are open, and the links that are
missing. -/
def readDependencies (evaluation : Dict) : Except Exn (Bool × List Value) := do
  let missing := malformed "dependency evaluation inventory missing"
  let fields ← dependencyFields.mapM fun field => readList (Value.get evaluation field) missing
  let issues ← readList (Value.get evaluation "issues") missing
  let items ← issues.mapM fun v => readDict v missing
  let links := items.filter fun item => Value.eq (Value.get item "message") (.str missingLink)
  pure (decide ((∀ field ∈ fields, field = []) ∧ links = []), links.map .dict)

/-- `Counter(values)`, as a dictionary. -/
def counter (values : List String) : List (String × ℕ) := values.dedup.map fun v => (v, values.count v)

/-- What `evaluate_inventory` returns. -/
structure Inventory where
  source : Source
  ordinaryCounts : List (String × ℕ)
  selectedPropertyCounts : List (String × ℕ)
  propertyKindCounts : List (String × ℕ)
  sourceAssertions : List Mark
  sourceGuardSites : List Guard
  directCallPreconditions : List Mark
  expectedOrdinaryGoals : List String
  issues : List String
  dependencyClosure : Bool
  missingDependencyLinks : List Value
  smokeVerdictCounts : List (String × ℕ)
  smokeGoals : List Value

/-- `status == "complete"` -/
def Inventory.complete (inventory : Inventory) : Bool := inventory.issues.isEmpty

/-- The issues of a report. -/
def inventoryIssues (host : Host) (path : String) (source : Source) (e : Expected)
    (goals : List InventoryGoal) (rows : List InventoryRow) (closure : Bool) : List String :=
  (repeated [] (goals.map InventoryGoal.goal)).map (fun goal => "duplicate goal: " ++ goal) ++
    ordinaryIssues path e (goals.filter fun g => g.smoke = false) ++
    propertyIssues path source e rows ++
    smokeIssues host path (goals.filter fun g => g.smoke = true) e.smoke ++
    if closure = true then [] else ["dependency closure is conditional, trusted or omitted"]

/-- What is read of a report and its source. -/
structure Readings where
  source : Source
  goals : List InventoryGoal
  rows : List InventoryRow
  closure : Bool
  links : List Value

def requiredReports : Exn := malformed "complete parsed reports and evaluation are required"

/-- The checks of `evaluate_inventory`, which raise. -/
def readReport (host : Host) (target goals properties evaluation : Value) (sourcePath : String)
    (sourceText strategyText : Text) : Except Exn Readings := do
  let source ← checkSource host target sourcePath sourceText strategyText
  let _ ← expected source
  let goals ← readList goals requiredReports
  let properties ← readList properties requiredReports
  let evaluation ← readDict evaluation requiredReports
  let goals ← goals.mapM readGoal
  let rows ← properties.mapM readRow
  let dependencies ← readDependencies evaluation
  pure ⟨source, goals, rows, dependencies.1, dependencies.2⟩

/-- What is expected of the source of a report. -/
def Readings.expected (r : Readings) : Expected := expectedAll r.source.functions

/-- The result of the evaluation, which is complete where there is no issue. -/
def Readings.inventory (host : Host) (path : String) (r : Readings) : Inventory :=
  let ordinary := r.goals.filter fun g => g.smoke = false
  let smoke := r.goals.filter fun g => g.smoke = true
  { source := r.source
    ordinaryCounts := counter (ordinary.map InventoryGoal.verdict)
    selectedPropertyCounts := counter (r.rows.map InventoryRow.status)
    propertyKindCounts := counter (r.rows.map InventoryRow.kind)
    sourceAssertions := r.expected.assertions
    sourceGuardSites := r.expected.guards
    directCallPreconditions := r.expected.calls
    expectedOrdinaryGoals := (r.expected.goals.map Prod.fst).insertionSort (· ≤ ·)
    issues := inventoryIssues host path r.source r.expected r.goals r.rows r.closure
    dependencyClosure := r.closure
    missingDependencyLinks := r.links
    smokeVerdictCounts := counter (smoke.map InventoryGoal.verdict)
    smokeGoals := smoke.map InventoryGoal.record }

/-- `evaluate_inventory(target, goals, properties, evaluation, …)` -/
def evaluateInventory (host : Host) (target goals properties evaluation : Value) (sourcePath : String)
    (sourceText strategyText : Text) : Except Exn Inventory := do
  let r ← readReport host target goals properties evaluation sourcePath sourceText strategyText
  pure (r.inventory host sourcePath)

/-! ## Exact reports -/

/-- The report is exactly the expected inventory, at the source, and proved. -/
structure Exact (host : Host) (path : String) (source : Source) (e : Expected) (goals : List InventoryGoal)
    (rows : List InventoryRow) : Prop where
  goalsOnce : (goals.map InventoryGoal.goal).Nodup
  ordinary : ((goals.filter fun g => g.smoke = false).map InventoryGoal.entry).Perm e.goals
  proved : ∀ g ∈ goals, g.smoke = false → g.Proved path
  claimed : ∃ entries, entries.Perm e.smoke ∧
    List.Forall₂ (fun g entry => SmokeEntry.Claimed host path g entry) (goals.filter fun g => g.smoke = true)
      entries
  smokeNames : ∀ g ∈ goals, g.smoke = true → g.goal = "typed_" ++ g.property
  rowsOnce : (rows.map InventoryRow.identity).Nodup
  kinds : (rows.map InventoryRow.key).Perm e.rows
  valid : ∀ r ∈ rows, r.ambiguous = false ∧ r.path = path ∧ r.status = "Valid"
  assertions : ∀ m ∈ e.assertions, Labelled rows ⟨m.function, m.line, "user assertion"⟩ m.name
  exits : ∀ f ∈ source.functions, NeverExits rows f
  clauses : ∀ r ∈ rows, r.clauseIssues = []
  ensures : ∀ p ∈ ensuresMarks e, Labelled rows ⟨p.1.function, p.1.line, "postcondition"⟩ p.1.name
  guards : ∀ g ∈ e.guards, (rowsAt rows g).Perm (guardPredicates source.functions g)

section Issues

variable {host : Host} {path : String} {source : Source} {e : Expected} {goals : List InventoryGoal}
  {rows : List InventoryRow}

theorem map_filter_not_eq_nil_iff {α β : Type*} {p : α → Prop} [DecidablePred p] {f : α → β} {as : List α} :
    (as.filter fun a => ¬p a).map f = [] ↔ ∀ a ∈ as, p a := by
  simp only [List.map_eq_nil_iff, List.filter_eq_nil_iff, decide_eq_true_eq, not_not]

theorem ite_nil_iff {α : Type*} {p : Prop} [Decidable p] {a : α} : (if p then [] else [a]) = [] ↔ p := by
  split_ifs with h
  · simp [h]
  · simp [h]

/-- No issue of the goals: they are the expected ones, and proved. -/
theorem ordinaryIssues_eq_nil_iff (he : (e.goals.map Prod.fst).Nodup)
    (hgoals : (goals.map InventoryGoal.goal).Nodup) :
    ordinaryIssues path e goals = [] ↔
      (∀ g ∈ goals, g.Proved path) ∧ (goals.map InventoryGoal.entry).Perm e.goals := by
  have hnodup : ((goals.map InventoryGoal.entry).map Prod.fst).Nodup := by
    rw [List.map_map]
    exact hgoals
  rw [ordinaryIssues, List.append_eq_nil_iff, map_filter_not_eq_nil_iff, ite_nil_iff,
    sameEntries_iff_perm hnodup he]

/-- No issue of the smoke goals: their names fit, and nothing is unclaimed. -/
theorem smokeIssues_eq_nil_iff {left : List SmokeEntry} :
    smokeIssues host path goals left = [] ↔ (∀ g ∈ goals, g.goal = "typed_" ++ g.property) ∧
      unclaimed (fun g entry => decide (SmokeEntry.Claimed host path g entry)) goals left = ([], []) := by
  induction goals generalizing left with
  | nil => simp [smokeIssues, unclaimed]
  | cons g gs ih =>
    rw [smokeIssues, unclaimed, List.append_eq_nil_iff, ite_nil_iff, List.forall_mem_cons]
    cases left.find? fun entry => decide (SmokeEntry.Claimed host path g entry) with
    | none => simp
    | some entry => simp only [ih, and_assoc]

/-- No issue of the rows themselves. -/
theorem rowIssues_eq_nil_iff {seen : List RowIdentity} : rowIssues path seen rows = [] ↔
    (∀ r ∈ rows, r.ambiguous = false ∧ r.path = path ∧ r.status = "Valid") ∧
      repeated seen (rows.map InventoryRow.identity) = [] := by
  induction rows generalizing seen with
  | nil => simp [rowIssues, repeated]
  | cons r rs ih =>
    rw [rowIssues, List.append_eq_nil_iff, List.append_eq_nil_iff, ite_nil_iff, ih, List.map_cons, repeated,
      List.forall_mem_cons]
    by_cases hseen : r.identity ∈ seen
    · simp [hseen]
    · cases hambiguous : r.ambiguous with
      | true => simp [hseen]
      | false => simp [hseen, and_assoc]

theorem propertyIssues_eq_nil_iff : propertyIssues path source e rows = [] ↔
    (rows.map InventoryRow.identity).Nodup ∧
      (∀ r ∈ rows, r.ambiguous = false ∧ r.path = path ∧ r.status = "Valid") ∧
      (rows.map InventoryRow.key).Perm e.rows ∧
      (∀ m ∈ e.assertions, Labelled rows ⟨m.function, m.line, "user assertion"⟩ m.name) ∧
      (∀ f ∈ source.functions, NeverExits rows f) ∧ (∀ r ∈ rows, r.clauseIssues = []) ∧
      (∀ p ∈ ensuresMarks e, Labelled rows ⟨p.1.function, p.1.line, "postcondition"⟩ p.1.name) ∧
      ∀ g ∈ e.guards, (rowsAt rows g).Perm (guardPredicates source.functions g) := by
  simp only [propertyIssues, List.append_eq_nil_iff, map_filter_not_eq_nil_iff, ite_nil_iff,
    rowIssues_eq_nil_iff, repeated_eq_nil_iff, sameCounts_iff_perm, List.flatMap_eq_nil_iff,
    List.not_mem_nil, not_false_eq_true, implies_true, and_true]
  tauto

/-- **No issue: the report is exact**, and the dependencies are closed. -/
theorem inventoryIssues_eq_nil_iff {closure : Bool} (he : (e.goals.map Prod.fst).Nodup)
    (hsmoke : ∀ g ∈ goals, ∀ b ∈ e.smoke, ∀ c ∈ e.smoke, b.Claimed host path g → c.Claimed host path g → b = c) :
    inventoryIssues host path source e goals rows closure = [] ↔
      Exact host path source e goals rows ∧ closure = true := by
  have hM : ∀ g ∈ goals.filter (fun g => g.smoke = true), ∀ b ∈ e.smoke, ∀ c ∈ e.smoke,
      decide (b.Claimed host path g) = true → decide (c.Claimed host path g) = true → b = c :=
    fun g hg b hb c hc hgb hgc =>
      hsmoke g (List.mem_of_mem_filter hg) b hb c hc (of_decide_eq_true hgb) (of_decide_eq_true hgc)
  rw [inventoryIssues, List.append_eq_nil_iff, List.append_eq_nil_iff, List.append_eq_nil_iff,
    List.append_eq_nil_iff, List.map_eq_nil_iff, repeated_eq_nil_iff, ite_nil_iff, smokeIssues_eq_nil_iff,
    unclaimed_eq_nil_iff hM, propertyIssues_eq_nil_iff]
  simp only [decide_eq_true_eq]
  constructor
  · rintro ⟨⟨⟨⟨⟨hgoals, -⟩, hordinary⟩, hrowsOnce, hvalid, hrows, hassertions, hexits, hclauses, hensures, hguards⟩,
      hnames, hsmoke⟩, hclosure⟩
    obtain ⟨hproved, hperm⟩ := (ordinaryIssues_eq_nil_iff he
      (hgoals.sublist (List.filter_sublist.map _))).mp hordinary
    refine ⟨?_, hclosure⟩
    exact
      { goalsOnce := hgoals
        ordinary := hperm
        proved := fun g hg hno => hproved g (List.mem_filter.mpr ⟨hg, decide_eq_true hno⟩)
        claimed := hsmoke
        smokeNames := fun g hg hyes => hnames g (List.mem_filter.mpr ⟨hg, decide_eq_true hyes⟩)
        rowsOnce := hrowsOnce
        kinds := hrows
        valid := hvalid
        assertions := hassertions
        exits := hexits
        clauses := hclauses
        ensures := hensures
        guards := hguards }
  · rintro ⟨h, hclosure⟩
    have hproved : ∀ g ∈ goals.filter (fun g => g.smoke = false), g.Proved path := fun g hg =>
      h.proved g (List.mem_of_mem_filter hg) (of_decide_eq_true (List.mem_filter.mp hg).2)
    have hordinary := (ordinaryIssues_eq_nil_iff he
      (h.goalsOnce.sublist (List.filter_sublist.map _))).mpr ⟨hproved, h.ordinary⟩
    exact ⟨⟨⟨⟨⟨h.goalsOnce, fun _ _ => List.not_mem_nil⟩, hordinary⟩, h.rowsOnce, h.valid, h.kinds, h.assertions,
      h.exits, h.clauses, h.ensures, h.guards⟩, fun g hg =>
        h.smokeNames g (List.mem_of_mem_filter hg) (of_decide_eq_true (List.mem_filter.mp hg).2), h.claimed⟩,
      hclosure⟩

end Issues

end Common24
end Fragma
