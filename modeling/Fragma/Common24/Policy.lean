import Fragma.Common24.Inventory
import Fragma.Python.Orders

/-!
# What a complete inventory stands for

A report is complete exactly where it is the expected inventory of the checked source, whatever order its
goals and rows are in.  `apply_policy` of `fragma/common24.py` puts the result in front of a generic
evaluation.

* `readReport_eq_ok_iff`: what is read of a report.
* `evaluateInventory_complete_iff`: **complete means exact**.
* `evaluateInventory_perm`: **the order of the report does not matter**.
* `applyPolicy`, `inventoryPolicy`: the function, and the steps that its callers make.
* `inventoryPolicy_passes_iff`: **only an exact report passes**.
-/

namespace Fragma
namespace Common24

open Python Keyed Provenance

/-! ## Complete reports -/

/-- A report that is exactly what is expected of its source, with its dependencies closed. -/
def Readings.Exact (host : Host) (path : String) (r : Readings) : Prop :=
  Common24.Exact host path r.source r.expected r.goals r.rows ∧ r.closure = true

section Complete

variable {host : Host} {target goals properties evaluation : Value} {sourcePath : String}
  {sourceText strategyText : Text}

/-- No smoke goal matches two entries of what is expected. -/
theorem smoke_unique {fs : List SourceFunction} (h : fs.map SourceFunction.function = functions)
    {g : InventoryGoal} {b c : SmokeEntry} (hb : b ∈ (expectedAll fs).smoke) (hc : c ∈ (expectedAll fs).smoke)
    (hgb : b.Claimed host sourcePath g) (hgc : c.Claimed host sourcePath g) : b = c := by
  obtain ⟨f, hf, hb⟩ := List.mem_flatMap.mp hb
  obtain ⟨f', hf', hc⟩ := List.mem_flatMap.mp hc
  have hnodup : (fs.map SourceFunction.function).Nodup := by
    rw [h]
    decide +kernel
  have hname : f.function = f'.function := by
    rw [← function_of_mem_smoke hb, ← function_of_mem_smoke hc, ← hgb.2.1, ← hgc.2.1]
  obtain rfl : f = f' := List.inj_on_of_nodup_map hnodup hf hf' hname
  have hmem : f.function ∈ functions := h ▸ List.mem_map_of_mem hf
  exact smoke_unique_of_function hmem hb hc (hgb.2.2.1.symm.trans hgc.2.2.1) hgb.2.2.2 hgc.2.2.2

theorem readDict_eq_ok_iff {v : Value} {e : Exn} {entries : Dict} :
    readDict v e = .ok entries ↔ v = .dict entries := by
  cases v with
  | dict entries' => simp [readDict]
  | _ => simp [readDict]

theorem readList_eq_ok_iff {v : Value} {e : Exn} {values : List Value} :
    readList v e = .ok values ↔ v = .list values := by
  cases v with
  | list values' => simp [readList]
  | _ => simp [readList]

/-- What is read of a report: its source is checked, its lists and its dependencies are read. -/
structure ReadsAs (host : Host) (target goals properties evaluation : Value) (sourcePath : String)
    (sourceText strategyText : Text) (r : Readings) : Prop where
  checked : checkSource host target sourcePath sourceText strategyText = .ok r.source
  goals : ∃ values, goals = .list values ∧ values.mapM readGoal = .ok r.goals
  rows : ∃ values, properties = .list values ∧ values.mapM readRow = .ok r.rows
  dependencies : ∃ entries, evaluation = .dict entries ∧ readDependencies entries = .ok (r.closure, r.links)

theorem readReport_eq_ok_iff {r : Readings} :
    readReport host target goals properties evaluation sourcePath sourceText strategyText = .ok r ↔
      ReadsAs host target goals properties evaluation sourcePath sourceText strategyText r := by
  constructor
  · intro h
    obtain ⟨source, hsource, h⟩ := bind_eq_ok_iff.mp h
    obtain ⟨e, -, h⟩ := bind_eq_ok_iff.mp h
    obtain ⟨goalValues, hgoalValues, h⟩ := bind_eq_ok_iff.mp h
    obtain ⟨rowValues, hrowValues, h⟩ := bind_eq_ok_iff.mp h
    obtain ⟨entries, hentries, h⟩ := bind_eq_ok_iff.mp h
    obtain ⟨goals, hgoals, h⟩ := bind_eq_ok_iff.mp h
    obtain ⟨rows, hrows, h⟩ := bind_eq_ok_iff.mp h
    obtain ⟨dependencies, hdependencies, h⟩ := bind_eq_ok_iff.mp h
    rw [← Except.ok.inj h]
    exact ⟨hsource, ⟨goalValues, readList_eq_ok_iff.mp hgoalValues, hgoals⟩,
      ⟨rowValues, readList_eq_ok_iff.mp hrowValues, hrows⟩, ⟨entries, readDict_eq_ok_iff.mp hentries, hdependencies⟩⟩
  · intro h
    obtain ⟨goalValues, rfl, hgoals⟩ := h.goals
    obtain ⟨rowValues, rfl, hrows⟩ := h.rows
    obtain ⟨entries, rfl, hdependencies⟩ := h.dependencies
    exact bind_eq_ok_iff.mpr ⟨_, h.checked, bind_eq_ok_iff.mpr ⟨_, expected_eq_ok (checkSource_functions h.checked).1,
      bind_eq_ok_iff.mpr ⟨_, rfl, bind_eq_ok_iff.mpr ⟨_, rfl, bind_eq_ok_iff.mpr ⟨_, rfl, bind_eq_ok_iff.mpr
        ⟨_, hgoals, bind_eq_ok_iff.mpr ⟨_, hrows, bind_eq_ok_iff.mpr ⟨_, hdependencies, rfl⟩⟩⟩⟩⟩⟩⟩⟩

/-- The source of a report that was read has the six functions. -/
theorem readReport_functions {r : Readings}
    (h : readReport host target goals properties evaluation sourcePath sourceText strategyText = .ok r) :
    r.source.functions.map SourceFunction.function = functions :=
  (checkSource_functions (readReport_eq_ok_iff.mp h).checked).1

/-- An inventory is complete exactly where the report is exact. -/
theorem Readings.complete_iff {path : String} {r : Readings}
    (h : r.source.functions.map SourceFunction.function = functions) :
    (r.inventory host path).complete = true ↔ r.Exact host path := by
  rw [Inventory.complete, Readings.inventory, List.isEmpty_iff]
  exact inventoryIssues_eq_nil_iff (nodup_keys_expectedAll h)
    fun g _ b hb c hc => smoke_unique h hb hc

/-- **An evaluation is complete exactly where the report is**: it has the expected goals and rows of the
checked source, each once, all of them proved, and its dependencies are closed. -/
theorem evaluateInventory_complete_iff :
    (∃ inventory, evaluateInventory host target goals properties evaluation sourcePath sourceText strategyText =
      .ok inventory ∧ inventory.complete = true) ↔
      ∃ r, readReport host target goals properties evaluation sourcePath sourceText strategyText = .ok r ∧
        r.Exact host sourcePath := by
  constructor
  · rintro ⟨inventory, h, hcomplete⟩
    obtain ⟨r, hr, h⟩ := bind_eq_ok_iff.mp h
    rw [← Except.ok.inj h] at hcomplete
    exact ⟨r, hr, (Readings.complete_iff (readReport_functions hr)).mp hcomplete⟩
  · rintro ⟨r, hr, hexact⟩
    exact ⟨_, bind_eq_ok_iff.mpr ⟨r, hr, rfl⟩, (Readings.complete_iff (readReport_functions hr)).mpr hexact⟩

end Complete

/-! ## Other orders -/

section Orders

variable {host : Host} {path : String} {source : Source} {e : Expected} {goals goals' : List InventoryGoal}
  {rows rows' : List InventoryRow}

theorem soleRow_eq_some_iff {key : RowKey} {r : InventoryRow} :
    soleRow rows key = some r ↔ (rows.filter fun r => r.key = key) = [r] := by
  unfold soleRow
  split
  · next r' h => rw [h, Option.some.injEq, List.singleton_inj]
  · next h => exact ⟨fun hr => absurd hr (by simp), fun hr => (h r hr).elim⟩

/-- The one row at a place does not depend on the order. -/
theorem soleRow_perm (h : rows.Perm rows') (key : RowKey) : soleRow rows key = soleRow rows' key := by
  refine Option.ext fun r => ?_
  rw [soleRow_eq_some_iff, soleRow_eq_some_iff]
  constructor
  · intro hr
    exact List.perm_singleton.mp (hr ▸ (h.filter _).symm)
  · intro hr
    exact List.perm_singleton.mp (hr ▸ h.filter _)

/-- An exact report is exact in every order. -/
theorem Exact.perm (hgoals : goals.Perm goals') (hrows : rows.Perm rows')
    (h : Exact host path source e goals rows) : Exact host path source e goals' rows' where
  goalsOnce := (hgoals.map _).nodup_iff.mp h.goalsOnce
  ordinary := ((hgoals.filter _).map _).symm.trans h.ordinary
  proved g hg := h.proved g (hgoals.mem_iff.mpr hg)
  claimed := exists_assignment_of_perm (hgoals.filter _) h.claimed
  smokeNames g hg := h.smokeNames g (hgoals.mem_iff.mpr hg)
  rowsOnce := (hrows.map _).nodup_iff.mp h.rowsOnce
  kinds := (hrows.map _).symm.trans h.kinds
  valid r hr := h.valid r (hrows.mem_iff.mpr hr)
  assertions m hm := by
    have hlabel := h.assertions m hm
    rw [Labelled, soleRow_perm hrows] at hlabel
    exact hlabel
  exits f hf := by
    have hexit := h.exits f hf
    rw [NeverExits, soleRow_perm hrows] at hexit
    exact hexit
  clauses r hr := h.clauses r (hrows.mem_iff.mpr hr)
  ensures p hp := by
    have hlabel := h.ensures p hp
    rw [Labelled, soleRow_perm hrows] at hlabel
    exact hlabel
  guards g hg := ((hrows.filter _).map _).symm.trans (h.guards g hg)

variable {target evaluation : Value} {goalValues goalValues' rowValues rowValues' : List Value}
  {sourceText strategyText : Text}

/-- The report is read in every order. -/
theorem readReport_perm {r : Readings} (hgoals : goalValues.Perm goalValues') (hrows : rowValues.Perm rowValues')
    (h : readReport host target (.list goalValues) (.list rowValues) evaluation path sourceText strategyText =
      .ok r) :
    ∃ r', readReport host target (.list goalValues') (.list rowValues') evaluation path sourceText strategyText =
      .ok r' ∧ r.source = r'.source ∧ r.goals.Perm r'.goals ∧ r.rows.Perm r'.rows ∧ r.closure = r'.closure := by
  obtain ⟨hchecked, ⟨_, hgoalValues, hgoal⟩, ⟨_, hrowValues, hrow⟩, hdependencies⟩ := readReport_eq_ok_iff.mp h
  obtain rfl := Value.list.inj hgoalValues
  obtain rfl := Value.list.inj hrowValues
  obtain ⟨goals', hgoal', hgoalPerm⟩ := exists_mapM_of_perm hgoals hgoal
  obtain ⟨rows', hrow', hrowPerm⟩ := exists_mapM_of_perm hrows hrow
  refine ⟨{ r with goals := goals', rows := rows' }, readReport_eq_ok_iff.mpr ?_, rfl, hgoalPerm, hrowPerm, rfl⟩
  exact ⟨hchecked, ⟨_, rfl, hgoal'⟩, ⟨_, rfl, hrow'⟩, hdependencies⟩

/-- What a report is evaluated to, it is in another order. -/
theorem evaluateInventory_of_perm (hgoals : goalValues.Perm goalValues') (hrows : rowValues.Perm rowValues')
    {complete : Bool} (h : (evaluateInventory host target (.list goalValues) (.list rowValues) evaluation path
      sourceText strategyText).toOption.map Inventory.complete = some complete) :
    (evaluateInventory host target (.list goalValues') (.list rowValues') evaluation path sourceText
      strategyText).toOption.map Inventory.complete = some complete := by
  obtain ⟨inventory, hinventory, hcomplete⟩ := Option.map_eq_some_iff.mp h
  obtain ⟨r, hr, h⟩ := bind_eq_ok_iff.mp (toOption_eq_iff.mp hinventory)
  obtain ⟨r', hr', hsource, hg, hw, hclosure⟩ := readReport_perm hgoals hrows hr
  refine Option.map_eq_some_iff.mpr ⟨_, toOption_eq_iff.mpr (bind_eq_ok_iff.mpr ⟨r', hr', rfl⟩), ?_⟩
  rw [← hcomplete, ← Except.ok.inj h, Bool.eq_iff_iff, Readings.complete_iff (readReport_functions hr'),
    Readings.complete_iff (readReport_functions hr), Readings.Exact, Readings.Exact, Readings.expected,
    Readings.expected, hsource, hclosure]
  exact and_congr_left fun _ => ⟨Exact.perm hg.symm hw.symm, Exact.perm hg hw⟩

end Orders

/-! ## The policy -/

/-- `INVENTORY` -/
def inventoryName : String := "frama-c33-typed-common24-v1"

/-- `check_source`, as a dictionary. -/
def Source.toValue (source : Source) : Value :=
  .dict [("schema_version", .int 1), ("status", .str "checked"), ("inventory", .str inventoryName),
    ("source_path", .str source.sourcePath),
    ("functions", .list (source.functions.map fun f => .dict [("function", .str f.function), ("line", .int f.line),
      ("annotated_block_sha256", .str f.annotatedBlockSha256), ("c_token_sha256", .str f.cTokenSha256),
      ("declaration_prefix", .list (f.declarationPrefix.map fun token => .str (String.ofList token)))])),
    ("strategy_sha256", .str source.strategySha256),
    ("prelude_token_sha256", .str source.preludeTokenSha256)]

/-- `dict(Counter(values))` -/
def countsValue (counts : List (String × ℕ)) : Value := .dict (counts.map fun p => (p.1, .int p.2))

/-- What `evaluate_inventory` returns, as a dictionary. -/
def Inventory.entries (inventory : Inventory) : Dict :=
  [("schema_version", .int 1), ("inventory", .str inventoryName),
    ("status", .str (if inventory.complete then "complete" else "incomplete")),
    ("ordinary_complete", .bool inventory.complete), ("source", inventory.source.toValue),
    ("ordinary_counts", countsValue inventory.ordinaryCounts),
    ("selected_property_counts", countsValue inventory.selectedPropertyCounts),
    ("property_kind_counts", countsValue inventory.propertyKindCounts),
    ("source_assertions", .list (inventory.sourceAssertions.map fun m =>
      .dict [("function", .str m.function), ("line", .int m.line), ("name", .str m.name)])),
    ("source_guard_sites", .list (inventory.sourceGuardSites.map fun g =>
      .dict [("function", .str g.function), ("line", .int g.line), ("required_kinds", countsValue g.requiredKinds)])),
    ("direct_call_preconditions", .list (inventory.directCallPreconditions.map fun m =>
      .dict [("function", .str m.function), ("callee", .str m.name), ("line", .int m.line)])),
    ("required_functional_properties", .list (requiredProperties.map .str)),
    ("expected_ordinary_goals", .list (inventory.expectedOrdinaryGoals.map .str)),
    ("issues", .list (inventory.issues.map .str)),
    ("dependency_closure_unconditional", .bool inventory.dependencyClosure),
    ("missing_dependency_links", .list inventory.missingDependencyLinks),
    ("smoke", .dict [("count", .int inventory.smokeGoals.length),
      ("verdict_counts", countsValue inventory.smokeVerdictCounts), ("goals", .list inventory.smokeGoals),
      ("consistency_proved", .bool false)]),
    ("consistency_proved", .bool false), ("certified", .bool false),
    ("boundary", .str ("Inventory progress only; raw/frontend/model gates and fresh warning/smoke/report policy " ++
      "remain mandatory."))]

/-- The test of an inventory in `apply_policy`. -/
def envelopeComplete (inventory : Value) : Bool :=
  match inventory with
  | .dict entries =>
    decide (Value.get entries "schema_version" = .int 1) &&
      Value.eq (Value.get entries "inventory") (.str inventoryName) &&
      Value.eq (Value.get entries "status") (.str "complete") &&
      decide (Value.get entries "ordinary_complete" = .bool true) &&
      Value.eq (Value.get entries "issues") (.list [])
  | _ => false

/-- The issues of an inventory, or one issue that says that there are none. -/
def inventoryDetails (inventory : Value) : List Value :=
  let missing := [Value.str "Missing, malformed or incomplete common24 inventory envelope"]
  match inventory with
  | .dict entries =>
    match Value.get entries "issues" with
    | .list (issue :: issues) => issue :: issues
    | _ => missing
  | _ => missing

/-- The issue of an evaluation whose inventory is not complete. -/
def incompleteIssue (inventory : Value) : Value :=
  .dict [("kind", .str "incomplete"), ("message", .str "Common24 source/goal/property inventory is incomplete"),
    ("inventory", .str inventoryName), ("inventory_issues", .list (inventoryDetails inventory))]

/-- The evaluation without its acceptance, and with an issue. -/
def withdraw (evaluation : Dict) (issues : List Value) (issue : Value) : Dict :=
  let evaluation := Value.set evaluation "accepted" (.bool false)
  let evaluation := Value.set evaluation "verified" (.bool false)
  let evaluation := Value.set evaluation "local_policy_passed" (.bool false)
  let evaluation := Value.set evaluation "status" (.str "incomplete")
  Value.set evaluation "issues" (.list (issues ++ [issue]))

/-- `apply_policy(evaluation, inventory)` -/
def applyPolicy (evaluation inventory : Value) : Except Exn Dict := do
  let result ← readDict evaluation (malformed "generic evaluation must be an object")
  if envelopeComplete inventory = true then pure result
  else do
    let issues ← readList (Value.get result "issues") (malformed "generic evaluation issues must be an array")
    pure (withdraw result issues (incompleteIssue inventory))

section Policy

variable {host : Host} {target goals properties : Value} {path : String} {sourceText strategyText : Text}
  {evaluation : Dict} {issues : List Value} {issue : Value}

theorem get_set_self (d : Dict) (k : String) (v default : Value) :
    Value.get (Value.set d k v) k default = v := by
  unfold Value.get Value.set Value.has
  cases h : d.lookup k with
  | none =>
    rw [Option.isSome_none, if_neg Bool.false_ne_true, List.lookup_append, h, Value.lookup_cons_ite, if_pos rfl]
    rfl
  | some w =>
    rw [Option.isSome_some, if_pos rfl]
    induction d with
    | nil => exact absurd h (by simp)
    | cons p ps ih =>
      obtain ⟨l, u⟩ := p
      rw [List.map_cons]
      by_cases hl : l = k
      · rw [if_pos hl, Value.lookup_cons_ite, if_pos rfl]
        rfl
      · rw [Value.lookup_cons_ite, if_neg (Ne.symm hl)] at h
        rw [if_neg hl, Value.lookup_cons_ite, if_neg (Ne.symm hl)]
        exact ih h

/-- The fields that say that an evaluation passed. -/
def passingFields : List String := ["accepted", "verified", "local_policy_passed"]

/-- An evaluation passes in some way. -/
def Passes (evaluation : Dict) : Prop := ∃ field ∈ passingFields, (Value.get evaluation field).truthy = true

/-- Nothing passes that was withdrawn. -/
theorem not_passes_withdraw : ¬Passes (withdraw evaluation issues issue) := by
  rintro ⟨field, hfield, htruthy⟩
  simp only [passingFields, List.mem_cons, List.not_mem_nil, or_false] at hfield
  rcases hfield with rfl | rfl | rfl
  · rw [withdraw, Value.get_set_of_ne _ _ _ (by decide), Value.get_set_of_ne _ _ _ (by decide),
      Value.get_set_of_ne _ _ _ (by decide), Value.get_set_of_ne _ _ _ (by decide), get_set_self] at htruthy
    exact absurd htruthy (by decide)
  · rw [withdraw, Value.get_set_of_ne _ _ _ (by decide), Value.get_set_of_ne _ _ _ (by decide),
      Value.get_set_of_ne _ _ _ (by decide), get_set_self] at htruthy
    exact absurd htruthy (by decide)
  · rw [withdraw, Value.get_set_of_ne _ _ _ (by decide), Value.get_set_of_ne _ _ _ (by decide),
      get_set_self] at htruthy
    exact absurd htruthy (by decide)

/-- Every other field stays as it is. -/
theorem get_withdraw_of_ne {field : String} (hfield : field ∉ passingFields) (hstatus : field ≠ "status")
    (hissues : field ≠ "issues") (default : Value) :
    Value.get (withdraw evaluation issues issue) field default = Value.get evaluation field default := by
  simp only [passingFields, List.mem_cons, List.not_mem_nil, or_false, not_or] at hfield
  rw [withdraw, Value.get_set_of_ne _ _ _ hissues, Value.get_set_of_ne _ _ _ hstatus,
    Value.get_set_of_ne _ _ _ hfield.2.2, Value.get_set_of_ne _ _ _ hfield.2.1, Value.get_set_of_ne _ _ _ hfield.1]

/-- The envelope of an inventory says whether it is complete. -/
theorem envelopeComplete_entries (inventory : Inventory) :
    envelopeComplete (.dict inventory.entries) = inventory.complete := by
  have hissues : Value.get inventory.entries "issues" = .list (inventory.issues.map .str) := rfl
  have hstatus : Value.get inventory.entries "status" =
    .str (if inventory.complete then "complete" else "incomplete") := rfl
  have hordinary : Value.get inventory.entries "ordinary_complete" = .bool inventory.complete := rfl
  have hschema : Value.get inventory.entries "schema_version" = .int 1 := rfl
  have hname : Value.get inventory.entries "inventory" = .str inventoryName := rfl
  rw [envelopeComplete, hissues, hstatus, hordinary, hschema, hname]
  cases hcomplete : inventory.complete with
  | false => simp
  | true =>
    rw [Inventory.complete, List.isEmpty_iff] at hcomplete
    rw [hcomplete, List.map_nil]
    decide

/-- The steps of `execute_target` and of `common24_observation` around an inventory: it is evaluated, and the policy
puts it in front of the evaluation. -/
def inventoryPolicy (host : Host) (target goals properties evaluation : Value) (sourcePath : String)
    (sourceText strategyText : Text) : Except Exn Dict := do
  let inventory ← evaluateInventory host target goals properties evaluation sourcePath sourceText strategyText
  applyPolicy evaluation (.dict inventory.entries)

/-- A report that is read has an evaluation with issues. -/
theorem readReport_evaluation {evaluation : Value} {r : Readings}
    (h : readReport host target goals properties evaluation path sourceText strategyText = .ok r) :
    ∃ entries issues, evaluation = .dict entries ∧ Value.get entries "issues" = .list issues := by
  obtain ⟨entries, rfl, hdependencies⟩ := (readReport_eq_ok_iff.mp h).dependencies
  obtain ⟨_, -, hdependencies⟩ := bind_eq_ok_iff.mp hdependencies
  obtain ⟨issues, hissues, -⟩ := bind_eq_ok_iff.mp hdependencies
  exact ⟨entries, issues, rfl, readList_eq_ok_iff.mp hissues⟩

/-- What the steps return: the evaluation as it is where the report is exact, and withdrawn elsewhere. -/
theorem inventoryPolicy_eq_ok_iff {evaluation : Value} {result : Dict} :
    inventoryPolicy host target goals properties evaluation path sourceText strategyText = .ok result ↔
      ∃ r entries issues, readReport host target goals properties evaluation path sourceText strategyText = .ok r ∧
        evaluation = .dict entries ∧ Value.get entries "issues" = .list issues ∧
        (r.Exact host path ∧ result = entries ∨ ¬r.Exact host path ∧
          result = withdraw entries issues (incompleteIssue (.dict (r.inventory host path).entries))) := by
  constructor
  · intro h
    obtain ⟨inventory, hinventory, h⟩ := bind_eq_ok_iff.mp h
    obtain ⟨r, hr, hlast⟩ := bind_eq_ok_iff.mp hinventory
    obtain rfl := Except.ok.inj hlast
    obtain ⟨entries, issues, rfl, hissues⟩ := readReport_evaluation hr
    refine ⟨r, entries, issues, hr, rfl, hissues, ?_⟩
    rw [← Readings.complete_iff (readReport_functions hr), ← envelopeComplete_entries]
    rw [applyPolicy] at h
    obtain ⟨_, hentries, h⟩ := bind_eq_ok_iff.mp h
    obtain rfl := Except.ok.inj hentries
    split_ifs at h with hcomplete
    · exact .inl ⟨hcomplete, (Except.ok.inj h).symm⟩
    · rw [hissues] at h
      exact .inr ⟨hcomplete, (Except.ok.inj h).symm⟩
  · rintro ⟨r, entries, issues, hr, rfl, hissues, h⟩
    refine bind_eq_ok_iff.mpr ⟨_, bind_eq_ok_iff.mpr ⟨r, hr, rfl⟩, ?_⟩
    rw [← Readings.complete_iff (readReport_functions hr), ← envelopeComplete_entries] at h
    refine bind_eq_ok_iff.mpr ⟨entries, rfl, ?_⟩
    rcases h with ⟨hcomplete, rfl⟩ | ⟨hcomplete, rfl⟩
    · rw [if_pos hcomplete]
      rfl
    · rw [if_neg hcomplete, hissues]
      rfl

/-- **Only an exact report passes**: after the policy an evaluation passes where it passed before and its report
is exactly the expected inventory, and nowhere else. -/
theorem inventoryPolicy_passes_iff {evaluation : Value} :
    (∃ result, inventoryPolicy host target goals properties evaluation path sourceText strategyText = .ok result ∧
        Passes result) ↔
      ∃ r entries, readReport host target goals properties evaluation path sourceText strategyText = .ok r ∧
        evaluation = .dict entries ∧ r.Exact host path ∧ Passes entries := by
  constructor
  · rintro ⟨result, h, hpasses⟩
    obtain ⟨r, entries, issues, hr, hentries, -, ⟨hexact, rfl⟩ | ⟨-, rfl⟩⟩ := inventoryPolicy_eq_ok_iff.mp h
    · exact ⟨r, result, hr, hentries, hexact, hpasses⟩
    · exact (not_passes_withdraw hpasses).elim
  · rintro ⟨r, entries, hr, rfl, hexact, hpasses⟩
    obtain ⟨_, issues, hentries, hissues⟩ := readReport_evaluation hr
    obtain rfl := Value.dict.inj hentries
    exact ⟨entries, inventoryPolicy_eq_ok_iff.mpr ⟨r, entries, issues, hr, rfl, hissues, .inl ⟨hexact, rfl⟩⟩,
      hpasses⟩

end Policy

end Common24
end Fragma
