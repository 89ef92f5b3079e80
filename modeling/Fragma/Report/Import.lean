import Fragma.Posix.PurePath
import Fragma.Python.Tsv
import Fragma.Report.Rows

/-!
# The import of a property export

`fragma/report.py`, `parse_properties`.  The export of the consolidated properties is a table with
tabs.  It drops the source columns by which distinct call sites differ, so that several of its rows
can have the same identity.  Without a scope that is an error.  With the selected functions given,
rows of a selected function that say the same are one property with several row numbers, and rows
that contradict each other are kept and marked; rows of other functions are never merged.

* `DataRow`, `readDataRow`: the check of one row of the table.
* `PropertyRow`, `importRow`: what a row adds to the result.
* `parseProperties`: the function.
* `Lossless`, `importRow_lossless`: the invariant of the loop, and its step.
* `parseProperties_lossless`: **the import loses and invents nothing.**
-/

namespace Fragma
namespace Report

open Python Posix

/-! ## Rows of the table -/

/-- `CSV_HEADER`. -/
def csvHeader : List String :=
  ["directory", "file", "line", "function", "property kind", "status", "property"]

/-- What identifies a property in the export. -/
structure Identity where
  path : String
  line : ℤ
  function : String
  kind : String
  property : String
  deriving DecidableEq, Repr

/-- A row of the table that passed its checks, with its number. -/
structure DataRow where
  number : ℕ
  directory : String
  file : String
  status : String
  outcome : RowOutcome
  identity : Identity
  line_pos : 1 ≤ identity.line
  status_eq : csvOutcome status = some outcome

section Read

variable (host : Host) (digit : Char → Option ℕ)

/-- `str(full_path.resolve())`, below the directory from which relative paths go. -/
def fullPath (base directory file : String) : Except Exn String :=
  let path := (PurePath.parse directory).join (PurePath.parse file)
  host.resolve (if path.IsAbsolute then path else (PurePath.parse base).join path).render

/-- The checks on a row of the table. -/
def readDataRow (base : String) (number : ℕ) (values : List String) : Except Exn DataRow :=
  match values with
  | [directory, file, line, function, kind, status, property] => do
    raiseIf (function = "" ∨ property = "" ∨ kind = "" ∨ file = "")
      (reportError ("Property TSV row " ++ toString number ++ " lacks identity"))
    let line ← orRaise (intOf digit line)
      (reportError ("Invalid property TSV line at row " ++ toString number))
    let unknown := reportError ("Unknown property status/source line at row " ++ toString number ++
      ": " ++ status)
    if hline : 1 ≤ line then
      match hstatus : csvOutcome status with
      | none => .error unknown
      | some outcome => do
        let path ← fullPath host base directory file
        .ok ⟨number, directory, file, status, outcome, ⟨path, line, function, kind, property⟩, hline,
          hstatus⟩
    else .error unknown
  | _ => .error (reportError ("Malformed property TSV row " ++ toString number ++
      ": expected 7 columns"))

end Read

/-! ## Properties -/

/-- A property of the result: the first row of the table that it stands for, and the numbers of the
later ones, as `exported_occurrences` has them. -/
structure PropertyRow where
  data : DataRow
  names : List String
  /-- `exported_identity_ambiguous` -/
  ambiguous : Bool
  /-- what follows the first number in `exported_occurrences`, which is there when this is not empty;
  `exported_duplicate_count` is their number -/
  later : List ℕ

namespace PropertyRow

/-- What identifies the property. -/
def identity (row : PropertyRow) : Identity := row.data.identity

/-- `row["report_row"]`. -/
def reportRow (row : PropertyRow) : ℕ := row.data.number

/-- The numbers of the rows that the property stands for. -/
def numbers (row : PropertyRow) : List ℕ := row.reportRow :: row.later

/-- `row["exported_occurrences"]`. -/
def exportedOccurrences (row : PropertyRow) : Option (List ℕ) :=
  if row.later = [] then none else some row.numbers

/-- One more row of the table. -/
def occur (row : PropertyRow) (number : ℕ) : PropertyRow :=
  { row with later := row.later ++ [number] }

/-- `row["exported_identity_ambiguous"] = True`. -/
def markAmbiguous (row : PropertyRow) : PropertyRow := { row with ambiguous := true }

@[simp] theorem identity_occur (row : PropertyRow) (n : ℕ) :
    (row.occur n).identity = row.identity := rfl

@[simp] theorem data_occur (row : PropertyRow) (n : ℕ) : (row.occur n).data = row.data := rfl

@[simp] theorem ambiguous_occur (row : PropertyRow) (n : ℕ) :
    (row.occur n).ambiguous = row.ambiguous := rfl

@[simp] theorem numbers_occur (row : PropertyRow) (n : ℕ) :
    (row.occur n).numbers = row.numbers ++ [n] := rfl

@[simp] theorem identity_markAmbiguous (row : PropertyRow) :
    row.markAmbiguous.identity = row.identity := rfl

@[simp] theorem data_markAmbiguous (row : PropertyRow) : row.markAmbiguous.data = row.data := rfl

@[simp] theorem numbers_markAmbiguous (row : PropertyRow) :
    row.markAmbiguous.numbers = row.numbers := rfl

@[simp] theorem later_markAmbiguous (row : PropertyRow) : row.markAmbiguous.later = row.later := rfl

end PropertyRow

/-- The assertion names by file, line and, where that is given, function. -/
abbrev LocationNames := List ((String × ℤ × Option String) × String)

/-- The suffix that the name of a labelled property has. -/
def labelSuffix (kind : String) : Option String :=
  [("postcondition", "ensures"), ("user assertion", "assert"), ("user check", "check"),
    ("loop invariant", "loop_invariant")].lookup kind

section Import

variable (isAlnum : Char → Bool) (locations : LocationNames)

/-- `names.get((full_path, line, function), names.get((full_path, line)))`. -/
def mappedName (i : Identity) : Option String :=
  (locations.lookup (i.path, i.line, some i.function)).or (locations.lookup (i.path, i.line, none))

/-- `row["names"]`. -/
def rowNames (i : Identity) : List String :=
  let mapped :=
    match mappedName locations i with
    | some name =>
      if name ≠ "" ∧ i.kind ∈ ["user assertion", "user check"] then
        let suffix := if i.kind = "user assertion" then "assert" else "check"
        [name, i.function ++ "_" ++ suffix ++ "_" ++ name]
      else []
    | none => []
  let labelled :=
    match labelOf isAlnum i.property with
    | some label =>
      match labelSuffix i.kind with
      | some suffix => [label, i.function ++ "_" ++ suffix ++ "_" ++ label]
      | none => [label]
    | none => []
  mapped ++ labelled

/-- The property of a row that stands for itself. -/
def newRow (d : DataRow) (ambiguous : Bool) : PropertyRow :=
  ⟨d, rowNames isAlnum locations d.identity, ambiguous, []⟩

/-- The number of a row goes to the first property with its identity. -/
def addOccurrence (d : DataRow) : List PropertyRow → List PropertyRow
  | [] => []
  | row :: rows =>
    if row.identity = d.identity then row.occur d.number :: rows else row :: addOccurrence d rows

/-- Every property with this identity is marked. -/
def markAll (i : Identity) (rows : List PropertyRow) : List PropertyRow :=
  rows.map fun row => if row.identity = i then row.markAmbiguous else row

/-- The turn of `parse_properties` for a row that passed its checks.  `seen[identity]` has the rows of
the result with that identity. -/
def importRow (selected : Option (List String)) (result : List PropertyRow) (d : DataRow) :
    Except Exn (List PropertyRow) :=
  let previous := result.filter fun row => row.identity = d.identity
  let duplicate := reportError "Duplicate property TSV row"
  if previous = [] then .ok (result ++ [newRow isAlnum locations d false])
  else
    let marked := markAll d.identity result ++ [newRow isAlnum locations d true]
    match selected with
    | none => .error duplicate
    | some scope =>
      if d.identity.function ∈ scope then
        if ∀ row ∈ previous, row.data.status = d.status then .ok (addOccurrence d result)
        else .ok marked
      else if ∃ row ∈ previous, row.data.status ≠ d.status then .error duplicate
      else .ok marked

/-- The loop of `parse_properties`. -/
def importRows (host : Host) (digit : Char → Option ℕ) (base : String)
    (selected : Option (List String)) (result : List PropertyRow) :
    List (List String × ℕ) → Except Exn (List PropertyRow)
  | [] => .ok result
  | (values, number) :: rows => do
    let d ← readDataRow host digit base number values
    let result ← importRow isAlnum locations selected result d
    importRows host digit base selected result rows

end Import

/-- The scope is nonempty, and so is every name in it. -/
def checkScope (selected : Option (List String)) : Except Exn Unit :=
  match selected with
  | none => .ok ()
  | some scope => raiseIf (scope = [] ∨ "" ∈ scope)
      (reportError "Selected property scope must contain nonempty function names")

/-- `parse_properties(path, …)`, of a text that was read.  The names of the assertions are collected
when the header of the table has passed. -/
def parseProperties (host : Host) (digit : Char → Option ℕ) (names : Except Exn LocationNames)
    (base : String) (selected : Option (List String)) (text : String) :
    Except Exn (List PropertyRow) := do
  checkScope selected
  raiseIf (isBlank text = true) (reportError "Empty report")
  let rows ← (tsvRows text).mapError fun e => reportError ("Malformed property TSV: " ++ e.message)
  match rows with
  | [] => .error (reportError "Unexpected Frama-C property TSV header")
  | header :: rows => do
    raiseIf (header ≠ csvHeader) (reportError "Unexpected Frama-C property TSV header")
    raiseIf (rows = []) (reportError "Property report contains only a header, no properties")
    let locations ← names
    let base ← host.resolve base
    importRows host.isAlnum locations host digit base selected [] (rows.zipIdx 2)

/-! ## What a row does -/

section Step

variable {isAlnum : Char → Bool} {locations : LocationNames}

theorem addOccurrence_eq {d : DataRow} {rows : List PropertyRow}
    (h : ∃ row ∈ rows, row.identity = d.identity) :
    ∃ front row back, rows = front ++ row :: back ∧ row.identity = d.identity ∧
      addOccurrence d rows = front ++ row.occur d.number :: back := by
  induction rows with
  | nil =>
    obtain ⟨row, hrow, -⟩ := h
    exact absurd hrow List.not_mem_nil
  | cons row rows ih =>
    by_cases hid : row.identity = d.identity
    · exact ⟨[], row, rows, rfl, hid, by rw [addOccurrence, if_pos hid, List.nil_append]⟩
    · obtain ⟨other, hmem, hother⟩ := h
      have hrest : other ∈ rows := (List.mem_cons.mp hmem).resolve_left fun heq => hid (heq ▸ hother)
      obtain ⟨front, first, back, hrows, hfirst, hadd⟩ := ih ⟨other, hrest, hother⟩
      refine ⟨row :: front, first, back, by rw [hrows, List.cons_append], hfirst, ?_⟩
      rw [addOccurrence, if_neg hid, hadd, List.cons_append]

/-- What one row does to the result. -/
inductive Import (isAlnum : Char → Bool) (locations : LocationNames)
    (selected : Option (List String)) (rows : List PropertyRow) (d : DataRow) :
    List PropertyRow → Prop
  /-- The identity is new. -/
  | fresh (hnew : ∀ row ∈ rows, row.identity ≠ d.identity) :
    Import isAlnum locations selected rows d (rows ++ [newRow isAlnum locations d false])
  /-- The row says what the property says that is there. -/
  | merged (scope : List String) (hscope : selected = some scope)
    (hfunction : d.identity.function ∈ scope) (front back : List PropertyRow) (row : PropertyRow)
    (hrows : rows = front ++ row :: back) (hrow : row.identity = d.identity)
    (hsame : ∀ row ∈ rows, row.identity = d.identity → row.data.status = d.status) :
    Import isAlnum locations selected rows d (front ++ row.occur d.number :: back)
  /-- The row stands beside the others with its identity, and all of them are marked. -/
  | marked (scope : List String) (hscope : selected = some scope)
    (hseen : ∃ row ∈ rows, row.identity = d.identity)
    (hsame : d.identity.function ∉ scope →
      ∀ row ∈ rows, row.identity = d.identity → row.data.status = d.status) :
    Import isAlnum locations selected rows d
      (markAll d.identity rows ++ [newRow isAlnum locations d true])

theorem import_of_importRow {selected : Option (List String)} {rows out : List PropertyRow}
    {d : DataRow} (h : importRow isAlnum locations selected rows d = .ok out) :
    Import isAlnum locations selected rows d out := by
  unfold importRow at h
  dsimp only at h
  have hmem : ∀ row, row ∈ (rows.filter fun row => row.identity = d.identity) ↔
      row ∈ rows ∧ row.identity = d.identity := by
    intro row
    rw [List.mem_filter, decide_eq_true_eq]
  by_cases hprevious : (rows.filter fun row => row.identity = d.identity) = []
  · rw [if_pos hprevious] at h
    obtain rfl := Except.ok.inj h
    refine .fresh fun row hrow hid => ?_
    exact List.eq_nil_iff_forall_not_mem.mp hprevious row ((hmem row).mpr ⟨hrow, hid⟩)
  · rw [if_neg hprevious] at h
    have hseen : ∃ row ∈ rows, row.identity = d.identity := by
      obtain ⟨row, hrow⟩ := List.exists_mem_of_ne_nil _ hprevious
      exact ⟨row, (hmem row).mp hrow⟩
    cases selected with
    | none => exact absurd h (by simp)
    | some scope =>
      dsimp only at h
      split_ifs at h with hfunction hsame hdiffer
      · obtain rfl := Except.ok.inj h
        obtain ⟨front, row, back, hrows, hrow, hadd⟩ := addOccurrence_eq hseen
        rw [hadd]
        exact .merged scope rfl hfunction front back row hrows hrow fun row hrow hid =>
          hsame row ((hmem row).mpr ⟨hrow, hid⟩)
      · obtain rfl := Except.ok.inj h
        exact .marked scope rfl hseen fun hno => absurd hfunction hno
      · obtain rfl := Except.ok.inj h
        refine .marked scope rfl hseen fun _ row hrow hid => ?_
        by_contra hne
        exact hdiffer ⟨row, (hmem row).mpr ⟨hrow, hid⟩, hne⟩

end Step

/-! ## Nothing is lost -/

/-- The properties are those of the rows. -/
structure Lossless (scope : List String) (data : List DataRow) (rows : List PropertyRow) :
    Prop where
  /-- Every row number occurs once: as the first number of a property or as a later one. -/
  numbers : (rows.flatMap PropertyRow.numbers).Perm (data.map DataRow.number)
  /-- A property stands for rows that say what it says. -/
  read : ∀ row ∈ rows, ∀ n ∈ row.numbers, ∃ d ∈ data, d.number = n ∧ d.identity = row.identity ∧
    d.status = row.data.status
  /-- Every row has a property that says what it says. -/
  represented : ∀ d ∈ data, ∃ row ∈ rows, d.number ∈ row.numbers ∧ row.identity = d.identity ∧
    row.data.status = d.status
  /-- Rows are merged for a selected function only. -/
  merged : ∀ row ∈ rows, row.later ≠ [] → row.identity.function ∈ scope
  /-- Two rows that contradict each other are of a selected function, and all the properties with
  their identity are marked. -/
  contradictory : ∀ d ∈ data, ∀ e ∈ data, d.identity = e.identity → d.status ≠ e.status →
    d.identity.function ∈ scope ∧ ∀ row ∈ rows, row.identity = d.identity → row.ambiguous = true
  /-- Several rows of another function with one identity stay separate, and all are marked. -/
  separate : ∀ d ∈ data, ∀ e ∈ data, d.identity = e.identity → d.number ≠ e.number →
    d.identity.function ∉ scope → ∀ row ∈ rows, row.identity = d.identity → row.ambiguous = true

theorem lossless_nil (scope : List String) : Lossless scope [] [] := by
  constructor
  · exact .refl _
  all_goals
    intro x hx
    exact absurd hx List.not_mem_nil

section Lossless

variable {isAlnum : Char → Bool} {locations : LocationNames} {scope : List String}
  {data : List DataRow} {rows : List PropertyRow} {d : DataRow}

/-- What holds of all pairs of rows holds with one more row, where it holds of its pairs. -/
theorem forall_pairs_append {P : DataRow → DataRow → Prop}
    (hold : ∀ e ∈ data, ∀ e' ∈ data, P e e') (hnew : ∀ e ∈ data, P e d ∧ P d e) (hself : P d d) :
    ∀ e ∈ data ++ [d], ∀ e' ∈ data ++ [d], P e e' := by
  intro e he e' he'
  rcases List.mem_append.mp he with he | he <;> rcases List.mem_append.mp he' with he' | he'
  · exact hold e he e' he'
  · rw [List.mem_singleton.mp he']
    exact (hnew e he).1
  · rw [List.mem_singleton.mp he]
    exact (hnew e' he').2
  · rw [List.mem_singleton.mp he, List.mem_singleton.mp he']
    exact hself

/-- A row with a new identity. -/
theorem Lossless.fresh (h : Lossless scope data rows)
    (hnew : ∀ row ∈ rows, row.identity ≠ d.identity) :
    Lossless scope (data ++ [d]) (rows ++ [newRow isAlnum locations d false]) := by
  have hdata : ∀ e ∈ data, e.identity ≠ d.identity := by
    intro e he hid
    obtain ⟨row, hrow, -, hrid, -⟩ := h.represented e he
    exact hnew row hrow (hrid.trans hid)
  have hold : ∀ e ∈ data, ∀ row ∈ rows ++ [newRow isAlnum locations d false],
      row.identity = e.identity → row ∈ rows := by
    intro e he row hrow hid
    rcases List.mem_append.mp hrow with hrow | hrow
    · exact hrow
    · rw [List.mem_singleton.mp hrow] at hid
      exact absurd hid.symm (hdata e he)
  refine ⟨?_, ?_, ?_, ?_, ?_, ?_⟩
  · rw [List.flatMap_append, List.map_append]
    exact h.numbers.append_right _
  · intro row hrow n hn
    rcases List.mem_append.mp hrow with hrow | hrow
    · obtain ⟨e, he, hrest⟩ := h.read row hrow n hn
      exact ⟨e, List.mem_append_left _ he, hrest⟩
    · rw [List.mem_singleton.mp hrow] at hn ⊢
      exact ⟨d, List.mem_append_right _ (List.mem_singleton_self d),
        (List.mem_singleton.mp hn).symm, rfl, rfl⟩
  · intro e he
    rcases List.mem_append.mp he with he | he
    · obtain ⟨row, hrow, hrest⟩ := h.represented e he
      exact ⟨row, List.mem_append_left _ hrow, hrest⟩
    · rw [List.mem_singleton.mp he]
      exact ⟨_, List.mem_append_right _ (List.mem_singleton_self _), List.mem_cons_self, rfl, rfl⟩
  · intro row hrow hlater
    rcases List.mem_append.mp hrow with hrow | hrow
    · exact h.merged row hrow hlater
    · rw [List.mem_singleton.mp hrow] at hlater
      exact absurd rfl hlater
  · refine forall_pairs_append ?_ (fun e he => ⟨fun hid => ?_, fun hid => ?_⟩) fun _ hne =>
      absurd rfl hne
    · intro e he e' he' hid hstatus
      obtain ⟨hfunction, hmarked⟩ := h.contradictory e he e' he' hid hstatus
      exact ⟨hfunction, fun row hrow hrid => hmarked row (hold e he row hrow hrid) hrid⟩
    · exact absurd hid (hdata e he)
    · exact absurd hid.symm (hdata e he)
  · refine forall_pairs_append ?_ (fun e he => ⟨fun hid => ?_, fun hid => ?_⟩) fun _ hne =>
      absurd rfl hne
    · intro e he e' he' hid hnumber hfunction row hrow hrid
      exact h.separate e he e' he' hid hnumber hfunction row (hold e he row hrow hrid) hrid
    · exact absurd hid (hdata e he)
    · exact absurd hid.symm (hdata e he)

/-- A row that says what its property says. -/
theorem Lossless.merge {front back : List PropertyRow} {row : PropertyRow}
    (h : Lossless scope data (front ++ row :: back)) (hfunction : d.identity.function ∈ scope)
    (hrow : row.identity = d.identity)
    (hsame : ∀ row' ∈ front ++ row :: back, row'.identity = d.identity →
      row'.data.status = d.status) :
    Lossless scope (data ++ [d]) (front ++ row.occur d.number :: back) := by
  have hmem : row ∈ front ++ row :: back := List.mem_append_right _ List.mem_cons_self
  -- every property of the new list is one of the old list, up to its later numbers
  have hback : ∀ r ∈ front ++ row.occur d.number :: back, r = row.occur d.number ∨
      r ∈ front ++ row :: back := by
    intro r hr
    rcases List.mem_append.mp hr with hr | hr
    · exact .inr (List.mem_append_left _ hr)
    · rcases List.mem_cons.mp hr with hr | hr
      · exact .inl hr
      · exact .inr (List.mem_append_right _ (List.mem_cons_of_mem _ hr))
  have hforth : ∀ r ∈ front ++ row :: back, ∃ r' ∈ front ++ row.occur d.number :: back,
      r'.data = r.data ∧ ∀ n ∈ r.numbers, n ∈ r'.numbers := by
    intro r hr
    rcases List.mem_append.mp hr with hr | hr
    · exact ⟨r, List.mem_append_left _ hr, rfl, fun _ hn => hn⟩
    · rcases List.mem_cons.mp hr with rfl | hr
      · exact ⟨_, List.mem_append_right _ List.mem_cons_self, rfl,
          fun _ hn => List.mem_append_left _ hn⟩
      · exact ⟨r, List.mem_append_right _ (List.mem_cons_of_mem _ hr), rfl, fun _ hn => hn⟩
  have hmarked : ∀ {i : Identity},
      (∀ r ∈ front ++ row :: back, r.identity = i → r.ambiguous = true) →
      ∀ r ∈ front ++ row.occur d.number :: back, r.identity = i → r.ambiguous = true := by
    intro i hall r hr hid
    rcases hback r hr with rfl | hr
    · exact hall row hmem hid
    · exact hall r hr hid
  have hstatus : ∀ e ∈ data, e.identity = d.identity → e.status = d.status := by
    intro e he hid
    obtain ⟨r, hr, -, hrid, hrs⟩ := h.represented e he
    rw [← hrs]
    exact hsame r hr (hrid.trans hid)
  refine ⟨?_, ?_, ?_, ?_, ?_, ?_⟩
  · have hnumbers := h.numbers.append_right [d.number]
    rw [List.flatMap_append, List.flatMap_cons, List.append_assoc, List.append_assoc] at hnumbers
    rw [List.flatMap_append, List.flatMap_cons, PropertyRow.numbers_occur, List.map_append,
      List.append_assoc]
    refine List.Perm.trans ?_ hnumbers
    exact (List.perm_append_comm.append_left _).append_left _
  · intro r hr n hn
    rcases hback r hr with rfl | hr
    · rw [PropertyRow.numbers_occur] at hn
      rcases List.mem_append.mp hn with hn | hn
      · obtain ⟨e, he, hrest⟩ := h.read row hmem n hn
        exact ⟨e, List.mem_append_left _ he, hrest⟩
      · exact ⟨d, List.mem_append_right _ (List.mem_singleton_self d),
          (List.mem_singleton.mp hn).symm, hrow.symm, (hsame row hmem hrow).symm⟩
    · obtain ⟨e, he, hrest⟩ := h.read r hr n hn
      exact ⟨e, List.mem_append_left _ he, hrest⟩
  · intro e he
    rcases List.mem_append.mp he with he | he
    · obtain ⟨r, hr, hn, hid, hs⟩ := h.represented e he
      obtain ⟨r', hr', hdata, hsub⟩ := hforth r hr
      refine ⟨r', hr', hsub _ hn, ?_, hdata ▸ hs⟩
      rw [PropertyRow.identity, hdata]
      exact hid
    · rw [List.mem_singleton.mp he]
      refine ⟨row.occur d.number, List.mem_append_right _ List.mem_cons_self, ?_, hrow,
        hsame row hmem hrow⟩
      rw [PropertyRow.numbers_occur]
      exact List.mem_append_right _ (List.mem_singleton_self _)
  · intro r hr hlater
    rcases hback r hr with rfl | hr
    · rw [PropertyRow.identity_occur, hrow]
      exact hfunction
    · exact h.merged r hr hlater
  · refine forall_pairs_append ?_ (fun e he => ⟨fun hid hne => ?_, fun hid hne => ?_⟩) fun _ hne =>
      absurd rfl hne
    · intro e he e' he' hid hne
      obtain ⟨hin, hall⟩ := h.contradictory e he e' he' hid hne
      exact ⟨hin, hmarked hall⟩
    · exact absurd (hstatus e he hid) hne
    · exact absurd (hstatus e he hid.symm).symm hne
  · refine forall_pairs_append ?_ (fun e he => ⟨fun hid _ hout => ?_, fun _ _ hout => ?_⟩)
      fun _ hne => absurd rfl hne
    · intro e he e' he' hid hne hout
      exact hmarked (h.separate e he e' he' hid hne hout)
    · exact absurd hfunction (hid ▸ hout)
    · exact absurd hfunction hout

/-- A row that stands beside the others with its identity. -/
theorem Lossless.mark (h : Lossless scope data rows)
    (hsame : d.identity.function ∉ scope →
      ∀ row ∈ rows, row.identity = d.identity → row.data.status = d.status) :
    Lossless scope (data ++ [d])
      (markAll d.identity rows ++ [newRow isAlnum locations d true]) := by
  have hback : ∀ r ∈ markAll d.identity rows, ∃ r' ∈ rows, r.data = r'.data ∧
      r.numbers = r'.numbers ∧ (r.identity = d.identity → r.ambiguous = true) ∧
      (r'.ambiguous = true → r.ambiguous = true) := by
    intro r hr
    obtain ⟨r', hr', rfl⟩ := List.mem_map.mp hr
    refine ⟨r', hr', ?_⟩
    split_ifs with hid
    · exact ⟨rfl, rfl, fun _ => rfl, fun _ => rfl⟩
    · exact ⟨rfl, rfl, fun hid' => absurd hid' hid, id⟩
  have hforth : ∀ r ∈ rows, ∃ r' ∈ markAll d.identity rows, r'.data = r.data ∧
      r'.numbers = r.numbers := by
    intro r hr
    refine ⟨_, List.mem_map_of_mem hr, ?_⟩
    split_ifs
    · exact ⟨rfl, rfl⟩
    · exact ⟨rfl, rfl⟩
  have hidentity : ∀ r ∈ markAll d.identity rows ++ [newRow isAlnum locations d true],
      r.identity = d.identity → r.ambiguous = true := by
    intro r hr hid
    rcases List.mem_append.mp hr with hr | hr
    · obtain ⟨-, -, -, -, hmarked, -⟩ := hback r hr
      exact hmarked hid
    · rw [List.mem_singleton.mp hr]
      rfl
  have hmarked : ∀ {i : Identity}, (∀ r ∈ rows, r.identity = i → r.ambiguous = true) →
      ∀ r ∈ markAll d.identity rows ++ [newRow isAlnum locations d true],
        r.identity = i → r.ambiguous = true := by
    intro i hall r hr hid
    rcases List.mem_append.mp hr with hr' | hr'
    · obtain ⟨r', hr', hdata, -, -, hstays⟩ := hback r hr'
      refine hstays (hall r' hr' ?_)
      rw [PropertyRow.identity, ← hdata]
      exact hid
    · rw [List.mem_singleton.mp hr']
      rfl
  have hnumbers : (markAll d.identity rows).flatMap PropertyRow.numbers =
      rows.flatMap PropertyRow.numbers := by
    rw [markAll, List.flatMap_map]
    refine congrArg (fun f => rows.flatMap f) (funext fun r => ?_)
    split_ifs
    · rfl
    · rfl
  have hstatus : d.identity.function ∉ scope → ∀ e ∈ data, e.identity = d.identity →
      e.status = d.status := by
    intro hout e he hid
    obtain ⟨r, hr, -, hrid, hrs⟩ := h.represented e he
    rw [← hrs]
    exact hsame hout r hr (hrid.trans hid)
  refine ⟨?_, ?_, ?_, ?_, ?_, ?_⟩
  · rw [List.flatMap_append, List.map_append, hnumbers]
    exact h.numbers.append_right _
  · intro r hr n hn
    rcases List.mem_append.mp hr with hr | hr
    · obtain ⟨r', hr', hdata, hns, -⟩ := hback r hr
      obtain ⟨e, he, hen, hid, hs⟩ := h.read r' hr' n (hns ▸ hn)
      refine ⟨e, List.mem_append_left _ he, hen, ?_, hdata ▸ hs⟩
      rw [PropertyRow.identity, hdata]
      exact hid
    · rw [List.mem_singleton.mp hr] at hn ⊢
      exact ⟨d, List.mem_append_right _ (List.mem_singleton_self d),
        (List.mem_singleton.mp hn).symm, rfl, rfl⟩
  · intro e he
    rcases List.mem_append.mp he with he | he
    · obtain ⟨r, hr, hn, hid, hs⟩ := h.represented e he
      obtain ⟨r', hr', hdata, hns⟩ := hforth r hr
      refine ⟨r', List.mem_append_left _ hr', hns ▸ hn, ?_, hdata ▸ hs⟩
      rw [PropertyRow.identity, hdata]
      exact hid
    · rw [List.mem_singleton.mp he]
      exact ⟨_, List.mem_append_right _ (List.mem_singleton_self _), List.mem_cons_self, rfl, rfl⟩
  · intro r hr hlater
    rcases List.mem_append.mp hr with hr | hr
    · obtain ⟨r', hr', hdata, hns, -⟩ := hback r hr
      rw [PropertyRow.identity, hdata]
      refine h.merged r' hr' ?_
      rw [← (List.cons.inj hns).2]
      exact hlater
    · rw [List.mem_singleton.mp hr] at hlater
      exact absurd rfl hlater
  · refine forall_pairs_append ?_ (fun e he => ⟨fun hid hne => ⟨?_, ?_⟩, fun hid hne => ⟨?_, ?_⟩⟩)
      fun _ hne => absurd rfl hne
    · intro e he e' he' hid hne
      obtain ⟨hin, hall⟩ := h.contradictory e he e' he' hid hne
      exact ⟨hin, hmarked hall⟩
    · by_contra hout
      exact hne (hstatus (hid ▸ hout) e he hid)
    · exact hid ▸ hidentity
    · by_contra hout
      exact hne (hstatus hout e he hid.symm).symm
    · exact hidentity
  · refine forall_pairs_append ?_ (fun e he => ⟨fun hid _ _ => hid ▸ hidentity,
      fun _ _ _ => hidentity⟩) fun _ hne => absurd rfl hne
    intro e he e' he' hid hne hout
    exact hmarked (h.separate e he e' he' hid hne hout)

/-- **The turn for one row keeps the properties those of the rows.** -/
theorem importRow_lossless {out : List PropertyRow} (h : Lossless scope data rows)
    (hok : importRow isAlnum locations (some scope) rows d = .ok out) :
    Lossless scope (data ++ [d]) out := by
  cases import_of_importRow hok with
  | fresh hnew => exact h.fresh hnew
  | merged scope' hscope hfunction front back row hrows hrow hsame =>
    obtain rfl := Option.some.inj hscope
    subst hrows
    exact h.merge hfunction hrow hsame
  | marked scope' hscope hseen hsame =>
    obtain rfl := Option.some.inj hscope
    exact h.mark hsame

/-- Without a scope, a row has to be new. -/
theorem importRow_distinct {out : List PropertyRow}
    (h : rows.map PropertyRow.identity = data.map DataRow.identity)
    (hnodup : (data.map DataRow.identity).Nodup)
    (hok : importRow isAlnum locations none rows d = .ok out) :
    out.map PropertyRow.identity = (data ++ [d]).map DataRow.identity ∧
      ((data ++ [d]).map DataRow.identity).Nodup := by
  cases import_of_importRow hok with
  | fresh hnew =>
    rw [List.map_append, List.map_append, h]
    refine ⟨rfl, List.nodup_append.mpr ⟨hnodup, List.pairwise_singleton _ _, ?_⟩⟩
    intro i hi j hj
    rw [List.mem_singleton.mp hj, ← h] at *
    obtain ⟨row, hrow, rfl⟩ := List.mem_map.mp hi
    exact hnew row hrow
  | merged scope' hscope => exact absurd hscope (by simp)
  | marked scope' hscope => exact absurd hscope (by simp)

end Lossless

/-! ## The whole table -/

section Run

variable {host : Host} {digit : Char → Option ℕ} {base : String} {isAlnum : Char → Bool}
  {locations : LocationNames}

/-- The rows of a table, read one by one. -/
def Reads (host : Host) (digit : Char → Option ℕ) (base : String) (rows : List (List String))
    (data : List DataRow) : Prop :=
  List.Forall₂ (fun r d => readDataRow host digit base r.2 r.1 = .ok d) (rows.zipIdx 2) data

/-- **An invariant of the turns is one of the loop.** -/
theorem importRows_induction {P : List DataRow → List PropertyRow → Prop}
    {selected : Option (List String)}
    (hstep : ∀ data rows d out, P data rows →
      importRow isAlnum locations selected rows d = .ok out → P (data ++ [d]) out)
    {numbered : List (List String × ℕ)} {data : List DataRow} {rows out : List PropertyRow}
    (hrows : P data rows)
    (h : importRows isAlnum locations host digit base selected rows numbered = .ok out) :
    ∃ more, List.Forall₂ (fun r d => readDataRow host digit base r.2 r.1 = .ok d) numbered more ∧
      P (data ++ more) out := by
  induction numbered generalizing data rows with
  | nil =>
    obtain rfl := Except.ok.inj h
    exact ⟨[], .nil, by rwa [List.append_nil]⟩
  | cons r numbered ih =>
    obtain ⟨values, number⟩ := r
    rw [importRows] at h
    obtain ⟨d, hd, h⟩ := bind_eq_ok_iff.mp h
    obtain ⟨middle, hmiddle, h⟩ := bind_eq_ok_iff.mp h
    obtain ⟨more, hmore, hout⟩ := ih (hstep data rows d middle hrows hmiddle) h
    exact ⟨d :: more, .cons hd hmore, by rwa [List.append_assoc] at hout⟩

theorem number_of_readDataRow {number : ℕ} {values : List String} {d : DataRow}
    (h : readDataRow host digit base number values = .ok d) : d.number = number := by
  unfold readDataRow at h
  split at h
  · simp only [bind_eq_ok_iff] at h
    obtain ⟨-, -, line, -, h⟩ := h
    split_ifs at h
    split at h
    · exact absurd h (by simp)
    · rw [bind_eq_ok_iff] at h
      obtain ⟨path, -, h⟩ := h
      rw [← Except.ok.inj h]
  · exact absurd h (by simp)

/-- The rows are numbered from the line after the header. -/
theorem Reads.numbers {rows : List (List String)} {data : List DataRow}
    (h : Reads host digit base rows data) :
    data.map DataRow.number = List.range' 2 rows.length := by
  have hnumbers : ∀ {numbered : List (List String × ℕ)} {data : List DataRow},
      List.Forall₂ (fun r d => readDataRow host digit base r.2 r.1 = .ok d) numbered data →
      data.map DataRow.number = numbered.map Prod.snd := by
    intro numbered data h
    induction h with
    | nil => rfl
    | cons hd _ ih => rw [List.map_cons, List.map_cons, ih, number_of_readDataRow hd]
  rw [hnumbers h, List.zipIdx_map_snd]

end Run

theorem eq_ok_of_mapError {ε ε' α : Type} {f : ε → ε'} {x : Except ε α} {a : α}
    (h : x.mapError f = .ok a) : x = .ok a := by
  cases x with
  | error e => exact absurd h (by simp [Except.mapError])
  | ok b => simpa [Except.mapError] using h

/-- **The import loses and invents nothing.**  The rows of the table are read, and numbered from the
line after the header.  With a scope, the properties are those of the rows; without one, no two rows
have the same identity. -/
theorem parseProperties_lossless {host : Host} {digit : Char → Option ℕ}
    {names : Except Exn LocationNames} {base : String} {selected : Option (List String)}
    {text : String} {out : List PropertyRow}
    (h : parseProperties host digit names base selected text = .ok out) :
    ∃ root rows data, host.resolve base = .ok root ∧ tsvRows text = .ok (csvHeader :: rows) ∧
      Reads host digit root rows data ∧ data.map DataRow.number = List.range' 2 rows.length ∧
      match selected with
      | none => (data.map DataRow.identity).Nodup
      | some scope => Lossless scope data out := by
  unfold parseProperties at h
  simp only [bind_eq_ok_iff, raiseIf_eq_ok_iff] at h
  obtain ⟨-, -, -, -, table, htable, h⟩ := h
  split at h
  · exact absurd h (by simp)
  · next header rows =>
    simp only [bind_eq_ok_iff, raiseIf_eq_ok_iff, not_not] at h
    obtain ⟨-, rfl, -, -, locations, -, root, hroot, h⟩ := h
    cases selected with
    | none =>
      have hnil : ([] : List PropertyRow).map PropertyRow.identity =
          ([] : List DataRow).map DataRow.identity ∧
          (([] : List DataRow).map DataRow.identity).Nodup := ⟨rfl, List.nodup_nil⟩
      obtain ⟨data, hdata, -, hnodup⟩ := importRows_induction
        (P := fun data rows => rows.map PropertyRow.identity = data.map DataRow.identity ∧
          (data.map DataRow.identity).Nodup)
        (fun _ _ _ _ hinv hok => importRow_distinct hinv.1 hinv.2 hok) hnil h
      exact ⟨root, rows, data, hroot, eq_ok_of_mapError htable, hdata, Reads.numbers hdata, hnodup⟩
    | some scope =>
      obtain ⟨data, hdata, hlossless⟩ := importRows_induction (P := Lossless scope)
        (fun _ _ _ _ hinv hok => importRow_lossless hinv hok) (lossless_nil scope) h
      exact ⟨root, rows, data, hroot, eq_ok_of_mapError htable, hdata, Reads.numbers hdata,
        hlossless⟩

/-- A file system without links, and the letters of ASCII. -/
def lexicalHost : Host := ⟨fun path => .ok (normpath path), fun _ => "", fun _ => "", Char.isAlphanum⟩

/-- A table with two equal rows of `f` and two equal rows of `g`. -/
def collidingExport : String :=
  "directory\tfile\tline\tfunction\tproperty kind\tstatus\tproperty\n" ++
  "/r\tfixture.c\t2\tf\tuser assertion\tValid\tx > 0\n" ++
  "/r\tfixture.c\t2\tf\tuser assertion\tValid\tx > 0\n" ++
  "/r\tfixture.c\t4\tg\tprecondition of memcpy\tDead\tx > 0\n" ++
  "/r\tfixture.c\t4\tg\tprecondition of memcpy\tDead\tx > 0\n"

/-- The rows of the selected function are merged, the others stay separate. -/
theorem parseProperties_lossless_colliding :
    ∃ data out, parseProperties lexicalHost asciiDigit (.ok []) "/r" (some ["f"]) collidingExport =
        .ok out ∧ out.map PropertyRow.numbers = [[2, 3], [4], [5]] ∧ Lossless ["f"] data out := by
  have hreturns : returns
      (parseProperties lexicalHost asciiDigit (.ok []) "/r" (some ["f"]) collidingExport)
      (fun out => out.map PropertyRow.numbers = [[2, 3], [4], [5]]) = true := by decide +kernel
  obtain ⟨out, hout, hnumbers⟩ := exists_of_returns hreturns
  obtain ⟨-, -, data, -, -, -, -, hlossless⟩ := parseProperties_lossless hout
  exact ⟨data, out, hout, of_decide_eq_true hnumbers, hlossless⟩

end Report
end Fragma
