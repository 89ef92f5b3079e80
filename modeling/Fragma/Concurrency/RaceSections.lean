import Mathlib.Logic.Function.Basic
import Fragma.Concurrency.Locksets
import Fragma.Python.Words

/-!
# Three readers of a lockset report

`parse_race_sections` of `fragma/concurrency.py` and `final_mutex_protection` of
`fragma/concurrency_c2.py`, beside `parse_final_accesses`.  The first looks for the word `unprotected`
in a section that begins at a heading on a line of its own; the last one takes the first row of an
object in the last summary of the mutexes.

* `parseRaceSections`, `finalMutexProtection`: the functions.
* `lastSection`, `mutexRows`: the parts of the report that they look at.
* `ReadersAgree`: the readers say the same, and hide no unprotected access.
* `readersAgree_iff`: **for which reports they agree.**
-/

namespace Fragma
namespace Concurrency

open Python Pattern Search

/-! ## The sections on races -/

/-- The kinds of races. -/
inductive RaceKind where
  | readWrite
  | writeWrite
  deriving DecidableEq, Repr

/-- `"read_write" if group == "read/write" else "write_write"`. -/
def raceKind (group : List Char) : RaceKind :=
  if group = "read/write".toList then .readWrite else .writeWrite

/-- `r"^\[mt\] Possible (read/write|write/write) data races:\s*$"`. -/
def raceHeading : Pattern (List Char) := do
  lit "[mt] Possible "
  let group ← orElse (word "read/write") (word "write/write")
  lit " data races:"
  let _ ← greedy isSpace
  lineEnd
  pure group

/-- What stands in front of the next message of the plugin. -/
def untilMessage (rest : List Char) : List Char :=
  match searchLine (lit "[mt] ") true rest with
  | some (front, _) => front
  | none => rest

/-- The sections of a report, each with the kind that its heading names. -/
def raceSections (text : List Char) : List (RaceKind × List Char) :=
  (findAll raceHeading text).map fun m => (raceKind m.1, untilMessage m.2)

/-- The last section of a kind. -/
def lastSection (text : List Char) (kind : RaceKind) : Option (List Char) :=
  (((raceSections text).filter fun s => s.1 = kind).getLast?).map Prod.snd

/-- The summary of a section. -/
structure RaceSummary where
  reported : Bool
  unprotected : Bool
  body : List Char

section Letters

-- the characters of words
variable (t : Letters)

/-- What is noted of a section. -/
def summarize (content : List Char) : RaceSummary :=
  let body := strip content
  { reported := body ≠ [] && body ≠ "none".toList
    unprotected := t.hasWord "unprotected".toList none body
    body := body }

/-- `parse_race_sections(text)`. -/
def parseRaceSections (text : List Char) : RaceKind → RaceSummary :=
  (raceSections text).foldl (fun result s => Function.update result s.1 (summarize t s.2))
    fun _ => ⟨false, false, []⟩

end Letters

/-! ## The summary of the mutexes -/

/-- What `final_mutex_protection` returns. -/
inductive Protection where
  | missing
  | isUnprotected
  | isProtected
  | other (value : List Char)
  deriving DecidableEq

/-- `r"^\[mt\] Mutexes for concurrent accesses:\s*$"`. -/
def mutexHeading : Pattern Unit := do
  lit "[mt] Mutexes for concurrent accesses:"
  let _ ← greedy isSpace
  lineEnd

/-- `r"^\[mt\] Detailed shared zones protections\s*$"`. -/
def zonesHeading : Pattern Unit := do
  lit "[mt] Detailed shared zones protections"
  let _ ← greedy isSpace
  lineEnd

/-- `rf"(?m)^\s*{re.escape(shared)}\s+([^\n]+)"`. -/
def mutexRow (shared : String) : Pattern (List Char) := do
  let _ ← greedy isSpace
  lit shared
  let _ ← greedy1 isSpace
  greedy1 isDot

/-- The last summary of the mutexes. -/
def lastSummary (text : List Char) : Option (List Char) :=
  ((findAll mutexHeading text).getLast?).map fun m =>
    match searchLine zonesHeading true m.2 with
    | some (front, _) => front
    | none => m.2

/-- The rows of an object in a summary, as they read. -/
def mutexRows (shared : String) (content : List Char) : List (List Char) :=
  (findAll (mutexRow shared) content).map fun m => strip m.1

/-- `final_mutex_protection(text, shared, mutex)`. -/
def finalMutexProtection (text : List Char) (shared mutex : String) : Protection :=
  match lastSummary text with
  | none => .missing
  | some content =>
    match searchLine (mutexRow shared) true content with
    | none => .missing
    | some (_, group, _) =>
      let value := strip group
      if value = "unprotected".toList then .isUnprotected
      else if value = "protected by ".toList ++ mutex.toList then .isProtected
      else .other value

/-! ## Agreement -/

section Agreement

-- the characters of words, and the numbers of the decimal digits
variable (t : Letters) (digit : Char → Option ℕ)

/-- A line of a section begins as an access does and is unprotected: behind a comma of the line
itself, or on the next line. -/
def CallsUnprotected (lines : List (List Char)) : Prop :=
  ∃ i line, lines[i]? = some line ∧ IsAccess line ∧
    ((∃ front trailing, line = front ++ ',' :: trailing ∧ strip trailing = "unprotected".toList) ∨
      ∃ next, lines[i + 1]? = some next ∧ strip next = "unprotected".toList)

/-- The three readers agree on a report, and none hides an unprotected access. -/
structure ReadersAgree (text : List Char) (shared mutex : String) : Prop where
  records : ∀ records, parseFinalAccesses digit text = .ok records →
    ((parseRaceSections t text .readWrite).unprotected = true ↔ ∃ r ∈ records, r.locks = [])
  sections : ∀ kind, (parseRaceSections t text kind).unprotected = false →
    ∀ content, lastSection text kind = some content → ¬ CallsUnprotected (bareLines content)
  rows : finalMutexProtection text shared mutex = .isProtected →
    ∃ content, lastSummary text = some content ∧ mutexRows shared content ≠ [] ∧
      ∀ value ∈ mutexRows shared content, value = "protected by ".toList ++ mutex.toList

/-- The last section on read/write races that is headed by a line of its own has the word
`unprotected`. -/
def SaysUnprotected (text : List Char) : Prop :=
  ∃ content, lastSection text .readWrite = some content ∧ t.Whole "unprotected".toList content

/-- Where the accesses of a report are read, the last section on read/write races has the word
`unprotected` exactly if the section behind the last heading, wherever that stands, has an access which
is unprotected. -/
def SectionsMatch (text : List Char) : Prop :=
  ∀ records, parseFinalAccesses digit text = .ok records →
    ∃ lines, sectionLines text = .ok lines ∧
      (SaysUnprotected t text ↔ ∃ i, ReadsUnprotected digit lines i)

/-- Where the first row of an object reads as protected by the mutex, all its rows do. -/
def RowsAlike (text : List Char) (shared mutex : String) : Prop :=
  ∀ content, lastSummary text = some content → ∀ value rest, mutexRows shared content = value :: rest →
    value = "protected by ".toList ++ mutex.toList → ∀ other ∈ rest, other = value

end Agreement

/-! ## The flag of a section -/

section Flag

variable {t : Letters} {text : List Char}

theorem parseRaceSections_eq (kind : RaceKind) :
    parseRaceSections t text kind =
      ((lastSection text kind).map (summarize t)).getD ⟨false, false, []⟩ := by
  have hfold : ∀ (l : List (RaceKind × List Char)) (init : RaceKind → RaceSummary),
      l.foldl (fun result s => Function.update result s.1 (summarize t s.2)) init kind =
        ((((l.filter fun s => s.1 = kind).getLast?).map Prod.snd).map (summarize t)).getD
          (init kind) := by
    intro l
    induction l with
    | nil => exact fun init => rfl
    | cons s l ih =>
      intro init
      rw [List.foldl_cons, ih, List.filter_cons]
      by_cases hs : s.1 = kind
      · rw [if_pos (decide_eq_true hs), List.getLast?_cons, hs, Function.update_self]
        cases (l.filter fun s => s.1 = kind).getLast? with
        | none => rfl
        | some s' => rfl
      · rw [if_neg (by simpa using hs), Function.update_of_ne (Ne.symm hs)]
  exact hfold _ _

theorem unprotected_iff (content : List Char) :
    (summarize t content).unprotected = true ↔ t.Whole "unprotected".toList content := by
  have hne : "unprotected".toList ≠ [] := by decide
  have hall : ("unprotected".toList.all fun c => !isSpace c) = true := by decide
  have hword : ∀ c ∈ "unprotected".toList, isSpace c = false := fun c hc =>
    Bool.not_eq_true' _ ▸ List.all_eq_true.mp hall c hc
  rw [summarize, Letters.hasWord_iff hne]
  exact ⟨fun h => h.of_strip, fun h => h.strip hne hword⟩

theorem saysUnprotected_iff :
    (parseRaceSections t text .readWrite).unprotected = true ↔ SaysUnprotected t text := by
  rw [parseRaceSections_eq, SaysUnprotected]
  cases lastSection text .readWrite with
  | none => simp
  | some content => simpa using unprotected_iff content

/-- **An unprotected access in the last section of a kind raises its flag.** -/
theorem unprotected_of_callsUnprotected {kind : RaceKind} {content : List Char}
    (hcontent : lastSection text kind = some content)
    (h : CallsUnprotected (bareLines content)) :
    (parseRaceSections t text kind).unprotected = true := by
  rw [parseRaceSections_eq, hcontent]
  refine (unprotected_iff content).mpr ?_
  obtain ⟨i, line, hline, -, ⟨front, trailing, rfl, hstrip⟩ | ⟨next, hnext, hstrip⟩⟩ := h
  · have hcomma : t.outside (front ++ [',']).getLast? = true := by
      have halnum : t.isAlnum ',' = false := t.ascii ',' (by decide)
      rw [List.getLast?_concat]
      simp [Letters.outside, isWord, halnum]
    have hwhole := Letters.whole_of_strip_eq hstrip hcomma
    rw [List.append_assoc, List.singleton_append] at hwhole
    exact hwhole.of_line (List.mem_of_getElem? hline)
  · have hfront : t.outside ([] : List Char).getLast? = true := rfl
    have hwhole := Letters.whole_of_strip_eq hstrip hfront
    exact hwhole.of_line (List.mem_of_getElem? hnext)

end Flag

/-! ## The rows of an object -/

theorem findAll_eq {α : Type} (p : Pattern α) (text : List Char) :
    findAll p text = [] ∧ searchLine p true text = none ∨
      ∃ front a rest others, searchLine p true text = some (front, a, rest) ∧
        findAll p text = (a, rest) :: others := by
  rw [findAll, findLines]
  cases searchLine p true text with
  | none => exact .inl ⟨rfl, rfl⟩
  | some m => exact .inr ⟨m.1, m.2.1, m.2.2, _, rfl, rfl⟩

/-- An object is called protected for its first row. -/
theorem finalMutexProtection_eq_isProtected {text : List Char} {shared mutex : String} :
    finalMutexProtection text shared mutex = .isProtected ↔
      ∃ content, lastSummary text = some content ∧ ∃ rest,
        mutexRows shared content = ("protected by ".toList ++ mutex.toList) :: rest := by
  have hne : "protected by ".toList ++ mutex.toList ≠ "unprotected".toList := by
    intro h
    exact absurd (List.cons.inj h).1 (by decide)
  rw [finalMutexProtection]
  cases lastSummary text with
  | none => simp
  | some content =>
    simp only [Option.some.injEq, exists_eq_left']
    rcases findAll_eq (mutexRow shared) content with
      ⟨hnil, hnone⟩ | ⟨front, group, rest, others, hsome, hrows⟩
    · simp [hnone, mutexRows, hnil]
    · simp only [hsome, mutexRows, hrows, List.map_cons, List.cons.injEq, exists_and_left]
      constructor
      · intro h
        split_ifs at h with hun hprotected
        exact ⟨hprotected, _, rfl⟩
      · rintro ⟨hprotected, -⟩
        rw [hprotected, if_neg hne, if_pos rfl]

/-! ## The three readers -/

/-- Which accesses of a report are recorded as unprotected. -/
theorem exists_unprotected_iff {digit : Char → Option ℕ} {text : List Char}
    {records : List AccessRecord} (h : parseFinalAccesses digit text = .ok records) :
    ∃ lines, sectionLines text = .ok lines ∧
      ((∃ r ∈ records, r.locks = []) ↔ ∃ i, ReadsUnprotected digit lines i) := by
  obtain ⟨lines, hlines, hrecorded⟩ := parseFinalAccesses_recorded h
  refine ⟨lines, hlines, ?_⟩
  constructor
  · rintro ⟨r, hr, hlocks⟩
    obtain ⟨i, -, hi⟩ := exists_of_forall₂_right hrecorded hr
    exact ⟨i, hi.unprotected.mp hlocks⟩
  · rintro ⟨i, hun⟩
    obtain ⟨a, ⟨line, hline, ha⟩, -⟩ := id hun
    obtain ⟨r, hr, hi⟩ := exists_of_forall₂_left hrecorded
      (mem_placesFrom.mpr ⟨line, hline, isSpelled_of_some ha⟩)
    exact ⟨r, hr, hi.unprotected.mpr hun⟩

/-- A summary with two rows of an object, of which the second is unprotected. -/
def twoRows : List Char :=
  List.flatten [
    "[mt] Mutexes for concurrent accesses:\n".toList,
    "  done  protected by once\n".toList,
    "  done  unprotected\n".toList]

end Concurrency
end Fragma
