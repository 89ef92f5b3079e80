import Fragma.Python.Lines
import Fragma.Python.Loops
import Fragma.Python.Pattern
import Fragma.Python.Search
import Fragma.Python.Tsv

/-!
# The accesses of a lockset report

`parse_final_accesses` and `resolve_access_roles` of `fragma/concurrency_c2_irq.py`.  The last section
on read/write races lists the accesses of each object, one to a line, with the locks that protect
them.  A line that is neither the name of an object nor an access in the expected spelling is passed
over, so that an access which the analyzer breaks in another place is not seen.

* `parseFinalAccesses`, `resolveAccessRoles`: the functions.
* `accessPlaces`, `HeadingAt`, `ReadsUnprotected`: the section, line by line.
* `Lossless`: one record for each access, with its object and its protection.
* `parseFinalAccesses_lossless_iff`: **for which sections no access is lost.**
-/

namespace Fragma
namespace Concurrency

open Python Pattern Search

/-- `ConcurrencyC2IrqError(message)`. -/
def irqError (message : String) : Exn := ⟨.valueError, message⟩

/-! ## The patterns -/

/-- `.`. -/
def isDot (c : Char) : Bool := c ≠ '\n'

/-- A fixed text that is captured. -/
def word (s : String) : Pattern (List Char) := (fun _ => s.toList) <$> lit s

/-- `r"  ([^:]+):"`. -/
def heading : Pattern (List Char) := do
  lit "  "
  let name ← greedy1 fun c => c ≠ ':'
  lit ":"
  pure name

/-- The groups of `_ACCESS`. -/
structure AccessLine where
  operation : List Char
  actor : List Char
  file : List Char
  start : List Char
  stop : Option (List Char)
  trailing : List Char
  deriving DecidableEq

section Digits

-- the number of a decimal digit
variable (digit : Char → Option ℕ)

/-- `\d`. -/
def isDecimal (c : Char) : Bool := (digit c).isSome

/-- `_ACCESS`. -/
def accessLine : Pattern AccessLine := do
  lit "    "
  let operation ← orElse (word "read") (word "write")
  lit " by "
  let actor ← reluctant1 isDot
  lit " at "
  let file ← greedy1 isDot
  lit ":"
  let start ← greedy1 (isDecimal digit)
  let stop ← optional (do lit "-"; greedy1 (isDecimal digit))
  lit ","
  let trailing ← greedy isDot
  pure ⟨operation, actor, file, start, stop, trailing⟩

/-! ## The records -/

/-- An entry of the result. -/
structure AccessRecord where
  object : List Char
  operation : List Char
  actor : List Char
  file : List Char
  lineStart : ℕ
  lineEnd : ℕ
  locks : List (List Char)
  protection : List Char
  deriving DecidableEq

/-- `text.split()`. -/
def splitWords (cs : List Char) : List (List Char) :=
  (cs.splitOnP isSpace).filter fun w => !w.isEmpty

/-- What a line must be to continue the line of an access. -/
def isProtection (cs : List Char) : Bool :=
  cs = "unprotected".toList || "protected by ".toList.isPrefixOf cs

/-- The locks of an access. -/
def locksOf (protection : List Char) : Except Exn (List (List Char)) :=
  if protection = "unprotected".toList then .ok []
  else if "protected by ".toList.isPrefixOf protection then
    .ok (splitWords (protection.drop "protected by ".toList.length))
  else
    .error (irqError ("unclassified Mthread access protection: " ++ String.ofList protection))

/-- `int(text)` of a text of digits. -/
def lineNumber (cs : List Char) : Except Exn ℕ :=
  orRaise (natOf digit cs)
    ⟨.valueError, "Exceeds the limit (4300 digits) for integer string conversion"⟩

/-- The record of an access. -/
def accessRecord (current : Option (List Char)) (a : AccessLine) (protection : List Char) :
    Except Exn AccessRecord := do
  let object ← orRaise current (irqError "Mthread access precedes its object")
  let locks ← locksOf protection
  let start ← lineNumber digit a.start
  let stop ← lineNumber digit (a.stop.getD a.start)
  .ok ⟨object, a.operation, a.actor, a.file, start, stop, locks, protection⟩

/-- The loop over the lines, behind a heading. -/
def readAccesses (current : Option (List Char)) : List (List Char) → Except Exn (List AccessRecord)
  | [] => .ok []
  | line :: lines =>
    match fullmatch heading line with
    | some name => readAccesses (some name) lines
    | none =>
      match fullmatch (accessLine digit) line with
      | none => readAccesses current lines
      | some a =>
        match lines with
        | [] => do
          let r ← accessRecord digit current a (strip a.trailing)
          .ok [r]
        | next :: rest =>
          if strip a.trailing = [] ∧ isProtection (strip next) = true then do
            let r ← accessRecord digit current a (strip next)
            let records ← readAccesses current rest
            .ok (r :: records)
          else do
            let r ← accessRecord digit current a (strip a.trailing)
            let records ← readAccesses current (next :: rest)
            .ok (r :: records)

/-- The lines of the last section on read/write races. -/
def sectionLines (text : List Char) : Except Exn (List (List Char)) := do
  let start ← orRaise (rfind "[mt] Possible read/write data races:".toList text)
    (irqError "missing Mthread read/write access section")
  let stop ← orRaise (find "[mt] Possible write/write data races:".toList text start)
    (irqError "unterminated Mthread read/write access section")
  .ok (bareLines ((text.take stop).drop start)).tail

/-- `parse_final_accesses(text)`. -/
def parseFinalAccesses (text : List Char) : Except Exn (List AccessRecord) := do
  let lines ← sectionLines text
  let records ← readAccesses digit none lines
  if records = [] then .error (irqError "Mthread final access section is empty") else .ok records

end Digits

/-! ## Roles -/

/-- A site of the source that the manifest names. -/
structure Role where
  lineContains : List Char
  object : List Char
  operation : List Char

/-- `line_for_snippet(source, snippet)`. -/
def lineForSnippet (source snippet : List Char) : Except Exn ℕ :=
  match ((bareLines source).zipIdx 1).filter fun l => (find snippet l.1 0).isSome with
  | [l] => .ok l.2
  | found => .error (irqError ("expected one line containing " ++ String.ofList snippet ++
      ", found " ++ toString found.length))

/-- The record is one of the site. -/
def AccessRecord.IsAt (r : AccessRecord) (role : Role) (line : ℕ) : Prop :=
  r.object = role.object ∧ r.operation = role.operation ∧ r.lineStart = line

instance (r : AccessRecord) (role : Role) (line : ℕ) : Decidable (r.IsAt role line) :=
  inferInstanceAs (Decidable (_ ∧ _))

/-- One turn of the loop over the roles. -/
def resolveRole (source : List Char) (accesses : List AccessRecord) (role : String × Role) :
    Except Exn (String × List (List Char)) := do
  let line ← lineForSnippet source role.2.lineContains
  match accesses.filter fun r => r.IsAt role.2 line with
  | [r] => .ok (role.1, r.locks)
  | selected => .error (irqError ("access role " ++ role.1 ++ " matched " ++
      toString selected.length ++ " Mthread records"))

/-- `resolve_access_roles(source, roles, accesses)`. -/
def resolveAccessRoles (source : List Char) (roles : List (String × Role))
    (accesses : List AccessRecord) : Except Exn (List (String × List (List Char))) :=
  roles.mapM (resolveRole source accesses)

/-! ## The section, line by line -/

/-- The line begins as an access does. -/
def IsAccess (line : List Char) : Prop :=
  "    read by ".toList <+: line ∨ "    write by ".toList <+: line

instance (line : List Char) : Decidable (IsAccess line) := inferInstanceAs (Decidable (_ ∨ _))

/-- The places of the lines of a kind, where the first line has the place `n`. -/
def placesFrom (kind : List Char → Bool) (n : ℕ) (lines : List (List Char)) : List ℕ :=
  ((lines.zipIdx n).filter fun l => kind l.1).map Prod.snd

/-- The places of the lines that begin as an access does. -/
def accessPlaces (lines : List (List Char)) : List ℕ := placesFrom (fun l => IsAccess l) 0 lines

section Spelled

variable (digit : Char → Option ℕ)

/-- The access on a line, in the expected spelling. -/
def AccessAt (lines : List (List Char)) (i : ℕ) (a : AccessLine) : Prop :=
  ∃ line, lines[i]? = some line ∧ fullmatch (accessLine digit) line = some a

/-- The line has the expected spelling. -/
def isSpelled (line : List Char) : Bool := (fullmatch (accessLine digit) line).isSome

/-- Every line that begins as an access does has the expected spelling. -/
def AllSpelled (lines : List (List Char)) : Prop :=
  ∀ line ∈ lines, IsAccess line → isSpelled digit line = true

/-- The line gives the protection of the access on the line before. -/
def Continues (lines : List (List Char)) (i : ℕ) : Prop :=
  ∃ j a next, i = j + 1 ∧ AccessAt digit lines j a ∧ strip a.trailing = [] ∧
    lines[i]? = some next ∧ isProtection (strip next) = true

/-- The line names an object. -/
def HeadingAt (lines : List (List Char)) (i : ℕ) (name : List Char) : Prop :=
  (∃ line, lines[i]? = some line ∧ fullmatch heading line = some name) ∧ ¬ Continues digit lines i

/-- The nearest object that is named before a line. -/
def ObjectAt (lines : List (List Char)) (i : ℕ) (name : List Char) : Prop :=
  ∃ j, j < i ∧ HeadingAt digit lines j name ∧
    ∀ k, j < k → k < i → ∀ other, ¬ HeadingAt digit lines k other

/-- The protection of the access on a line: on the line itself, or on the next one. -/
def ProtectionAt (lines : List (List Char)) (i : ℕ) (protection : List Char) : Prop :=
  ∃ a, AccessAt digit lines i a ∧
    ((¬ Continues digit lines (i + 1) ∧ strip a.trailing = protection) ∨
      (Continues digit lines (i + 1) ∧ ∃ next, lines[i + 1]? = some next ∧ strip next = protection))

/-- The access on a line is unprotected. -/
def ReadsUnprotected (lines : List (List Char)) (i : ℕ) : Prop :=
  ProtectionAt digit lines i "unprotected".toList

/-- The site of the access on a line. -/
def SiteAt (lines : List (List Char)) (i : ℕ) (object operation : List Char) (line : ℕ) : Prop :=
  ObjectAt digit lines i object ∧ ∃ a, AccessAt digit lines i a ∧ a.operation = operation ∧
    natOf digit a.start = some line

/-- The record is the one of the access on a line. -/
structure Recorded (lines : List (List Char)) (i : ℕ) (r : AccessRecord) : Prop where
  site : SiteAt digit lines i r.object r.operation r.lineStart
  protection : ProtectionAt digit lines i r.protection
  unprotected : r.locks = [] ↔ ReadsUnprotected digit lines i

/-- In order, exactly one record for each line that begins as an access does. -/
def Lossless (lines : List (List Char)) (records : List AccessRecord) : Prop :=
  List.Forall₂ (Recorded digit lines) (accessPlaces lines) records

/-- A role that is found protected has no unprotected access at its site. -/
def RolesSafe (lines : List (List Char)) (records : List AccessRecord) : Prop :=
  ∀ source roles result, resolveAccessRoles source roles records = .ok result →
    List.Forall₂ (fun (role : String × Role) out => out.2 ≠ [] →
      ∀ line, lineForSnippet source role.2.lineContains = .ok line →
      ∀ i ∈ accessPlaces lines, SiteAt digit lines i role.2.object role.2.operation line →
        ¬ ReadsUnprotected digit lines i) roles result

end Spelled

/-! ## What the patterns match -/

section Matches

variable {digit : Char → Option ℕ} {lines : List (List Char)} {line : List Char}

/-- A line with the spelling of an access begins as one, and has a colon before the comma in front of
what trails it. -/
theorem accessLine_eq {a : AccessLine} (h : fullmatch (accessLine digit) line = some a) :
    IsAccess line ∧ ∃ front, line = front ++ ',' :: a.trailing ∧ ':' ∈ front := by
  have hmem := mem_of_fullmatch h
  simp only [accessLine, word, mem_bind_iff, mem_lit_iff, mem_orElse_iff, mem_map_iff,
    mem_reluctant1_iff, mem_greedy1_iff, mem_optional_iff, mem_greedy_iff, mem_pure_iff] at hmem
  obtain ⟨-, afterIndent, rfl, operation, afterOperation, hop, -, afterBy, rfl, actor, afterActor,
    ⟨rfl, -, -⟩, -, afterAt, rfl, file, afterFile, ⟨rfl, -, -⟩, -, afterColon, rfl, start, afterStart,
    ⟨rfl, -, -⟩, stop, afterStop, hstop, -, afterComma, rfl, trailing, rest, ⟨rfl, -⟩, rfl, rfl⟩ := hmem
  obtain ⟨range, rfl⟩ : ∃ range, afterStart = range ++ (",".toList ++ (trailing ++ [])) := by
    rcases hstop with ⟨b, ⟨-, middle, rfl, rfl, -⟩, -⟩ | ⟨-, heq⟩
    · exact ⟨"-".toList ++ b, by simp only [List.append_assoc]⟩
    · exact ⟨[], heq.symm⟩
  constructor
  · rcases hop with ⟨-, rfl, rfl⟩ | ⟨-, rfl, rfl⟩
    · exact .inl ⟨_, rfl⟩
    · exact .inr ⟨_, rfl⟩
  · obtain rfl : afterIndent = operation ++ (" by ".toList ++ (actor ++ (" at ".toList ++ (file ++
        (":".toList ++ (start ++ (range ++ (",".toList ++ (trailing ++ []))))))))) := by
      rcases hop with ⟨-, rfl, rfl⟩ | ⟨-, rfl, rfl⟩
      · rfl
      · rfl
    refine ⟨"    ".toList ++ (operation ++ (" by ".toList ++ (actor ++ (" at ".toList ++ (file ++
      (":".toList ++ (start ++ range))))))), ?_, ?_⟩
    · simp only [List.append_assoc, List.append_nil]
      rfl
    · simp only [List.mem_append]
      exact .inr (.inr (.inr (.inr (.inr (.inr (.inl (by decide)))))))

theorem heading_eq {name : List Char} (h : fullmatch heading line = some name) :
    line = "  ".toList ++ (name ++ ":".toList) ∧ ':' ∉ name := by
  have hmem := mem_of_fullmatch h
  simp only [heading, mem_bind_iff, mem_lit_iff, mem_greedy1_iff, mem_pure_iff] at hmem
  obtain ⟨-, afterIndent, rfl, name', afterName, ⟨rfl, -, hall⟩, -, rest, rfl, rfl, rfl⟩ := hmem
  refine ⟨by simp only [List.append_nil], fun hmem => ?_⟩
  exact absurd (hall ':' hmem) (by decide)

/-- The name of an object is no access. -/
theorem accessLine_of_heading {name : List Char} (h : fullmatch heading line = some name) :
    fullmatch (accessLine digit) line = none := by
  cases ha : fullmatch (accessLine digit) line with
  | none => rfl
  | some a =>
    obtain ⟨hline, hname⟩ := heading_eq h
    obtain ⟨-, front, hfront, hcolon⟩ := accessLine_eq ha
    -- the only colon of the name ends the line
    have hlast : line.dropLast = "  ".toList ++ name := by
      rw [hline, ← List.append_assoc]
      exact List.dropLast_concat
    have hmem : ':' ∈ line.dropLast := by
      rw [hfront, List.dropLast_append_of_ne_nil (List.cons_ne_nil _ _)]
      exact List.mem_append_left _ hcolon
    rw [hlast, List.mem_append] at hmem
    rcases hmem with hmem | hmem
    · exact absurd hmem (by decide)
    · exact absurd hmem hname

theorem head?_strip {blank : List Char} {c : Char} (rest : List Char) (hblank : ∀ b ∈ blank, isSpace b = true)
    (hc : isSpace c = false) : (strip (blank ++ c :: rest)).head? = some c := by
  have hdrop : (blank ++ c :: rest).dropWhile isSpace = c :: rest := by
    rw [List.dropWhile_append_of_pos hblank, List.dropWhile_cons_of_neg (by rw [hc]; decide)]
  rw [strip, hdrop, List.reverse_cons, List.dropWhile_append]
  split_ifs with h
  · rw [List.dropWhile_cons_of_neg (by rw [hc]; decide)]
    rfl
  · rw [List.reverse_append]
    rfl

/-- A protection is no access. -/
theorem not_isAccess_of_isProtection (h : isProtection (strip line) = true) : ¬ IsAccess line := by
  have hhead : (strip line).head? = some 'u' ∨ (strip line).head? = some 'p' := by
    simp only [isProtection, Bool.or_eq_true, decide_eq_true_eq, List.isPrefixOf_iff_prefix] at h
    rcases h with h | ⟨rest, h⟩
    · rw [h]
      exact .inl rfl
    · rw [← h]
      exact .inr rfl
  have hblank : ∀ b ∈ [' ', ' ', ' ', ' '], isSpace b = true := List.all_eq_true.mp (by decide)
  rintro (⟨rest, rfl⟩ | ⟨rest, rfl⟩)
  · have hread := head?_strip ("ead by ".toList ++ rest) hblank (show isSpace 'r' = false by decide)
    rw [show "    read by ".toList ++ rest =
      [' ', ' ', ' ', ' '] ++ 'r' :: ("ead by ".toList ++ rest) from rfl, hread] at hhead
    exact absurd hhead (by decide)
  · have hwrite := head?_strip ("rite by ".toList ++ rest) hblank
      (show isSpace 'w' = false by decide)
    rw [show "    write by ".toList ++ rest =
      [' ', ' ', ' ', ' '] ++ 'w' :: ("rite by ".toList ++ rest) from rfl, hwrite] at hhead
    exact absurd hhead (by decide)

theorem accessLine_of_isProtection (h : isProtection (strip line) = true) :
    fullmatch (accessLine digit) line = none := by
  cases ha : fullmatch (accessLine digit) line with
  | none => rfl
  | some a => exact absurd (accessLine_eq ha).1 (not_isAccess_of_isProtection h)

theorem isSpace_getLast?_strip {cs : List Char} {c : Char} (h : (strip cs).getLast? = some c) :
    isSpace c = false := by
  rw [strip, List.getLast?_reverse] at h
  have hnot := List.head?_dropWhile_not isSpace (cs.dropWhile isSpace).reverse
  rw [h] at hnot
  simpa using hnot

/-- A text with a character that is no space has a word. -/
theorem splitWords_ne_nil {cs : List Char} {c : Char} (hmem : c ∈ cs) (hc : isSpace c = false) :
    splitWords cs ≠ [] := by
  have hword : ∃ w ∈ cs.splitOnP isSpace, w ≠ [] := by
    induction cs with
    | nil => exact absurd hmem List.not_mem_nil
    | cons d cs ih =>
      rw [List.splitOnP_cons_eq_if_modifyHead]
      by_cases hd : isSpace d = true
      · rw [if_pos hd]
        rcases List.mem_cons.mp hmem with rfl | hmem
        · exact absurd hd (by rw [hc]; decide)
        · obtain ⟨w, hw, hne⟩ := ih hmem
          exact ⟨w, List.mem_cons_of_mem _ hw, hne⟩
      · rw [if_neg hd]
        obtain ⟨w, ws, hws⟩ := List.exists_cons_of_ne_nil (List.splitOnP_ne_nil isSpace cs)
        exact ⟨d :: w, by rw [hws]; exact List.mem_cons_self, List.cons_ne_nil _ _⟩
  obtain ⟨w, hw, hne⟩ := hword
  refine List.ne_nil_of_mem (List.mem_filter.mpr ⟨hw, ?_⟩)
  simpa using hne

/-- An access has no locks exactly when it is called unprotected. -/
theorem locksOf_eq_nil_iff {cs : List Char} {locks : List (List Char)}
    (h : locksOf (strip cs) = .ok locks) : locks = [] ↔ strip cs = "unprotected".toList := by
  rw [locksOf] at h
  split_ifs at h with hun hby
  · exact iff_of_true (Except.ok.inj h).symm hun
  · refine iff_of_false ?_ hun
    rw [List.isPrefixOf_iff_prefix] at hby
    obtain ⟨names, hnames⟩ := hby
    rw [← Except.ok.inj h, ← hnames, List.drop_left]
    cases hlast : names.getLast? with
    | none =>
      rw [List.getLast?_eq_none_iff] at hlast
      rw [hlast] at hnames
      have hspace : isSpace ' ' = false := isSpace_getLast?_strip (c := ' ') (by rw [← hnames]; decide)
      exact absurd hspace (by decide)
    | some c =>
      have hc : isSpace c = false := isSpace_getLast?_strip (by
        rw [← hnames, List.getLast?_append, hlast]
        rfl)
      exact splitWords_ne_nil (List.mem_of_getLast? hlast) hc

theorem accessRecord_eq_ok {current : Option (List Char)} {a : AccessLine} {protection : List Char}
    {r : AccessRecord} (h : accessRecord digit current a protection = .ok r) :
    current = some r.object ∧ a.operation = r.operation ∧ natOf digit a.start = some r.lineStart ∧
      r.protection = protection ∧ locksOf protection = .ok r.locks := by
  obtain ⟨object, hobject, h⟩ := bind_eq_ok_iff.mp h
  obtain ⟨locks, hlocks, h⟩ := bind_eq_ok_iff.mp h
  obtain ⟨start, hstart, h⟩ := bind_eq_ok_iff.mp h
  obtain ⟨stop, -, hlast⟩ := bind_eq_ok_iff.mp h
  rw [orRaise_eq_ok_iff] at hobject
  rw [lineNumber, orRaise_eq_ok_iff] at hstart
  rw [← Except.ok.inj hlast]
  exact ⟨hobject, rfl, hstart, rfl, hlocks⟩

end Matches

/-! ## The loop -/

section Loop

variable {digit : Char → Option ℕ} {lines : List (List Char)}

/-- The object that the loop has in hand at a line. -/
def Current (digit : Char → Option ℕ) (lines : List (List Char)) (n : ℕ) :
    Option (List Char) → Prop
  | some name => ObjectAt digit lines n name
  | none => ∀ j, j < n → ∀ name, ¬ HeadingAt digit lines j name

theorem Current.heading {n : ℕ} {name : List Char} (h : HeadingAt digit lines n name) :
    Current digit lines (n + 1) (some name) :=
  ⟨n, Nat.lt_succ_self n, h, fun k hk hlt => absurd hlt (by omega)⟩

/-- A line that names no object leaves the object as it is. -/
theorem Current.skip {n : ℕ} {current : Option (List Char)} (h : Current digit lines n current)
    (hskip : ∀ name, ¬ HeadingAt digit lines n name) : Current digit lines (n + 1) current := by
  cases current with
  | none =>
    intro j hj name
    rcases Nat.lt_succ_iff_lt_or_eq.mp hj with hlt | rfl
    · exact h j hlt name
    · exact hskip name
  | some name =>
    obtain ⟨j, hj, hname, hnone⟩ := h
    refine ⟨j, hj.trans (Nat.lt_succ_self n), hname, fun k hjk hk other => ?_⟩
    rcases Nat.lt_succ_iff_lt_or_eq.mp hk with hlt | rfl
    · exact hnone k hjk hlt other
    · exact hskip other

theorem AccessAt.unique {i : ℕ} {a b : AccessLine} (ha : AccessAt digit lines i a)
    (hb : AccessAt digit lines i b) : a = b := by
  obtain ⟨line, hline, ha⟩ := ha
  obtain ⟨line', hline', hb⟩ := hb
  rw [hline, Option.some.injEq] at hline'
  rw [← hline', ha, Option.some.injEq] at hb
  exact hb

/-- The line behind one that is no access continues nothing. -/
theorem not_continues_of_none {n : ℕ} {line : List Char} (hline : lines[n]? = some line)
    (hnone : fullmatch (accessLine digit) line = none) : ¬ Continues digit lines (n + 1) := by
  rintro ⟨j, a, next, hj, ⟨line', hline', ha⟩, -⟩
  obtain rfl : n = j := Nat.succ_injective hj
  rw [hline, Option.some.injEq] at hline'
  rw [← hline', hnone] at ha
  exact absurd ha (by simp)

theorem not_headingAt_of_none {n : ℕ} {line : List Char} (hline : lines[n]? = some line)
    (hnone : fullmatch heading line = none) (name : List Char) : ¬ HeadingAt digit lines n name := by
  rintro ⟨⟨line', hline', hname⟩, -⟩
  rw [hline, Option.some.injEq] at hline'
  rw [← hline', hnone] at hname
  exact absurd hname (by simp)

theorem length_snoc (before : List (List Char)) (line : List Char) :
    (before ++ [line]).length = before.length + 1 := by
  rw [List.length_append, List.length_singleton]

theorem placesFrom_cons (kind : List Char → Bool) (n : ℕ) (line : List Char)
    (rest : List (List Char)) :
    placesFrom kind n (line :: rest) =
      if kind line = true then n :: placesFrom kind (n + 1) rest
      else placesFrom kind (n + 1) rest := by
  rw [placesFrom, List.zipIdx_cons, List.filter_cons]
  split_ifs with h
  · rfl
  · rfl

theorem mem_placesFrom {kind : List Char → Bool} {i : ℕ} :
    i ∈ placesFrom kind 0 lines ↔ ∃ line, lines[i]? = some line ∧ kind line = true := by
  simp only [placesFrom, List.mem_map, List.mem_filter, Prod.exists,
    List.mem_zipIdx_iff_getElem?, exists_eq_right]

theorem getElem?_of_append {before rest : List (List Char)} {line : List Char}
    (hlines : lines = before ++ line :: rest) : lines[before.length]? = some line := by
  rw [hlines]
  simp

theorem isSpelled_of_some {line : List Char} {a : AccessLine}
    (h : fullmatch (accessLine digit) line = some a) : isSpelled digit line = true := by
  rw [isSpelled, h]
  rfl

theorem not_isSpelled {line : List Char} (h : fullmatch (accessLine digit) line = none) :
    ¬ isSpelled digit line = true := by
  rw [isSpelled, h]
  exact Bool.false_ne_true

theorem placesFrom_of_allSpelled (hall : AllSpelled digit lines) :
    placesFrom (isSpelled digit) 0 lines = accessPlaces lines := by
  refine congrArg (List.map Prod.snd) (List.filter_congr fun l hl => ?_)
  have hmem : l.1 ∈ lines := List.mem_of_getElem? (List.mem_zipIdx_iff_getElem?.mp hl)
  rw [Bool.eq_iff_iff, decide_eq_true_eq]
  refine ⟨fun h => ?_, hall l.1 hmem⟩
  obtain ⟨a, ha⟩ := Option.isSome_iff_exists.mp h
  exact (accessLine_eq ha).1

theorem ProtectionAt.unique {i : ℕ} {p q : List Char} (hp : ProtectionAt digit lines i p)
    (hq : ProtectionAt digit lines i q) : p = q := by
  obtain ⟨a, ha, hp⟩ := hp
  obtain ⟨b, hb, hq⟩ := hq
  obtain rfl := ha.unique hb
  rcases hp with ⟨hnot, rfl⟩ | ⟨hcont, next, hnext, rfl⟩
  · rcases hq with ⟨-, rfl⟩ | ⟨hcont, -⟩
    · rfl
    · exact absurd hcont hnot
  · rcases hq with ⟨hnot, -⟩ | ⟨-, next', hnext', rfl⟩
    · exact absurd hcont hnot
    · rw [hnext, Option.some.injEq] at hnext'
      rw [hnext']

/-- What the loop makes of an access is its record. -/
theorem recorded_of_accessRecord {n : ℕ} {current : Option (List Char)} {a : AccessLine}
    {cs : List Char} {r : AccessRecord} (hcurrent : Current digit lines n current)
    (ha : AccessAt digit lines n a) (hprotection : ProtectionAt digit lines n (strip cs))
    (h : accessRecord digit current a (strip cs) = .ok r) : Recorded digit lines n r := by
  obtain ⟨rfl, hop, hstart, hr, hlocks⟩ := accessRecord_eq_ok h
  refine ⟨⟨hcurrent, a, ha, hop, hstart⟩, hr ▸ hprotection, ?_⟩
  rw [locksOf_eq_nil_iff hlocks]
  refine ⟨fun heq => ?_, fun hun => hprotection.unique hun⟩
  rw [ReadsUnprotected, ← heq]
  exact hprotection

/-- **The loop records every access of the expected spelling.**  The induction follows the loop; a
line that continues an access is passed over together with it. -/
theorem readAccesses_recorded {before rest : List (List Char)} {current : Option (List Char)}
    {records : List AccessRecord} (hlines : lines = before ++ rest)
    (hcurrent : Current digit lines before.length current)
    (hfresh : ¬ Continues digit lines before.length)
    (h : readAccesses digit current rest = .ok records) :
    List.Forall₂ (Recorded digit lines) (placesFrom (isSpelled digit) before.length rest) records := by
  fun_induction readAccesses digit current rest generalizing before records with
  | case1 =>
    rw [← Except.ok.inj h]
    exact .nil
  | case2 current line rest name hname ih =>
    have hline := getElem?_of_append hlines
    have hnone : fullmatch (accessLine digit) line = none := accessLine_of_heading hname
    rw [placesFrom_cons, if_neg (not_isSpelled hnone), ← length_snoc before line]
    refine ih (by rw [hlines]; simp) ?_ ?_ h
    · rw [length_snoc]
      exact Current.heading ⟨⟨line, hline, hname⟩, hfresh⟩
    · rw [length_snoc]
      exact not_continues_of_none hline hnone
  | case3 current line rest hname hnone ih =>
    have hline := getElem?_of_append hlines
    rw [placesFrom_cons, if_neg (not_isSpelled hnone), ← length_snoc before line]
    refine ih (by rw [hlines]; simp) ?_ ?_ h
    · rw [length_snoc]
      exact hcurrent.skip (not_headingAt_of_none hline hname)
    · rw [length_snoc]
      exact not_continues_of_none hline hnone
  | case4 current line hname a ha =>
    have hline := getElem?_of_append hlines
    obtain ⟨r, hr, hlast⟩ := bind_eq_ok_iff.mp h
    rw [placesFrom_cons, if_pos (isSpelled_of_some ha), ← Except.ok.inj hlast]
    refine .cons (recorded_of_accessRecord hcurrent ⟨line, hline, ha⟩ ?_ hr) .nil
    refine ⟨a, ⟨line, hline, ha⟩, .inl ⟨?_, rfl⟩⟩
    rintro ⟨j, b, next, -, -, -, hnext, -⟩
    rw [hlines, List.getElem?_eq_none (by simp)] at hnext
    exact absurd hnext (by simp)
  | case5 current line hname a ha next rest hcont ih =>
    have hline := getElem?_of_append hlines
    have hlines' : lines = (before ++ [line]) ++ next :: rest := by rw [hlines]; simp
    have hnext := getElem?_of_append hlines'
    rw [length_snoc] at hnext
    obtain ⟨r, hr, hrest⟩ := bind_eq_ok_iff.mp h
    obtain ⟨others, hothers, hlast⟩ := bind_eq_ok_iff.mp hrest
    have hcontinues : Continues digit lines (before.length + 1) :=
      ⟨before.length, a, next, rfl, ⟨line, hline, ha⟩, hcont.1, hnext, hcont.2⟩
    rw [placesFrom_cons, if_pos (isSpelled_of_some ha), placesFrom_cons,
      if_neg (not_isSpelled (accessLine_of_isProtection hcont.2)), ← Except.ok.inj hlast]
    refine .cons (recorded_of_accessRecord hcurrent ⟨line, hline, ha⟩ ?_ hr) ?_
    · exact ⟨a, ⟨line, hline, ha⟩, .inr ⟨hcontinues, next, hnext, rfl⟩⟩
    · have hlen : before.length + 1 + 1 = ((before ++ [line]) ++ [next]).length := by
        rw [length_snoc, length_snoc]
      rw [hlen]
      refine ih (by rw [hlines]; simp) ?_ ?_ hothers
      · rw [← hlen]
        exact (hcurrent.skip (not_headingAt_of_none hline hname)).skip
          fun name hheading => hheading.2 hcontinues
      · rw [← hlen]
        exact not_continues_of_none hnext (accessLine_of_isProtection hcont.2)
  | case6 current line hname a ha next rest hcont ih =>
    have hline := getElem?_of_append hlines
    have hlines' : lines = (before ++ [line]) ++ next :: rest := by rw [hlines]; simp
    have hnext := getElem?_of_append hlines'
    rw [length_snoc] at hnext
    obtain ⟨r, hr, hrest⟩ := bind_eq_ok_iff.mp h
    obtain ⟨others, hothers, hlast⟩ := bind_eq_ok_iff.mp hrest
    have hfresh' : ¬ Continues digit lines (before.length + 1) := by
      rintro ⟨j, b, next', hj, hb, hblank, hnext', hprotection⟩
      obtain rfl : before.length = j := Nat.succ_injective hj
      obtain rfl := hb.unique ⟨line, hline, ha⟩
      rw [hnext, Option.some.injEq] at hnext'
      exact hcont ⟨hblank, hnext' ▸ hprotection⟩
    rw [placesFrom_cons, if_pos (isSpelled_of_some ha), ← Except.ok.inj hlast]
    refine .cons (recorded_of_accessRecord hcurrent ⟨line, hline, ha⟩ ?_ hr) ?_
    · exact ⟨a, ⟨line, hline, ha⟩, .inl ⟨hfresh', rfl⟩⟩
    · rw [← length_snoc before line]
      refine ih hlines' ?_ ?_ hothers
      · rw [length_snoc]
        exact hcurrent.skip (not_headingAt_of_none hline hname)
      · rw [length_snoc]
        exact hfresh'

/-! ## No access is lost -/

theorem ObjectAt.unique {i : ℕ} {o o' : List Char} (h : ObjectAt digit lines i o)
    (h' : ObjectAt digit lines i o') : o = o' := by
  obtain ⟨j, hj, hname, hnone⟩ := h
  obtain ⟨k, hk, hname', hnone'⟩ := h'
  rcases lt_trichotomy j k with hlt | rfl | hlt
  · exact absurd hname' (hnone k hlt hk o')
  · obtain ⟨⟨line, hline, ho⟩, -⟩ := hname
    obtain ⟨⟨line', hline', ho'⟩, -⟩ := hname'
    rw [hline, Option.some.injEq] at hline'
    rw [← hline', ho, Option.some.injEq] at ho'
    exact ho'
  · exact absurd hname (hnone' j hlt hj o)

/-- A lossless list of records names every unprotected access, so that no role hides one. -/
theorem Lossless.rolesSafe {records : List AccessRecord} (h : Lossless digit lines records) :
    RolesSafe digit lines records := by
  intro source roles result hresult
  rw [resolveAccessRoles, mapM_eq_ok_iff] at hresult
  refine hresult.imp fun role out hout hlocks line hline i hi hsite hun => ?_
  obtain ⟨line', hline', hlast⟩ := bind_eq_ok_iff.mp hout
  rw [hline, Except.ok.injEq] at hline'
  subst hline'
  obtain ⟨r, hr, hrecorded⟩ := exists_of_forall₂_left h hi
  have hat : r.IsAt role.2 line := by
    obtain ⟨hobject, a, ha, hop, hstart⟩ := hsite
    obtain ⟨hobject', b, hb, hop', hstart'⟩ := hrecorded.site
    obtain rfl := ha.unique hb
    rw [hstart', Option.some.injEq] at hstart
    exact ⟨hobject'.unique hobject, hop'.symm.trans hop, hstart⟩
  have hmem : r ∈ records.filter fun r => r.IsAt role.2 line :=
    List.mem_filter.mpr ⟨hr, decide_eq_true hat⟩
  split at hlast
  · next r' hselected =>
    rw [hselected, List.mem_singleton] at hmem
    rw [← Except.ok.inj hlast, ← hmem] at hlocks
    exact hlocks (hrecorded.unprotected.mpr hun)
  · exact absurd hlast (by simp)

theorem Lossless.allSpelled {records : List AccessRecord} (h : Lossless digit lines records) :
    AllSpelled digit lines := by
  intro line hline hacc
  obtain ⟨i, hi⟩ := List.mem_iff_getElem?.mp hline
  have hplace : i ∈ accessPlaces lines := mem_placesFrom.mpr ⟨line, hi, decide_eq_true hacc⟩
  obtain ⟨r, -, hrecorded⟩ := exists_of_forall₂_left h hplace
  obtain ⟨-, a, ⟨line', hline', ha⟩, -⟩ := hrecorded.site
  rw [hi, Option.some.injEq] at hline'
  exact hline' ▸ isSpelled_of_some ha

end Loop

/-- The records of a report are those of the accesses of the expected spelling. -/
theorem parseFinalAccesses_recorded {digit : Char → Option ℕ} {text : List Char}
    {records : List AccessRecord} (h : parseFinalAccesses digit text = .ok records) :
    ∃ lines, sectionLines text = .ok lines ∧
      List.Forall₂ (Recorded digit lines) (placesFrom (isSpelled digit) 0 lines) records := by
  obtain ⟨lines, hlines, h⟩ := bind_eq_ok_iff.mp h
  obtain ⟨found, hfound, hlast⟩ := bind_eq_ok_iff.mp h
  split_ifs at hlast
  obtain rfl := Except.ok.inj hlast
  have hcurrent : Current digit lines ([] : List (List Char)).length none :=
    fun j hj => absurd hj (Nat.not_lt_zero j)
  have hfresh : ¬ Continues digit lines ([] : List (List Char)).length := by
    rintro ⟨j, -, -, hj, -⟩
    exact absurd hj (Nat.succ_ne_zero j).symm
  exact ⟨lines, hlines, readAccesses_recorded rfl hcurrent hfresh hfound⟩

/-- **No access of the report is lost exactly where all of them have the expected spelling.**  Then
there is one record for each line that begins as an access does, in order, with the nearest object
before it and with no locks only where it reads `unprotected`, and a role that is found protected has
no unprotected access at its site. -/
theorem parseFinalAccesses_lossless_iff {digit : Char → Option ℕ} {text : List Char}
    {records : List AccessRecord} (h : parseFinalAccesses digit text = .ok records) :
    ∃ lines, sectionLines text = .ok lines ∧
      (Lossless digit lines records ∧ RolesSafe digit lines records ↔ AllSpelled digit lines) := by
  obtain ⟨lines, hlines, hrecorded⟩ := parseFinalAccesses_recorded h
  refine ⟨lines, hlines, fun hlossless => hlossless.1.allSpelled, fun hall => ?_⟩
  rw [placesFrom_of_allSpelled hall] at hrecorded
  exact ⟨hrecorded, Lossless.rolesSafe hrecorded⟩

/-- A report with a protected access, and an unprotected one that is broken in front of its place. -/
def brokenReport : List Char :=
  List.flatten [
    "[mt] Possible read/write data races:\n".toList,
    "  shared:\n".toList,
    "    read by worker at fixture.c:7, protected by lock\n".toList,
    "    read by <modeled interrupt handler> at\n".toList,
    "       fixture.c:7, unprotected\n".toList,
    "[mt] Possible write/write data races:\n".toList]

/-- The broken access has no record. -/
theorem not_parseFinalAccesses_lossless :
    ¬ ∀ text records, parseFinalAccesses asciiDigit text = .ok records →
      ∃ lines, sectionLines text = .ok lines ∧ Lossless asciiDigit lines records ∧
        RolesSafe asciiDigit lines records := by
  intro h
  have hparse : parseFinalAccesses asciiDigit brokenReport =
      .ok [⟨"shared".toList, "read".toList, "worker".toList, "fixture.c".toList, 7, 7,
        ["lock".toList], "protected by lock".toList⟩] := by
    decide +kernel
  obtain ⟨lines, hlines, hlossless, -⟩ := h _ _ hparse
  have hlen := hlossless.length_eq
  have hplaces : (sectionLines brokenReport).map (fun lines => (accessPlaces lines).length) =
      .ok 2 := by
    decide +kernel
  rw [hlines] at hplaces
  have htwo : (accessPlaces lines).length = 2 := Except.ok.inj hplaces
  rw [htwo] at hlen
  exact absurd hlen (by decide)

/-- A report with both layouts of a protection, behind an older section. -/
def wholeReport : List Char :=
  List.flatten [
    "[mt] Possible read/write data races:\n".toList,
    "  old:\n".toList,
    "    read by old at old.c:1, unprotected\n".toList,
    "[mt] Possible write/write data races:\n".toList,
    "[mt] Possible read/write data races:\n".toList,
    "  hdq:\n".toList,
    "    read by irq at hdq.c:154,\n".toList,
    "       protected by hdq-spinlock\n".toList,
    "    write by <main> at hdq.c:120, unprotected\n".toList,
    "[mt] Possible write/write data races:\n".toList]

theorem parseFinalAccesses_lossless_iff_example :
    ∃ records lines, parseFinalAccesses asciiDigit wholeReport = .ok records ∧
      records.length = 2 ∧ Lossless asciiDigit lines records := by
  have hparse : parseFinalAccesses asciiDigit wholeReport =
      .ok [⟨"hdq".toList, "read".toList, "irq".toList, "hdq.c".toList, 154, 154,
        ["hdq-spinlock".toList], "protected by hdq-spinlock".toList⟩,
        ⟨"hdq".toList, "write".toList, "<main>".toList, "hdq.c".toList, 120, 120, [],
          "unprotected".toList⟩] := by
    decide +kernel
  have hspelled : (sectionLines wholeReport).map (fun lines => lines.all fun line =>
      !decide (IsAccess line) || isSpelled asciiDigit line) = .ok true := by
    decide +kernel
  obtain ⟨lines, hlines, hiff⟩ := parseFinalAccesses_lossless_iff hparse
  refine ⟨_, lines, hparse, rfl, (hiff.mpr fun line hline hacc => ?_).1⟩
  rw [hlines] at hspelled
  have hall := List.all_eq_true.mp (Except.ok.inj hspelled) line hline
  rw [decide_eq_true hacc] at hall
  exact hall

end Concurrency
end Fragma
