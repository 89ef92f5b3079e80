import Fragma.Common24.Source
import Fragma.Keyed.Inventories
import Mathlib.Data.List.Dedup

/-!
# The expected inventory

`_expected` of `fragma/common24.py`: the goals, the rows and the smoke goals that the six functions have,
each at its place behind the line of its function.

* `Expected`, `expectedOf`, `expected`: the inventory of a function, and of a source.
* `expected_eq_ok`: the check of the sizes passes for every source.
* `smoke_unique_of_function`: no smoke goal is expected in two ways.
-/

namespace Fragma
namespace Common24

open Python Keyed Provenance

/-- `READER_ASSERTIONS` -/
def readerAssertions : List String :=
  ["decode_decompose_low", "decode_decompose_middle", "extracted_high", "extracted_middle", "extracted_low"]

/-- `WRITER_ASSERTIONS` -/
def writerAssertions : List String := ["decompose_low", "decompose_middle", "decompose_high"]

/-- An expression for the name of a smoke goal: a text, and digits behind it. -/
structure SmokePattern where
  text : String
  numbered : Bool
  deriving DecidableEq

/-- Where a smoke goal is expected, and how it is named. -/
structure SmokeEntry where
  function : String
  line : ℤ
  pattern : SmokePattern
  deriving DecidableEq

/-- The place and the property of a goal. -/
structure GoalEntry where
  function : String
  line : ℤ
  property : String
  deriving DecidableEq

/-- A function, a line and a kind of property. -/
structure RowKey where
  function : String
  line : ℤ
  kind : String
  deriving DecidableEq

/-- What names an assertion, or what a call is of. -/
structure Mark where
  function : String
  line : ℤ
  name : String
  deriving DecidableEq

/-- A place where properties of the runtime are guarded. -/
structure Guard where
  function : String
  line : ℤ
  requiredKinds : List (String × ℕ)
  deriving DecidableEq

/-- What is expected. -/
structure Expected where
  goals : List (String × GoalEntry)
  rows : List RowKey
  assertions : List Mark
  guards : List Guard
  calls : List Mark
  smoke : List SmokeEntry

/-- The goals of an identity that is also the property. -/
def goalAt (name : String) (line : ℤ) (identity : String) : String × GoalEntry :=
  ("typed_" ++ identity, ⟨name, line, identity⟩)

/-- `("_" + str(index + 1) if index else "")` -/
def part (index : ℕ) : String := if index = 0 then "" else "_" ++ toString (index + 1)

/-- `name.lstrip("_")` -/
def stemOf (name : String) : String := String.ofList (name.toList.dropWhile (· = '_'))

/-- The kinds at a place, and how many there are of each. -/
def requiredKinds (rows : List RowKey) (name : String) (line : ℤ) : List (String × ℕ) :=
  (["mem_access", "pointer_value", "shift"].map fun kind => (kind, rows.count ⟨name, line, kind⟩)).filter
    fun p => p.2 ≠ 0

/-- The assertions of a function, one on each line. -/
def assertionsAt (name : String) (line : ℤ) (labels : List String) : List Mark :=
  labels.zipIdx.map fun p => ⟨name, line + 2 + p.2, p.1⟩

/-- What is expected of every function besides what is expected of its kind. -/
def closeFunction (name stem : String) (line : ℤ) (labels : List String) (ensures : List (ℤ × String))
    (guardLines : List ℤ) (e : Expected) : Expected :=
  let rows := ⟨name, line, "postcondition"⟩ :: e.rows ++
    ensures.map (fun p => ⟨name, p.1, "postcondition"⟩) ++
    (assertionsAt name line labels).map fun m => ⟨name, m.line, "user assertion"⟩
  { e with
    goals := e.goals ++ ensures.map (fun p => goalAt name p.1 (stem ++ "_ensures_" ++ p.2)) ++
      (assertionsAt name line labels).map fun m => goalAt name m.line (stem ++ "_assert_" ++ m.name)
    rows := rows
    assertions := assertionsAt name line labels
    guards := guardLines.map fun l => ⟨name, l, requiredKinds rows name l⟩ }

/-- A reader of three bytes. -/
def expectedReader (name : String) (line : ℤ) : Expected :=
  let stem := stemOf name
  let accesses := [("mem_access", 3), ("pointer_value", 3), ("shift", 2)]
  closeFunction name stem line readerAssertions
    [(line - 3, "decoded_value"), (line - 2, "decoded_range")] [line + 7]
    { goals := goalAt name line (stem ++ "_assigns") :: accesses.flatMap fun p =>
        (List.range p.2).map fun index => goalAt name (line + 7) (stem ++ "_assert_rte_" ++ p.1 ++ part index)
      rows := [⟨name, line - 6, "precondition"⟩, ⟨name, line - 5, "termination clause"⟩,
        ⟨name, line, "assigns clause"⟩] ++
        accesses.flatMap fun p => List.replicate p.2 ⟨name, line + 7, p.1⟩
      assertions := []
      guards := []
      calls := []
      smoke := [⟨name, line, ⟨stem ++ "_wp_smoke_default_requires", false⟩⟩] }

/-- A writer of three bytes. -/
def expectedWriter (name : String) (line : ℤ) : Expected :=
  let stem := stemOf name
  let guarded := [(0, line + 5), (1, line + 6), (2, line + 7)]
  closeFunction name stem line writerAssertions
    [(line - 4, "byte_0"), (line - 3, "byte_1"), (line - 2, "byte_2")] (guarded.map Prod.snd)
    { goals := (List.range 9).map (fun index => ("typed_" ++ stem ++ "_assigns_part" ++ toString (index + 1),
          ⟨name, line - 5, stem ++ "_assigns"⟩)) ++
        guarded.flatMap fun p => ["mem_access", "pointer_value"].map fun kind =>
          goalAt name p.2 (stem ++ "_assert_rte_" ++ kind ++ part p.1)
      rows := [⟨name, line - 7, "precondition"⟩, ⟨name, line - 6, "termination clause"⟩,
        ⟨name, line - 5, "assigns clause"⟩] ++
        guarded.flatMap fun p => ["mem_access", "pointer_value"].map fun kind => ⟨name, p.2, kind⟩
      assertions := []
      guards := []
      calls := []
      smoke := [⟨name, line, ⟨stem ++ "_wp_smoke_default_requires", false⟩⟩] }

/-- `name.removeprefix("fragma_roundtrip_")` -/
def endianOf (name : String) : String :=
  if startsWith "fragma_roundtrip_" name then String.ofList (name.toList.drop "fragma_roundtrip_".length)
  else name

/-- A witness that writes and reads. -/
def expectedWitness (name : String) (line : ℤ) : Expected :=
  let stem := stemOf name
  let called := [(line + 3, "put", "writable"), (line + 4, "get", "readable")].map fun p =>
    (p.1, "__" ++ p.2.1 ++ "_unaligned_" ++ endianOf name, p.2.2)
  let parts := fun (mode : String) (count : ℕ) => (List.range count).map fun index =>
    ("typed_" ++ stem ++ "_assigns_" ++ mode ++ "_part" ++ toString (index + 1),
      (⟨name, line, stem ++ "_assigns"⟩ : GoalEntry))
  closeFunction name stem line [] [(line - 2, "roundtrip")] []
    { goals := [goalAt name (line - 4) (stem ++ "_terminates"), goalAt name line (stem ++ "_exits")] ++
        parts "normal" 3 ++ parts "exit" 2 ++
        called.map fun p => ("typed_" ++ stem ++ "_call_" ++ p.2.1 ++ "_" ++ stemOf p.2.1 ++ "_requires_" ++ p.2.2,
          ⟨name, p.1, stemOf p.2.1 ++ "_requires_" ++ p.2.2⟩)
      rows := [⟨name, line - 4, "termination clause"⟩, ⟨name, line, "assigns clause"⟩] ++
        called.map fun p => ⟨name, p.1, "precondition of " ++ p.2.1⟩
      assertions := []
      guards := []
      calls := called.map fun p => ⟨name, p.1, p.2.1⟩
      smoke := called.map (fun p => ⟨name, p.1, ⟨stemOf p.2.1 ++ "_wp_smoke_dead_call_s", true⟩⟩) ++
        List.replicate 2 ⟨name, line + 4, ⟨stem ++ "_wp_smoke_dead_code_s", true⟩⟩ }

/-- What is expected of a function. -/
def expectedOf (name : String) (line : ℤ) : Expected :=
  if startsWith "__get" name then expectedReader name line
  else if startsWith "__put" name then expectedWriter name line
  else expectedWitness name line

/-- What is expected of some functions. -/
def expectedAll (fs : List SourceFunction) : Expected :=
  { goals := fs.flatMap fun f => (expectedOf f.function f.line).goals
    rows := fs.flatMap fun f => (expectedOf f.function f.line).rows
    assertions := fs.flatMap fun f => (expectedOf f.function f.line).assertions
    guards := fs.flatMap fun f => (expectedOf f.function f.line).guards
    calls := fs.flatMap fun f => (expectedOf f.function f.line).calls
    smoke := fs.flatMap fun f => (expectedOf f.function f.line).smoke }

/-- `_expected(source)` -/
def expected (source : Source) : Except Exn Expected := do
  let e := expectedAll source.functions
  require ((e.goals.map Prod.fst).dedup.length = 94 ∧ e.rows.length = 82 ∧ e.smoke.length = 12)
    "internal common24 exporter inventory is incomplete"
  pure e

/-! ## The sizes -/

/-- Where a function stands does not change how its goals are named. -/
theorem keys_expectedOf (name : String) (line : ℤ) :
    (expectedOf name line).goals.map Prod.fst = (expectedOf name 0).goals.map Prod.fst := by
  unfold expectedOf
  split_ifs
  · simp [expectedReader, closeFunction, goalAt, assertionsAt, Function.comp_def]
  · simp [expectedWriter, closeFunction, goalAt, assertionsAt, Function.comp_def]
  · simp [expectedWitness, closeFunction, goalAt, assertionsAt, Function.comp_def]

theorem length_rows_expectedOf (name : String) (line : ℤ) :
    (expectedOf name line).rows.length = (expectedOf name 0).rows.length := by
  unfold expectedOf
  split_ifs
  · simp [expectedReader, closeFunction, assertionsAt]
  · simp [expectedWriter, closeFunction, assertionsAt]
  · simp [expectedWitness, closeFunction, assertionsAt]

theorem length_smoke_expectedOf (name : String) (line : ℤ) :
    (expectedOf name line).smoke.length = (expectedOf name 0).smoke.length := by
  unfold expectedOf
  split_ifs
  · simp [expectedReader, closeFunction]
  · simp [expectedWriter, closeFunction]
  · simp [expectedWitness, closeFunction]

section Source

variable {fs : List SourceFunction}

/-- What does not depend on the lines depends on the names only. -/
theorem flatMap_eq_of_names {γ : Type} {g : String → ℤ → List γ} (hg : ∀ name line, g name line = g name 0)
    (h : fs.map SourceFunction.function = functions) :
    (fs.flatMap fun f => g f.function f.line) = functions.flatMap fun name => g name 0 := by
  rw [← h, List.flatMap_map]
  exact List.flatMap_congr fun f _ => hg f.function f.line

theorem keys_expectedAll (h : fs.map SourceFunction.function = functions) :
    (expectedAll fs).goals.map Prod.fst = functions.flatMap fun name => (expectedOf name 0).goals.map Prod.fst := by
  rw [← flatMap_eq_of_names (g := fun name line => (expectedOf name line).goals.map Prod.fst) keys_expectedOf h,
    expectedAll, List.map_flatMap]

/-- The bytes of a text as one number, which is compared at once. -/
def bytesNumber (s : String) : ℕ := s.toByteArray.data.toList.foldl (fun n b => 256 * n + b.toNat) 0

/-- No two goals are expected under one name. -/
theorem nodup_keys_expectedAll (h : fs.map SourceFunction.function = functions) :
    ((expectedAll fs).goals.map Prod.fst).Nodup := by
  rw [keys_expectedAll h]
  refine List.Nodup.of_map bytesNumber ?_
  decide +kernel

theorem length_goals_expectedAll (h : fs.map SourceFunction.function = functions) :
    (expectedAll fs).goals.length = 94 := by
  rw [← List.length_map (f := Prod.fst), keys_expectedAll h]
  decide +kernel

theorem length_flatMap_of_names {γ : Type} {g : String → ℤ → List γ}
    (hg : ∀ name line, (g name line).length = (g name 0).length)
    (h : fs.map SourceFunction.function = functions) :
    (fs.flatMap fun f => g f.function f.line).length = (functions.flatMap fun name => g name 0).length := by
  rw [← h, List.flatMap_map, List.length_flatMap, List.length_flatMap]
  exact congrArg List.sum (List.map_congr_left fun f _ => hg f.function f.line)

theorem length_rows_expectedAll (h : fs.map SourceFunction.function = functions) :
    (expectedAll fs).rows.length = 82 := by
  refine (length_flatMap_of_names (g := fun name line => (expectedOf name line).rows) length_rows_expectedOf
    h).trans ?_
  decide +kernel

theorem length_smoke_expectedAll (h : fs.map SourceFunction.function = functions) :
    (expectedAll fs).smoke.length = 12 := by
  refine (length_flatMap_of_names (g := fun name line => (expectedOf name line).smoke) length_smoke_expectedOf
    h).trans ?_
  decide +kernel

/-- The check of the sizes passes. -/
theorem expected_eq_ok {source : Source} (h : source.functions.map SourceFunction.function = functions) :
    expected source = .ok (expectedAll source.functions) := by
  have hsizes : ((expectedAll source.functions).goals.map Prod.fst).dedup.length = 94 ∧
      (expectedAll source.functions).rows.length = 82 ∧ (expectedAll source.functions).smoke.length = 12 := by
    refine ⟨?_, length_rows_expectedAll h, length_smoke_expectedAll h⟩
    rw [List.Nodup.dedup (nodup_keys_expectedAll h), List.length_map, length_goals_expectedAll h]
  exact bind_eq_ok_iff.mpr ⟨(), require_eq_ok_iff.mpr hsizes, rfl⟩

end Source

/-! ## Smoke goals -/

/-- `re.fullmatch(pattern, text)` -/
def SmokePattern.Matches (host : Host) (p : SmokePattern) (text : String) : Prop :=
  if p.numbered = true then
    p.text.toList <+: text.toList ∧ text.toList.drop p.text.length ≠ [] ∧
      (text.toList.drop p.text.length).all host.isDecimal = true
  else text = p.text

instance decidableMatches (host : Host) (p : SmokePattern) (text : String) : Decidable (p.Matches host text) :=
  inferInstanceAs (Decidable (if p.numbered = true then
    p.text.toList <+: text.toList ∧ text.toList.drop p.text.length ≠ [] ∧
      (text.toList.drop p.text.length).all host.isDecimal = true
    else text = p.text))

/-- A text that begins with each of two words has their first characters. -/
theorem head?_eq_of_begins {α : Type*} {as bs cs : List α} (ha : as <+: cs) (hb : bs <+: cs) (hne : as ≠ [])
    (hne' : bs ≠ []) : as.head? = bs.head? := by
  obtain ⟨a, as, rfl⟩ := List.exists_cons_of_ne_nil hne
  obtain ⟨b, bs, rfl⟩ := List.exists_cons_of_ne_nil hne'
  obtain ⟨ra, rfl⟩ := ha
  obtain ⟨rb, hrb⟩ := hb
  exact congrArg some (List.cons.inj hrb).1.symm

/-- The two expressions for one line of a witness begin differently. -/
theorem not_matches_both {host : Host} {name text : String} (hname : name ∈ projectFunctions)
    (h : (SmokePattern.mk (stemOf ("__" ++ "get" ++ "_unaligned_" ++ endianOf name) ++ "_wp_smoke_dead_call_s")
      true).Matches host text)
    (h' : (SmokePattern.mk (stemOf name ++ "_wp_smoke_dead_code_s") true).Matches host text) : False := by
  rw [SmokePattern.Matches, if_pos rfl] at h h'
  simp only [projectFunctions, List.mem_cons, List.not_mem_nil, or_false] at hname
  rcases hname with rfl | rfl
  · exact absurd (head?_eq_of_begins h.1 h'.1 (by decide +kernel) (by decide +kernel)) (by decide +kernel)
  · exact absurd (head?_eq_of_begins h.1 h'.1 (by decide +kernel) (by decide +kernel)) (by decide +kernel)

theorem function_of_mem_smoke {name : String} {line : ℤ} {e : SmokeEntry}
    (h : e ∈ (expectedOf name line).smoke) : e.function = name := by
  unfold expectedOf at h
  split_ifs at h
  · simp [expectedReader, closeFunction] at h
    rw [h]
  · simp [expectedWriter, closeFunction] at h
    rw [h]
  · simp [expectedWitness, closeFunction] at h
    rcases h with rfl | rfl | rfl
    · rfl
    · rfl
    · rfl

theorem kernel_starts : ∀ name ∈ kernelFunctions,
    startsWith "__get" name = true ∨ startsWith "__put" name = true := by
  decide +kernel

/-- No text is expected in two ways at one line of a function. -/
theorem smoke_unique_of_function {host : Host} {name text : String} (hname : name ∈ functions) {line : ℤ}
    {e e' : SmokeEntry} (h : e ∈ (expectedOf name line).smoke) (h' : e' ∈ (expectedOf name line).smoke)
    (hline : e.line = e'.line) (hm : e.pattern.Matches host text) (hm' : e'.pattern.Matches host text) :
    e = e' := by
  unfold expectedOf at h h'
  split_ifs at h h' with hget hput
  · simp [expectedReader, closeFunction] at h h'
    rw [h, h']
  · simp [expectedWriter, closeFunction] at h h'
    rw [h, h']
  · have hproject : name ∈ projectFunctions := by
      rcases List.mem_append.mp hname with hkernel | hproject
      · exact ((kernel_starts name hkernel).elim hget hput).elim
      · exact hproject
    simp only [expectedWitness, closeFunction, List.map_cons, List.map_nil, List.replicate, List.cons_append,
      List.nil_append, List.mem_cons, List.not_mem_nil, or_false, or_self] at h h'
    rcases h with rfl | rfl | rfl
    · rcases h' with rfl | rfl | rfl
      · rfl
      · exact absurd hline (by simp)
      · exact absurd hline (by simp)
    · rcases h' with rfl | rfl | rfl
      · exact absurd hline (by simp)
      · rfl
      · exact (not_matches_both hproject hm hm').elim
    · rcases h' with rfl | rfl | rfl
      · exact absurd hline (by simp)
      · exact (not_matches_both hproject hm' hm).elim
      · rfl

end Common24
end Fragma
