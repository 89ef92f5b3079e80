import Fragma.Posix.PurePath
import Fragma.Provenance.Functions
import Fragma.Python.Exn
import Fragma.Python.Text
import Fragma.Python.Value

/-!
# The source gate of a target

`fragma/provenance.py`, `check_target`.  The gate reads the source of a target and its
harness, compares their tokens, and compares the functions that the target names one by
one.  What git and the file system answer, the decoding of bytes and the token hash are
parameters.

* `TargetPaths`, `targetPaths`: what the manifest has to declare.
* `compareFunctions`: the loop over the functions.
* `checkTarget`: the gate.
* `tokenize_determines`: **the token values determine everything that the gate derives
  from a file**.
-/

namespace Fragma
namespace Provenance

open Python

/-! ## What the manifest declares -/

/-- The ways to compare a target with its source. -/
inductive Mode where
  | translationUnit
  | functions
  | pinnedTranslationUnit
  deriving DecidableEq, Repr

/-- Why the gate stops or does not pass. -/
inductive CheckError where
  | notRelative (label : String)
  | outsideRoot (label : String) (value : String)
  | unsupportedMode
  | pinnedWithoutRevision
  | pinnedWithHarness
  | badFunctions
  | badRevision
  | unreadable (reason : String)
  | notText (reason : String)
  | typeError
  | attributeError
  | extraction (error : ExtractError)
  | lexical (error : LexError)
  | tokenChanges
  | bodyChanges (name : String)
  | prefixChanges (name : String)
  deriving DecidableEq, Repr

/-- `_relative_path(value, label)`. -/
def relativePath (value : Value) (label : String) : Except CheckError String :=
  match value with
  | .str s =>
    if s = "" ∨ '\\' ∈ s.toList then .error (.notRelative label)
    else
      let path := Posix.PurePath.parse s
      if path.IsAbsolute ∨ (∃ c ∈ path.tail, c.IsParent) ∨ startsWith "-" s then
        .error (.outsideRoot label s)
      else .ok path.render
  | _ => .error (.notRelative label)

/-- `target.get("provenance", {}).get("mode")`, which has to be one of three. -/
def declaredMode (target : Dict) : Except CheckError Mode :=
  match Value.get target "provenance" (.dict []) with
  | .dict provenance =>
    match Value.get provenance "mode" with
    | .str "translation-unit" => .ok .translationUnit
    | .str "functions" => .ok .functions
    | .str "pinned-translation-unit" => .ok .pinnedTranslationUnit
    | _ => .error .unsupportedMode
  | _ => .error .attributeError

/-- The functions that a target names: a nonempty list of distinct identifiers. -/
def declaredFunctions (target : Dict) : Except CheckError (List String) :=
  let default := Value.list (if Value.has target "function" then [Value.get target "function"] else [])
  match Value.get target "functions" default with
  | .list values =>
    let names := values.filterMap fun v =>
      match v with
      | .str s => if isIdentifier s.toList then some s else none
      | _ => none
    if values ≠ [] ∧ names.length = values.length ∧ names.Nodup then .ok names
    else .error .badFunctions
  | _ => .error .badFunctions

/-- What the manifest declares: the mode, the two paths, and the functions. -/
structure TargetPaths where
  mode : Mode
  source : String
  harness : String
  functions : List String
  deriving Repr

/-- The path of the harness.  A pinned source is its own harness. -/
def declaredHarness (target : Dict) (hasRevision : Bool) (mode : Mode) (source : String) :
    Except CheckError String :=
  if mode = .pinnedTranslationUnit then
    if ¬ hasRevision then .error .pinnedWithoutRevision
    else if Value.get target "harness" ≠ .none then .error .pinnedWithHarness
    else .ok source
  else relativePath (Value.get target "harness") "harness"

/-- The checks of the manifest, in their order. -/
def targetPaths (target : Dict) (hasRevision : Bool) : Except CheckError TargetPaths := do
  let source ← relativePath (Value.get target "source") "source"
  let mode ← declaredMode target
  let harness ← declaredHarness target hasRevision mode source
  let functions ← declaredFunctions target
  .ok ⟨mode, source, harness, functions⟩

/-! ## The comparison -/

/-- What the gate says about one function. -/
structure FunctionCheck where
  name : String
  passed : Bool
  sourceLine : ℕ
  harnessLine : ℕ
  sourceTokenHash : String
  harnessTokenHash : String
  declarationPrefixEqual : Bool
  sourceDeclarationPrefix : List Text
  harnessDeclarationPrefix : List Text
  sourceDeclarationHash : String
  harnessDeclarationHash : String
  modelAssumptions : Option Value

/-- What the gate says. -/
structure Check where
  passed : Bool
  errors : List CheckError
  functions : List FunctionCheck
  sourceTokenHash : Option String
  harnessTokenHash : Option String

/-- A nonempty list of texts that are not blank. -/
def declaresAssumptions : Value → Bool
  | .list values => values ≠ [] && values.all fun v =>
      match v with
      | .str s => !Python.isBlank s
      | _ => false
  | _ => false

/-- What the gate asks the outside for: the bytes of a source and of a project file,
the decoding of bytes, and the hash of a token sequence. -/
structure Outside where
  Bytes : Type
  sourceBytes : String → Except String Bytes
  projectBytes : String → Except String Bytes
  decode : Bytes → Except String Text
  tokenHash : List Text → String

/-- The comparison of one function, and the errors it adds. -/
def functionCheck (out : Outside) (target : Dict) (name : String) (original annotated : Function) :
    FunctionCheck × List CheckError :=
  let bodyEqual := decide (original.tokens = annotated.tokens)
  let declarationEqual := decide (original.declarationPrefix = annotated.declarationPrefix)
  let assumptions := Value.get target "assumptions" (.list [])
  let assumed := declaresAssumptions assumptions
  (⟨name, bodyEqual && (declarationEqual || assumed), original.line, annotated.line,
      out.tokenHash original.tokens, out.tokenHash annotated.tokens, declarationEqual,
      original.declarationPrefix, annotated.declarationPrefix,
      out.tokenHash original.declarationPrefix, out.tokenHash annotated.declarationPrefix,
      if declarationEqual then none else some assumptions⟩,
    (if bodyEqual then [] else [.bodyChanges name]) ++
      if declarationEqual || assumed then [] else [.prefixChanges name])

/-- The loop over the functions.  It ends at the first one that is not extracted. -/
def compareFunctions (out : Outside) (target : Dict) (source harness : Text) :
    List String → List FunctionCheck × List CheckError
  | [] => ([], [])
  | name :: names =>
    match extractFunction source name.toList with
    | .error e => ([], [.extraction e])
    | .ok original =>
      match extractFunction harness name.toList with
      | .error e => ([], [.extraction e])
      | .ok annotated =>
        let (item, errors) := functionCheck out target name original annotated
        let (items, later) := compareFunctions out target source harness names
        (item :: items, errors ++ later)

/-- The bytes of the harness. -/
def harnessBytes (out : Outside) (paths : TargetPaths) (sourceBytes : out.Bytes) :
    Except CheckError out.Bytes :=
  if paths.mode = .pinnedTranslationUnit then .ok sourceBytes
  else (out.projectBytes paths.harness).mapError .unreadable

/-- The two texts that are compared. -/
def readTexts (out : Outside) (paths : TargetPaths) : Except CheckError (Text × Text) := do
  let sourceBytes ← (out.sourceBytes paths.source).mapError .unreadable
  let bytes ← harnessBytes out paths sourceBytes
  let source ← (out.decode sourceBytes).mapError .notText
  let harness ← (out.decode bytes).mapError .notText
  .ok (source, harness)

/-- The comparison of two texts in a mode. -/
def compareTexts (out : Outside) (target : Dict) (mode : Mode) (names : List String)
    (source harness : Text) : Check :=
  match tokenize source with
  | .error e => ⟨false, [.lexical e], [], none, none⟩
  | .ok sourceTokens =>
    match tokenize harness with
    | .error e => ⟨false, [.lexical e], [], none, none⟩
    | .ok harnessTokens =>
      let changes :=
        if mode ≠ .functions ∧ sourceTokens ≠ harnessTokens then [CheckError.tokenChanges] else []
      let (items, errors) := compareFunctions out target source harness names
      ⟨changes ++ errors = [], changes ++ errors, items, some (out.tokenHash sourceTokens),
        some (out.tokenHash harnessTokens)⟩

/-- `check_target`. -/
def checkTarget (out : Outside) (target : Dict) (hasRevision : Bool) : Check :=
  match targetPaths target hasRevision with
  | .error e => ⟨false, [e], [], none, none⟩
  | .ok paths =>
    match readTexts out paths with
    | .error e => ⟨false, [e], [], none, none⟩
    | .ok (source, harness) => compareTexts out target paths.mode paths.functions source harness

/-! ## Token values determine the rest -/

/-- The kinds of the tokens of a source that is accepted. -/
def kinds (source : Text) : Except LexError (List Kind) :=
  (lex source).map fun tokens => tokens.map Token.kind

/-- What the gate says about a function that is the same in both files. -/
def FunctionCheck.Agrees (item : FunctionCheck) : Prop :=
  item.passed = true ∧ item.sourceTokenHash = item.harnessTokenHash ∧
    item.declarationPrefixEqual = true ∧
    item.sourceDeclarationPrefix = item.harnessDeclarationPrefix

theorem kinds_eq {a b : Text} {values : List Text} (ha : tokenize a = .ok values)
    (hb : tokenize b = .ok values) : kinds a = kinds b := by
  obtain ⟨ta, hta, hva⟩ := tokenize_eq_ok_iff.mp ha
  obtain ⟨tb, htb, hvb⟩ := tokenize_eq_ok_iff.mp hb
  have hview := lex_view_eq hta htb (hva.trans hvb.symm)
  have hkind : ∀ ts : List Token, ts.map Token.kind = (ts.map Token.view).map Prod.snd := by
    intro ts
    rw [List.map_map]
    rfl
  unfold kinds
  rw [hta, htb]
  exact congrArg Except.ok (show ta.map Token.kind = tb.map Token.kind by rw [hkind, hkind, hview])

theorem extracted_eq_of_tokenize {a b : Text} {values : List Text} (ha : tokenize a = .ok values)
    (hb : tokenize b = .ok values) (name : Text) : extracted a name = extracted b name := by
  obtain ⟨ta, hta, hva⟩ := tokenize_eq_ok_iff.mp ha
  obtain ⟨tb, htb, hvb⟩ := tokenize_eq_ok_iff.mp hb
  exact extracted_eq hta htb (hva.trans hvb.symm) name

/-- Functions of sources with one sequence of token values agree. -/
theorem compareFunctions_agree {source harness : Text} {values : List Text}
    (hs : tokenize source = .ok values) (hh : tokenize harness = .ok values) (out : Outside)
    (target : Dict) (names : List String) :
    ∀ item ∈ (compareFunctions out target source harness names).1, item.Agrees := by
  induction names with
  | nil => exact fun item h => absurd h List.not_mem_nil
  | cons name names ih =>
    have hsame := extracted_eq_of_tokenize hs hh name.toList
    unfold extracted at hsame
    intro item hitem
    rw [compareFunctions] at hitem
    cases ho : extractFunction source name.toList with
    | error e =>
      rw [ho] at hitem
      exact absurd hitem List.not_mem_nil
    | ok original =>
      cases hann : extractFunction harness name.toList with
      | error e =>
        rw [ho, hann] at hitem
        exact absurd hitem List.not_mem_nil
      | ok annotated =>
        rw [ho, hann] at hitem hsame
        simp only [Option.some.injEq, Prod.mk.injEq] at hsame
        rcases List.mem_cons.mp hitem with rfl | hmem
        · simp [functionCheck, FunctionCheck.Agrees, hsame.1, hsame.2]
        · exact ih item hmem

/-- A comparison of whole files that reports no token change reports no change of a
function. -/
theorem compareTexts_agree {out : Outside} {target : Dict} {mode : Mode} {names : List String}
    {source harness : Text} (hmode : mode ≠ .functions)
    (hsame : .tokenChanges ∉ (compareTexts out target mode names source harness).errors) :
    ∀ item ∈ (compareTexts out target mode names source harness).functions, item.Agrees := by
  unfold compareTexts at hsame ⊢
  cases hs : tokenize source with
  | error e => exact fun item h => absurd h List.not_mem_nil
  | ok sourceTokens =>
    cases hh : tokenize harness with
    | error e => exact fun item h => absurd h List.not_mem_nil
    | ok harnessTokens =>
      rw [hs, hh] at hsame
      dsimp only at hsame ⊢
      have htokens : sourceTokens = harnessTokens := by
        by_contra hne
        rw [if_pos ⟨hmode, hne⟩] at hsame
        exact hsame (List.mem_append_left _ List.mem_cons_self)
      exact compareFunctions_agree hs (htokens ▸ hh) out target names

theorem targetPaths_mode {target : Dict} {hasRevision : Bool} {paths : TargetPaths}
    (h : targetPaths target hasRevision = .ok paths) : declaredMode target = .ok paths.mode := by
  unfold targetPaths at h
  obtain ⟨source, -, h⟩ := bind_eq_ok_iff.mp h
  obtain ⟨mode, hmode, h⟩ := bind_eq_ok_iff.mp h
  obtain ⟨harness, -, h⟩ := bind_eq_ok_iff.mp h
  obtain ⟨functions, -, h⟩ := bind_eq_ok_iff.mp h
  rw [← Except.ok.inj h]
  exact hmode

/-- **The token values determine what the gate derives from a file.**  Two sources with
equal token values have equal kinds, and the extractor fails on both or finds equal
tokens and prefixes.  So the gate, comparing whole files, never reports equal tokens
together with a function that differs. -/
theorem tokenize_determines {a b : Text} {values : List Text} (ha : tokenize a = .ok values)
    (hb : tokenize b = .ok values) :
    kinds a = kinds b ∧ (∀ name, extracted a name = extracted b name) ∧
      ∀ (out : Outside) (target : Dict) (hasRevision : Bool),
        declaredMode target = .ok .translationUnit →
        .tokenChanges ∉ (checkTarget out target hasRevision).errors →
        ∀ item ∈ (checkTarget out target hasRevision).functions, item.Agrees := by
  refine ⟨kinds_eq ha hb, extracted_eq_of_tokenize ha hb, ?_⟩
  intro out target hasRevision hmode hsame
  unfold checkTarget at hsame ⊢
  cases hpaths : targetPaths target hasRevision with
  | error e => exact fun item h => absurd h List.not_mem_nil
  | ok paths =>
    rw [hpaths] at hsame
    cases hread : readTexts out paths with
    | error e =>
      dsimp only
      rw [hread]
      exact fun item h => absurd h List.not_mem_nil
    | ok texts =>
      obtain ⟨source, harness⟩ := texts
      dsimp only at hsame ⊢
      rw [hread] at hsame ⊢
      refine compareTexts_agree ?_ hsame
      rw [targetPaths_mode hpaths, Except.ok.injEq] at hmode
      rw [hmode]
      decide

/-- A header that is spelled like the end marker does not mislead the decoding. -/
theorem tokenize_determines_header :
    kinds "#include <pp-end>\nint f(void) { return 1; }".toList =
        kinds "#include <pp-end> // c\nint f(void) { /* r */ return 1; }".toList ∧
      (∀ name, extracted "#include <pp-end>\nint f(void) { return 1; }".toList name =
        extracted "#include <pp-end> // c\nint f(void) { /* r */ return 1; }".toList name) ∧
      ∀ (out : Outside) (target : Dict) (hasRevision : Bool),
        declaredMode target = .ok .translationUnit →
        .tokenChanges ∉ (checkTarget out target hasRevision).errors →
        ∀ item ∈ (checkTarget out target hasRevision).functions, item.Agrees :=
  @tokenize_determines _ _ (["<pp-start>", "include", "<pp-end>", "<pp-end>", "int", "f", "(",
    "void", ")", "\x7b", "return", "1", ";", "\x7d"].map String.toList) (by rfl) (by rfl)

end Provenance
end Fragma
