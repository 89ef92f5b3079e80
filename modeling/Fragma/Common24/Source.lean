import Fragma.Posix.PurePath
import Fragma.Provenance.Functions
import Fragma.Python.Exn
import Fragma.Python.Lines
import Fragma.Python.Loops
import Fragma.Python.Pattern
import Fragma.Python.Search
import Fragma.Python.Text
import Fragma.Python.Value

/-!
# The source of the 24-bit helpers

`check_target` and `check_source` of `fragma/common24.py`.  The source has six annotated functions whose
texts are known by their hashes; only what stands in front of them may move their lines.

* `checkTarget`, `checkSource`: the functions.
* `checkSource_functions`: the functions of an accepted source are the six, in order.
-/

namespace Fragma
namespace Common24

open Python Posix Provenance

/-- What is asked of the surroundings: `hashlib.sha256(text.encode()).hexdigest()`, and the classes
`str.isalnum` and `\d` of characters. -/
structure Host where
  sha256 : Text → String
  isAlnum : Char → Bool
  isDecimal : Char → Bool

/-! ## What is expected -/

/-- `KERNEL_FUNCTIONS` -/
def kernelFunctions : List String :=
  ["__get_unaligned_be24", "__get_unaligned_le24", "__put_unaligned_be24", "__put_unaligned_le24"]

/-- `PROJECT_FUNCTIONS` -/
def projectFunctions : List String := ["fragma_roundtrip_be24", "fragma_roundtrip_le24"]

/-- `FUNCTIONS` -/
def functions : List String := kernelFunctions ++ projectFunctions

/-- `REQUIRED_PROPERTIES` -/
def requiredProperties : List String :=
  (["be", "le"].flatMap fun endian => ["value", "range"].map fun kind =>
    "get_unaligned_" ++ endian ++ "24_ensures_decoded_" ++ kind) ++
  (["be", "le"].flatMap fun endian => ["0", "1", "2"].map fun byte =>
    "put_unaligned_" ++ endian ++ "24_ensures_byte_" ++ byte) ++
  ["be", "le"].map fun endian => "fragma_roundtrip_" ++ endian ++ "24_ensures_roundtrip"

/-- `PRELUDE` -/
def prelude : Text :=
  ("#include \"inline-policy.h\"\n#define inline FRAGMA_COMMON24_INLINE\ntypedef unsigned char u8;\n" ++
    "typedef unsigned int u32;\n#include \"byteproof.h\"\n").toList

/-- `STRATEGY_SHA256` -/
def strategySha256 : String := "9a9c584c56d36329f866e060500d5d64557c63ffc538cf9551fe073b94d53017"

/-- `BLOCK_SHA256` -/
def blockSha256 : List (String × String) :=
  functions.zip ["2821723ffbee914e08abe82c1bce3b08b47c17c6c513b821449564809db12e3b",
    "5f72fb1586c239c9b9813f37c814a84435a87a60bcf3e6167bfe9415928e3722",
    "3ee128bf07d516029b347d68a31b8ae065198d6e57c05e8a35cfcbcea5def6f5",
    "a0312b4baf50595670a00b2ab47f25abf4604a2d9e5e9583269d29c3695a1c06",
    "42e622ae88ac491d3dbb0e4702991751a1c99b20362b79a13c79f7266733cfa8",
    "9cbf25c2e273e5e0ce259abb02d67fda3376594f8d073e05922514b1a21adb88"]

/-- `TOKEN_SHA256` -/
def tokenSha256 : List (String × String) :=
  functions.zip ["8720d5e58de09ee04bb766f86789a53d28e31d60f5c70a608e0917ed27a8f7db",
    "9c41856eebd11483f152b5f79825f51c31be37ee42dcdd30e773d645154a6867",
    "65e8dd668d917b4e84be9747cd8ffa4edb351916063c9b1157a5480980033957",
    "f307545d826467623c607060f4cabe6138198d5aa460cead648c4318dc3eda9e",
    "bbd5750718273417eeca26627e4f090e1d0f56f91fb83b34cf51859a3c5bb5f9",
    "53823b0464c3eed2ec4a7bb93be5a68b4c84586ddef953d73fdcd01c29d77454"]

/-- `require(condition, message)` -/
def require (condition : Prop) [Decidable condition] (message : String) : Except Exn Unit :=
  raiseIf (¬condition) ⟨.valueError, message⟩

/-- `check_target(target)` -/
def checkTarget (target : Value) : Except Exn Unit :=
  match target with
  | .dict entries => do
    [("functions", kernelFunctions), ("analysis_functions", functions),
      ("project_functions", projectFunctions), ("required_properties", requiredProperties)].forM fun p =>
      require (Value.eq (Value.get entries p.1) (.list (p.2.map .str)) = true)
        ("common24 exact target inventory: " ++ p.1)
    require (Value.eq (Value.get entries "analysis") (.str "wp") = true ∧
      Value.eq (Value.get entries "input_mode") (.str "standalone") = true ∧
      Value.eq (Value.get entries "source") (.str "include/linux/unaligned.h") = true)
      "common24 requires the standalone WP helper source"
  | _ => .error ⟨.valueError, "common24 target must be an object"⟩

/-! ## Checking the source -/

/-- A function of the source. -/
structure SourceFunction where
  function : String
  line : ℤ
  annotatedBlockSha256 : String
  cTokenSha256 : String
  declarationPrefix : List Text

/-- What `check_source` returns. -/
structure Source where
  sourcePath : String
  functions : List SourceFunction
  strategySha256 : String
  preludeTokenSha256 : String

/-- A declaration: where it starts and stops, and its name. -/
structure Declaration where
  start : ℕ
  stop : ℕ
  name : Text

/-- `^(?:static inline )?(?:u32|void) ([A-Za-z_]\w*)\(`: how many characters stand in front of the name,
and the name. -/
def declaration (host : Host) : Pattern (ℕ × Text) := do
  let inline ← Pattern.optional (Pattern.lit "static inline ")
  let type ← Pattern.orElse (do Pattern.lit "u32"; pure 3) (do Pattern.lit "void"; pure 4)
  Pattern.lit " "
  let c ← Pattern.one isIdentifierStart
  let cs ← Pattern.greedy (isWord host.isAlnum)
  Pattern.lit "("
  pure ((if inline.isSome then 14 else 0) + type + 1, c :: cs)

/-- The declarations of a text. -/
def declarations (host : Host) (text : Text) : List Declaration :=
  (Pattern.findAll (declaration host) text).map fun p =>
    let stop := text.length - p.2.length
    ⟨stop - (p.1.1 + p.1.2.length + 1), stop, p.1.2⟩

/-- `token_hash(tokens)` -/
def tokenHash (host : Host) (tokens : List Text) : String :=
  host.sha256 ('[' :: ((tokens.map jsonString).intersperse [',']).flatten ++ [']'])

/-- An exception of `fragma/provenance.py`. -/
def provenanceError : Exn := ⟨.valueError, ""⟩

/-- `provenance.tokenize(text)` -/
def tokensOf (text : Text) : Except Exn (List Text) := (tokenize text).mapError fun _ => provenanceError

/-- `text[start:stop]` -/
def between (text : Text) (start stop : ℕ) : Text := (text.take stop).drop start

/-- The variables of the loop over the declarations. -/
structure Blocks where
  functions : List SourceFunction
  outside : List Text
  previousEnd : ℕ

/-- The prefix of a function. -/
def expectedPrefix (name : String) : List Text :=
  if name ∈ kernelFunctions then
    ["static".toList, "inline".toList, if startsWith "__get" name then "u32".toList else "void".toList]
  else ["u32".toList]

/-- One turn of the loop. -/
def checkBlock (host : Host) (text : Text) (state : Blocks) (d : Declaration) : Except Exn Blocks := do
  let name := String.ofList d.name
  let contractStart ← orRaise (Search.rfind "/*@".toList (text.take d.start))
    ⟨.valueError, "missing source contract: " ++ name⟩
  let last ← orRaise (Search.find "\n\x7d".toList text d.stop) ⟨.valueError, "missing function end: " ++ name⟩
  let blockSha := host.sha256 (between text contractStart (last + 2))
  let reviewed ← orRaise (blockSha256.lookup name) ⟨.keyError, name⟩
  require (blockSha = reviewed) ("annotated source block changed: " ++ name)
  let parsed ← (extractFunction text d.name).mapError fun _ => provenanceError
  let tokenSha := tokenHash host parsed.tokens
  let reviewedTokens ← orRaise (tokenSha256.lookup name) ⟨.keyError, name⟩
  require (tokenSha = reviewedTokens ∧ parsed.declarationPrefix = expectedPrefix name)
    ("source declarator/body changed: " ++ name)
  pure ⟨state.functions ++ [⟨name, parsed.line, blockSha, tokenSha, parsed.declarationPrefix⟩],
    state.outside ++ [between text state.previousEnd contractStart], last + 2⟩

/-- Whether a text between two functions has no token. -/
def isGap (text : Text) : Except Exn Bool := do
  let tokens ← tokensOf (text ++ "\n;".toList)
  pure (decide (tokens = [";".toList]))

/-- How often a word occurs. -/
def occurrences (word text : Text) : ℕ :=
  ((List.range (text.length + 1)).filter fun i => Search.OccursAt word text i).length

/-- `check_source(target, source_path=…, source_text=…, strategy_text=…)` -/
def checkSource (host : Host) (target : Value) (sourcePath : String) (sourceText strategyText : Text) :
    Except Exn Source := do
  checkTarget target
  require ((PurePath.parse sourcePath).IsAbsolute) "source path must be explicitly absolute"
  let found := declarations host sourceText
  require (found.map (fun d => String.ofList d.name) = functions)
    "source must contain exactly the four helpers and two witnesses"
  let blocks ← found.foldlM (checkBlock host sourceText) ⟨[], [], 0⟩
  let outside := blocks.outside ++ [sourceText.drop blocks.previousEnd]
  let preludeTokens ← tokensOf (outside.headD [])
  let expectedTokens ← tokensOf prelude
  require (preludeTokens = expectedTokens)
    "source prelude type/include/macro policy changed; selector must come from the CLI"
  let gaps ← outside.tail.allM isGap
  require (gaps = true) "unexpected token/directive between functions or after the source graph"
  require (occurrences "/*@".toList sourceText = 22)
    "unexpected or missing source annotation outside the six blocks"
  let strategySha := host.sha256 strategyText
  require (strategySha = strategySha256) "checked byte strategy changed"
  pure ⟨sourcePath, blocks.functions, strategySha, tokenHash host preludeTokens⟩

/-! ## An accepted source -/

theorem checkBlock_eq_ok {host : Host} {text : Text} {state next : Blocks} {d : Declaration}
    (h : checkBlock host text state d = .ok next) :
    next.functions.map SourceFunction.function =
      state.functions.map SourceFunction.function ++ [String.ofList d.name] := by
  obtain ⟨_, -, h⟩ := bind_eq_ok_iff.mp h
  obtain ⟨_, -, h⟩ := bind_eq_ok_iff.mp h
  obtain ⟨_, -, h⟩ := bind_eq_ok_iff.mp h
  obtain ⟨_, -, h⟩ := bind_eq_ok_iff.mp h
  obtain ⟨_, -, h⟩ := bind_eq_ok_iff.mp h
  obtain ⟨_, -, h⟩ := bind_eq_ok_iff.mp h
  obtain ⟨_, -, h⟩ := bind_eq_ok_iff.mp h
  rw [← Except.ok.inj h, List.map_append]
  rfl

theorem foldlM_checkBlock_eq_ok {host : Host} {text : Text} {state next : Blocks} {ds : List Declaration}
    (h : ds.foldlM (checkBlock host text) state = .ok next) :
    next.functions.map SourceFunction.function =
      state.functions.map SourceFunction.function ++ ds.map fun d => String.ofList d.name := by
  induction ds generalizing state with
  | nil => rw [← Except.ok.inj h, List.map_nil, List.append_nil]
  | cons d ds ih =>
    obtain ⟨mid, hmid, h⟩ := foldlM_cons_eq_ok_iff.mp h
    rw [ih h, checkBlock_eq_ok hmid, List.append_assoc, List.map_cons, List.singleton_append]

theorem require_eq_ok_iff {condition : Prop} [Decidable condition] {message : String} {u : Unit} :
    require condition message = .ok u ↔ condition := by
  rw [require, raiseIf_eq_ok_iff, not_not]

/-- **The functions of an accepted source are the six, in order.** -/
theorem checkSource_functions {host : Host} {target : Value} {sourcePath : String}
    {sourceText strategyText : Text} {source : Source}
    (h : checkSource host target sourcePath sourceText strategyText = .ok source) :
    source.functions.map SourceFunction.function = functions ∧ source.sourcePath = sourcePath := by
  obtain ⟨_, -, h⟩ := bind_eq_ok_iff.mp h
  obtain ⟨_, -, h⟩ := bind_eq_ok_iff.mp h
  obtain ⟨_, hfound, h⟩ := bind_eq_ok_iff.mp h
  obtain ⟨blocks, hblocks, h⟩ := bind_eq_ok_iff.mp h
  obtain ⟨_, -, h⟩ := bind_eq_ok_iff.mp h
  obtain ⟨_, -, h⟩ := bind_eq_ok_iff.mp h
  obtain ⟨_, -, h⟩ := bind_eq_ok_iff.mp h
  obtain ⟨_, -, h⟩ := bind_eq_ok_iff.mp h
  obtain ⟨_, -, h⟩ := bind_eq_ok_iff.mp h
  obtain ⟨_, -, h⟩ := bind_eq_ok_iff.mp h
  obtain ⟨_, -, h⟩ := bind_eq_ok_iff.mp h
  rw [require_eq_ok_iff] at hfound
  rw [← Except.ok.inj h, foldlM_checkBlock_eq_ok hblocks, hfound]
  exact ⟨rfl, rfl⟩

end Common24
end Fragma
