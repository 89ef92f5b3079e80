import Fragma.Analysis.Actual
import Fragma.Suite.Review

/-!
# The command of an analysis

`fragma/suite.py`: `strategy_options`, and the command that `execute_target` builds.  The
paths in it are absolute, and the provers are those that `run_suite` lets pass; both are
fields of the types below.

* `AbsolutePath`, `Provers`, `Launch`: what the command is built from.
* `SearchOptions`, `strategyOptions`: the options of the proof search.
* `analysisCommand`: the command.
-/

namespace Fragma
namespace Suite

open Python Posix Analysis

/-- `SuiteError(message)`. -/
def suiteError (message : String) : Exn := ⟨.valueError, message⟩

/-! ## What the command is built from -/

/-- A path that does not depend on the working directory. -/
structure AbsolutePath where
  path : PurePath
  isAbsolute : path.IsAbsolute

/-- `str(path)`. -/
def AbsolutePath.text (P : AbsolutePath) : String := P.path.render

/-- `path / other`. -/
def AbsolutePath.child (P : AbsolutePath) (other : String) : AbsolutePath where
  path := P.path.join (.parse other)
  isAbsolute := by
    unfold PurePath.join
    split_ifs with h
    · exact h
    · exact P.isAbsolute

/-- The external provers. -/
def externalProvers : List String := ["alt-ergo", "z3", "cvc5"]

/-- A selection of provers: `set(provers.split(",")) <= {"alt-ergo", "z3", "cvc5"}`. -/
structure Provers where
  text : String
  supported : ∀ name ∈ text.toList.splitOn ',', String.ofList name ∈ externalProvers

/-- The characters that a shell takes as they are. -/
def isShellSafe (c : Char) : Bool := c.isAlphanum || c ∈ "_@%+=:,./-".toList

/-- `shlex.quote(s)`. -/
def shlexQuote (s : String) : String :=
  if s = "" then "''"
  else if s.toList.all isShellSafe then s
  else String.ofList ('\'' :: s.toList.flatMap (fun c =>
    if c = '\'' then "'\"'\"'".toList else [c]) ++ ['\''])

/-- `shlex.join(words)`. -/
def shlexJoin (words : List String) : String := " ".intercalate (words.map shlexQuote)

/-- What the command of a target is built from, besides the target and the model: the
project, the directory of the run, the analyzer, the input, the compiler with its
arguments, the provers and the limits. -/
structure Launch where
  root : AbsolutePath
  output : AbsolutePath
  framaC : AbsolutePath
  framaInput : AbsolutePath
  compiler : AbsolutePath
  compilerArguments : List String
  provers : Provers
  timeout : ℕ
  jobs : ℕ

/-- `prepared["frama_cpp_command"]`. -/
def Launch.cppCommand (L : Launch) : String :=
  shlexJoin (L.compiler.text :: L.compilerArguments ++ ["-E", "-C"])

/-- `str(output / name)`. -/
def Launch.under (L : Launch) (name : String) : String := (L.output.child name).text

/-! ## The proof search -/

/-- What `strategy_options` returns. -/
structure SearchOptions where
  options : List String
  engineProvers : String
  assumptionProvers : String

/-- The portfolio of a strategy: distinct external provers. -/
def declaredPortfolio (target : Dict) : Except Exn (List String) :=
  match Value.get target "wp_strategy_provers" with
  | .list values =>
    match readNames some values with
    | some portfolio =>
      if portfolio ≠ [] ∧ portfolio.Nodup ∧ portfolio ⊆ externalProvers then .ok portfolio
      else .error (suiteError "WP strategy must declare a distinct supported external prover portfolio")
    | none =>
      .error (suiteError "WP strategy must declare a distinct supported external prover portfolio")
  | _ => .error (suiteError "WP strategy must declare a distinct supported external prover portfolio")

/-- `target.get(key, default)`, an integer from 1 to the bound. -/
def boundedSetting (target : Dict) (key : String) (default bound : ℤ) : Except Exn ℕ :=
  match Value.get target key (.int default) with
  | .int n =>
    if 1 ≤ n ∧ n ≤ bound then .ok n.toNat
    else .error (suiteError "invalid bounded WP strategy depth/smoke timeout")
  | _ => .error (suiteError "invalid bounded WP strategy depth/smoke timeout")

/-- The name of a strategy. -/
def declaredStrategy (target : Dict) : Except Exn Identifier :=
  match Value.get target "wp_strategy" with
  | .str s =>
    if Value.get target "analysis" = .str "wp" then
      orRaise (Identifier.parse? s) (suiteError "invalid or non-WP proof strategy")
    else .error (suiteError "invalid or non-WP proof strategy")
  | _ => .error (suiteError "invalid or non-WP proof strategy")

/-- `strategy_options(target, provers)`. -/
def strategyOptions (target : Dict) (provers : Provers) : Except Exn SearchOptions :=
  if ¬ (Value.get target "wp_strategy").truthy then do
    raiseIf (["wp_strategy_file", "wp_strategy_provers", "wp_auto_depth"].any (Value.has target))
      (suiteError "strategy settings require a named WP strategy")
    .ok ⟨[], provers.text, provers.text⟩
  else do
    let strategy ← declaredStrategy target
    raiseIf (¬ (Value.get target "wp_strategy_file").isName)
      (suiteError "WP strategy must declare its source file")
    let portfolio ← declaredPortfolio target
    let depth ← boundedSetting target "wp_auto_depth" 64 256
    let smokeTimeout ← boundedSetting target "wp_smoke_timeout" 2 60
    .ok ⟨["-wp-strategy", strategy.text, "-wp-auto-depth", toString depth,
        "-wp-smoke-timeout", toString smokeTimeout],
      commaJoin ("tip" :: portfolio), commaJoin portfolio⟩

/-! ## The command -/

/-- `",".join(v)`. -/
def joinNames (v : Value) : Except Exn String :=
  match v.iterate with
  | some values =>
    (orRaise (readNames some values) ⟨.typeError, "sequence item: expected str instance"⟩).map
      commaJoin
  | none => .error ⟨.typeError, "can only join an iterable"⟩

/-- A setting that is used as an argument: only a string can be one. -/
def asArgument : Value → Except Exn String
  | .str s => .ok s
  | _ => .error ⟨.typeError, "expected str, bytes or os.PathLike object"⟩

/-- `model["analysis"][key]`, as an argument. -/
def analysisSetting (analysis : Value) (key : String) : Except Exn String :=
  match analysis with
  | .dict entries => do asArgument (← subscript entries key)
  | _ => .error ⟨.typeError, "not subscriptable"⟩

/-- The arguments in front of the analysis.  `drivers` are further inputs. -/
def inputArguments (L : Launch) (machdep : String) (flags drivers : List String) : List String :=
  [L.framaC.text, "-machdep", machdep] ++ flags ++
    ["-cpp-frama-c-compliant", "-cpp-command", L.cppCommand, "-cpp-extra-args=-std=gnu11",
      "-pp-annot", "-keep-temp-files", "-audit-prepare", L.under "audit.json",
      L.framaInput.text] ++ drivers

/-- The arguments of a WP target. -/
def wpArguments (L : Launch) (functions model : String) (search : SearchOptions) : List String :=
  ["-wp", "-wp-fct", functions, "-wp-model", model, "-wp-rte", "-wp-split",
    "-wp-smoke-tests", "-wp-prover", search.engineProvers, "-wp-timeout", toString L.timeout,
    "-wp-par", toString L.jobs, "-wp-cache", "none", "-wp-out", L.under "wp",
    "-wp-why3-config", (L.root.child "toolchain/why3.conf").text, "-wp-no-why3-detect",
    "-wp-report-json", L.under "wp.json"] ++ search.options ++
    if search.options = [] then [] else ["-wp-session", L.under "proof-session"]

/-- The explicit builtins of an EVA target. -/
def builtinArguments (target : Dict) : Except Exn (List String) :=
  if (Value.get target "eva_builtins").truthy then
    (joinNames (Value.get target "eva_builtins")).map fun names => ["-eva-builtin", names]
  else .ok []

/-- The arguments of an EVA target. -/
def evaArguments (target : Dict) : Except Exn (List String) := do
  let before ← beforeEvaOptions target
  let entry ← asArgument (← subscript target "entry")
  let builtins ← builtinArguments target
  .ok (before ++ ["-eva", "-main", entry, "-eva-slevel", "100"] ++
    (if Value.get target "eva_auto_builtins" = .bool false then ["-eva-no-builtins-auto"] else []) ++
    builtins)

/-- The arguments of the engine that the target names. -/
def engineArguments (L : Launch) (analysis : Value) (target : Dict) (search : SearchOptions) :
    Except Exn (List String) := do
  let engine ← subscript target "analysis"
  if Value.eq engine (.str "wp") then
    let default ← subscript target "functions"
    let functions ← joinNames (Value.get target "analysis_functions" default)
    let model ← analysisSetting analysis "wp_model"
    .ok (wpArguments L functions model search)
  else evaArguments target

/-- The command that `execute_target` runs, with any number of drivers. -/
def analysisCommand (L : Launch) (analysis : Value) (target : Dict) (drivers : List AbsolutePath) :
    Except Exn (List String) := do
  let search ← strategyOptions target L.provers
  let machdep ← analysisSetting analysis "machdep"
  let flags ← analyzerFlags analysis
  let arguments ← engineArguments L analysis target search
  .ok (inputArguments L machdep flags (drivers.map AbsolutePath.text) ++ arguments ++
    ["-then", "-report", "-report-absolute-path", "-report-csv", L.under "properties.tsv"])

/-- The driver of a target, below the project. -/
def driverPaths (L : Launch) (target : Dict) : Except Exn (List AbsolutePath) :=
  if (Value.get target "driver").truthy then do
    let driver ← asArgument (Value.get target "driver")
    .ok [L.root.child driver]
  else .ok []

/-- The command of a target: `command` in `execute_target`. -/
def targetCommand (L : Launch) (analysis : Value) (target : Dict) : Except Exn (List String) := do
  analysisCommand L analysis target (← driverPaths L target)

end Suite
end Fragma
