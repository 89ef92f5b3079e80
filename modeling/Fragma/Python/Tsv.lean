import Fragma.Python.Exn
import Fragma.Python.Text

/-!
# Tab-separated text and decimal numbers

`csv.reader(io.StringIO(text), delimiter="\t", quoting=csv.QUOTE_NONE, strict=True)` and `int(text)`.
Without quotes a record is a line, and its fields stand between the tabs.  What counts as a decimal
digit, and for which number, is a table of the interpreter.

* `tsvRow`, `tsvRows`: the records.
* `intOf`: the number that a text stands for.
-/

namespace Fragma
namespace Python

/-! ## Records -/

/-- A character that ends a record. -/
def isNewline (c : Char) : Bool := c = '\n' || c = '\r'

/-- `csv.field_size_limit()`. -/
def fieldLimit : ℕ := 131072

/-- `csv.Error(message)`, which is no class of its own here. -/
def csvError (message : String) : Exn := ⟨.valueError, message⟩

/-- The record on a line.  Nothing may follow the end of it but other newline characters, and an empty
line has no fields. -/
def tsvRow (line : List Char) : Except Exn (List String) :=
  let body := line.takeWhile fun c => !isNewline c
  if (line.dropWhile fun c => !isNewline c).any fun c => !isNewline c then
    .error (csvError "new-line character seen in unquoted field")
  else if body = [] then .ok []
  else if (body.splitOn '\t').any fun field => fieldLimit < field.length then
    .error (csvError "field larger than field limit (131072)")
  else .ok ((body.splitOn '\t').map String.ofList)

/-- The lines of `io.StringIO(text)`. -/
def textLines (text : String) : List (List Char) :=
  let lines := text.toList.splitOn '\n'
  if lines.getLast? = some [] then lines.dropLast else lines

/-- The records of a text. -/
def tsvRows (text : String) : Except Exn (List (List String)) :=
  (textLines text).mapM tsvRow

/-! ## Numbers -/

/-- `sys.get_int_max_str_digits()`. -/
def maxDigits : ℕ := 4300

section Numbers

-- the number of a decimal digit
variable (digit : Char → Option ℕ)

/-- The digits of a number, with single underscores between them. -/
def digitsOf : List Char → Option (List ℕ)
  | [] => none
  | [c] => (digit c).map fun d => [d]
  | c :: '_' :: cs => do
    let d ← digit c
    let ds ← digitsOf cs
    some (d :: ds)
  | c :: cs => do
    let d ← digit c
    let ds ← digitsOf cs
    some (d :: ds)

/-- `text.strip()`. -/
def strip (cs : List Char) : List Char :=
  ((cs.dropWhile isSpace).reverse.dropWhile isSpace).reverse

/-- The number of a text without a sign. -/
def natOf (cs : List Char) : Option ℕ := do
  let ds ← digitsOf digit cs
  if maxDigits < ds.length then none else some (ds.foldl (fun n d => 10 * n + d) 0)

/-- `int(text)`, where it does not raise. -/
def intOf (text : String) : Option ℤ :=
  match strip text.toList with
  | '-' :: cs => (natOf digit cs).map fun n => -(n : ℤ)
  | '+' :: cs => (natOf digit cs).map fun n => (n : ℤ)
  | cs => (natOf digit cs).map fun n => (n : ℤ)

end Numbers

/-- The decimal digits of ASCII. -/
def asciiDigit (c : Char) : Option ℕ := if isDigit c then some (c.toNat - '0'.toNat) else none

example : intOf asciiDigit " +1_204\n" = some 1204 := by decide

end Python
end Fragma
