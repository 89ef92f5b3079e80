import Mathlib.Data.List.Infix
import Mathlib.Data.List.TakeWhile
import Mathlib.Data.String.Basic

/-!
# Strings and the patterns they are matched against

The string methods and regular expressions of the report policy.  A pattern is a
function on the characters of the text.  What counts as a letter or a digit is a
table of the interpreter; `isAlnum` stands for it.

* `isBlank`: nothing is left by `strip`.
* `isHex`: `[0-9a-f]{n}`, matched in full.
* `fold`, `startsFolded`: matching that ignores case.
* `searchSkipped`, `searchWord`, `labelOf`, `deadName`: the patterns.
-/

namespace Fragma
namespace Python

/-- The characters that `str.strip` removes and `\s` matches. -/
def isSpace (c : Char) : Bool :=
  let n := c.toNat
  (9 ≤ n && n ≤ 13) || (28 ≤ n && n ≤ 32) || n = 0x85 || n = 0xa0 || n = 0x1680 ||
    (0x2000 ≤ n && n ≤ 0x200a) || n = 0x2028 || n = 0x2029 || n = 0x202f || n = 0x205f ||
    n = 0x3000

/-- `not s.strip()`. -/
def isBlank (s : String) : Bool := s.toList.all isSpace

/-- `needle in s`. -/
def hasSubstring (needle s : String) : Bool := decide (needle.toList <:+: s.toList)

/-- `s.startswith(start)`. -/
def startsWith (start s : String) : Bool := decide (start.toList <+: s.toList)

/-- `re.fullmatch(r"[0-9a-f]{n}", s)`. -/
def isHex (n : ℕ) (s : String) : Bool :=
  s.toList.length = n && s.toList.all fun c => c ∈ "0123456789abcdef".toList

/-- A decimal digit of `[0-9]`. -/
def isDigit (c : Char) : Bool := c ∈ "0123456789".toList

/-- The lower-case letter that a character matches when case is ignored. -/
def fold (c : Char) : Char :=
  if 'A' ≤ c ∧ c ≤ 'Z' then Char.ofNat (c.toNat + 32)
  else if c.toNat = 0x130 ∨ c.toNat = 0x131 then 'i'
  else if c.toNat = 0x17f then 's'
  else if c.toNat = 0x212a then 'k'
  else c

/-- What follows a start that matches the pattern when case is ignored. -/
def startsFolded : List Char → List Char → Option (List Char)
  | [], cs => some cs
  | p :: ps, c :: cs => if fold p = fold c then startsFolded ps cs else none
  | _ :: _, [] => none

section Words

-- `str.isalnum`, of one character
variable (isAlnum : Char → Bool)

/-- `\w`. -/
def isWord (c : Char) : Bool := isAlnum c || c = '_'

/-- `skipp\w* (?:a )?(?:…)` at the start of a text. -/
def startsSkipped (tails : List String) (cs : List Char) : Bool :=
  match startsFolded "skipp".toList cs with
  | none => false
  | some rest =>
    match rest.dropWhile (isWord isAlnum) with
    | ' ' :: rest =>
      let ends (r : List Char) := tails.any fun t => (startsFolded t.toList r).isSome
      ends rest || ((startsFolded "a ".toList rest).map ends).getD false
    | _ => false

/-- `re.search(r"skipp\w* (?:a )?(?:…)", s, re.I)`. -/
def searchSkipped (tails : List String) (s : String) : Bool :=
  s.toList.tails.any (startsSkipped isAlnum tails)

/-- `re.search(r"\bword\b", s, re.I)` for a word of letters, behind the character
`before`. -/
def searchWord (word : List Char) : Option Char → List Char → Bool
  | _, [] => false
  | before, c :: cs =>
    let inside (d : Option Char) : Bool := (d.map (isWord isAlnum)).getD false
    let here : Bool :=
      match startsFolded word (c :: cs) with
      | none => false
      | some rest => !inside before && !inside rest.head?
    here || searchWord word (some c) cs

/-- `re.search(r"phrase", s, re.I)` for a fixed phrase. -/
def searchPhrase (phrase s : String) : Bool :=
  s.toList.tails.any fun cs => (startsFolded phrase.toList cs).isSome

/-- `re.match(r"^([A-Za-z_]\w*):\s", s)`: the label that a text starts with. -/
def labelOf (s : String) : Option String :=
  match s.toList with
  | [] => none
  | c :: cs =>
    if c.isAlpha || c = '_' then
      match cs.dropWhile (isWord isAlnum) with
      | ':' :: d :: _ =>
        if isSpace d then some (String.ofList (c :: cs.takeWhile (isWord isAlnum))) else none
      | _ => none
    else none

end Words

/-- `re.fullmatch(r"(.+)<infix>[0-9]+", s)`: the group in front of the infix.  The
digits at the end cannot be given to the infix, which ends in a letter. -/
def deadName (marker s : String) : Option String :=
  let body := (s.toList.reverse.dropWhile isDigit).reverse
  let name := body.take (body.length - marker.toList.length)
  if s.toList ≠ body ∧ name ≠ [] ∧ '\n' ∉ name ∧ body = name ++ marker.toList then
    some (String.ofList name)
  else none

end Python
end Fragma
