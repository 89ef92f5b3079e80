import Mathlib.Data.List.Infix

/-!
# The surface of a C text

What every scanner of C texts has to tell apart before anything else: code, string literals
and character constants, and the two kinds of comments.  `Surface` cuts a text into these
pieces.  It speaks of texts without line splices, so a literal ends on its line and a line
comment at the end of its own.  A scanner is compared with another one by saying, for each of
them, what it does on a surface.

* `Piece`, `Piece.text`: the pieces and how they are written.
* `Within`: what can stand between two quotes.
* `Surface`: the cut, and `Surface.text`: the pieces together are the text.
-/

namespace Fragma
namespace Scan

/-- A piece of a text. -/
inductive Piece where
  | code (c : Char)
  | literal (quote : Char) (body : List Char)
  | block (body : List Char)
  | line (body : List Char)
  deriving DecidableEq, Repr

/-- The characters a piece is written with. -/
def Piece.text : Piece → List Char
  | .code c => [c]
  | .literal quote body => quote :: (body ++ [quote])
  | .block body => '/' :: '*' :: (body ++ ['*', '/'])
  | .line body => '/' :: '/' :: body

/-- What can stand between two quotes: a backslash takes the next character with it, and no
other character is the quote. -/
inductive Within (quote : Char) : List Char → Prop where
  | nil : Within quote []
  | escape (d : Char) {ds : List Char} : Within quote ds → Within quote ('\\' :: d :: ds)
  | char {c : Char} {cs : List Char} : c ≠ quote → c ≠ '\\' → Within quote cs →
      Within quote (c :: cs)

/-- The quotes of string literals and character constants. -/
def quotes : List Char := ['"', '\'']

/-- A comment starts here. -/
def OpensComment (c : Char) (cs : List Char) : Prop :=
  c = '/' ∧ (cs.head? = some '/' ∨ cs.head? = some '*')

/-- The text is cut into the pieces. -/
inductive Surface : List Char → List Piece → Prop where
  | nil : Surface [] []
  | code {c : Char} {cs : List Char} {ps : List Piece} : c ∉ quotes → ¬ OpensComment c cs →
      Surface cs ps → Surface (c :: cs) (.code c :: ps)
  | literal {quote : Char} {body rest : List Char} {ps : List Piece} : quote ∈ quotes →
      Within quote body → '\n' ∉ body → Surface rest ps →
      Surface (quote :: (body ++ quote :: rest)) (.literal quote body :: ps)
  | block {body rest : List Char} {ps : List Piece} : ¬ ['*', '/'] <:+: body ++ ['*'] →
      Surface rest ps → Surface ('/' :: '*' :: (body ++ '*' :: '/' :: rest)) (.block body :: ps)
  | line {body rest : List Char} {ps : List Piece} : '\n' ∉ body →
      (∀ x ∈ rest.head?, x = '\n') → Surface rest ps →
      Surface ('/' :: '/' :: (body ++ rest)) (.line body :: ps)

/-- The pieces together are the text. -/
theorem Surface.text {cs : List Char} {ps : List Piece} (h : Surface cs ps) :
    ps.flatMap Piece.text = cs := by
  induction h with
  | nil => rfl
  | code _ _ _ ih => rw [List.flatMap_cons, ih]; rfl
  | literal _ _ _ _ ih => rw [List.flatMap_cons, ih]; simp [Piece.text]
  | block _ _ ih => rw [List.flatMap_cons, ih]; simp [Piece.text]
  | line _ _ _ ih => rw [List.flatMap_cons, ih]; simp [Piece.text]

/-- Inside a block comment no star has a slash behind it. -/
theorem star_not_slash {c : Char} {body rest : List Char}
    (h : ¬ ['*', '/'] <:+: c :: (body ++ ['*'])) (hc : c = '*') :
    (body ++ '*' :: rest).head? ≠ some '/' := by
  cases body with
  | nil => exact fun heq => absurd (Option.some.inj heq) (by decide)
  | cons x body =>
    intro heq
    obtain rfl : x = '/' := by simpa using heq
    exact h ⟨[], body ++ ['*'], by rw [hc]; rfl⟩

/-- Code characters in front of a surface. -/
theorem Surface.codes {u cs : List Char} {ps : List Piece} (hquote : ∀ c ∈ u, c ∉ quotes)
    (hcomment : ∀ a c b, u = a ++ c :: b → ¬ OpensComment c (b ++ cs)) (h : Surface cs ps) :
    Surface (u ++ cs) (u.map Piece.code ++ ps) := by
  induction u with
  | nil => exact h
  | cons c u ih =>
    rw [List.forall_mem_cons] at hquote
    refine .code hquote.1 (hcomment [] c u rfl) (ih hquote.2 fun a d b hu => ?_)
    exact hcomment (c :: a) d b (by rw [hu]; rfl)

end Scan
end Fragma
