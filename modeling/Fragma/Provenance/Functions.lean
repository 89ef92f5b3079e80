import Fragma.Provenance.Decoding

/-!
# Extracting a function definition

`fragma/provenance.py`, `extract_function`.  The extractor pairs the delimiters of the
ordinary code, looks for the name at depth zero in front of a parameter list and a
body, and returns the tokens from the name to the end of the body together with those
in front of the name.

It looks at values and kinds only; lines go into its messages and into the `line` of
what it returns.  `forget` drops the lines, and every piece of the extractor commutes
with it.

* `Delimiters`, `delimiters`: the loop that pairs delimiters.
* `definitionAt`, `definitions`, `extractFunction`.
* `extractFunction_eq`: sources with the same token values have the same functions.
-/

namespace Fragma
namespace Provenance

/-- A function definition: its tokens from the name to the closing brace, and those
in front of the name. -/
structure Function where
  name : Text
  tokens : List Text
  declarationPrefix : List Text
  line : ℕ
  deriving DecidableEq, Repr

/-- Why no definition is extracted.  `missing` stands for a lookup in the table of
pairs that fails. -/
inductive ExtractError where
  | invalidName (name : Text)
  | lexical (error : LexError)
  | unbalancedDelimiter (value : Text) (line : ℕ)
  | unclosedDelimiter (value : Text) (line : ℕ)
  | missing (index : ℕ)
  | incompleteDeclarator (name : Text) (line : ℕ)
  | postDeclarator (name : Text) (line : ℕ)
  | declarationPrefix (name : Text) (line : ℕ)
  | parameterDeclaration (name : Text) (line : ℕ)
  | definitionCount (name : Text) (found : ℕ)
  deriving DecidableEq, Repr

/-! ## Delimiters -/

/-- `opening = {"(": ")", "[": "]", "{": "}"}`. -/
def opening (value : Text) : Option Text :=
  if value = ['('] then some [')'] else if value = ['['] then some [']']
  else if value = ['{'] then some ['}'] else none

/-- `opening.values()`. -/
def closing : List Text := [[')'], [']'], ['}']]

/-- The variables of the loop over the ordinary tokens: the open delimiters, the
innermost first, the pairs that are closed, and the depth of every token so far. -/
structure Delimiters where
  stack : List (ℕ × Token)
  matching : List (ℕ × ℕ)
  depths : List ℕ
  deriving DecidableEq, Repr

/-- One turn of the loop, for the ordinary token of the given index. -/
def Delimiters.step (d : Delimiters) (i : ℕ) (t : Token) : Except ExtractError Delimiters :=
  let depths := d.depths ++ [d.stack.length]
  if (opening t.value).isSome then .ok ⟨(i, t) :: d.stack, d.matching, depths⟩
  else if t.value ∈ closing then
    match d.stack with
    | [] => .error (.unbalancedDelimiter t.value t.line)
    | (start, t') :: stack =>
      if opening t'.value ≠ some t.value then .error (.unbalancedDelimiter t.value t.line)
      else .ok ⟨stack, (start, i) :: (i, start) :: d.matching, depths⟩
  else .ok ⟨d.stack, d.matching, depths⟩

/-- The loop. -/
def Delimiters.run (d : Delimiters) : List (Token × ℕ) → Except ExtractError Delimiters
  | [] => .ok d
  | (t, i) :: rest =>
    match d.step i t with
    | .error e => .error e
    | .ok d' => d'.run rest

/-- The pairs of the delimiters among the ordinary tokens, all of which have to be
closed. -/
def delimiters (normal : List (Token × ℕ)) : Except ExtractError Delimiters :=
  match Delimiters.run ⟨[], [], []⟩ ((normal.map Prod.fst).zipIdx) with
  | .error e => .error e
  | .ok d =>
    match d.stack with
    | [] => .ok d
    | (_, t) :: _ => .error (.unclosedDelimiter t.value t.line)

/-! ## Definitions -/

/-- `_IDENTIFIER.fullmatch(name)`. -/
def isIdentifier : Text → Bool
  | [] => false
  | c :: cs => isIdentifierStart c && cs.all isIdentifierChar

/-- The ordinary tokens, with their indices among all tokens. -/
def normalTokens (all : List Token) : List (Token × ℕ) :=
  all.zipIdx.filter fun p => p.1.kind == .c

/-- What follows the parameters of a declaration or of a reference. -/
def nonDefinition : List Text := [[';'], [','], ['='], [')'], [']']]

/-- What a declaration prefix does not reach over. -/
def prefixStops : List Text := [[';'], ['}'], ppEnd]

/-- The values in front of an index, back to the last stop. -/
def prefixBefore (all : List Token) (raw : ℕ) : List Text :=
  (((all.take raw).map Token.value).reverse.takeWhile fun v => v ∉ prefixStops).reverse

/-- The definition that starts at an ordinary token, if one does. -/
def definitionAt (all : List Token) (normal : List (Token × ℕ)) (d : Delimiters) (name : Text)
    (i : ℕ) : Except ExtractError (Option Function) :=
  match normal[i]?, normal[i + 1]? with
  | some (token, raw), some (next, _) =>
    if token.value ≠ name ∨ d.depths[i]? ≠ some 0 ∨ next.value ≠ ['('] then .ok none
    else
      match d.matching.lookup (i + 1) with
      | none => .error (.missing (i + 1))
      | some close =>
        match normal[close + 1]? with
        | none => .error (.incompleteDeclarator name token.line)
        | some (following, _) =>
          if following.value ∈ nonDefinition then .ok none
          else if following.value ≠ ['{'] then .error (.postDeclarator name token.line)
          else
            let declarationPrefix := prefixBefore all raw
            if declarationPrefix = [] ∨ ['='] ∈ declarationPrefix ∨ ['{'] ∈ declarationPrefix ∨
                ppStart ∈ declarationPrefix then
              .error (.declarationPrefix name token.line)
            else if ((normal.take close).drop (i + 2)).any fun p =>
                p.1.value ∈ [[';'], ['{'], ['}']] then
              .error (.parameterDeclaration name token.line)
            else
              match d.matching.lookup (close + 1) with
              | none => .error (.missing (close + 1))
              | some last =>
                match normal[last]? with
                | none => .error (.missing last)
                | some (_, rawEnd) =>
                  .ok (some ⟨name, ((all.take (rawEnd + 1)).drop raw).map Token.value,
                    declarationPrefix, token.line⟩)
  | _, _ => .ok none

/-- The definitions that start at the given ordinary tokens, in order. -/
def definitions (all : List Token) (normal : List (Token × ℕ)) (d : Delimiters) (name : Text) :
    List ℕ → Except ExtractError (List Function)
  | [] => .ok []
  | i :: is =>
    match definitionAt all normal d name i with
    | .error e => .error e
    | .ok found => (definitions all normal d name is).map (found.toList ++ ·)

/-- `extract_function` behind the call of `_lex`. -/
def extractFrom (all : List Token) (name : Text) : Except ExtractError Function :=
  let normal := normalTokens all
  match delimiters normal with
  | .error e => .error e
  | .ok d =>
    match definitions all normal d name (List.range normal.length) with
    | .error e => .error e
    | .ok [f] => .ok f
    | .ok fs => .error (.definitionCount name fs.length)

/-- `extract_function(source, name)`. -/
def extractFunction (source name : Text) : Except ExtractError Function :=
  if isIdentifier name then
    match lex source with
    | .error e => .error (.lexical e)
    | .ok all => extractFrom all name
  else .error (.invalidName name)

example : extractFunction "static int f(int a) { return a; }\nint g;".toList "f".toList =
    .ok ⟨"f".toList, ["f", "(", "int", "a", ")", "\x7b", "return", "a", ";", "\x7d"].map String.toList,
      ["static", "int"].map String.toList, 1⟩ := by rfl

/-! ## Lines are only reported -/

/-- A token without its place. -/
def Token.forget (t : Token) : Token := ⟨t.value, t.kind, 0, 0, 0⟩

@[simp] theorem Token.forget_value (t : Token) : t.forget.value = t.value := by cases t; rfl

@[simp] theorem Token.forget_kind (t : Token) : t.forget.kind = t.kind := by cases t; rfl

/-- An error without its line. -/
def ExtractError.forget : ExtractError → ExtractError
  | .unbalancedDelimiter value _ => .unbalancedDelimiter value 0
  | .unclosedDelimiter value _ => .unclosedDelimiter value 0
  | .incompleteDeclarator name _ => .incompleteDeclarator name 0
  | .postDeclarator name _ => .postDeclarator name 0
  | .declarationPrefix name _ => .declarationPrefix name 0
  | .parameterDeclaration name _ => .parameterDeclaration name 0
  | e => e

/-- A function without its line. -/
def Function.forget (f : Function) : Function := { f with line := 0 }

def Delimiters.forget (d : Delimiters) : Delimiters :=
  { d with stack := d.stack.map (Prod.map id Token.forget) }

/-- A result without its lines. -/
def forgetting {α : Type*} (f : α → α) : Except ExtractError α → Except ExtractError α
  | .error e => .error e.forget
  | .ok a => .ok (f a)

/-- An ordinary token without its place in the source. -/
def forgetFirst (p : Token × ℕ) : Token × ℕ := (p.1.forget, p.2)

theorem step_forget (d : Delimiters) (i : ℕ) (t : Token) :
    d.forget.step i t.forget = forgetting Delimiters.forget (d.step i t) := by
  obtain ⟨stack, matching, depths⟩ := d
  simp only [Delimiters.step, Delimiters.forget, Token.forget_value, List.length_map]
  split_ifs with h1 h2
  · rfl
  · cases stack with
    | nil => rfl
    | cons p stack =>
      simp only [List.map_cons, Prod.map, id, Token.forget_value]
      split_ifs
      · rfl
      · rfl
  · rfl

theorem run_forget (d : Delimiters) (ps : List (Token × ℕ)) :
    d.forget.run (ps.map forgetFirst) = forgetting Delimiters.forget (d.run ps) := by
  induction ps generalizing d with
  | nil => rfl
  | cons p ps ih =>
    obtain ⟨t, i⟩ := p
    rw [List.map_cons, forgetFirst, Delimiters.run, Delimiters.run, step_forget]
    cases d.step i t with
    | error e => rfl
    | ok d' => exact ih d'

theorem delimiters_forget (normal : List (Token × ℕ)) :
    delimiters (normal.map forgetFirst) = forgetting Delimiters.forget (delimiters normal) := by
  have hzip : ((normal.map forgetFirst).map Prod.fst).zipIdx =
      ((normal.map Prod.fst).zipIdx).map forgetFirst := by
    have hmap : (normal.map forgetFirst).map Prod.fst = (normal.map Prod.fst).map Token.forget := by
      rw [List.map_map, List.map_map]
      rfl
    rw [hmap, List.zipIdx_map]
    rfl
  have hrun := run_forget ⟨[], [], []⟩ ((normal.map Prod.fst).zipIdx)
  unfold delimiters
  rw [hzip]
  change (match Delimiters.run (Delimiters.forget ⟨[], [], []⟩) _ with
    | .error e => _
    | .ok d => _) = _
  rw [hrun]
  cases Delimiters.run ⟨[], [], []⟩ ((normal.map Prod.fst).zipIdx) with
  | error e => rfl
  | ok d =>
    obtain ⟨stack, matching, depths⟩ := d
    cases stack with
    | nil => rfl
    | cons p stack => rfl

theorem normalTokens_forget (all : List Token) :
    normalTokens (all.map Token.forget) = (normalTokens all).map forgetFirst := by
  unfold normalTokens
  rw [List.zipIdx_map, List.filter_map]
  rfl

theorem prefixBefore_forget (all : List Token) (raw : ℕ) :
    prefixBefore (all.map Token.forget) raw = prefixBefore all raw := by
  unfold prefixBefore
  rw [← List.map_take, List.map_map]
  rfl

theorem definitionAt_forget (all : List Token) (normal : List (Token × ℕ)) (d : Delimiters)
    (name : Text) (i : ℕ) :
    definitionAt (all.map Token.forget) (normal.map forgetFirst) d.forget name i =
      forgetting (Option.map Function.forget) (definitionAt all normal d name i) := by
  unfold definitionAt
  rw [List.getElem?_map, List.getElem?_map]
  cases normal[i]? with
  | none => rfl
  | some p =>
    cases normal[i + 1]? with
    | none => rfl
    | some q =>
      simp only [Option.map_some, forgetFirst, Token.forget_value, Delimiters.forget,
        prefixBefore_forget]
      by_cases h1 : p.1.value ≠ name ∨ d.depths[i]? ≠ some 0 ∨ q.1.value ≠ ['(']
      · rw [if_pos h1, if_pos h1]
        rfl
      · rw [if_neg h1, if_neg h1]
        cases d.matching.lookup (i + 1) with
        | none => rfl
        | some close =>
          simp only [List.getElem?_map]
          cases normal[close + 1]? with
          | none => rfl
          | some r =>
            simp only [Option.map_some, forgetFirst, Token.forget_value, ← List.map_take,
              ← List.map_drop, List.any_map, Function.comp_def]
            split_ifs
            · rfl
            · rfl
            · rfl
            · rfl
            · cases d.matching.lookup (close + 1) with
              | none => rfl
              | some last =>
                dsimp only
                cases normal[last]? with
                | none => rfl
                | some s =>
                  simp only [Option.map_some, forgetFirst, List.map_map]
                  rfl

theorem definitions_forget (all : List Token) (normal : List (Token × ℕ)) (d : Delimiters)
    (name : Text) (is : List ℕ) :
    definitions (all.map Token.forget) (normal.map forgetFirst) d.forget name is =
      forgetting (List.map Function.forget) (definitions all normal d name is) := by
  induction is with
  | nil => rfl
  | cons i is ih =>
    rw [definitions, definitions, definitionAt_forget, ih]
    cases definitionAt all normal d name i with
    | error e => rfl
    | ok found =>
      cases definitions all normal d name is with
      | error e => rfl
      | ok fs =>
        cases found with
        | none => rfl
        | some f => rfl

/-- **The extractor commutes with forgetting the lines.** -/
theorem extractFrom_forget (all : List Token) (name : Text) :
    extractFrom (all.map Token.forget) name = forgetting Function.forget (extractFrom all name) := by
  simp only [extractFrom, normalTokens_forget, delimiters_forget]
  cases delimiters (normalTokens all) with
  | error e => rfl
  | ok d =>
    dsimp only [forgetting]
    rw [List.length_map, definitions_forget]
    cases definitions all (normalTokens all) d name (List.range (normalTokens all).length) with
    | error e => rfl
    | ok fs =>
      rcases fs with _ | ⟨f, _ | ⟨g, fs⟩⟩
      · rfl
      · rfl
      · simp [forgetting, ExtractError.forget]

/-! ## The values determine the functions -/

/-- What the comparison of functions looks at: whether extraction fails, and if not, the
tokens and the declaration prefix. -/
def extracted (source name : Text) : Option (List Text × List Text) :=
  match extractFunction source name with
  | .error _ => none
  | .ok f => some (f.tokens, f.declarationPrefix)

theorem forget_eq_of_view {ta tb : List Token} (h : ta.map Token.view = tb.map Token.view) :
    ta.map Token.forget = tb.map Token.forget := by
  have hforget : Token.forget = (fun p : Text × Kind => (⟨p.1, p.2, 0, 0, 0⟩ : Token)) ∘ Token.view :=
    rfl
  rw [hforget, ← List.map_map, ← List.map_map, h]

/-- **Sources with the same token values have the same functions.** -/
theorem extracted_eq {a b : Text} {ta tb : List Token} (ha : lex a = .ok ta) (hb : lex b = .ok tb)
    (hv : ta.map Token.value = tb.map Token.value) (name : Text) :
    extracted a name = extracted b name := by
  have hforget := forget_eq_of_view (lex_view_eq ha hb hv)
  unfold extracted extractFunction
  split_ifs
  · rw [ha, hb]
    dsimp only
    have hsame := extractFrom_forget ta name
    rw [hforget, extractFrom_forget tb name] at hsame
    cases hta : extractFrom ta name with
    | error e =>
      cases htb : extractFrom tb name with
      | error e' => rfl
      | ok f =>
        rw [hta, htb] at hsame
        exact absurd hsame (by simp [forgetting])
    | ok f =>
      cases htb : extractFrom tb name with
      | error e' =>
        rw [hta, htb] at hsame
        exact absurd hsame (by simp [forgetting])
      | ok g =>
        rw [hta, htb] at hsame
        simp only [forgetting, Except.ok.injEq, Function.forget, Function.mk.injEq] at hsame
        dsimp only
        rw [hsame.2.1, hsame.2.2.1]
  · rfl

end Provenance
end Fragma
