import Fragma.Provenance.Lexer
import Fragma.Replay.Identity
import Fragma.Replay.Linemarkers

/-!
# Linemarkers and the lexical structure of C

`fragma/replay.py`, `normalize_linemarkers`, seen from outside.  The scanner of the
normaliser reads a text line by line.  C splices lines first: a line comment that ends with
a backslash goes on in the next line, and a backslash-newline inside a delimiter does not
break it.  `inside` is that reading.

* `CState`, `inside`: what a prefix of a text leaves open in C.
* `Moves`, `Corresponds`, `Relocated`: a text over corresponding roots.
* `MetadataOnly`: only linemarkers change, and stably so.
* `Agrees`: at no linemarker the scanner is misled.
* `metadataOnly_of_agrees`: then only metadata changes.
-/

namespace Fragma
namespace Replay

open Python Posix

/-! ## The reading of C -/

/-- What the characters so far leave open in C. -/
inductive CState where
  | code
  | slash
  | lineComment
  | comment
  | star
  | literal (quote : Char)
  | escape (quote : Char)
  deriving DecidableEq, Repr

/-- One more character of the spliced text. -/
def CState.step : CState → Char → CState
  | .code, c => if c = '/' then .slash else if c = '"' ∨ c = '\'' then .literal c else .code
  | .slash, c =>
    if c = '/' then .lineComment else if c = '*' then .comment
    else if c = '"' ∨ c = '\'' then .literal c else .code
  | .lineComment, c => if c = '\n' then .code else .lineComment
  | .comment, c => if c = '*' then .star else .comment
  | .star, c => if c = '/' then .code else if c = '*' then .star else .comment
  | .literal q, c => if c = q then .code else if c = '\\' then .escape q else .literal q
  | .escape q, _ => .literal q

/-- A comment or a literal is open. -/
def CState.isInside : CState → Bool
  | .code => false
  | .slash => false
  | _ => true

/-- What stands behind the given text lies inside a comment or a literal. -/
def inside (before : List Char) : Bool :=
  ((Provenance.splice before).foldl CState.step .code).isInside

/-! ## Corresponding roots -/

/-- The second path lies below the first one. -/
def Below (P Q : PurePath) (k : List Component) : Prop := Q.root = P.root ∧ Q.tail = P.tail ++ k

/-- The location of a path. -/
def location (p : String) : PurePath := (PurePath.parse p).collapse

namespace Mapper

/-- Some root is above the location of a path. -/
def Covers (m : Mapper) (p : String) : Prop :=
  ∃ b ∈ m.roots, (location p).IsRelativeTo (PurePath.parse b.2)

instance (m : Mapper) (p : String) : Decidable (m.Covers p) :=
  inferInstanceAs (Decidable (∃ b ∈ m.roots, _))

/-- What `Mapper` builds, with the aliases that generated files get. -/
def Valid (m : Mapper) : Prop :=
  (∃ roots run, Mapper.new roots run = .ok { m with aliases := [] }) ∧
    ∀ a ∈ m.aliases, NoFilename a.2

/-- The second path is the first one moved along: below the root of the same role, at the same
place, or outside of all roots on both sides. -/
def Moves (m m' : Mapper) (p p' : String) : Prop :=
  (PurePath.parse p).IsAbsolute ∧ (PurePath.parse p').IsAbsolute ∧
    ((∃ b b' k, m.Owns b (location p) ∧ b' ∈ m'.roots ∧ b'.1 = b.1 ∧
        Below (PurePath.parse b.2) (location p) k ∧ Below (PurePath.parse b'.2) (location p') k) ∨
      (p' = p ∧ ¬ m.Covers p ∧ ¬ m'.Covers p))

/-- The same roles, whose roots are nested in the same way, and the same aliases. -/
structure Corresponds (m m' : Mapper) : Prop where
  roles : ∀ role, role ∈ m.roots.map Prod.fst ↔ role ∈ m'.roots.map Prod.fst
  nested : ∀ b ∈ m.roots, ∀ c ∈ m.roots, ∀ b' ∈ m'.roots, ∀ c' ∈ m'.roots, b'.1 = b.1 → c'.1 = c.1 →
    ∀ k, Below (PurePath.parse b.2) (PurePath.parse c.2) k ↔
      Below (PurePath.parse b'.2) (PurePath.parse c'.2) k
  aliases : ∀ p p', Moves m m' p p' →
    m.aliases.lookup (normpath p) = m'.aliases.lookup (normpath p')

end Mapper

/-! ## Relocated texts -/

/-- A line of a relocated text: the filename of an absolute linemarker outside of comments and
literals is moved along, and nothing else changes. -/
def RelocatedLine (t : Decimals) (m m' : Mapper) (inside : Bool) (line line' : List Char) : Prop :=
  match located t line with
  | some (head, path, tail) =>
    if inside = false ∧ path.head? = some '/' then
      ∃ path', PathText path' ∧ Mapper.Moves m m' (String.ofList path) (String.ofList path') ∧
        line' = head ++ '"' :: (path' ++ '"' :: tail)
    else line' = line
  | none => line' = line

/-- The second text is the first one relocated. -/
def Relocated (t : Decimals) (m m' : Mapper) (text text' : List Char) : Prop :=
  (splitLines text').length = (splitLines text).length ∧
    ∀ (k : ℕ) (line line' : List Char), (splitLines text)[k]? = some line →
      (splitLines text')[k]? = some line' → RelocatedLine t m m' (inside ((splitLines text).take k).flatten)
        line line'

/-- **Only metadata changes, and stably so**: the lines that are no absolute or synthetic
linemarkers stay, those inside of comments and literals stay, a second pass changes nothing, and
a relocated text is normalised to the same text. -/
structure MetadataOnly (t : Decimals) (m : Mapper) (text out : List Char) : Prop where
  length : (splitLines out).length = (splitLines text).length
  others : ∀ (k : ℕ) (line line' : List Char), (splitLines text)[k]? = some line →
    (splitLines out)[k]? = some line' → located t line = none → line' = line
  content : ∀ (k : ℕ) (line line' : List Char), (splitLines text)[k]? = some line →
    (splitLines out)[k]? = some line' → inside ((splitLines text).take k).flatten = true → line' = line
  stable : normalizeLinemarkers t m out = .ok out
  relocates : ∀ m' text', m'.Valid → Mapper.Corresponds m m' → Relocated t m m' text text' →
    normalizeLinemarkers t m' text' = .ok out

/-- At a line, a scanner that reads line by line is not misled about an absolute or synthetic
linemarker. -/
def AgreesAt (t : Decimals) (m : Mapper) (state : ScanState) (inside : Bool) (line : List Char) :
    Prop :=
  ∀ head path tail, located t line = some (head, path, tail) →
    (inside = true → state ≠ .code) ∧
      (path.head? = some '/' → m.Covers (String.ofList path) → state ≠ .code → inside = true)

/-- Every absolute or synthetic linemarker-shaped line inside a comment or a literal is still
inside one when the text is read line by line, and every linemarker of a file under a root
outside is still outside. -/
def Agrees (t : Decimals) (m : Mapper) (text : List Char) : Prop :=
  ∀ (k : ℕ) (line : List Char), (splitLines text)[k]? = some line →
    AgreesAt t m (scanLines .code ((splitLines text).take k))
      (inside ((splitLines text).take k).flatten) line

/-! ## Identities of moved paths -/

theorem isRelativeTo_iff_below {P Q : PurePath} : P.IsRelativeTo Q ↔ ∃ k, Below Q P k := by
  constructor
  · rintro ⟨hroot, k, hk⟩
    exact ⟨k, hroot, hk.symm⟩
  · rintro ⟨k, hroot, hk⟩
    exact ⟨hroot, k, hk.symm⟩

theorem Below.relativeTo {P Q : PurePath} {k : List Component} (h : Below P Q k) :
    Q.relativeTo P = ⟨.relative, k⟩ := by
  rw [PurePath.relativeTo, h.2, List.drop_left]

theorem partCount_below {P Q : PurePath} {k : List Component} (h : Below P Q k) :
    Q.partCount = P.partCount + k.length := by
  rw [PurePath.partCount, PurePath.partCount, h.1, h.2, List.length_append]
  omega

/-- Two paths above the same one: one is above the other. -/
theorem below_total {P Q V : PurePath} {k l : List Component} (hP : Below P V k) (hQ : Below Q V l) :
    (∃ x, Below P Q x ∧ k = x ++ l) ∨ ∃ x, Below Q P x ∧ l = x ++ k := by
  have hroot : Q.root = P.root := hQ.1.symm.trans hP.1
  have htail : P.tail ++ k = Q.tail ++ l := hP.2.symm.trans hQ.2
  rcases List.append_eq_append_iff.mp htail with ⟨x, hx, hl⟩ | ⟨x, hx, hl⟩
  · exact .inl ⟨x, ⟨hroot, hx⟩, hl⟩
  · exact .inr ⟨x, ⟨hroot.symm, hx⟩, hl⟩

namespace Mapper

variable {m m' : Mapper}

/-- Candidates of one location: the deeper root wins, then the larger role. -/
theorem candidate_le_iff {V : PurePath} {b c : String × String} {k l : List Component}
    (hb : Below (PurePath.parse b.2) V k) (hc : Below (PurePath.parse c.2) V l) :
    candidate V c ≤ candidate V b ↔
      (PurePath.parse c.2).partCount < (PurePath.parse b.2).partCount ∨
        ((PurePath.parse c.2).partCount = (PurePath.parse b.2).partCount ∧ c.1 ≤ b.1) := by
  rw [candidate, candidate, Prod.Lex.toLex_le_toLex, Prod.Lex.toLex_le_toLex]
  have hkl : (PurePath.parse c.2).partCount = (PurePath.parse b.2).partCount → k = l := by
    intro heq
    have hsame := (partCount_below hb).symm.trans (partCount_below hc)
    rcases below_total hb hc with ⟨x, hx, rfl⟩ | ⟨x, hx, rfl⟩
    · rw [List.length_append] at hsame
      rw [List.length_eq_zero_iff.mp (show x.length = 0 by omega), List.nil_append]
    · rw [List.length_append] at hsame
      rw [List.length_eq_zero_iff.mp (show x.length = 0 by omega), List.nil_append]
  rw [hb.relativeTo, hc.relativeTo]
  constructor
  · rintro (hlt | ⟨heq, hlt | ⟨hrole, -⟩⟩)
    · exact .inl hlt
    · exact .inr ⟨heq, hlt.le⟩
    · exact .inr ⟨heq, hrole.le⟩
  · rintro (hlt | ⟨heq, hle⟩)
    · exact .inl hlt
    · refine .inr ⟨heq, ?_⟩
      rcases lt_or_eq_of_le hle with hlt | hrole
      · exact .inl hlt
      · exact .inr ⟨hrole, by rw [hkl heq]⟩

/-- **The owner moves along.** -/
theorem owns_of_corresponds (hc : Corresponds m m') {b b' : String × String} {V V' : PurePath}
    {k : List Component} (h : m.Owns b V) (hb' : b' ∈ m'.roots) (hrole : b'.1 = b.1)
    (hbelow : Below (PurePath.parse b.2) V k) (hbelow' : Below (PurePath.parse b'.2) V' k) :
    m'.Owns b' V' := by
  refine ⟨hb', isRelativeTo_iff_below.mpr ⟨k, hbelow'⟩, fun c' hc' habove => ?_⟩
  obtain ⟨l, hl⟩ := isRelativeTo_iff_below.mp habove
  obtain ⟨c, hcmem, hcrole⟩ := List.mem_map.mp ((hc.roles c'.1).mpr (List.mem_map_of_mem hc'))
  rw [candidate_le_iff hbelow' hl]
  rcases below_total hbelow' hl with ⟨x, hx, rfl⟩ | ⟨x, hx, rfl⟩
  · -- the other root is below: then so it was before
    have hx₀ := (hc.nested b h.mem c hcmem b' hb' c' hc' hrole hcrole.symm x).mpr hx
    have hcV : Below (PurePath.parse c.2) V l :=
      ⟨hbelow.1.trans hx₀.1.symm, by rw [hbelow.2, hx₀.2, List.append_assoc]⟩
    have hle := (candidate_le_iff hbelow hcV).mp
      (h.greatest c hcmem (isRelativeTo_iff_below.mpr ⟨l, hcV⟩))
    rw [partCount_below hx₀] at hle
    rw [partCount_below hx, ← hcrole, hrole]
    rcases hle with hlt | ⟨heq, hle⟩
    · omega
    · exact .inr ⟨by omega, hle⟩
  · -- the other root is above
    rw [partCount_below hx]
    have hx₀ := (hc.nested c hcmem b h.mem c' hc' b' hb' hcrole.symm hrole x).mpr hx
    have hcV : Below (PurePath.parse c.2) V (x ++ k) :=
      ⟨hbelow.1.trans hx₀.1, by rw [hbelow.2, hx₀.2, List.append_assoc]⟩
    have hle := (candidate_le_iff hbelow hcV).mp
      (h.greatest c hcmem (isRelativeTo_iff_below.mpr ⟨_, hcV⟩))
    rw [partCount_below hx₀] at hle
    rw [← hcrole, hrole]
    rcases hle with hlt | ⟨heq, hle⟩
    · exact .inl (by omega)
    · exact .inr ⟨by omega, hle⟩

theorem identity_of_not_covers {p : String} (h : ¬ m.Covers p) :
    m.identity (location p) = "absolute:" ++ (location p).render := by
  have hbest : m.best (location p) = none :=
    m.best_eq_none.mpr fun b hb hrel => h ⟨b, hb, hrel⟩
  rw [identity, hbest]

/-- **A moved path has the same identity.** -/
theorem identityOf_moves (hc : Corresponds m m') {p p' : String} (h : Moves m m' p p') :
    m'.identityOf p' = m.identityOf p := by
  rw [identityOf, identityOf, hc.aliases p p' h, parse_normpath, parse_normpath]
  congr 1
  obtain ⟨-, -, ⟨b, b', k, hown, hb', hrole, hbelow, hbelow'⟩ | ⟨rfl, hm, hm'⟩⟩ := h
  · have hown' := owns_of_corresponds hc hown hb' hrole hbelow hbelow'
    show m'.identity (location p') = m.identity (location p)
    rw [identity_of_owns hown, identity_of_owns hown', hbelow.relativeTo, hbelow'.relativeTo, hrole]
  · exact (identity_of_not_covers hm').trans (identity_of_not_covers hm).symm

end Mapper

/-! ## Only metadata changes -/

theorem pathText_toList {path : List Char} : (String.ofList path).toList = path :=
  String.toList_ofList

theorem head?_of_isAbsolute {path : List Char} :
    (PurePath.parse (String.ofList path)).IsAbsolute ↔ path.head? = some '/' := by
  rw [PurePath.isAbsolute_parse_iff, String.toList_ofList]

theorem ofList_ne_empty {path : List Char} (h : path ≠ []) : String.ofList path ≠ "" := by
  intro hnil
  have hlist := congrArg String.toList hnil
  rw [String.toList_ofList] at hlist
  exact h hlist

/-- The identity of an absolute filename. -/
theorem path_of_slash {m : Mapper} {path : List Char} (h : path.head? = some '/') :
    m.path (String.ofList path) = .ok (m.identityOf (String.ofList path)) := by
  have hne : path ≠ [] := by
    rintro rfl
    exact absurd h (by simp)
  rw [m.path_eq (ofList_ne_empty hne), String.toList_ofList, h,
    if_neg (by rintro ⟨hangle, -⟩; exact absurd hangle (by decide)),
    if_pos (head?_of_isAbsolute.mpr h)]

/-- A synthetic filename has one identity. -/
theorem path_of_angle (m m' : Mapper) {path : List Char} (h : path.head? = some '<') :
    m'.path (String.ofList path) = m.path (String.ofList path) := by
  have hne : path ≠ [] := by
    rintro rfl
    exact absurd h (by simp)
  have hrel : ¬ (PurePath.parse (String.ofList path)).IsAbsolute := by
    rw [head?_of_isAbsolute, h]
    decide
  rw [m.path_eq (ofList_ne_empty hne), m'.path_eq (ofList_ne_empty hne), if_neg hrel, if_neg hrel]

/-- **One relocated line**, where the scanner is not misled. -/
theorem rewriteLine_relocated {t : Decimals} {m m' : Mapper} (hc : Mapper.Corresponds m m')
    {state : ScanState} {inside : Bool} {line line' out : List Char}
    (hagree : AgreesAt t m state inside line) (hr : RelocatedLine t m m' inside line line')
    (h : rewriteLine t m state line = .ok out) :
    rewriteLine t m' state line' = .ok out ∧ state.advance line' = state.advance line := by
  unfold RelocatedLine at hr
  cases hloc : located t line with
  | none =>
    rw [hloc] at hr
    subst hr
    rw [rewriteLine_eq, hloc] at h ⊢
    exact ⟨h, rfl⟩
  | some r =>
    obtain ⟨head, path, tail⟩ := r
    obtain ⟨hcode, hcovered⟩ := hagree head path tail hloc
    obtain ⟨hline, hhead, htext, hpath, htail⟩ := located_eq_some hloc
    rw [hloc] at hr
    dsimp only at hr
    rw [rewriteLine_eq, hloc] at h
    dsimp only at h
    by_cases hmoved : inside = false ∧ path.head? = some '/'
    · rw [if_pos hmoved] at hr
      obtain ⟨path', htext', hmoves, rfl⟩ := hr
      have hslash' : path'.head? = some '/' := head?_of_isAbsolute.mp hmoves.2.1
      have hloc' := located_mk hhead htext' (.inl hslash') htail
      rw [path_of_slash hmoved.2] at h
      rw [rewriteLine_eq, hloc']
      dsimp only
      rw [path_of_slash hslash', Mapper.identityOf_moves hc hmoves]
      by_cases hstate : state = .code
      · rw [if_pos hstate] at h ⊢
        refine ⟨h, ?_⟩
        rw [hstate, hline, advance_marker hhead htext, advance_marker hhead htext']
      · -- a root above the file would put the line inside
        rw [if_neg hstate] at h ⊢
        have hsame : path' = path := by
          obtain ⟨-, -, ⟨b, -, k, hown, -, -, hbelow, -⟩ | ⟨heq, -⟩⟩ := hmoves
          · have hin := hcovered hmoved.2 ⟨b, hown.mem, isRelativeTo_iff_below.mpr ⟨k, hbelow⟩⟩ hstate
            rw [hmoved.1] at hin
            exact absurd hin (by simp)
          · exact String.ofList_injective heq
        rw [hsame, ← hline]
        exact ⟨h, rfl⟩
    · rw [if_neg hmoved] at hr
      subst hr
      rw [rewriteLine_eq, hloc]
      dsimp only
      refine ⟨?_, rfl⟩
      by_cases hstate : state = .code
      · rw [if_pos hstate] at h ⊢
        have hout : inside = false := by
          by_contra hin
          exact hcode (by simpa using hin) hstate
        have hangle : path.head? = some '<' := hpath.resolve_left fun hslash => hmoved ⟨hout, hslash⟩
        rwa [path_of_angle m m' hangle]
      · rwa [if_neg hstate] at h ⊢

theorem Rewrites.relocated {t : Decimals} {m m' : Mapper} (hc : Mapper.Corresponds m m')
    {state : ScanState} {lines out : List (List Char)} (h : Rewrites t m state lines out) :
    ∀ {lines' : List (List Char)}, lines'.length = lines.length →
      (∀ (k : ℕ) (line line' : List Char), lines[k]? = some line → lines'[k]? = some line' →
        ∃ inside, AgreesAt t m (scanLines state (lines.take k)) inside line ∧
          RelocatedLine t m m' inside line line') →
      Rewrites t m' state lines' out := by
  induction h with
  | nil state =>
    intro lines' hlength _
    rw [List.length_eq_zero_iff.mp hlength]
    exact .nil state
  | @cons state line line₁ rest rest₁ hline _ ih =>
    intro lines' hlength hlines
    cases lines' with
    | nil => exact absurd hlength (by simp)
    | cons line' rest' =>
      obtain ⟨inside, hagree, hr⟩ := hlines 0 line line' rfl rfl
      have hagree₀ : AgreesAt t m state inside line := hagree
      obtain ⟨hline', hstate⟩ := rewriteLine_relocated hc hagree₀ hr hline
      refine .cons hline' ?_
      rw [hstate]
      exact ih (by simpa using hlength) fun k l l' hl hl' => hlines (k + 1) l l' hl hl'

/-- **Where the scanner is not misled, only metadata changes.** -/
theorem metadataOnly_of_agrees {t : Decimals} {m : Mapper} (hm : m.Proper) {text out : List Char}
    (h : normalizeLinemarkers t m text = .ok out) (hagree : Agrees t m text) :
    MetadataOnly t m text out := by
  have hrewrites := normalizeLinemarkers_eq_ok_iff.mp h
  refine ⟨hrewrites.length_eq, ?_, ?_, normalizeLinemarkers_idem hm h, ?_⟩
  · intro k line line' hk hk' hloc
    have hline := hrewrites.getElem? hk hk'
    rw [rewriteLine_eq, hloc] at hline
    exact (Except.ok.inj hline).symm
  · intro k line line' hk hk' hin
    rcases rewriteLine_cases (hrewrites.getElem? hk hk') with
      ⟨rfl, -⟩ | ⟨head, path, tail, mapped, hcode, hloc, -, -⟩
    · rfl
    · exact absurd hcode ((hagree k line hk head path tail hloc).1 hin)
  · intro m' text' _ hc ⟨hlength, hlines⟩
    refine normalizeLinemarkers_eq_ok_iff.mpr (hrewrites.relocated hc hlength ?_)
    intro k line line' hk hk'
    exact ⟨_, hagree k line hk, hlines k line line' hk hk'⟩

end Replay
end Fragma
