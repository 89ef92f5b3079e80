import Fragma.Elf.Calibration
import Fragma.Suite.Review

/-!
# The fixture object

`fixture_object` of `fragma/frontend_policy.py` reads from an object two texts that the compiler wrote
down as names of its policy.

* `fixtureObject`: the function.
* `fixtureObject_eq_ok_iff`: what an accepted object carries; `fixtureObject_fails`: how others fail.
-/

namespace Fragma
namespace Elf

open Python Python.Struct Keyed Suite

/-- `require(condition, message)` of `fragma/frontend_policy.py`. -/
def requireSource (condition : Prop) [Decidable condition] (message : String) : Except Failure Unit :=
  ensure condition ⟨.sourceError, "frontend policy: " ++ message⟩

/-- The attributes of `VARIANTS`. -/
def variants : List (String × String) :=
  [("no-instrument", "__attribute__((__no_instrument_function__))"),
    ("patchable-entry-0", "__attribute__((patchable_function_entry(0, 0)))")]

/-- The two names. -/
def effectiveInline : Bytes := ascii "fragma_common24_effective_inline"

def expectedInline : Bytes := ascii "fragma_common24_expected_inline"

def wantedInline : List Bytes := [effectiveInline, expectedInline]

/-- What the compiler writes down, with the zero byte at its end. -/
def inlineBytes (spelling : String) : Bytes :=
  ascii ("inline __attribute__((__gnu_inline__)) __attribute__((__unused__)) " ++ spelling) ++ [0]

/-- What `fixture_object` returns. -/
structure Fixture where
  bits : ℕ
  byteOrder : String
  machine : ℕ
  inlineMetadata : List (String × String)

/-- The failure of a policy. -/
def policyFailure (e : Exn) : Failure :=
  ⟨match e.kind with
    | .valueError => .sourceError
    | .keyError => .keyError
    | .indexError => .indexError
    | _ => .valueError, e.message⟩

/-- `identity(target)`, with the exceptions of this part. -/
def policyIdentity (target : Dict) : Except Failure (Option Dict) :=
  (frontendIdentity target).mapError policyFailure

/-- `except elf.ELFError as exc: raise SourceError(...)`. -/
def asSourceError (e : Failure) : Failure :=
  if e.kind = .elfError then ⟨.sourceError, "frontend policy: " ++ e.message⟩ else e

/-- `VARIANTS[policy["variant"]][1]` -/
def variantAttribute (policy : Dict) : Except Failure String :=
  match Value.get policy "variant" with
  | .str variant => orFail (variants.lookup variant) .keyError
  | _ => .error ⟨.keyError, ""⟩

/-- Whether a symbol is a new definition of its name, of the right size. -/
def isInline (obj : Relocatable) (size : ℕ) (observed : List (Bytes × Bytes)) (symbol : Symbol) :
    Except Failure Bool :=
  andAlso (symbol.name ∉ observed.map Prod.fst ∧ symbol.info = 0x11 ∧ symbol.other = 0 ∧ 0 < symbol.index ∧
      symbol.index < obj.sections.length) do
    let s ← item obj.sections symbol.index
    pure (decide (s.kind = 1 ∧ symbol.size = size))

/-- The turn of a symbol. -/
def checkInline (obj : Relocatable) (expected : Bytes) (observed : List (Bytes × Bytes)) (symbol : Symbol) :
    Except Failure (List (Bytes × Bytes)) :=
  if symbol.name ∉ wantedInline then pure observed
  else do
    let formed ← isInline obj expected.length observed symbol
    requireSource (formed = true) "invalid or duplicate inline metadata symbol"
    let content ← obj.sectionBytes symbol.index
    requireSource (symbol.value + symbol.size ≤ content.length ∧
      slice content symbol.value symbol.size = expected)
      "compiler-produced inline metadata differs from selected policy"
    pure (observed ++ [(symbol.name, expected.dropLast)])

/-- `fixture_object(data, target, model)` -/
def fixtureObject (data : Bytes) (target : Dict) (model : Value) : Except Failure Fixture := do
  let policy ← policyIdentity target
  requireSource (policy.isSome = true) "fixture object requires an explicit policy"
  let obj ← (parseRelocatable data model).mapError asSourceError
  let spelling ← variantAttribute (policy.getD [])
  let observed ← obj.symbols.foldlM (checkInline obj (inlineBytes spelling)) []
  requireSource ((∀ name ∈ observed.map Prod.fst, name ∈ wantedInline) ∧
    ∀ name ∈ wantedInline, name ∈ observed.map Prod.fst) "missing compiler-produced inline metadata symbols"
  pure ⟨obj.width.bits, byteOrder obj.little, obj.machine,
    sortPairs (observed.map fun p => (latin1 p.1, latin1 p.2))⟩

/-! ## What an accepted object carries -/

/-- A symbol is a global object whose bytes stand in the file. -/
def Carries (obj : Relocatable) (expected : Bytes) (symbol : Symbol) : Prop :=
  symbol.info = 0x11 ∧ symbol.other = 0 ∧ 0 < symbol.index ∧ symbol.size = expected.length ∧
    ∃ s, obj.sections[symbol.index]? = some s ∧ s.kind = 1 ∧ symbol.value + symbol.size ≤ s.size ∧
      slice obj.data (s.offset + symbol.value) symbol.size = expected

section Carries

variable {obj : Relocatable} {expected : Bytes}

@[simp] theorem requireSource_eq_ok_iff {condition : Prop} [Decidable condition] {message : String}
    {u : Unit} : requireSource condition message = .ok u ↔ condition := ensure_eq_ok_iff

theorem isInline_eq_ok_true_iff {size : ℕ} {observed : List (Bytes × Bytes)} {symbol : Symbol} :
    isInline obj size observed symbol = .ok true ↔
      symbol.name ∉ observed.map Prod.fst ∧ symbol.info = 0x11 ∧ symbol.other = 0 ∧ 0 < symbol.index ∧
        symbol.size = size ∧ ∃ s, obj.sections[symbol.index]? = some s ∧ s.kind = 1 := by
  rw [isInline, andAlso_eq_ok_true_iff, bind_eq_ok_iff]
  simp only [item_eq_ok_iff]
  constructor
  · rintro ⟨⟨hnew, hinfo, hother, hpos, -⟩, s, hs, h⟩
    obtain ⟨hkind, hsize⟩ := of_decide_eq_true (Except.ok.inj h)
    exact ⟨hnew, hinfo, hother, hpos, hsize, s, hs, hkind⟩
  · rintro ⟨hnew, hinfo, hother, hpos, hsize, s, hs, hkind⟩
    exact ⟨⟨hnew, hinfo, hother, hpos, (List.getElem?_eq_some_iff.mp hs).1⟩, s, hs,
      congrArg Except.ok (decide_eq_true ⟨hkind, hsize⟩)⟩

/-- The turn of a symbol whose name is wanted. -/
theorem checkInline_eq_ok_iff (hobj : obj.Bounded) {observed next : List (Bytes × Bytes)} {symbol : Symbol}
    (hwanted : symbol.name ∈ wantedInline) :
    checkInline obj expected observed symbol = .ok next ↔
      symbol.name ∉ observed.map Prod.fst ∧ Carries obj expected symbol ∧
        next = observed ++ [(symbol.name, expected.dropLast)] := by
  rw [checkInline, if_neg (not_not.mpr hwanted)]
  constructor
  · intro h
    obtain ⟨formed, hformed, h⟩ := bind_eq_ok_iff.mp h
    obtain ⟨_, hrequire, h⟩ := bind_eq_ok_iff.mp h
    obtain ⟨content, hcontent, h⟩ := bind_eq_ok_iff.mp h
    obtain ⟨_, hbytes, h⟩ := bind_eq_ok_iff.mp h
    rw [requireSource_eq_ok_iff] at hrequire hbytes
    obtain ⟨hnew, hinfo, hother, hpos, hsize, s, hs, hkind⟩ :=
      isInline_eq_ok_true_iff.mp (hrequire ▸ hformed)
    obtain ⟨t, ht, hlength⟩ := sectionBytes_length hobj hcontent
    obtain rfl := Option.some.inj (hs.symm.trans ht)
    obtain ⟨row, hrow, hcontent⟩ := bind_eq_ok_iff.mp hcontent
    obtain ⟨_, -, hcontent⟩ := bind_eq_ok_iff.mp hcontent
    obtain rfl := Option.some.inj (hs.symm.trans (item_eq_ok_iff.mp hrow))
    rw [hlength, ← Except.ok.inj hcontent] at hbytes
    rw [slice_slice hbytes.1] at hbytes
    exact ⟨hnew, ⟨hinfo, hother, hpos, hsize, s, hs, hkind, hbytes⟩, (Except.ok.inj h).symm⟩
  · rintro ⟨hnew, ⟨hinfo, hother, hpos, hsize, s, hs, hkind, hextent, hbytes⟩, rfl⟩
    have hne : s.kind ≠ 8 := by rw [hkind]; decide
    have hcontent := sectionBytes_eq_ok hs hne
    obtain ⟨t, ht, hlength⟩ := sectionBytes_length hobj hcontent
    obtain rfl := Option.some.inj (hs.symm.trans ht)
    refine bind_eq_ok_iff.mpr ⟨true,
      isInline_eq_ok_true_iff.mpr ⟨hnew, hinfo, hother, hpos, hsize, s, hs, hkind⟩, ?_⟩
    refine bind_eq_ok_iff.mpr ⟨(), requireSource_eq_ok_iff.mpr rfl, ?_⟩
    refine bind_eq_ok_iff.mpr ⟨_, hcontent, bind_eq_ok_iff.mpr ⟨(), ?_, rfl⟩⟩
    rw [requireSource_eq_ok_iff, hlength, slice_slice hextent]
    exact ⟨hextent, hbytes⟩

/-- The symbols whose names are wanted. -/
def inlineSymbols (symbols : List Symbol) : List Symbol :=
  symbols.filter fun symbol => symbol.name ∈ wantedInline

/-- The loop over the symbols. -/
theorem foldlM_checkInline_eq_ok_iff (hobj : obj.Bounded) {symbols : List Symbol}
    {observed next : List (Bytes × Bytes)} :
    symbols.foldlM (checkInline obj expected) observed = .ok next ↔
      (∀ symbol ∈ inlineSymbols symbols, Carries obj expected symbol ∧
        symbol.name ∉ observed.map Prod.fst) ∧
      ((inlineSymbols symbols).map Symbol.name).Nodup ∧
      next = observed ++ (inlineSymbols symbols).map fun symbol => (symbol.name, expected.dropLast) := by
  induction symbols generalizing observed with
  | nil => simp [inlineSymbols, pure, Except.pure, eq_comm]
  | cons symbol symbols ih =>
    rw [foldlM_cons_eq_ok_iff]
    by_cases hwanted : symbol.name ∈ wantedInline
    · have hcons : inlineSymbols (symbol :: symbols) = symbol :: inlineSymbols symbols :=
        List.filter_cons_of_pos (decide_eq_true hwanted)
      simp only [checkInline_eq_ok_iff hobj hwanted, hcons, List.forall_mem_cons, List.map_cons,
        List.nodup_cons, ih]
      constructor
      · rintro ⟨_, ⟨hnew, hcarries, rfl⟩, hall, hnodup, rfl⟩
        simp only [List.map_append, List.map_cons, List.map_nil, List.mem_append, List.mem_singleton,
          not_or] at hall
        refine ⟨⟨⟨hcarries, hnew⟩, fun s hs => ⟨(hall s hs).1, (hall s hs).2.1⟩⟩, ⟨?_, hnodup⟩, ?_⟩
        · intro hmem
          obtain ⟨s, hs, hname⟩ := List.mem_map.mp hmem
          exact (hall s hs).2.2 hname
        · rw [List.append_assoc, List.singleton_append]
      · rintro ⟨⟨⟨hcarries, hnew⟩, hall⟩, ⟨hfresh, hnodup⟩, rfl⟩
        refine ⟨_, ⟨hnew, hcarries, rfl⟩, fun s hs => ⟨(hall s hs).1, ?_⟩, hnodup, ?_⟩
        · simp only [List.map_append, List.map_cons, List.map_nil, List.mem_append, List.mem_singleton,
            not_or]
          exact ⟨(hall s hs).2, fun hname => hfresh (List.mem_map.mpr ⟨s, hs, hname⟩)⟩
        · rw [List.append_assoc, List.singleton_append]
    · have hcons : inlineSymbols (symbol :: symbols) = inlineSymbols symbols :=
        List.filter_cons_of_neg (by simpa using hwanted)
      have hturn : checkInline obj expected observed symbol = .ok observed := if_pos hwanted
      rw [hcons, ← ih, hturn]
      simp

theorem count_name {symbols : List Symbol} {name : Bytes} (h : name ∈ wantedInline) :
    ((inlineSymbols symbols).map Symbol.name).count name =
      (symbols.filter fun symbol => symbol.name = name).length := by
  rw [List.count, List.countP_map, List.countP_eq_length_filter, inlineSymbols, List.filter_filter]
  congr 1
  refine List.filter_congr fun symbol _ => ?_
  by_cases hname : symbol.name = name
  · simp [hname, h]
  · simp [hname]

/-- Each name once among the symbols with these names, and each there: one symbol for each name. -/
theorem names_once_iff {symbols : List Symbol} :
    ((inlineSymbols symbols).map Symbol.name).Nodup ∧
      (∀ name ∈ wantedInline, name ∈ (inlineSymbols symbols).map Symbol.name) ↔
      ∀ name ∈ wantedInline, ∃ symbol, symbols.filter (fun symbol => symbol.name = name) = [symbol] := by
  constructor
  · rintro ⟨hnodup, hall⟩ name hname
    have hone := List.count_eq_one_of_mem hnodup (hall name hname)
    rw [count_name hname] at hone
    exact List.length_eq_one_iff.mp hone
  · intro h
    have hone : ∀ name ∈ wantedInline, ((inlineSymbols symbols).map Symbol.name).count name = 1 := by
      intro name hname
      rw [count_name hname]
      exact List.length_eq_one_iff.mpr (h name hname)
    refine ⟨List.nodup_iff_count_le_one.mpr fun name => ?_, fun name hname => ?_⟩
    · by_cases hname : name ∈ wantedInline
      · exact (hone name hname).le
      · rw [List.count_eq_zero.mpr]
        · exact Nat.zero_le 1
        · intro hmem
          obtain ⟨symbol, hsymbol, rfl⟩ := List.mem_map.mp hmem
          exact hname (of_decide_eq_true (List.mem_filter.mp hsymbol).2)
    · exact List.count_pos_iff.mp (by rw [hone name hname]; decide)

theorem mem_inlineSymbols_iff {symbols : List Symbol} {symbol : Symbol} :
    symbol ∈ inlineSymbols symbols ↔ symbol ∈ symbols ∧ symbol.name ∈ wantedInline := by
  rw [inlineSymbols, List.mem_filter, decide_eq_true_eq]

/-- What is observed of an object. -/
def fixtureOf (obj : Relocatable) (expected : Bytes) : Fixture :=
  ⟨obj.width.bits, byteOrder obj.little, obj.machine,
    [(latin1 effectiveInline, latin1 expected.dropLast), (latin1 expectedInline, latin1 expected.dropLast)]⟩

/-- The pairs are written in the order of their names. -/
theorem sortPairs_inlineSymbols {symbols : List Symbol} {text : Bytes}
    (hnodup : ((inlineSymbols symbols).map Symbol.name).Nodup)
    (hall : ∀ name ∈ wantedInline, name ∈ (inlineSymbols symbols).map Symbol.name) :
    sortPairs (((inlineSymbols symbols).map fun symbol => (symbol.name, text)).map
      fun p => (latin1 p.1, latin1 p.2)) =
      [(latin1 effectiveInline, latin1 text), (latin1 expectedInline, latin1 text)] := by
  have hperm : ((inlineSymbols symbols).map Symbol.name).Perm wantedInline := by
    refine (List.perm_ext_iff_of_nodup hnodup (by decide)).mpr fun name => ⟨fun hmem => ?_, hall name⟩
    obtain ⟨symbol, hsymbol, rfl⟩ := List.mem_map.mp hmem
    exact (mem_inlineSymbols_iff.mp hsymbol).2
  refine sortPairs_eq_of_perm ?_ ?_
  · have hmap := hperm.map fun name => (latin1 name, latin1 text)
    rw [List.map_map] at hmap ⊢
    exact hmap
  · have hlt : latin1 effectiveInline < latin1 expectedInline := by decide
    exact List.pairwise_pair.mpr (Prod.Lex.le_iff.mpr (.inl hlt))

end Carries

/-- **A fixture is accepted exactly where each of the two names is one symbol that carries what the policy
writes.** -/
theorem fixtureObject_eq_ok_iff {data : Bytes} {target : Dict} {model : Value} {observed : Fixture} :
    fixtureObject data target model = .ok observed ↔
      ∃ policy spelling obj, policyIdentity target = .ok (some policy) ∧
        variantAttribute policy = .ok spelling ∧ parseRelocatable data model = .ok obj ∧
        (∀ name ∈ wantedInline, ∃ symbol, obj.symbols.filter (fun symbol => symbol.name = name) = [symbol] ∧
          Carries obj (inlineBytes spelling) symbol) ∧
        observed = fixtureOf obj (inlineBytes spelling) := by
  constructor
  · intro h
    obtain ⟨policy, hpolicy, h⟩ := bind_eq_ok_iff.mp h
    obtain ⟨_, hsome, h⟩ := bind_eq_ok_iff.mp h
    obtain ⟨obj, hparse, h⟩ := bind_eq_ok_iff.mp h
    obtain ⟨spelling, hspelling, h⟩ := bind_eq_ok_iff.mp h
    obtain ⟨pairs, hpairs, h⟩ := bind_eq_ok_iff.mp h
    obtain ⟨_, hset, h⟩ := bind_eq_ok_iff.mp h
    rw [requireSource_eq_ok_iff] at hsome hset
    rw [mapError_eq_ok_iff] at hparse
    obtain ⟨policy, rfl⟩ := Option.isSome_iff_exists.mp hsome
    obtain ⟨hcarries, hnodup, rfl⟩ :=
      (foldlM_checkInline_eq_ok_iff (bounded_of_parseRelocatable hparse).1).mp hpairs
    have hall : ∀ name ∈ wantedInline, name ∈ (inlineSymbols obj.symbols).map Symbol.name := by
      intro name hname
      have hmem := hset.2 name hname
      rw [List.nil_append, List.map_map] at hmem
      exact hmem
    refine ⟨policy, spelling, obj, hpolicy, hspelling, hparse, fun name hname => ?_, ?_⟩
    · obtain ⟨symbol, hsymbol⟩ := names_once_iff.mp ⟨hnodup, hall⟩ name hname
      refine ⟨symbol, hsymbol, (hcarries symbol ?_).1⟩
      obtain ⟨hmem, hname'⟩ := List.mem_filter.mp (hsymbol ▸ List.mem_cons_self : symbol ∈ obj.symbols.filter _)
      exact mem_inlineSymbols_iff.mpr ⟨hmem, of_decide_eq_true hname' ▸ hname⟩
    · rw [← Except.ok.inj h, List.nil_append, sortPairs_inlineSymbols hnodup hall]
      rfl
  · rintro ⟨policy, spelling, obj, hpolicy, hspelling, hparse, hsymbols, rfl⟩
    obtain ⟨hnodup, hall⟩ := names_once_iff.mpr fun name hname => (hsymbols name hname).imp fun _ h => h.1
    have hcarries : ∀ symbol ∈ inlineSymbols obj.symbols, Carries obj (inlineBytes spelling) symbol ∧
        symbol.name ∉ ([] : List (Bytes × Bytes)).map Prod.fst := by
      intro symbol hsymbol
      obtain ⟨hmem, hname⟩ := mem_inlineSymbols_iff.mp hsymbol
      obtain ⟨only, honly, hcarries⟩ := hsymbols _ hname
      have hfilter : symbol ∈ obj.symbols.filter fun s => s.name = symbol.name :=
        List.mem_filter.mpr ⟨hmem, decide_eq_true rfl⟩
      rw [honly, List.mem_singleton] at hfilter
      exact ⟨hfilter ▸ hcarries, List.not_mem_nil⟩
    have hpairs := (foldlM_checkInline_eq_ok_iff (bounded_of_parseRelocatable hparse).1).mpr
      ⟨hcarries, hnodup, rfl⟩
    rw [List.nil_append] at hpairs
    refine bind_eq_ok_iff.mpr ⟨some policy, hpolicy, bind_eq_ok_iff.mpr ⟨(), requireSource_eq_ok_iff.mpr rfl, ?_⟩⟩
    refine bind_eq_ok_iff.mpr ⟨obj, mapError_eq_ok_iff.mpr hparse, bind_eq_ok_iff.mpr ⟨spelling, hspelling, ?_⟩⟩
    refine bind_eq_ok_iff.mpr ⟨_, hpairs, bind_eq_ok_iff.mpr ⟨(), ?_, congrArg Except.ok ?_⟩⟩
    · rw [requireSource_eq_ok_iff, List.map_map]
      refine ⟨fun name hname => ?_, hall⟩
      obtain ⟨symbol, hsymbol, rfl⟩ := List.mem_map.mp hname
      exact (mem_inlineSymbols_iff.mp hsymbol).2
    · rw [sortPairs_inlineSymbols hnodup hall]
      rfl

/-! ## Reading a fixture fails as the policy says -/

/-- The failure is a `SourceError`. -/
def IsSourceError (e : Failure) : Prop := e.kind = .sourceError

theorem fails_requireSource {condition : Prop} [Decidable condition] {message : String} :
    Fails IsSourceError (requireSource condition message) := fails_ensure rfl

theorem requireFrontend_fails {condition : Prop} [Decidable condition] {message : String} :
    Fails (fun e => e.kind = .valueError) (requireFrontend condition message) := by
  unfold requireFrontend raiseIf
  split_ifs
  · exact fails_ok _ _
  · exact fails_error rfl

theorem frontendIdentity_fails (target : Dict) :
    Fails (fun e => e.kind = .valueError) (frontendIdentity target) := by
  unfold frontendIdentity
  split
  · exact requireFrontend_fails.bind fun _ _ => fails_ok _ _
  · exact requireFrontend_fails.bind fun _ _ => requireFrontend_fails.bind fun _ _ =>
      requireFrontend_fails.bind fun _ _ => requireFrontend_fails.bind fun _ _ =>
      requireFrontend_fails.bind fun _ _ => fails_ok _ _
  · exact fails_error rfl

/-- A policy names one of the variants. -/
theorem variant_of_frontendIdentity {target policy : Dict} (h : frontendIdentity target = .ok (some policy)) :
    Value.get policy "variant" ∈ [Value.str "no-instrument", .str "patchable-entry-0"] := by
  unfold frontendIdentity at h
  split at h
  · obtain ⟨_, -, h⟩ := bind_eq_ok_iff.mp h
    exact absurd (Except.ok.inj h) (by simp)
  · obtain ⟨_, -, h⟩ := bind_eq_ok_iff.mp h
    obtain ⟨_, -, h⟩ := bind_eq_ok_iff.mp h
    obtain ⟨_, hvariant, h⟩ := bind_eq_ok_iff.mp h
    obtain ⟨_, -, h⟩ := bind_eq_ok_iff.mp h
    obtain ⟨_, -, h⟩ := bind_eq_ok_iff.mp h
    rw [← Option.some.inj (Except.ok.inj h)]
    rw [requireFrontend, raiseIf_eq_ok_iff, not_not] at hvariant
    exact hvariant.2
  · exact absurd h (by simp)

theorem variantAttribute_fails {policy : Dict}
    (h : Value.get policy "variant" ∈ [Value.str "no-instrument", .str "patchable-entry-0"]) :
    Fails IsSourceError (variantAttribute policy) := by
  simp only [List.mem_cons, List.not_mem_nil, or_false] at h
  rcases h with h | h
  · exact fails_of_eq_ok (a := "__attribute__((__no_instrument_function__))") (by rw [variantAttribute, h]; rfl)
  · exact fails_of_eq_ok (a := "__attribute__((patchable_function_entry(0, 0)))")
      (by rw [variantAttribute, h]; rfl)

theorem checkInline_fails {obj : Relocatable} {expected : Bytes} {observed : List (Bytes × Bytes)}
    {symbol : Symbol} : Fails IsSourceError (checkInline obj expected observed symbol) := by
  unfold checkInline
  split_ifs
  case neg => exact fails_pure _ _
  refine (fails_andAlso fun h => (fails_item h.2.2.2.2).bind fun _ _ => fails_pure _ _).bind fun formed hformed => ?_
  refine fails_requireSource.bind fun _ hrequire => ?_
  rw [requireSource_eq_ok_iff] at hrequire
  obtain ⟨-, -, -, -, -, s, hs, hkind⟩ := isInline_eq_ok_true_iff.mp (hrequire ▸ hformed)
  -- The section is a section of bytes, so its bytes are there.
  have hne : s.kind ≠ 8 := by rw [hkind]; decide
  exact (fails_of_eq_ok (sectionBytes_eq_ok hs hne)).bind fun _ _ =>
    fails_requireSource.bind fun _ _ => fails_pure _ _

/-- **Reading a fixture raises nothing but `SourceError`**, whatever the bytes are. -/
theorem fixtureObject_fails (data : Bytes) (target : Dict) (model : Value) :
    Fails IsSourceError (fixtureObject data target model) := by
  refine Fails.bind ?_ fun policy hpolicy => fails_requireSource.bind fun _ hsome => ?_
  · exact (frontendIdentity_fails target).mapError fun e he => by
      rw [IsSourceError, policyFailure, he]
  rw [requireSource_eq_ok_iff] at hsome
  obtain ⟨policy, rfl⟩ := Option.isSome_iff_exists.mp hsome
  refine Fails.bind ?_ fun obj hparse => ?_
  · exact (parseRelocatable_fails data model).mapError fun e he => by
      rw [IsSourceError, asSourceError, if_pos (id he : e.kind = .elfError)]
  refine (variantAttribute_fails (variant_of_frontendIdentity (mapError_eq_ok_iff.mp hpolicy))).bind
    fun spelling _ => ?_
  exact (fails_foldlM fun _ _ _ => checkInline_fails).bind fun _ _ =>
    fails_requireSource.bind fun _ _ => fails_pure _ _

end Elf
end Fragma
