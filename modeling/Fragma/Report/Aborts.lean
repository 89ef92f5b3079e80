import Fragma.Report.Diagnostics

/-!
# Reviews that abort

`_validated_reviews` matches each review of a warning against the warnings before anything has
looked at their types.  A warning that repeats the fields and the place of a record is asked whether
its function is among the analysed ones, which a list cannot be; and once missing guards are
approved, every message of their plugin is asked how it starts.  Neither exception is caught.

* `openReviews`, `warningRecord`: the checks that look at no warning.
* `Settles`: the records match one warning each.
* `Aborts`: what a review aborts on.
* `validatedReviews_raises_iff`: **the gate of the reviews raises nothing else exactly where no
  review aborts.**
* `evaluateTarget_failsClosed_iff`: **malformed diagnostics fail closed, unless a review aborts.**
-/

namespace Fragma
namespace Report

open Python Posix

/-! ## The checks that look at no warning -/

/-- The checks of a record of `reviewed_warnings` before it is matched. -/
def warningRecord (scope : ReviewScope) (record : Value) :
    Except Exn (Dict × String × Option String) := do
  let (d, hashes) ← reviewRecord scope record
  let message ← warningText d "message"
  let _ ← warningText d "plugin"
  raiseIf (Value.get d "severity" ≠ .str "warning" ∨
      ¬ bindsFunctions scope.analysisFunctions (Value.get d "functions"))
    (reportError "Warning review must bind warning severity and the exact analyzed functions")
  raiseIf (searchSkipped scope.host.isAlnum skipped message)
    (reportError "A review cannot waive skipped proof goals, functions, or properties")
  raiseIf (Value.has d "file" ≠ Value.has d "line")
    (reportError "Located warning review requires both file and line")
  let path ← warningPath scope hashes d
  .ok (d, message, path)

/-- The matching of a record with the warnings. -/
def warningMatch (scope : ReviewScope) (approved : Approved) (d : Dict) (message : String)
    (path : Option String) : Except Exn Approved := do
  let matched ← select (fun p => warningMatches scope d path p.1) scope.warnings.zipIdx
  match matched with
  | [(_, index)] =>
    if (approved.warnings.lookup index).isSome then
      .error (reportError ("Warning review is stale, ambiguous, or duplicated: " ++ message))
    else .ok { approved with warnings := approved.warnings ++ [(index, d)] }
  | _ => .error (reportError ("Warning review is stale, ambiguous, or duplicated: " ++ message))

theorem warningReview_eq (scope : ReviewScope) (approved : Approved) (record : Value) :
    warningReview scope approved record =
      warningRecord scope record >>= fun p => warningMatch scope approved p.1 p.2.1 p.2.2 := by
  unfold warningReview warningRecord
  simp only [bind_assoc]
  rfl

/-- The checks of an envelope before its warnings are matched. -/
def openReviews (host : Host) (target envelope : Dict) (goals : List Goal) (rows : List Row)
    (warnings : List Value) (analysisFunctions : List String) :
    Except Exn (ReviewScope × Approved × List Value) := do
  raiseIf (Value.get envelope "status" ≠ .str "passed")
    (reportError "Review metadata has not passed the external provenance gate")
  envelopeField target envelope "target_id" "id"
  envelopeField target envelope "profile" "profile"
  envelopeField target envelope "analysis" "analysis"
  let root ← envelopeRoot host envelope
  let context ← envelopeContext target envelope
  let (_, contextHashes) ← reviewMetadata host root (.dict context)
  let scope : ReviewScope :=
    ⟨host, root, contextHashes, goals, rows, warnings, analysisFunctions⟩
  let smoke ← reviewRecords target envelope "reviewed_smoke"
  let approved ← approveAll (smokeReview scope) { Approved.empty with context := .dict context } smoke
  let waived ← reviewRecords target envelope "reviewed_warnings"
  .ok (scope, approved, waived)

theorem envelopeReviews_eq (host : Host) (target envelope : Dict) (goals : List Goal)
    (rows : List Row) (warnings : List Value) (functions : List String) :
    envelopeReviews host target envelope goals rows warnings functions =
      openReviews host target envelope goals rows warnings functions >>= fun p =>
        approveAll (warningReview p.1) p.2.1 p.2.2 >>= fun approved =>
          collect (fun q => guardCompanions warnings approved.warnings q.2) approved.warnings >>=
            fun _ => .ok approved := by
  unfold envelopeReviews openReviews
  simp only [bind_assoc]
  rfl

/-! ## What they raise -/

/-- The loop over the records raises where it first meets a record that does. -/
theorem approveAll_eq_error_iff {f : Approved → Value → Except Exn Approved} {a : Approved}
    {vs : List Value} {e : Exn} :
    approveAll f a vs = .error e ↔ ∃ front v back b, vs = front ++ v :: back ∧
      approveAll f a front = .ok b ∧ f b v = .error e := by
  induction vs generalizing a with
  | nil => simp [approveAll]
  | cons v vs ih =>
    rw [approveAll]
    cases hv : f a v with
    | error e' =>
      constructor
      · intro h
        exact ⟨[], v, vs, a, rfl, rfl, hv.trans h⟩
      · rintro ⟨front, w, back, b, heq, hfront, hw⟩
        rcases List.cons_eq_append_iff.mp heq with ⟨rfl, hcons⟩ | ⟨front, rfl, rfl⟩
        · obtain ⟨rfl, -⟩ := List.cons.inj hcons
          rw [← Except.ok.inj hfront] at hw
          exact hv.symm.trans hw
        · rw [approveAll, hv] at hfront
          exact absurd hfront (by simp [bind, Except.bind])
    | ok a' =>
      refine Iff.trans (show _ ↔ approveAll f a' vs = .error e from Iff.rfl) (ih.trans ?_)
      constructor
      · rintro ⟨front, w, back, b, rfl, hfront, hw⟩
        refine ⟨v :: front, w, back, b, rfl, ?_, hw⟩
        rw [approveAll, hv]
        exact hfront
      · rintro ⟨front, w, back, b, heq, hfront, hw⟩
        rcases List.cons_eq_append_iff.mp heq with ⟨rfl, hcons⟩ | ⟨front, rfl, rfl⟩
        · obtain ⟨rfl, -⟩ := List.cons.inj hcons
          rw [← Except.ok.inj hfront, hv] at hw
          exact absurd hw (by simp)
        · rw [approveAll, hv] at hfront
          exact ⟨front, w, back, b, rfl, hfront, hw⟩

theorem approveAll_raises {f : Approved → Value → Except Exn Approved} {P : ExnKind → Prop}
    {a : Approved} {vs : List Value} (h : ∀ a v, Raises P (f a v)) : Raises P (approveAll f a vs) := by
  intro e he
  obtain ⟨_, v, _, b, -, -, hv⟩ := approveAll_eq_error_iff.mp he
  exact h b v e hv

section Host

variable {host : Host} (hhost : ∀ file, Raises Caught (host.resolve file))
include hhost

theorem reviewHashes_raises (root : PurePath) (entries : Dict) (normalized : List (String × String)) :
    Raises Caught (reviewHashes host root normalized entries) := by
  induction entries generalizing normalized with
  | nil => exact raises_ok
  | cons p rest ih =>
    obtain ⟨filename, digest⟩ := p
    rw [reviewHashes.eq_def]
    refine (reviewPath_raises hhost _ _).bind fun path _ => ?_
    split
    · split_ifs
      · exact raises_error (caught_reportError _)
      · exact ih _
    · exact raises_error (caught_reportError _)

theorem reviewMetadata_raises (root : PurePath) (record : Value) :
    Raises Caught (reviewMetadata host root record) := by
  have hevidence : ∀ v, Raises Caught (reviewEvidence host root v) := by
    intro v
    unfold reviewEvidence
    split
    · exact (raises_raiseIf (caught_reportError _)).bind fun _ _ =>
        raises_collect fun _ _ => (reviewPath_raises hhost _ _).map
    · exact raises_error (caught_reportError _)
  unfold reviewMetadata
  split
  · split
    · exact (reviewHashes_raises hhost _ _ _).bind fun _ _ => (hevidence _).bind fun _ _ => raises_ok
    · exact raises_error (caught_reportError _)
  · exact raises_error (caught_reportError _)

theorem reviewRecord_raises {scope : ReviewScope} (hscope : scope.host = host) (record : Value) :
    Raises Caught (reviewRecord scope record) := by
  unfold reviewRecord
  rw [hscope]
  exact (reviewMetadata_raises hhost _ _).bind fun _ _ =>
    (raises_raiseIf (caught_reportError _)).bind fun _ _ =>
      (raises_raiseIf (caught_reportError _)).bind fun _ _ => raises_ok

theorem reviewTrap_raises {scope : ReviewScope} (hscope : scope.host = host) (path property : String)
    (line : Value) (d : Dict) (approved : Approved) (v : Value) :
    Raises Caught (reviewTrap scope path property line d approved v) := by
  unfold reviewTrap
  split
  · exact raises_ok
  · rw [hscope]
    refine (raises_raiseIf (caught_reportError _)).bind fun _ _ =>
      (reviewPath_raises hhost _ _).bind fun _ _ =>
        (raises_raiseIf (caught_reportError _)).bind fun _ _ => ?_
    dsimp only
    split
    · split_ifs
      · exact raises_error (caught_reportError _)
      · exact raises_ok
    · exact raises_error (caught_reportError _)
  · exact raises_error (caught_reportError _)

theorem smokeReview_raises {scope : ReviewScope} (hscope : scope.host = host) (approved : Approved)
    (record : Value) : Raises Caught (smokeReview scope approved record) := by
  have htext : ∀ d field, Raises Caught (smokeText d field) := by
    intro d field
    unfold smokeText
    split
    · split_ifs
      · exact raises_error (caught_reportError _)
      · exact raises_ok
    · exact raises_error (caught_reportError _)
  unfold smokeReview
  refine (reviewRecord_raises hhost hscope _).bind fun p _ => (htext _ _).bind fun _ _ =>
    (htext _ _).bind fun _ _ => (htext _ _).bind fun _ _ => (htext _ _).bind fun _ _ =>
    (raises_raiseIf (caught_reportError _)).bind fun _ _ => ?_
  rw [hscope]
  exact (reviewPath_raises hhost _ _).bind fun _ _ =>
    (raises_raiseIf (caught_reportError _)).bind fun _ _ =>
    (raises_raiseIf (caught_reportError _)).bind fun _ _ =>
    (raises_raiseIf (caught_reportError _)).bind fun _ _ =>
    (raises_raiseIf (caught_reportError _)).bind fun _ _ =>
    reviewTrap_raises hhost hscope _ _ _ _ _ _

theorem warningRecord_raises {scope : ReviewScope} (hscope : scope.host = host) (record : Value) :
    Raises Caught (warningRecord scope record) := by
  have htext : ∀ d field, Raises Caught (warningText d field) := by
    intro d field
    unfold warningText
    split
    · split_ifs
      · exact raises_error (caught_reportError _)
      · exact raises_ok
    · exact raises_error (caught_reportError _)
  have hpath : ∀ hashes d, Raises Caught (warningPath scope hashes d) := by
    intro hashes d
    unfold warningPath
    rw [hscope]
    split_ifs
    · exact (reviewPath_raises hhost _ _).bind fun _ _ =>
        (raises_raiseIf (caught_reportError _)).bind fun _ _ => raises_ok
    · exact raises_ok
  unfold warningRecord
  exact (reviewRecord_raises hhost hscope _).bind fun _ _ => (htext _ _).bind fun _ _ =>
    (htext _ _).bind fun _ _ => (raises_raiseIf (caught_reportError _)).bind fun _ _ =>
    (raises_raiseIf (caught_reportError _)).bind fun _ _ =>
    (raises_raiseIf (caught_reportError _)).bind fun _ _ => (hpath _ _).bind fun _ _ => raises_ok

/-- The envelope raises nothing else. -/
theorem openReviews_raises (target envelope : Dict) (goals : List Goal) (rows : List Row)
    (warnings : List Value) (functions : List String) :
    Raises Caught (openReviews host target envelope goals rows warnings functions) := by
  have hfield : ∀ field targetField, Raises Caught (envelopeField target envelope field targetField) := by
    intro field targetField
    unfold envelopeField
    split
    · exact raises_raiseIf (caught_reportError _)
    · exact raises_error (caught_reportError _)
  have hroot : Raises Caught (envelopeRoot host envelope) := by
    unfold envelopeRoot
    split
    · exact (raises_raiseIf (caught_reportError _)).bind fun _ _ => (hhost _).bind fun _ _ => raises_ok
    · exact raises_error (caught_reportError _)
  have hcontext : Raises Caught (envelopeContext target envelope) := by
    unfold envelopeContext
    split
    · refine (raises_raiseIf (caught_reportError _)).bind fun _ _ => ?_
      split
      · exact (raises_raiseIf (caught_reportError _)).bind fun _ _ =>
          (raises_raiseIf (caught_reportError _)).bind fun _ _ => raises_ok
      · exact raises_error (caught_reportError _)
    · exact raises_error (caught_reportError _)
  have hrecords : ∀ category, Raises Caught (reviewRecords target envelope category) := by
    intro category
    unfold reviewRecords
    split
    · split_ifs
      · exact raises_ok
      · exact raises_error (caught_reportError _)
    · exact raises_error (caught_reportError _)
  unfold openReviews
  exact (raises_raiseIf (caught_reportError _)).bind fun _ _ => (hfield _ _).bind fun _ _ =>
    (hfield _ _).bind fun _ _ => (hfield _ _).bind fun _ _ => hroot.bind fun _ _ =>
    hcontext.bind fun _ _ => (reviewMetadata_raises hhost _ _).bind fun p _ =>
    (hrecords _).bind fun _ _ =>
    (approveAll_raises fun approved v => smokeReview_raises hhost rfl approved v).bind fun _ _ =>
    (hrecords _).bind fun _ _ => raises_ok

end Host

/-! ## A record and a warning -/

/-- A warning says what a record says. -/
def SameFields (d w : Dict) : Prop :=
  ∀ field ∈ ["message", "plugin", "severity"],
    Value.eq (Value.get w field) (Value.get d field) = true

/-- A warning that repeats a record stands on its line, in a file that is not found below the root. -/
def Strays (scope : ReviewScope) (d w : Dict) : Prop :=
  let file := Value.get w "path" (Value.get w "file")
  SameFields d w ∧ Value.has d "file" = true ∧ file ≠ .none ∧
    Value.eq (Value.get w "line") (Value.get d "line") = true ∧
    ∀ path, reviewPath scope.host scope.root file ≠ .ok path

/-- A warning that repeats a record at its place names a function that is a list or an object. -/
def Unhashed (scope : ReviewScope) (d w : Dict) : Prop :=
  SameFields d w ∧ SamePlace scope.host scope.root d w ∧ Value.has w "function" = true ∧
    (Value.get w "function").hashable = false

/-- A record can be compared with a warning. -/
def Legible (scope : ReviewScope) (d : Dict) (v : Value) : Prop :=
  ∀ w, v = .dict w → ¬ Strays scope d w ∧ ¬ Unhashed scope d w

section Match

variable {scope : ReviewScope} {hashes : List (String × String)} {d : Dict} {path : Option String}
  (hpath : warningPath scope hashes d = .ok path)
include hpath

/-- The place of a warning is found, unless it strays. -/
theorem warningPlaced_returns_iff {w : Dict} (hfields : SameFields d w) :
    (∃ b, warningPlaced scope d path w = .ok b) ↔ ¬ Strays scope d w := by
  unfold warningPlaced Strays
  dsimp only
  rcases warningPath_eq_ok hpath with ⟨hfile, rfl⟩ | ⟨p, hfile, rfl, hp⟩
  · refine ⟨fun _ hstrays => ?_, fun _ => ⟨_, rfl⟩⟩
    exact absurd (hfile.symm.trans hstrays.2.1) (by simp)
  · dsimp only
    split_ifs with hplace
    · refine ⟨fun _ hstrays => ?_, fun _ => ⟨false, rfl⟩⟩
      exact hplace.elim hstrays.2.2.1 fun hne => hne hstrays.2.2.2.1
    · rw [not_or, not_not] at hplace
      cases hread : reviewPath scope.host scope.root (Value.get w "path" (Value.get w "file")) with
      | error e =>
        refine ⟨fun ⟨b, hb⟩ => absurd hb (by simp [Except.map]), fun hstrays => ?_⟩
        exact (hstrays ⟨hfields, hfile, hplace.1, hplace.2, fun _ h => absurd h (by simp)⟩).elim
      | ok q =>
        exact ⟨fun _ hstrays => hstrays.2.2.2.2 q rfl, fun _ => ⟨_, rfl⟩⟩

theorem warningMatches_unhashed {w : Dict} (h : Unhashed scope d w) :
    warningMatches scope d path (.dict w) = .error (typeError "unhashable type") := by
  obtain ⟨hfields, hplace, hhas, hunhashed⟩ := h
  unfold warningMatches
  dsimp only
  rw [if_pos (List.all_eq_true.mpr hfields), (warningPlaced_iff hpath).mpr hplace]
  dsimp only [bind, Except.bind]
  rw [if_pos ⟨rfl, hhas⟩, inNames, if_neg (by simp [hunhashed])]

/-- A record and a warning compare, where the warning is legible. -/
theorem warningMatches_returns_iff {v : Value} :
    (∃ b, warningMatches scope d path v = .ok b) ↔ Legible scope d v := by
  constructor
  · rintro ⟨b, hb⟩ w rfl
    refine ⟨fun hstrays => ?_, fun hunhashed => ?_⟩
    · unfold warningMatches at hb
      dsimp only at hb
      rw [if_pos (List.all_eq_true.mpr hstrays.1)] at hb
      obtain ⟨placed, hplaced, -⟩ := bind_eq_ok_iff.mp hb
      exact (warningPlaced_returns_iff hpath hstrays.1).mp ⟨placed, hplaced⟩ hstrays
    · rw [warningMatches_unhashed hpath hunhashed] at hb
      exact absurd hb (by simp)
  · intro hlegible
    unfold warningMatches
    split
    · next w =>
      obtain ⟨hstrays, hunhashed⟩ := hlegible w rfl
      split_ifs with hall
      · have hfields : SameFields d w := List.all_eq_true.mp hall
        obtain ⟨placed, hplaced⟩ := (warningPlaced_returns_iff hpath hfields).mpr hstrays
        refine exists_ok_bind ⟨placed, hplaced⟩ fun placed' hplaced' => ?_
        split_ifs with hfunction
        · rw [hfunction.1] at hplaced'
          have hplace := (warningPlaced_iff hpath).mp hplaced'
          unfold inNames
          split_ifs with hhashed
          · exact ⟨_, rfl⟩
          · exact absurd ⟨hfields, hplace, hfunction.2, by simpa using hhashed⟩ hunhashed
        · exact ⟨_, rfl⟩
      · exact ⟨_, rfl⟩
    · exact ⟨_, rfl⟩

/-- What a comparison raises is caught, unless the function is no text. -/
theorem warningMatches_raises (hhost : ∀ file, Raises Caught (scope.host.resolve file)) {v : Value}
    (h : ∀ w, v = .dict w → ¬ Unhashed scope d w) : Raises Caught (warningMatches scope d path v) := by
  unfold warningMatches
  split
  · next w =>
    split_ifs with hall
    · have hplaced : Raises Caught (warningPlaced scope d path w) := by
        unfold warningPlaced
        dsimp only
        split
        · exact raises_ok
        · split_ifs
          · exact raises_ok
          · exact (reviewPath_raises hhost _ _).map
      refine hplaced.bind fun placed hplaced => ?_
      split_ifs with hfunction
      · rw [hfunction.1] at hplaced
        unfold inNames
        split_ifs with hhashed
        · exact raises_ok
        · exact absurd ⟨List.all_eq_true.mp hall, (warningPlaced_iff hpath).mp hplaced, hfunction.2,
            by simpa using hhashed⟩ (h w rfl)
      · exact raises_ok
    · exact raises_ok
  · exact raises_ok

end Match

/-! ## A record and the warnings -/

/-- The only element of a list that passes a test. -/
theorem filter_eq_singleton {α : Type} {p : α → Bool} {l : List α} {a : α} (hl : l.Nodup)
    (h : ∀ b, b ∈ l ∧ p b = true ↔ b = a) : l.filter p = [a] := by
  refine List.perm_singleton.mp ((List.perm_ext_iff_of_nodup (hl.filter p)
    (List.pairwise_singleton _ _)).mpr fun b => ?_)
  rw [List.mem_filter, List.mem_singleton]
  exact h b

theorem nodup_zipIdx {α : Type} (l : List α) : l.zipIdx.Nodup := by
  refine List.Nodup.of_map Prod.snd ?_
  rw [List.zipIdx_map_snd]
  exact List.nodup_range'

/-- A record is matched where every warning is legible and one that is not taken repeats it. -/
theorem warningMatch_eq_ok_iff {scope : ReviewScope} {hashes : List (String × String)} {d : Dict}
    {path : Option String} (hpath : warningPath scope hashes d = .ok path) {message : String}
    {approved approved' : Approved} :
    warningMatch scope approved d message path = .ok approved' ↔
      (∀ v ∈ scope.warnings, Legible scope d v) ∧
        ∃ index w, WarningWaiver scope.host scope.root scope.analysisFunctions scope.warnings index
          w d ∧ index ∉ approved.warnings.map Prod.fst ∧
          approved' = { approved with warnings := approved.warnings ++ [(index, d)] } := by
  have hfresh : ∀ index, ¬ (approved.warnings.lookup index).isSome = true ↔
      index ∉ approved.warnings.map Prod.fst := by
    intro index
    rw [Option.not_isSome_iff_eq_none, List.lookup_eq_none_iff, List.mem_map]
    constructor
    · rintro h ⟨p, hp, rfl⟩
      exact absurd (h p hp) (by simp)
    · intro h p hp
      rw [bne_iff_ne]
      rintro rfl
      exact h ⟨p, hp, rfl⟩
  have hlegible : (∀ p ∈ scope.warnings.zipIdx, ∃ b, warningMatches scope d path p.1 = .ok b) ↔
      ∀ v ∈ scope.warnings, Legible scope d v := by
    constructor
    · intro h v hv
      obtain ⟨index, hindex⟩ := List.mem_iff_getElem?.mp hv
      exact (warningMatches_returns_iff hpath).mp
        (h (v, index) (List.mem_zipIdx_iff_getElem?.mpr hindex))
    · intro h p hp
      exact (warningMatches_returns_iff hpath).mpr
        (h p.1 (List.mem_of_getElem? (List.mem_zipIdx_iff_getElem?.mp hp)))
  have hholds : ∀ v, holds (fun p : Value × ℕ => warningMatches scope d path p.1) v = true ↔
      ∃ e, v.1 = .dict e ∧ Repeats scope.host scope.root scope.analysisFunctions d e := by
    intro v
    rw [holds_iff]
    constructor
    · intro h
      obtain ⟨e, he, -⟩ := warningMatches_eq_true h
      rw [he] at h
      exact ⟨e, he, (warningMatches_iff hpath).mp h⟩
    · rintro ⟨e, he, hrepeats⟩
      rw [he]
      exact (warningMatches_iff hpath).mpr hrepeats
  constructor
  · intro h
    obtain ⟨matched, hmatched, h⟩ := bind_eq_ok_iff.mp h
    obtain ⟨hreturns, hfilter⟩ := select_eq_ok_iff.mp hmatched
    refine ⟨hlegible.mp hreturns, ?_⟩
    split at h
    · next w index =>
      split_ifs at h with hseen
      refine ⟨index, w, ?_, (hfresh index).mp hseen, (Except.ok.inj h).symm⟩
      have hmem : ∀ p : Value × ℕ, p ∈ scope.warnings.zipIdx ∧
          (∃ e, p.1 = .dict e ∧ Repeats scope.host scope.root scope.analysisFunctions d e) ↔
          p = (w, index) := by
        intro p
        rw [← hholds, ← List.mem_filter, ← hfilter, List.mem_singleton]
      obtain ⟨hzip, e, he, hrepeats⟩ := (hmem (w, index)).mpr rfl
      refine ⟨List.mem_zipIdx_iff_getElem?.mp hzip, ⟨e, he, hrepeats⟩, fun j e' hj hagain => ?_⟩
      exact (Prod.mk.inj ((hmem (.dict e', j)).mp
        ⟨List.mem_zipIdx_iff_getElem?.mpr hj, e', rfl, hagain⟩)).2
    · exact absurd h (by simp)
  · rintro ⟨hall, index, w, hwaiver, hnew, rfl⟩
    have hfilter : scope.warnings.zipIdx.filter
        (holds fun p => warningMatches scope d path p.1) = [(w, index)] := by
      refine filter_eq_singleton (nodup_zipIdx _) fun p => ?_
      rw [hholds]
      constructor
      · rintro ⟨hzip, e, he, hrepeats⟩
        have hp := List.mem_zipIdx_iff_getElem?.mp hzip
        have hindex : p.2 = index := hwaiver.only _ e (he ▸ hp) hrepeats
        rw [hindex] at hp
        exact Prod.ext (Option.some.inj (hp.symm.trans hwaiver.stands)) hindex
      · rintro rfl
        exact ⟨List.mem_zipIdx_iff_getElem?.mpr hwaiver.stands, hwaiver.repeats⟩
    refine bind_eq_ok_iff.mpr ⟨[(w, index)], select_eq_ok_iff.mpr ⟨hlegible.mpr hall, hfilter.symm⟩, ?_⟩
    exact if_neg ((hfresh index).mpr hnew)

/-- A record passes its own checks, compares with every warning and is about one of them. -/
def Matched (scope : ReviewScope) (record : Value) (p : ℕ × Dict) : Prop :=
  ∃ message path w, warningRecord scope record = .ok (p.2, message, path) ∧
    (∀ v ∈ scope.warnings, Legible scope p.2 v) ∧
    WarningWaiver scope.host scope.root scope.analysisFunctions scope.warnings p.1 w p.2

/-- The records are matched with one warning each, and no two with the same. -/
structure Settles (scope : ReviewScope) (records : List Value) (settled : List (ℕ × Dict)) : Prop where
  each : List.Forall₂ (Matched scope) records settled
  distinct : (settled.map Prod.fst).Nodup

theorem warningRecord_path {scope : ReviewScope} {record : Value} {d : Dict} {message : String}
    {path : Option String} (h : warningRecord scope record = .ok (d, message, path)) :
    ∃ hashes, warningPath scope hashes d = .ok path := by
  unfold warningRecord at h
  obtain ⟨⟨d', hashes⟩, -, h⟩ := bind_eq_ok_iff.mp h
  dsimp only at h
  obtain ⟨_, -, h⟩ := bind_eq_ok_iff.mp h
  obtain ⟨_, -, h⟩ := bind_eq_ok_iff.mp h
  obtain ⟨_, -, h⟩ := bind_eq_ok_iff.mp h
  obtain ⟨_, -, h⟩ := bind_eq_ok_iff.mp h
  obtain ⟨_, -, h⟩ := bind_eq_ok_iff.mp h
  obtain ⟨path', hpath, hlast⟩ := bind_eq_ok_iff.mp h
  obtain ⟨hd, hrest⟩ := Prod.mk.inj (Except.ok.inj hlast)
  rw [hd, (Prod.mk.inj hrest).2] at hpath
  exact ⟨hashes, hpath⟩

/-- **The loop over the records returns exactly where they settle.** -/
theorem approveAll_warningReview_eq_ok_iff {scope : ReviewScope} {approved approved' : Approved}
    (hfresh : (approved.warnings.map Prod.fst).Nodup) {records : List Value} :
    approveAll (warningReview scope) approved records = .ok approved' ↔
      ∃ settled, List.Forall₂ (Matched scope) records settled ∧
        ((approved.warnings ++ settled).map Prod.fst).Nodup ∧
        approved' = { approved with warnings := approved.warnings ++ settled } := by
  induction records generalizing approved with
  | nil =>
    constructor
    · intro h
      refine ⟨[], .nil, ?_, ?_⟩
      · rwa [List.append_nil]
      · rw [← Except.ok.inj h, List.append_nil]
    · rintro ⟨settled, hall, -, rfl⟩
      cases hall
      rw [List.append_nil]
      rfl
  | cons record records ih =>
    rw [approveAll, bind_eq_ok_iff]
    constructor
    · rintro ⟨next, hnext, hrest⟩
      rw [warningReview_eq, bind_eq_ok_iff] at hnext
      obtain ⟨⟨d, message, path⟩, hrecord, hmatch⟩ := hnext
      obtain ⟨hashes, hpath⟩ := warningRecord_path hrecord
      obtain ⟨hlegible, index, w, hwaiver, hnew, rfl⟩ := (warningMatch_eq_ok_iff hpath).mp hmatch
      obtain ⟨settled, hall, hnodup, rfl⟩ := (ih (nodup_append_key hfresh hnew)).mp hrest
      refine ⟨(index, d) :: settled, .cons ⟨message, path, w, hrecord, hlegible, hwaiver⟩ hall, ?_, ?_⟩
      · rwa [List.append_assoc] at hnodup
      · rw [List.append_assoc]
        rfl
    · rintro ⟨settled, hall, hnodup, rfl⟩
      obtain _ | ⟨⟨message, path, w, hrecord, hlegible, hwaiver⟩, hall⟩ := hall
      next p settled =>
      obtain ⟨hashes, hpath⟩ := warningRecord_path hrecord
      have hsplit : approved.warnings ++ p :: settled = (approved.warnings ++ [(p.1, p.2)]) ++ settled := by
        rw [List.append_assoc]
        rfl
      have hnew : p.1 ∉ approved.warnings.map Prod.fst := by
        rw [List.map_append] at hnodup
        intro hin
        exact (List.nodup_append.mp hnodup).2.2 _ hin _ List.mem_cons_self rfl
      refine ⟨{ approved with warnings := approved.warnings ++ [(p.1, p.2)] }, ?_, ?_⟩
      · rw [warningReview_eq]
        exact bind_eq_ok_iff.mpr ⟨_, hrecord,
          (warningMatch_eq_ok_iff hpath).mpr ⟨hlegible, p.1, w, hwaiver, hnew, rfl⟩⟩
      · refine (ih (nodup_append_key hfresh hnew)).mpr ⟨settled, hall, ?_, ?_⟩
        · rwa [← hsplit]
        · rw [hsplit]

/-- A record passes its own checks, and the first warning that it does not compare with names a
function that is a list or an object. -/
def Trips (scope : ReviewScope) (record : Value) : Prop :=
  ∃ d message path front w back, warningRecord scope record = .ok (d, message, path) ∧
    scope.warnings = front ++ .dict w :: back ∧ (∀ v ∈ front, Legible scope d v) ∧ Unhashed scope d w

/-- A selection among numbered entries raises where it first meets an entry that does. -/
theorem select_zipIdx_eq_error_iff {α : Type} {p : α → Except Exn Bool} {l : List α} {e : Exn} :
    select (fun q => p q.1) l.zipIdx = .error e ↔
      ∃ front a back, l = front ++ a :: back ∧ (∀ b ∈ front, ∃ c, p b = .ok c) ∧ p a = .error e := by
  rw [select_eq_error_iff]
  constructor
  · rintro ⟨front, q, back, hzip, hfront, hq⟩
    refine ⟨front.map Prod.fst, q.1, back.map Prod.fst, ?_, ?_, hq⟩
    · have hmap := congrArg (List.map Prod.fst) hzip
      rwa [List.zipIdx_map_fst, List.map_append, List.map_cons] at hmap
    · intro b hb
      obtain ⟨r, hr, rfl⟩ := List.mem_map.mp hb
      exact hfront r hr
  · rintro ⟨front, a, back, rfl, hfront, ha⟩
    refine ⟨front.zipIdx, (a, front.length), back.zipIdx (front.length + 1), ?_, ?_, ha⟩
    · rw [List.zipIdx_append, List.zipIdx_cons, Nat.zero_add]
    · intro q hq
      exact hfront q.1 (List.mem_of_getElem? (List.mem_zipIdx_iff_getElem?.mp hq))

/-- A record raises what is not caught exactly where it trips. -/
theorem warningReview_raises_iff {scope : ReviewScope}
    (hhost : ∀ file, Raises Caught (scope.host.resolve file)) (approved : Approved) (record : Value) :
    Raises Caught (warningReview scope approved record) ↔ ¬ Trips scope record := by
  rw [warningReview_eq]
  constructor
  · rintro h ⟨d, message, path, front, w, back, hrecord, hwarnings, hfront, hunhashed⟩
    obtain ⟨hashes, hpath⟩ := warningRecord_path hrecord
    have hselect : select (fun p => warningMatches scope d path p.1) scope.warnings.zipIdx =
        .error (typeError "unhashable type") :=
      select_zipIdx_eq_error_iff.mpr ⟨front, .dict w, back, hwarnings,
        fun v hv => (warningMatches_returns_iff hpath).mpr (hfront v hv),
        warningMatches_unhashed hpath hunhashed⟩
    have hraised : (warningRecord scope record >>= fun p => warningMatch scope approved p.1 p.2.1 p.2.2) =
        .error (typeError "unhashable type") := by
      rw [hrecord]
      show warningMatch scope approved d message path = _
      rw [warningMatch, hselect]
      rfl
    rcases h _ hraised with hkind | hkind | hkind
    · exact absurd hkind (by simp [typeError])
    · exact absurd hkind (by simp [typeError])
    · exact absurd hkind (by simp [typeError])
  · intro h
    refine (warningRecord_raises hhost rfl record).bind fun p hrecord => ?_
    obtain ⟨d, message, path⟩ := p
    obtain ⟨hashes, hpath⟩ := warningRecord_path hrecord
    have hselect : Raises Caught
        (select (fun p => warningMatches scope d path p.1) scope.warnings.zipIdx) := by
      intro e he
      obtain ⟨front, v, back, hwarnings, hfront, hv⟩ := select_zipIdx_eq_error_iff.mp he
      refine warningMatches_raises hpath hhost (fun w hw hunhashed => h ?_) e hv
      exact ⟨d, message, path, front, w, back, hrecord, hw ▸ hwarnings,
        fun u hu => (warningMatches_returns_iff hpath).mp (hfront u hu), hunhashed⟩
    refine hselect.bind fun matched _ => ?_
    split
    · split_ifs
      · exact raises_error (caught_reportError _)
      · exact raises_ok
    · exact raises_error (caught_reportError _)

/-! ## Missing guards -/

/-- A warning comes from the plugin of a record, and its message is no text. -/
def Garbles (d w : Dict) : Prop :=
  Value.eq (Value.get w "plugin") (Value.get d "plugin") = true ∧
    ∀ message, Value.get w "message" (.str "") ≠ .str message

theorem isCompanion_returns_iff {d : Dict} {v : Value} :
    (∃ b, isCompanion (Value.get d "plugin") v = .ok b) ↔ ∀ w, v = .dict w → ¬ Garbles d w := by
  unfold isCompanion
  constructor
  · rintro ⟨b, hb⟩ w rfl ⟨hplugin, hmessage⟩
    dsimp only at hb
    rw [if_pos hplugin, isGuardMessage] at hb
    split at hb
    · next s hs => exact hmessage s hs
    · exact absurd hb (by simp)
  · intro h
    split
    · next w =>
      split_ifs with hplugin
      · unfold isGuardMessage
        split
        · exact ⟨_, rfl⟩
        · next hne => exact absurd ⟨hplugin, fun s hs => hne s hs⟩ (h w rfl)
      · exact ⟨_, rfl⟩
    · exact ⟨_, rfl⟩

/-- What a message that is no text raises is not caught. -/
theorem not_caught_of_isCompanion {plugin v : Value} {e : Exn} (h : isCompanion plugin v = .error e) :
    ¬ Caught e.kind := by
  unfold isCompanion at h
  split at h
  · split_ifs at h
    unfold isGuardMessage at h
    split at h
    · exact absurd h (by simp)
    · rw [← Except.error.inj h]
      simp [Caught]
  · exact absurd h (by simp)

/-- Missing guards raise what is not caught exactly where a message of their plugin is no text. -/
theorem guardCompanions_raises_iff {warnings : List Value} (settled : List (ℕ × Dict)) {d : Dict} :
    Raises Caught (guardCompanions warnings settled d) ↔
      ¬ (Value.get d "message" = .str "Missing RTE guards" ∧
        ∃ w, .dict w ∈ warnings ∧ Garbles d w) := by
  unfold guardCompanions
  split_ifs with hmissing
  · have hreturns : ∀ p : Value × ℕ, (∃ b, isCompanion (Value.get d "plugin") p.1 = .ok b) ↔
        ∀ w, p.1 = .dict w → ¬ Garbles d w := fun p => isCompanion_returns_iff
    constructor
    · rintro h ⟨-, w, hw, hgarbles⟩
      obtain ⟨index, hindex⟩ := List.mem_iff_getElem?.mp hw
      have hmem : (Value.dict w, index) ∈ warnings.zipIdx := List.mem_zipIdx_iff_getElem?.mpr hindex
      cases hselect : select (fun p : Value × ℕ => isCompanion (Value.get d "plugin") p.1)
          warnings.zipIdx with
      | ok companions =>
        exact (hreturns _).mp ((select_eq_ok_iff.mp hselect).1 _ hmem) w rfl hgarbles
      | error e =>
        obtain ⟨_, p, _, -, -, hp⟩ := select_eq_error_iff.mp hselect
        exact not_caught_of_isCompanion hp (h e (by rw [hselect]; rfl))
    · intro h
      have hselect : Raises Caught
          (select (fun p : Value × ℕ => isCompanion (Value.get d "plugin") p.1) warnings.zipIdx) := by
        refine raises_select fun p hp => ?_
        obtain ⟨b, hb⟩ := (hreturns p).mpr fun w hw hgarbles =>
          h ⟨hmissing, w, hw ▸ List.mem_of_getElem? (List.mem_zipIdx_iff_getElem?.mp hp), hgarbles⟩
        exact raises_of_eq_ok hb
      exact hselect.bind fun _ _ => (raises_raiseIf (caught_reportError _)).bind fun _ _ => raises_ok
  · exact ⟨fun _ hand => hmissing hand.1, fun _ => raises_ok⟩

/-! ## What a review aborts on -/

/-- What a review aborts on, after all the checks before it passed: a warning that a record does not
compare with, or a message that an approval of missing guards cannot read. -/
inductive Aborts (host : Host) (target : Dict) (goals : List Goal) (rows : List Row)
    (warnings : List Value) (functions : List String) : Value → Prop
  | function {envelope : Dict} {scope : ReviewScope} {approved : Approved} {front back : List Value}
      {record : Value} {settled : List (ℕ × Dict)}
      (opened : openReviews host target envelope goals rows warnings functions =
        .ok (scope, approved, front ++ record :: back))
      (settles : Settles scope front settled) (trips : Trips scope record) :
      Aborts host target goals rows warnings functions (.dict envelope)
  | message {envelope : Dict} {scope : ReviewScope} {approved : Approved} {records : List Value}
      {front back : List (ℕ × Dict)} {index : ℕ} {d w : Dict}
      (opened : openReviews host target envelope goals rows warnings functions =
        .ok (scope, approved, records))
      (settles : Settles scope records (front ++ (index, d) :: back))
      (guarded : ∀ p ∈ front, ∃ us,
        guardCompanions warnings (front ++ (index, d) :: back) p.2 = .ok us)
      (missing : Value.get d "message" = .str "Missing RTE guards")
      (stands : .dict w ∈ warnings) (garbles : Garbles d w) :
      Aborts host target goals rows warnings functions (.dict envelope)

/-- The reviews of smoke goals approve no warnings. -/
theorem approveAll_smokeReview_warnings {scope : ReviewScope} {approved approved' : Approved}
    {records : List Value} (h : approveAll (smokeReview scope) approved records = .ok approved') :
    approved'.warnings = approved.warnings := by
  induction records generalizing approved with
  | nil => rw [← Except.ok.inj h]
  | cons record records ih =>
    rw [approveAll] at h
    obtain ⟨next, hnext, h⟩ := bind_eq_ok_iff.mp h
    obtain ⟨_, _, -, -, -, hsame, -⟩ := smokeReview_waiver hnext
    exact (ih h).trans hsame

/-- The scope of the reviews, once the envelope is open. -/
theorem openReviews_scope {host : Host} {target envelope : Dict} {goals : List Goal}
    {rows : List Row} {warnings : List Value} {functions : List String} {scope : ReviewScope}
    {approved : Approved} {records : List Value}
    (h : openReviews host target envelope goals rows warnings functions =
      .ok (scope, approved, records)) :
    scope.host = host ∧ scope.warnings = warnings ∧ approved.warnings = [] := by
  unfold openReviews at h
  obtain ⟨_, -, h⟩ := bind_eq_ok_iff.mp h
  obtain ⟨_, -, h⟩ := bind_eq_ok_iff.mp h
  obtain ⟨_, -, h⟩ := bind_eq_ok_iff.mp h
  obtain ⟨_, -, h⟩ := bind_eq_ok_iff.mp h
  obtain ⟨root, -, h⟩ := bind_eq_ok_iff.mp h
  obtain ⟨context, -, h⟩ := bind_eq_ok_iff.mp h
  obtain ⟨⟨_, contextHashes⟩, -, h⟩ := bind_eq_ok_iff.mp h
  dsimp only at h
  obtain ⟨smoke, -, h⟩ := bind_eq_ok_iff.mp h
  obtain ⟨middle, hmiddle, h⟩ := bind_eq_ok_iff.mp h
  obtain ⟨waived, -, hlast⟩ := bind_eq_ok_iff.mp h
  obtain ⟨hscope, hrest⟩ := Prod.mk.inj (Except.ok.inj hlast)
  obtain ⟨happroved, -⟩ := Prod.mk.inj hrest
  rw [← hscope, ← happroved]
  exact ⟨rfl, rfl, approveAll_smokeReview_warnings hmiddle⟩

/-- What does not raise only `P` raises something else. -/
theorem exists_error_of_not_raises {P : ExnKind → Prop} {α : Type} {x : Except Exn α}
    (h : ¬ Raises P x) : ∃ e, x = .error e ∧ ¬ P e.kind := by
  by_contra hnone
  exact h fun e he => by_contra fun hkind => hnone ⟨e, he, hkind⟩

/-- **The gate of the reviews raises nothing else exactly where no review aborts.** -/
theorem validatedReviews_raises_iff {host : Host}
    (hhost : ∀ file, Raises Caught (host.resolve file)) (target : Dict) (goals : List Goal)
    (rows : List Row) (warnings : List Value) (functions : List String) (review : Value) :
    Raises Caught (validatedReviews host target review goals rows warnings functions) ↔
      ¬ Aborts host target goals rows warnings functions review := by
  unfold validatedReviews
  split
  · refine ⟨fun _ haborts => (by cases haborts), fun _ => ?_⟩
    split_ifs
    · exact raises_error (caught_reportError _)
    · exact raises_ok
  · next envelope =>
    rw [envelopeReviews_eq]
    constructor
    · intro h haborts
      cases haborts with
      | @function _ scope approved front back record settled opened settles trips =>
        obtain ⟨hscope, -, hnil⟩ := openReviews_scope opened
        have hfront : approveAll (warningReview scope) approved front =
            .ok { approved with warnings := approved.warnings ++ settled } := by
          refine (approveAll_warningReview_eq_ok_iff ?_).mpr ⟨settled, settles.each, ?_, rfl⟩
          · rw [hnil]
            exact List.nodup_nil
          · rw [hnil]
            exact settles.distinct
        obtain ⟨e, he, hkind⟩ := exists_error_of_not_raises
          (mt (warningReview_raises_iff (hscope ▸ hhost)
            { approved with warnings := approved.warnings ++ settled } record).mp
            (not_not.mpr trips))
        have hloop := approveAll_eq_error_iff.mpr ⟨front, record, back, _, rfl, hfront, he⟩
        refine hkind (h e ?_)
        rw [opened]
        show (approveAll (warningReview scope) approved (front ++ record :: back) >>= _) = _
        rw [hloop]
        rfl
      | @message _ scope approved records front back index d w opened settles guarded missing stands
          garbles =>
        obtain ⟨hscope, hwarnings, hnil⟩ := openReviews_scope opened
        have hloop : approveAll (warningReview scope) approved records =
            .ok { approved with warnings := front ++ (index, d) :: back } := by
          refine (approveAll_warningReview_eq_ok_iff ?_).mpr
            ⟨front ++ (index, d) :: back, settles.each, ?_, ?_⟩
          · rw [hnil]
            exact List.nodup_nil
          · rw [hnil]
            exact settles.distinct
          · rw [hnil]
            rfl
        obtain ⟨e, he, hkind⟩ := exists_error_of_not_raises
          (mt (guardCompanions_raises_iff (front ++ (index, d) :: back)).mp
            (not_not.mpr ⟨missing, w, stands, garbles⟩))
        have hguards := collect_eq_error_iff.mpr
          ⟨front, (index, d), back, rfl, guarded, he⟩
        refine hkind (h e ?_)
        rw [opened]
        show (approveAll (warningReview scope) approved records >>= _) = _
        rw [hloop]
        show (collect (fun q : ℕ × Dict =>
          guardCompanions warnings (front ++ (index, d) :: back) q.2) _ >>= _) = _
        rw [hguards]
        rfl
    · intro h
      refine (openReviews_raises hhost _ _ _ _ _ _).bind fun p opened => ?_
      obtain ⟨scope, approved, records⟩ := p
      obtain ⟨hscope, hwarnings, hnil⟩ := openReviews_scope opened
      have hstart : (approved.warnings.map Prod.fst).Nodup := by
        rw [hnil]
        exact List.nodup_nil
      have hloop : Raises Caught (approveAll (warningReview scope) approved records) := by
        intro e he
        obtain ⟨front, record, back, b, rfl, hfront, hrecord⟩ := approveAll_eq_error_iff.mp he
        obtain ⟨settled, hall, hnodup, -⟩ := (approveAll_warningReview_eq_ok_iff hstart).mp hfront
        rw [hnil] at hnodup
        exact (warningReview_raises_iff (hscope ▸ hhost) b record).mpr
          (fun htrips => h (.function opened ⟨hall, hnodup⟩ htrips)) e hrecord
      refine hloop.bind fun final hfinal => ?_
      obtain ⟨settled, hall, hnodup, rfl⟩ := (approveAll_warningReview_eq_ok_iff hstart).mp hfinal
      rw [hnil] at hnodup
      dsimp only
      rw [hnil, List.nil_append] at *
      refine Raises.bind ?_ fun _ _ => raises_ok
      intro e he
      obtain ⟨front, p, back, rfl, hguarded, hp⟩ := collect_eq_error_iff.mp he
      refine (guardCompanions_raises_iff _).mpr (fun hgarbled => h ?_) e hp
      obtain ⟨hmissing, w, hw, hgarbles⟩ := hgarbled
      exact .message opened ⟨hall, hnodup⟩ hguarded hmissing hw hgarbles
  · next hne =>
    refine ⟨fun _ haborts => ?_, fun _ => raises_error (caught_reportError _)⟩
    cases haborts with
    | function opened => exact hne _ rfl
    | message opened => exact hne _ rfl

/-- **Malformed diagnostics fail closed, unless a review aborts on one.** -/
theorem evaluateTarget_failsClosed_iff {host : Host} {target : Dict} {wpGoals properties : Value}
    {declared : Declaration} {goals : List Goal} {rows : List Row}
    (hhost : ∀ file, Raises Caught (host.resolve file))
    (h : Formed host target wpGoals properties declared goals rows) (returncode review native : Value)
    (ws : List Value) :
    (∃ result, evaluateTarget host target wpGoals properties returncode (.list ws) review native =
        .ok result ∧
      ∀ w ∈ ws, Malformed w → result.accepted = false ∧ ∃ i ∈ result.issues, i.kind = .toolError) ↔
      ¬ Aborts host target goals rows ws declared.analysisFunctions review := by
  rw [← validatedReviews_raises_iff hhost, ← evaluateTarget_returns_iff h hhost returncode review
    native ws]
  constructor
  · rintro ⟨result, hresult, -⟩
    exact ⟨result, hresult⟩
  · rintro ⟨result, hresult⟩
    exact ⟨result, hresult, fun w hw hmalformed =>
      evaluateTarget_malformed h.declares hresult hw hmalformed⟩

/-! ## Missing guards and a message that is no text -/

/-- Missing guards, and the guards that the plugin skipped. -/
def guardWarnings : List Dict :=
  [[("message", .str "Missing RTE guards"), ("plugin", .str "wp"), ("severity", .str "warning")],
    [("message", .str "Skipped RTE guards: p"), ("plugin", .str "wp"), ("severity", .str "warning")]]

/-- The reviews of both. -/
def guardReviews : Dict :=
  [("review_context",
      .dict (("kernel_revision", .str (String.ofList (List.replicate 40 'a'))) :: absMetadata)),
    ("reviewed_smoke", .list []),
    ("reviewed_warnings", .list (guardWarnings.map fun w => .dict (w ++ absMetadata ++
      [("reason", .str "known"), ("functions", .list [.str "abs"])])))]

/-- The target `absTarget` with the reviews. -/
def guardTarget : Dict := absTarget ++ [("profile", .str "p")] ++ guardReviews

/-- The envelope of `guardTarget`. -/
def guardEnvelope : Dict :=
  [("status", .str "passed"), ("target_id", .str "abs"), ("profile", .str "p"),
    ("analysis", .str "wp"), ("source_root", .str "/k")] ++ guardReviews

/-- A diagnostic of the plugin without a message. -/
def voidWarning : Value :=
  .dict [("message", .none), ("plugin", .str "wp"), ("severity", .str "warning")]

theorem formed_guardTarget : ∃ declared goals rows,
    Formed plainHost guardTarget absGoals absRows declared goals rows := by
  obtain ⟨⟨goals, issues⟩, hgoals, hnone⟩ := exists_of_returns
    (f := fun r : List Goal × List Issue => r.2.isEmpty)
    (x := readGoals plainHost guardTarget absGoals) (by decide +kernel)
  obtain rfl : issues = [] := List.isEmpty_iff.mp hnone
  obtain ⟨readings, hreadings, hread⟩ := exists_of_returns
    (f := fun r : List RowReading => (r.filterMap RowReading.issue?).isEmpty)
    (x := readRows (propertyRecords absRows).1) (by decide +kernel)
  have hformed : RowFormed
      [("status", .str "Valid"), ("function", .str "abs"), ("path", .str "/k/abs.c"),
        ("line", .int 3), ("kind", .str "postcondition"), ("property", .str "ensures")] := by
    refine ⟨fun field hfield => ?_, ⟨3, rfl⟩, ⟨[], rfl⟩, ⟨1, rfl⟩⟩
    simp only [List.mem_cons, List.not_mem_nil, or_false] at hfield
    rcases hfield with rfl | rfl | rfl | rfl
    · exact ⟨_, rfl⟩
    · exact ⟨_, rfl⟩
    · exact ⟨_, rfl⟩
    · exact ⟨_, rfl⟩
  have hfields : TargetFormed guardTarget :=
    ⟨⟨[], rfl⟩, ⟨[], rfl⟩, ⟨[], rfl⟩, ⟨[], rfl⟩, ⟨"main", rfl⟩⟩
  obtain ⟨declared, hdeclared⟩ : ∃ declared, declaration guardTarget = some declared :=
    Option.isSome_iff_exists.mp (by decide +kernel)
  exact ⟨declared, goals, _, hdeclared, hfields, hgoals, [_], rfl,
    List.forall_mem_singleton.mpr hformed, readRows_reads hreadings (List.isEmpty_iff.mp hread)⟩

theorem evaluateTarget_failsClosed_iff_guard : ∃ (declared : Declaration) (goals : List Goal)
    (rows : List Row),
    (∃ result, evaluateTarget plainHost guardTarget absGoals absRows (.int 0)
        (.list (guardWarnings.map .dict)) (.dict guardEnvelope) .none = .ok result ∧
      ∀ w ∈ guardWarnings.map .dict, Malformed w →
        result.accepted = false ∧ ∃ i ∈ result.issues, i.kind = .toolError) ↔
      ¬ Aborts plainHost guardTarget goals rows (guardWarnings.map .dict) declared.analysisFunctions
        (.dict guardEnvelope) := by
  obtain ⟨declared, goals, rows, h⟩ := formed_guardTarget
  exact ⟨declared, goals, rows,
    evaluateTarget_failsClosed_iff (fun _ => raises_ok) h (.int 0) (.dict guardEnvelope) .none _⟩

/-- A formed target, with a review of missing guards, and no result. -/
theorem voidWarning_raises :
    (∃ declared goals rows, Formed plainHost guardTarget absGoals absRows declared goals rows) ∧
      ¬ ∃ result, evaluateTarget plainHost guardTarget absGoals absRows (.int 0)
        (.list (guardWarnings.map .dict ++ [voidWarning])) (.dict guardEnvelope) .none =
          .ok result := by
  refine ⟨formed_guardTarget, fun ⟨result, h⟩ => ?_⟩
  have hraises : returns (evaluateTarget plainHost guardTarget absGoals absRows (.int 0)
      (.list (guardWarnings.map .dict ++ [voidWarning])) (.dict guardEnvelope) .none)
      (fun _ => true) = false := by decide +kernel
  rw [h] at hraises
  exact absurd hraises (by simp [returns])

end Report
end Fragma
