import Fragma.Suite.Review

/-!
# What an approval is bound to

`validate_review` seen in two environments.  The context of a review is written down
once, in the target.  Both environments are compared with it, so they agree on all that
it binds: this is what keeps an old approval from surviving a change of the model or of
a source.  The evidence of a review is not bound; it is only tracked from then on.

* `Listed`, `ListedEvidence`, `Required`: the files of a review.
* `Agree`, `validateReview_agree`: **two environments with an envelope for one target
  agree on everything that the context binds**.
* `not_validateReview_agree_evidence`: they need not agree on the evidence.
-/

namespace Fragma
namespace Suite

open Python Posix Analysis

/-! ## Two environments -/

/-- The file is listed under the `file_hashes` of the context or of a review. -/
def Listed (target : Dict) (R : Envelope) (filename : String) : Prop :=
  ∃ parts part expected, sections target R.reviewContext = .ok parts ∧ part ∈ parts ∧
    ListsHash part filename expected

/-- The file is listed under the `review_evidence` of the context or of a review. -/
def ListedEvidence (target : Dict) (R : Envelope) (filename : String) : Prop :=
  ∃ parts part, sections target R.reviewContext = .ok parts ∧ part ∈ parts ∧
    ListsEvidence part filename

/-- The target cannot do without the file in this environment: it is the harness, the
specifications, the driver, the check of the kernel model or the strategy, the source in
the kernel, the receipt of the build, or a file of the programs that a setting needs. -/
def Required (root : PurePath) (target : Dict) (E : Environment) (filename : String) : Prop :=
  ∃ frontend setting required, frontendIdentity target = .ok frontend ∧
    calibrationIdentity target = .ok setting ∧
    requiredFiles root target E (frontend, setting) = .ok required ∧ .str filename ∈ required

/-- A file has one content in two environments, and both track it. -/
structure SameFile (root : PurePath) (E E' : Environment) (R R' : Envelope) (filename : String) :
    Prop where
  hash : contentHash root E filename = contentHash root E' filename
  isSome : (contentHash root E filename).isSome
  tracked : Tracks root E R filename
  tracked' : Tracks root E' R' filename

/-- What two environments with an envelope for one target agree on. -/
structure Agree (root : PurePath) (target : Dict) (E E' : Environment) (R R' : Envelope) :
    Prop where
  context : R.reviewContext = R'.reviewContext
  revision : E.revision = E'.revision
  profile : R.profile = R'.profile
  lock : E.lock = E'.lock
  model : ∃ identity identity', modelIdentity E.analysis = .ok identity ∧
    modelIdentity E'.analysis = .ok identity' ∧
    Value.sameJson (.dict identity) (.dict identity') = true
  cppCommand : E.cppCommand = E'.cppCommand
  annotations : E.annotations = E'.annotations
  machdep : E.machdep = E'.machdep
  listed : ∀ filename, Listed target R filename → SameFile root E E' R R' filename
  required : ∀ filename, Required root target E filename ∨ Required root target E' filename →
    Listed target R filename
  evidence : ∀ filename, ListedEvidence target R filename →
    Tracks root E R filename ∧ Tracks root E' R' filename

/-- A file that is required is listed in the context. -/
theorem Binds.listed_of_required {root : PurePath} {target : Dict} {E : Environment}
    {R : Envelope} (h : Binds root target E R) {filename : String}
    (hrequired : Required root target E filename) : Listed target R filename := by
  obtain ⟨frontend, setting, required, hfrontend, hsetting, hfiles, hmem⟩ := hrequired
  obtain ⟨frontend', setting', required', hfrontend', hsetting', hfiles', hlists⟩ := h.required
  obtain rfl := Except.ok.inj (hfrontend.symm.trans hfrontend')
  obtain rfl := Except.ok.inj (hsetting.symm.trans hsetting')
  obtain rfl := Except.ok.inj (hfiles.symm.trans hfiles')
  obtain ⟨filename', expected, hname, hlisted⟩ := hlists _ hmem
  obtain rfl := Value.str.inj hname
  obtain ⟨parts, hparts, -⟩ := h.files
  refine ⟨parts, .dict R.reviewContext, expected, hparts, ?_, hlisted⟩
  unfold sections at hparts
  obtain ⟨smoke, -, hparts⟩ := bind_eq_ok_iff.mp hparts
  obtain ⟨warnings, -, hparts⟩ := bind_eq_ok_iff.mp hparts
  rw [← Except.ok.inj hparts]
  simp

/-- A file that is listed has one content in the two environments. -/
theorem Binds.sameFile {root : PurePath} {target : Dict} {E E' : Environment} {R R' : Envelope}
    (h : Binds root target E R) (h' : Binds root target E' R')
    (hcontext : R.reviewContext = R'.reviewContext) {filename : String}
    (hlisted : Listed target R filename) : SameFile root E E' R R' filename := by
  obtain ⟨parts, part, expected, hparts, hpart, hlists⟩ := hlisted
  obtain ⟨ps, hps, hfiles⟩ := h.files
  obtain ⟨ps', hps', hfiles'⟩ := h'.files
  obtain rfl := Except.ok.inj (hparts.symm.trans hps)
  rw [hcontext] at hparts
  obtain rfl := Except.ok.inj (hparts.symm.trans hps')
  obtain ⟨hash, rfl, hcontent, htracks⟩ := (hfiles part hpart).1 filename expected hlists
  obtain ⟨hash', hhash', hcontent', htracks'⟩ := (hfiles' part hpart).1 filename _ hlists
  obtain rfl := Value.str.inj hhash'
  exact ⟨hcontent.trans hcontent'.symm, hcontent ▸ rfl, htracks, htracks'⟩

/-- The command and the annotations stand in the dictionary of the preprocessing. -/
theorem preprocessing_inj {E E' : Environment} {mode : Value} {frontend : Option Dict}
    (h : Value.sameJson (.dict (preprocessing E mode frontend))
      (.dict (preprocessing E' mode frontend)) = true) :
    E.cppCommand = E'.cppCommand ∧ E.annotations = E'.annotations :=
  ⟨Value.sameJson_str.mp (Value.sameJson_get h "cpp_command"),
    Value.sameJson_str.mp (Value.sameJson_get h "annotations")⟩

/-- **A review approval is bound to one environment.**  Two environments with an envelope
for the same target agree on the revision, the profile, the lock, the model, the
preprocessing, the machine description and the content of every file that the review
binds by its hash.  Among these are the files that the target cannot do without in
either environment.  The settings that come from the target are those that the context
names.  All these files, and the evidence of the reviews, are tracked. -/
theorem validateReview_agree {root : PurePath} {target : Dict} {E E' : Environment}
    {R R' : Envelope} (h : validateReview root target E = .ok (some R))
    (h' : validateReview root target E' = .ok (some R')) :
    Binds root target E R ∧ Binds root target E' R' ∧ Agree root target E E' R R' := by
  have hb := validateReview_binds h
  have hb' := validateReview_binds h'
  have hcontext := Value.dict.inj (hb.context.symm.trans hb'.context)
  refine ⟨hb, hb', ?_⟩
  have hpreprocessing : E.cppCommand = E'.cppCommand ∧ E.annotations = E'.annotations := by
    obtain ⟨mode, frontend, hmode, hfrontend, hsame⟩ := hb.preprocessing
    obtain ⟨mode', frontend', hmode', hfrontend', hsame'⟩ := hb'.preprocessing
    obtain rfl := Option.some.inj (hmode.symm.trans hmode')
    obtain rfl := Except.ok.inj (hfrontend.symm.trans hfrontend')
    rw [hcontext] at hsame
    exact preprocessing_inj (Value.sameJson_of_sameJson hsame hsame')
  exact
    { context := hcontext
      revision := by
        have hrevision := hb.revision
        rw [hcontext, hb'.revision] at hrevision
        exact (Value.str.inj hrevision).symm
      profile := Option.some.inj (hb.profile.1.symm.trans hb'.profile.1)
      lock := by
        have hlock := hb.lock
        rw [hcontext, hb'.lock] at hlock
        exact (Value.str.inj hlock).symm
      model := by
        obtain ⟨identity, hidentity, hsame⟩ := hb.model
        obtain ⟨identity', hidentity', hsame'⟩ := hb'.model
        rw [hcontext] at hsame
        exact ⟨identity, identity', hidentity, hidentity', Value.sameJson_of_sameJson hsame hsame'⟩
      cppCommand := hpreprocessing.1
      annotations := hpreprocessing.2
      machdep := by
        obtain ⟨hashes, hhashes, hmachine⟩ := hb.machdep
        obtain ⟨hashes', hhashes', hmachine'⟩ := hb'.machdep
        rw [hcontext] at hhashes
        obtain rfl := Value.dict.inj (hhashes.symm.trans hhashes')
        exact Value.str.inj (List.cons.inj (hmachine.symm.trans hmachine')).1
      listed := fun filename hlisted => hb.sameFile hb' hcontext hlisted
      required := by
        rintro filename (hrequired | hrequired)
        · exact hb.listed_of_required hrequired
        · have hlisted := hb'.listed_of_required hrequired
          unfold Listed at hlisted ⊢
          rwa [hcontext]
      evidence := by
        rintro filename ⟨parts, part, hparts, hpart, hlists⟩
        obtain ⟨ps, hps, hfiles⟩ := hb.files
        obtain ⟨ps', hps', hfiles'⟩ := hb'.files
        obtain rfl := Except.ok.inj (hparts.symm.trans hps)
        rw [hcontext] at hparts
        obtain rfl := Except.ok.inj (hparts.symm.trans hps')
        exact ⟨(hfiles part hpart).2 filename hlists, (hfiles' part hpart).2 filename hlists⟩ }

/-! ## The evidence of a review -/

/-- The hash of every file but the notes. -/
def reviewHash : String := "0000000000000000000000000000000000000000000000000000000000000000"

/-- The hashes that the context of the example binds. -/
def exampleHashes : Dict :=
  ["h.c", "fragma-build.json", "m.yaml", "fragma/analysis_policy.py"].map fun f =>
    (f, .str reviewHash)

/-- The context of the example. -/
def exampleContext : Dict :=
  [("kernel_revision", .str "rev"), ("profile", .str "example-gcc"),
    ("toolchain_lock_sha256", .str "lock"),
    ("analysis", .dict [("wp_model", .str "Typed"),
      ("arithmetic_flags", .list (arithmeticFlags.map .str)),
      ("runtime_checks", .dict runtimeChecks)]),
    ("analysis_pipeline", .dict [("kind", .str "wp-rte"), ("functions", .list [.str "helper"])]),
    ("preprocessing", .dict [("cpp_command", .str "gcc -E -C"), ("annotations", .str "native ACSL"),
      ("input_mode", .str "kernel-tu"), ("extra_args", .list [.str "-std=gnu11"])]),
    ("file_hashes", .dict exampleHashes), ("review_evidence", .list [.str "n.md"])]

/-- A target with one reviewed warning. -/
def exampleTarget : Dict :=
  [("id", .str "helper"), ("profile", .str "example-gcc"), ("analysis", .str "wp"),
    ("input_mode", .str "kernel-tu"), ("functions", .list [.str "helper"]),
    ("source", .str "h.c"),
    ("review_context", .dict exampleContext),
    ("reviewed_warnings", .list [.dict [("message", .str "Missing RTE guards"),
      ("file_hashes", .dict [("h.c", .str reviewHash)]),
      ("review_evidence", .list [.str "n.md"])]])]

/-- The environment of the example, by the hash of `n.md`. -/
def exampleEnvironment (notes : String) : Environment :=
  { revision := "rev"
    analysis := .dict [("wp_model", .str "Typed"),
      ("arithmetic_flags", .list (arithmeticFlags.map .str)),
      ("runtime_checks", .dict runtimeChecks)]
    machdep := reviewHash
    buildSource := "/r"
    buildPath := "/r"
    lock := "lock"
    cppCommand := "gcc -E -C"
    annotations := "native ACSL"
    resolve := .ok
    hash := fun path => some (if path = "/r/n.md" then notes else reviewHash) }

/-- The hash of other notes. -/
def otherHash : String := "1000000000000000000000000000000000000000000000000000000000000000"

/-- The target has an envelope whatever the notes are. -/
theorem exists_validateReview_example :
    (∃ R, validateReview (.parse "/r") exampleTarget (exampleEnvironment reviewHash) = .ok (some R)) ∧
      ∃ R, validateReview (.parse "/r") exampleTarget (exampleEnvironment otherHash) =
        .ok (some R) := by
  constructor
  · obtain ⟨R, h, hsome⟩ := exists_of_returns (f := Option.isSome)
      (x := validateReview (.parse "/r") exampleTarget (exampleEnvironment reviewHash))
      (by decide +kernel)
    obtain ⟨R, rfl⟩ := Option.isSome_iff_exists.mp hsome
    exact ⟨R, h⟩
  · obtain ⟨R, h, hsome⟩ := exists_of_returns (f := Option.isSome)
      (x := validateReview (.parse "/r") exampleTarget (exampleEnvironment otherHash))
      (by decide +kernel)
    obtain ⟨R, rfl⟩ := Option.isSome_iff_exists.mp hsome
    exact ⟨R, h⟩

/-- Two environments that differ in the notes agree on the rest. -/
theorem validateReview_agree_example :
    ∃ R R', validateReview (.parse "/r") exampleTarget (exampleEnvironment reviewHash) =
        .ok (some R) ∧
      validateReview (.parse "/r") exampleTarget (exampleEnvironment otherHash) = .ok (some R') ∧
      Agree (.parse "/r") exampleTarget (exampleEnvironment reviewHash)
        (exampleEnvironment otherHash) R R' := by
  obtain ⟨⟨R, h⟩, R', h'⟩ := exists_validateReview_example
  exact ⟨R, R', h, h', (validateReview_agree h h').2.2⟩

/-- **The evidence of a review is not bound.**  Files under `review_evidence` have no
hash in the review, so another version of the notes leaves the approval valid. -/
theorem not_validateReview_agree_evidence :
    ¬ ∀ (root : PurePath) (target : Dict) (E E' : Environment) (R R' : Envelope),
      validateReview root target E = .ok (some R) →
      validateReview root target E' = .ok (some R') →
      ∀ filename, Listed target R filename ∨ ListedEvidence target R filename →
        contentHash root E filename = contentHash root E' filename := by
  intro hall
  obtain ⟨⟨R, h⟩, R', h'⟩ := exists_validateReview_example
  have hcontext : Value.dict R.reviewContext = .dict exampleContext :=
    (validateReview_binds h).context.symm
  have hlisted : ListedEvidence exampleTarget R "n.md" := by
    rw [ListedEvidence, Value.dict.inj hcontext]
    exact ⟨_, .dict exampleContext, rfl, List.mem_cons_self, exampleContext, [.str "n.md"],
      rfl, rfl, List.mem_cons_self⟩
  have hsame := hall _ _ _ _ R R' h h' "n.md" (Or.inr hlisted)
  exact absurd hsame (by decide +kernel)

end Suite
end Fragma
