import Fragma.Coverage.Admission
import Fragma.Keyed.Timeline
import Fragma.Python.Failing
import Fragma.Python.Orders

/-!
# The latest run decides

What the matrix says about a target comes from the runs that select it, sorted by the moment at which they
were completed.

* `readSummaries_eq_ok_iff`: the runs that are read.
* `generateMatrix_perm`: **the order of the summaries does not matter**.
* `generateMatrix_older`: **an older run changes no verdict**.
* `generateMatrix_current_iff`: **a target is current where its strictly latest run says so**.
-/

namespace Fragma
namespace Coverage

open Python Posix Suite Replay Keyed

/-! ## Reading the summaries -/

section Runs

variable {h : Host} {checked : ℤ}

theorem path_of_readSummary {path : PurePath} {run : Run} (hrun : readSummary h checked path = .ok run) :
    run.path = (h.absolute path).render := by
  obtain ⟨data, -, hrun⟩ := bind_eq_ok_iff.mp hrun
  obtain ⟨_, -, hrun⟩ := bind_eq_ok_iff.mp hrun
  obtain ⟨_, -, hrun⟩ := bind_eq_ok_iff.mp hrun
  obtain ⟨time, -, hrun⟩ := bind_eq_ok_iff.mp hrun
  obtain ⟨selected, -, hrun⟩ := bind_eq_ok_iff.mp hrun
  obtain ⟨_, -, hrun⟩ := bind_eq_ok_iff.mp hrun
  split at hrun
  · obtain ⟨mapped, -, hrun⟩ := bind_eq_ok_iff.mp hrun
    obtain ⟨_, -, hrun⟩ := bind_eq_ok_iff.mp hrun
    rw [← Except.ok.inj hrun]
  · exact absurd hrun (by simp)

theorem readFrom_eq_ok_iff {runs all : List Run} {paths : List PurePath} :
    readFrom h checked runs paths = .ok all ↔
      ∃ more, all = runs ++ more ∧ List.Forall₂ (fun path run => readSummary h checked path = .ok run) paths more ∧
        (more.map Run.path).Nodup ∧ ∀ run ∈ more, run.path ∉ runs.map Run.path := by
  induction paths generalizing runs with
  | nil =>
    rw [readFrom]
    constructor
    · intro hall
      exact ⟨[], by rw [← Except.ok.inj hall, List.append_nil], .nil, List.nodup_nil, by simp⟩
    · rintro ⟨more, rfl, hmore, -, -⟩
      cases hmore
      rw [List.append_nil]
  | cons path paths ih =>
    rw [readFrom]
    constructor
    · intro hall
      obtain ⟨_, hnew, hall⟩ := bind_eq_ok_iff.mp hall
      obtain ⟨run, hrun, hall⟩ := bind_eq_ok_iff.mp hall
      obtain ⟨more, rfl, hmore, hnodup, hfresh⟩ := ih.mp hall
      rw [raiseIf_eq_ok_iff, ← path_of_readSummary hrun] at hnew
      refine ⟨run :: more, by rw [List.append_assoc, List.singleton_append], .cons hrun hmore, ?_, ?_⟩
      · rw [List.map_cons, List.nodup_cons]
        refine ⟨fun hmem => ?_, hnodup⟩
        obtain ⟨run', hrun', hpath⟩ := List.mem_map.mp hmem
        refine hfresh run' hrun' ?_
        rw [List.map_append, List.mem_append, hpath]
        exact .inr List.mem_cons_self
      · refine List.forall_mem_cons.mpr ⟨hnew, fun run' hrun' hmem => hfresh run' hrun' ?_⟩
        rw [List.map_append, List.mem_append]
        exact .inl hmem
    · rintro ⟨more, rfl, hmore, hnodup, hfresh⟩
      cases hmore with
      | @cons _ run _ more hrun hmore =>
        rw [List.map_cons, List.nodup_cons] at hnodup
        obtain ⟨hnew, hfresh⟩ := List.forall_mem_cons.mp hfresh
        refine bind_eq_ok_iff.mpr ⟨(), raiseIf_eq_ok_iff.mpr (path_of_readSummary hrun ▸ hnew), ?_⟩
        refine bind_eq_ok_iff.mpr ⟨run, hrun, ih.mpr ⟨more, ?_, hmore, hnodup.2, fun run' hrun' hmem => ?_⟩⟩
        · rw [List.append_assoc, List.singleton_append]
        · rw [List.map_append, List.mem_append] at hmem
          rcases hmem with hmem | hmem
          · exact hfresh run' hrun' hmem
          · rw [List.map_singleton, List.mem_singleton] at hmem
            exact hnodup.1 (List.mem_map.mpr ⟨run', hrun', hmem⟩)

/-- **The runs that are read**: one for each summary, and no two from one path. -/
theorem readSummaries_eq_ok_iff {paths : List PurePath} {runs : List Run} :
    readSummaries h checked paths = .ok runs ↔
      List.Forall₂ (fun path run => readSummary h checked path = .ok run) paths runs ∧
        (runs.map Run.path).Nodup := by
  rw [readSummaries, readFrom_eq_ok_iff]
  constructor
  · rintro ⟨more, rfl, hmore, hnodup, -⟩
    exact ⟨hmore, hnodup⟩
  · rintro ⟨hmore, hnodup⟩
    exact ⟨runs, rfl, hmore, hnodup, fun _ _ => List.not_mem_nil⟩

theorem readSummaries_perm {paths paths' : List PurePath} {runs : List Run} (hperm : paths.Perm paths')
    (hruns : readSummaries h checked paths = .ok runs) :
    ∃ runs', readSummaries h checked paths' = .ok runs' ∧ runs.Perm runs' := by
  obtain ⟨hall, hnodup⟩ := readSummaries_eq_ok_iff.mp hruns
  obtain ⟨runs', hall', hperm'⟩ := List.perm_comp_forall₂ hperm.symm hall
  exact ⟨runs', readSummaries_eq_ok_iff.mpr ⟨hall', (hperm'.map _).nodup_iff.mpr hnodup⟩, hperm'.symm⟩

end Runs

/-! ## The models of other orders -/

section Models

variable {h : Host} {registered : Table Dict} {revision : String}

/-- The observations of the models that are filed under a name. -/
def observations (h : Host) (registered : Table Dict) (revision : String) (fs : List Filing) (name : Value) :
    List ModelObservation :=
  (filedUnder fs name).filterMap fun f => (f.observe h registered revision).toOption

/-- The row with more observations. -/
def ProfileRow.gain (row : ProfileRow) (os : List ModelObservation) : ProfileRow :=
  { row with modelEvidence := row.modelEvidence ++ os }

/-- The row with the observations of the models that are filed under its name. -/
def gained (h : Host) (registered : Table Dict) (revision : String) (fs : List Filing) (row : ProfileRow) :
    ProfileRow :=
  row.gain (observations h registered revision fs row.id)

theorem ProfileRow.gain_nil (row : ProfileRow) : row.gain [] = row := by
  rw [ProfileRow.gain, List.append_nil]

theorem ProfileRow.gain_gain (row : ProfileRow) (os os' : List ModelObservation) :
    (row.gain os).gain os' = row.gain (os ++ os') := by
  simp only [ProfileRow.gain, List.append_assoc]

theorem observations_append (fs gs : List Filing) (name : Value) :
    observations h registered revision (fs ++ gs) name =
      observations h registered revision fs name ++ observations h registered revision gs name := by
  rw [observations, filedUnder, List.filter_append, List.filterMap_append]
  rfl

theorem gained_gained (fs gs : List Filing) (row : ProfileRow) :
    gained h registered revision gs (gained h registered revision fs row) =
      gained h registered revision (fs ++ gs) row := by
  rw [gained, gained, gained, ProfileRow.gain_gain, observations_append]
  rfl

/-- Models that are added one list after another are added as one list. -/
theorem map_gained_gained (fs gs : List Filing) (rows : List ProfileRow) :
    (rows.map (gained h registered revision fs)).map (gained h registered revision gs) =
      rows.map (gained h registered revision (fs ++ gs)) := by
  rw [List.map_map]
  exact List.map_congr_left fun row _ => gained_gained fs gs row

theorem gained_of_isNamed {f : Filing} {o : ModelObservation} {row : ProfileRow} (hrow : row.IsNamed f.name)
    (ho : f.observe h registered revision = .ok o) : gained h registered revision [f] row = row.add o := by
  have hone : filedUnder [f] row.id = [f] :=
    List.filter_eq_self.mpr fun g hg => List.mem_singleton.mp hg ▸ decide_eq_true hrow
  rw [gained, observations, hone, List.filterMap_cons, ho]
  rfl

theorem gained_of_not_isNamed {f : Filing} {row : ProfileRow} (hrow : ¬row.IsNamed f.name) :
    gained h registered revision [f] row = row := by
  have hnone : filedUnder [f] row.id = [] :=
    List.filter_eq_nil_iff.mpr fun g hg => List.mem_singleton.mp hg ▸ fun hname => hrow (of_decide_eq_true hname)
  rw [gained, observations, hnone, List.filterMap_nil, ProfileRow.gain_nil]

/-- A model that is filed under a name of a row is observed. -/
def Observable (h : Host) (registered : Table Dict) (revision : String) (rows : List ProfileRow) (f : Filing) :
    Prop :=
  (rows.any fun row => row.IsNamed f.name) = true → ∃ o, f.observe h registered revision = .ok o

theorem observable_map_gained {fs : List Filing} {rows : List ProfileRow} {f : Filing} :
    Observable h registered revision (rows.map (gained h registered revision fs)) f ↔
      Observable h registered revision rows f := by
  rw [Observable, Observable, List.any_map]
  rfl

/-- One model is added where it is observed. -/
theorem addModel_eq_ok_iff {rows rows' : List ProfileRow} {f : Filing} :
    addModel h registered revision rows f = .ok rows' ↔
      Observable h registered revision rows f ∧ rows' = rows.map (gained h registered revision [f]) := by
  unfold addModel Observable
  by_cases hnamed : (rows.any fun row => row.IsNamed f.name) = true
  · have hmap : ∀ o, f.observe h registered revision = .ok o →
        (rows.map fun row => if row.IsNamed f.name then row.add o else row) =
          rows.map (gained h registered revision [f]) := by
      intro o ho
      refine List.map_congr_left fun row _ => ?_
      by_cases hrow : row.IsNamed f.name
      · rw [if_pos hrow, gained_of_isNamed hrow ho]
      · rw [if_neg hrow, gained_of_not_isNamed hrow]
    rw [if_pos hnamed]
    constructor
    · intro hadd
      obtain ⟨o, ho, hadd⟩ := bind_eq_ok_iff.mp hadd
      exact ⟨fun _ => ⟨o, ho⟩, (Except.ok.inj hadd).symm.trans (hmap o ho)⟩
    · rintro ⟨hobserve, rfl⟩
      obtain ⟨o, ho⟩ := hobserve hnamed
      exact bind_eq_ok_iff.mpr ⟨o, ho, congrArg Except.ok (hmap o ho)⟩
  · have hsame : rows.map (gained h registered revision [f]) = rows := by
      refine (List.map_congr_left fun row hrow => ?_).trans (List.map_id rows)
      have hno : ¬row.IsNamed f.name := fun hname =>
        hnamed (List.any_eq_true.mpr ⟨row, hrow, decide_eq_true hname⟩)
      exact gained_of_not_isNamed hno
    rw [if_neg hnamed, hsame, Except.ok.injEq]
    exact ⟨fun heq => ⟨fun hname => absurd hname hnamed, heq.symm⟩, fun heq => heq.2.symm⟩

/-- The models are added where each of them is observed. -/
theorem foldlM_addModel_eq_ok_iff {fs : List Filing} {rows rows' : List ProfileRow} :
    fs.foldlM (addModel h registered revision) rows = .ok rows' ↔
      (∀ f ∈ fs, Observable h registered revision rows f) ∧ rows' = rows.map (gained h registered revision fs) := by
  induction fs generalizing rows with
  | nil =>
    have hsame : rows.map (gained h registered revision []) = rows :=
      (List.map_congr_left fun row _ => row.gain_nil).trans (List.map_id rows)
    rw [hsame]
    exact ⟨fun hfold => ⟨fun _ hf => absurd hf List.not_mem_nil, (Except.ok.inj hfold).symm⟩,
      fun hfold => congrArg Except.ok hfold.2.symm⟩
  | cons f fs ih =>
    rw [foldlM_cons_eq_ok_iff, List.forall_mem_cons]
    have hmap : (rows.map (gained h registered revision [f])).map (gained h registered revision fs) =
        rows.map (gained h registered revision (f :: fs)) := map_gained_gained [f] fs rows
    constructor
    · rintro ⟨middle, hadd, hfold⟩
      obtain ⟨hobserve, rfl⟩ := addModel_eq_ok_iff.mp hadd
      obtain ⟨hall, rfl⟩ := ih.mp hfold
      exact ⟨⟨hobserve, fun g hg => observable_map_gained.mp (hall g hg)⟩, hmap⟩
    · rintro ⟨⟨hobserve, hall⟩, rfl⟩
      refine ⟨_, addModel_eq_ok_iff.mpr ⟨hobserve, rfl⟩, ih.mpr ⟨fun g hg => ?_, hmap.symm⟩⟩
      exact observable_map_gained.mpr (hall g hg)

/-- The models of all runs are added as one list. -/
theorem foldlM_addRun_eq_ok_iff {runs : List Run} {rows rows' : List ProfileRow} :
    runs.foldlM (addRun h registered revision) rows = .ok rows' ↔
      ∃ fss, runs.mapM runFilings = .ok fss ∧ fss.flatten.foldlM (addModel h registered revision) rows = .ok rows' := by
  induction runs generalizing rows with
  | nil => exact ⟨fun hfold => ⟨[], rfl, hfold⟩, fun ⟨fss, hfss, hfold⟩ => by rwa [← Except.ok.inj hfss] at hfold⟩
  | cons run runs ih =>
    rw [foldlM_cons_eq_ok_iff]
    constructor
    · rintro ⟨middle, hadd, hfold⟩
      obtain ⟨fs, hfs, hadd⟩ := bind_eq_ok_iff.mp hadd
      obtain ⟨fss, hfss, hfold⟩ := ih.mp hfold
      refine ⟨fs :: fss, mapM_eq_ok_iff.mpr (.cons hfs (mapM_eq_ok_iff.mp hfss)), ?_⟩
      rw [List.flatten_cons, foldlM_append_eq_ok_iff]
      exact ⟨middle, hadd, hfold⟩
    · rintro ⟨fss, hfss, hfold⟩
      cases mapM_eq_ok_iff.mp hfss with
      | @cons _ fs _ fss hfs hall =>
        rw [List.flatten_cons, foldlM_append_eq_ok_iff] at hfold
        obtain ⟨middle, hadd, hfold⟩ := hfold
        exact ⟨middle, bind_eq_ok_iff.mpr ⟨fs, hfs, hadd⟩, ih.mpr ⟨fss, mapM_eq_ok_iff.mpr hall, hfold⟩⟩

/-- The receipts are added alike, whatever was observed before. -/
theorem foldlM_addReceipt_eq_ok {paths : List PurePath} {start rows' : List ProfileRow} {fs : List Filing}
    (hfold : paths.foldlM (addReceipt h registered revision) (start.map (gained h registered revision fs)) =
      .ok rows') :
    ∃ gs, rows' = start.map (gained h registered revision (fs ++ gs)) ∧
      ∀ fs', paths.foldlM (addReceipt h registered revision) (start.map (gained h registered revision fs')) =
        .ok (start.map (gained h registered revision (fs' ++ gs))) := by
  induction paths generalizing fs with
  | nil =>
    refine ⟨[], ?_, fun fs' => ?_⟩
    · rw [← Except.ok.inj hfold, List.append_nil]
    · rw [List.append_nil]
      rfl
  | cons path paths ih =>
    obtain ⟨middle, hadd, hfold⟩ := foldlM_cons_eq_ok_iff.mp hfold
    obtain ⟨f, hf, hadd⟩ := bind_eq_ok_iff.mp hadd
    obtain ⟨_, hhashable, hadd⟩ := bind_eq_ok_iff.mp hadd
    obtain ⟨_, hnamed, hadd⟩ := bind_eq_ok_iff.mp hadd
    obtain ⟨hobserve, rfl⟩ := addModel_eq_ok_iff.mp hadd
    rw [map_gained_gained] at hfold
    obtain ⟨gs, rfl, hall⟩ := ih hfold
    refine ⟨f :: gs, by rw [List.append_assoc, List.singleton_append], fun fs' => ?_⟩
    rw [foldlM_cons_eq_ok_iff]
    refine ⟨start.map (gained h registered revision (fs' ++ [f])), ?_, ?_⟩
    · refine bind_eq_ok_iff.mpr ⟨f, hf, bind_eq_ok_iff.mpr ⟨_, hhashable, bind_eq_ok_iff.mpr ⟨(), ?_, ?_⟩⟩⟩
      · rw [List.any_map] at hnamed ⊢
        exact hnamed
      · rw [observable_map_gained] at hobserve
        exact addModel_eq_ok_iff.mpr ⟨observable_map_gained.mpr hobserve, (map_gained_gained fs' [f] start).symm⟩
    · rw [hall (fs' ++ [f]), List.append_assoc, List.singleton_append]

theorem observations_perm {fs fs' : List Filing} (hperm : fs.Perm fs') (name : Value) :
    (observations h registered revision fs name).Perm (observations h registered revision fs' name) :=
  (hperm.filter _).filterMap _

/-- The models of the runs in another order: the same rows, with their observations in another order. -/
theorem profileEvidence_perm {runs runs' : List Run} {profilePaths : List PurePath} {rows : List ProfileRow}
    (hperm : runs.Perm runs')
    (hrows : profileEvidence h registered revision runs profilePaths = .ok rows) :
    ∃ rows', profileEvidence h registered revision runs' profilePaths = .ok rows' ∧
      List.Forall₂ (fun row row' => ∃ os, row' = { row with modelEvidence := os } ∧ row.modelEvidence.Perm os)
        rows rows' := by
  obtain ⟨start, hstart, hrows⟩ := bind_eq_ok_iff.mp hrows
  obtain ⟨middle, hmiddle, hrows⟩ := bind_eq_ok_iff.mp hrows
  obtain ⟨fss, hfss, hmodels⟩ := foldlM_addRun_eq_ok_iff.mp hmiddle
  obtain ⟨hobserve, rfl⟩ := foldlM_addModel_eq_ok_iff.mp hmodels
  obtain ⟨gs, rfl, hreceipts⟩ := foldlM_addReceipt_eq_ok hrows
  obtain ⟨fss', hfss', hpermss⟩ := exists_mapM_of_perm hperm hfss
  have hflat : fss.flatten.Perm fss'.flatten := hpermss.flatten
  refine ⟨start.map (gained h registered revision (fss'.flatten ++ gs)), ?_, ?_⟩
  · refine bind_eq_ok_iff.mpr ⟨start, hstart, bind_eq_ok_iff.mpr ⟨_, foldlM_addRun_eq_ok_iff.mpr
      ⟨fss', hfss', foldlM_addModel_eq_ok_iff.mpr ⟨fun f hf => hobserve f (hflat.mem_iff.mpr hf), rfl⟩⟩,
      hreceipts _⟩⟩
  · rw [List.forall₂_map_left_iff, List.forall₂_map_right_iff, List.forall₂_same]
    intro row _
    refine ⟨row.modelEvidence ++ observations h registered revision (fss'.flatten ++ gs) row.id, rfl, ?_⟩
    exact (observations_perm (hflat.append_right gs) row.id).append_left _

/-- The models with a date in another order. -/
theorem datedModels_perm {os os' : List ModelObservation} {dated : List (ℤ × ModelObservation)} (hperm : os.Perm os')
    (hdated : datedModels h os = .ok dated) :
    ∃ pairs pairs', dated = sortBy Prod.fst pairs ∧ datedModels h os' = .ok (sortBy Prod.fst pairs') ∧
      pairs.Perm pairs' := by
  obtain ⟨pairs, hpairs, hdated⟩ := bind_eq_ok_iff.mp hdated
  obtain ⟨pairs', hpairs', hperm'⟩ := exists_mapM_of_perm (hperm.filter _) hpairs
  exact ⟨pairs, pairs', (Except.ok.inj hdated).symm, bind_eq_ok_iff.mpr ⟨pairs', hpairs', rfl⟩, hperm'⟩

/-- The level of the latest model does not depend on the order of the models. -/
theorem level_latestModel_perm {pairs pairs' : List (ℤ × ModelObservation)} (hperm : pairs.Perm pairs') :
    (latestModel (sortBy Prod.fst pairs)).map LatestModel.level =
      (latestModel (sortBy Prod.fst pairs')).map LatestModel.level := by
  have hkeys := map_newest_perm Prod.fst hperm
  have hhead : ∀ a rest a' rest', newest Prod.fst pairs = a :: rest → newest Prod.fst pairs' = a' :: rest' →
      (∀ b ∈ rest.head?, b.1 < a.1) → a' = a := fun a rest a' rest' h h' => newest_head_perm hperm h h'
  have hle := pairwise_newest Prod.fst pairs
  unfold latestModel
  rw [newest] at hkeys hhead hle
  generalize (sortBy Prod.fst pairs).reverse = xs at hkeys hhead hle ⊢
  rw [newest] at hkeys hhead
  generalize (sortBy Prod.fst pairs').reverse = xs' at hkeys hhead ⊢
  rcases xs with _ | ⟨a, _ | ⟨b, rest⟩⟩
  · rw [List.map_eq_nil_iff.mp hkeys.symm]
  · obtain ⟨a', rfl⟩ := List.length_eq_one_iff.mp (by simpa using (congrArg List.length hkeys).symm)
    rw [hhead a [] a' [] rfl rfl (by simp)]
  · obtain ⟨a', ys, rfl, ha, hkeys⟩ := List.map_eq_cons_iff.mp hkeys.symm
    obtain ⟨b', rest', rfl, hb, -⟩ := List.map_eq_cons_iff.mp hkeys
    by_cases heq : a.1 = b.1
    · simp only [if_pos heq, if_pos (ha.trans (heq.trans hb.symm))]
      rfl
    · have hlt : ∀ c ∈ (b :: rest).head?, c.1 < a.1 := by
        intro c hc
        obtain rfl := Option.some.inj hc
        exact lt_of_le_of_ne ((List.pairwise_cons.mp hle).1 _ List.mem_cons_self) (Ne.symm heq)
      obtain rfl := hhead a _ a' _ rfl rfl hlt
      have hne : ¬a'.1 = b'.1 := fun h => heq (h.trans hb)
      simp only [if_neg heq, if_neg hne]

/-- What a row of a profile decides elsewhere. -/
structure SameProfile (row row' : ProfileRow) : Prop where
  id : row.id = row'.id
  architecture : row.architecture = row'.architecture
  level : row.currentDatedModelLevel = row'.currentDatedModelLevel

theorem undatedRuns_perm {runs runs' : List Run} {targets : List (String × Dict)} (hperm : runs.Perm runs')
    (name : Value) : (undatedRuns targets runs name).Perm (undatedRuns targets runs' name) :=
  (hperm.filter _).map _

theorem finishProfile_perm {runs runs' : List Run} {targets : List (String × Dict)} {row done : ProfileRow}
    {os : List ModelObservation} (hperm : runs.Perm runs') (hos : row.modelEvidence.Perm os)
    (hdone : finishProfile h targets runs row = .ok done) :
    ∃ done', finishProfile h targets runs' { row with modelEvidence := os } = .ok done' ∧ SameProfile done done' := by
  obtain ⟨dated, hdated, hdone⟩ := bind_eq_ok_iff.mp hdone
  obtain ⟨pairs, pairs', rfl, hdated', hpairs⟩ := datedModels_perm hos hdated
  refine ⟨_, bind_eq_ok_iff.mpr ⟨_, hdated', rfl⟩, ?_⟩
  have hundated : undatedRuns targets runs row.id = [] ↔ undatedRuns targets runs' row.id = [] := by
    rw [← List.length_eq_zero_iff, ← List.length_eq_zero_iff, (undatedRuns_perm hperm row.id).length_eq]
  rw [← Except.ok.inj hdone]
  refine ⟨rfl, rfl, ?_⟩
  simp only [level_latestModel_perm hpairs, ne_eq, hundated]

theorem architectureRowOf_congr {rows rows' : List ProfileRow} (hrows : List.Forall₂ SameProfile rows rows')
    (arch : Value) : architectureRowOf rows arch = architectureRowOf rows' arch := by
  have hmatching : ∀ id, (rows.filter fun row => Value.eq row.architecture id).map ProfileRow.id =
      (rows'.filter fun row => Value.eq row.architecture id).map ProfileRow.id := by
    intro id
    induction hrows with
    | nil => rfl
    | cons hrow _ ih =>
      rw [List.filter_cons, List.filter_cons, hrow.architecture]
      split_ifs
      · rw [List.map_cons, List.map_cons, hrow.id, ih]
      · exact ih
  unfold architectureRowOf
  simp only [hmatching]

end Models

/-! ## The runs of a target -/

section Targets

variable {h : Host} {registered : Table Dict} {revision : String} {retainedTarget : Dict → Run → Except Exn Dict}
  {checked : ℤ} {manifests : List PurePath}

/-- The runs that select a target, in order. -/
def relevantRuns (checked : ℤ) (runs : List Run) (name : String) : List Run :=
  sortBy (runKey checked) (runs.filter fun run => name ∈ run.selected)

theorem nodup_runKey {runs : List Run} (hruns : (runs.map Run.path).Nodup) : (runs.map (runKey checked)).Nodup := by
  have hpath : runs.map Run.path = (runs.map (runKey checked)).map fun key => (ofLex (ofLex key).2).2 := by
    rw [List.map_map]
    rfl
  rw [hpath] at hruns
  exact hruns.of_map

/-- The order of the runs does not matter. -/
theorem relevantRuns_perm {runs runs' : List Run} (hruns : (runs.map Run.path).Nodup) (hperm : runs.Perm runs')
    (name : String) : relevantRuns checked runs name = relevantRuns checked runs' name :=
  sortBy_perm (hperm.filter _) ((nodup_runKey hruns).sublist (List.filter_sublist.map _))

theorem targetRow_congr {runs runs' : List Run} {name : String} {target : Dict}
    (hruns : relevantRuns checked runs name = relevantRuns checked runs' name) :
    targetRow h registered revision retainedTarget checked manifests runs name target =
      targetRow h registered revision retainedTarget checked manifests runs' name target := by
  rw [relevantRuns, relevantRuns, sortBy, sortBy] at hruns
  unfold targetRow
  rw [hruns]

/-- The latest observation of a history. -/
def latestOf (ambiguous : Bool) (history : List TargetObservation) : Option TargetObservation :=
  if ambiguous then history.getLast?.map TargetObservation.blur else history.getLast?

/-- What the row of a target says about its runs. -/
theorem targetRow_eq_ok_history {runs : List Run} {name : String} {target : Dict} {r : TargetRow × List FunctionRow}
    (hr : targetRow h registered revision retainedTarget checked manifests runs name target = .ok r) :
    r.1.id = name ∧
      (relevantRuns checked runs name).mapM (fun run => targetObservation h registered revision retainedTarget
        manifests target (itemIn run name target) run) = .ok r.1.history ∧
      r.1.latest = latestOf (isAmbiguous (relevantRuns checked runs name)) r.1.history := by
  unfold targetRow at hr
  obtain ⟨source, -, hr⟩ := bind_eq_ok_iff.mp hr
  obtain ⟨history, hhistory, hr⟩ := bind_eq_ok_iff.mp hr
  obtain ⟨profile, -, hr⟩ := bind_eq_ok_iff.mp hr
  obtain ⟨found, -, hr⟩ := bind_eq_ok_iff.mp hr
  obtain ⟨current, -, hr⟩ := bind_eq_ok_iff.mp hr
  obtain ⟨architecture, -, hr⟩ := bind_eq_ok_iff.mp hr
  obtain ⟨harness, -, hr⟩ := bind_eq_ok_iff.mp hr
  obtain ⟨role, -, hr⟩ := bind_eq_ok_iff.mp hr
  obtain ⟨engine, -, hr⟩ := bind_eq_ok_iff.mp hr
  obtain ⟨project, -, hr⟩ := bind_eq_ok_iff.mp hr
  obtain ⟨functions, -, hr⟩ := bind_eq_ok_iff.mp hr
  obtain ⟨_, -, hr⟩ := bind_eq_ok_iff.mp hr
  obtain ⟨functionRows, -, hr⟩ := bind_eq_ok_iff.mp hr
  rw [← Except.ok.inj hr]
  exact ⟨rfl, hhistory, rfl⟩

end Targets

/-! ## The steps of the matrix -/

/-- What the steps of `generate_matrix` return. -/
structure Generation (h : Host) (routes : Routes) (retainedTarget : Dict → Run → Except Exn Dict)
    (summaryPaths profilePaths : List PurePath) (checkedAt : Option String) where
  checked : ℤ
  registry : String × List (String × Dict) × List (String × Dict)
  registered : Table Dict
  roster : Dict
  runs : List Run
  rows : List ProfileRow
  finished : List ProfileRow
  pairs : List (TargetRow × List FunctionRow)
  architectures : Value
  elements : List Value
  architectureRows : List ArchitectureRow
  counts : Counts
  checkTime : checkTime h checkedAt = .ok checked
  checkManifests : (manifestPaths h).forM (checkManifest h) = .ok ()
  loadRegistry : loadRegistry h routes = .ok registry
  loadProfiles : loadProfiles h routes = .ok registered
  readRoster : h.json (h.under "config/architectures.json") = .ok roster
  sameRevision : Value.get roster "kernel_revision" = .str registry.1
  readSummaries : readSummaries h checked summaryPaths = .ok runs
  addModels : profileEvidence h registered registry.1 runs profilePaths = .ok rows
  finish : rows.mapM (finishProfile h registry.2.1 runs) = .ok finished
  targetRows : ((registry.2.1.insertionSort fun a b => a.1 ≤ b.1).mapM fun p =>
    targetRow h registered registry.1 retainedTarget checked (manifestPaths h) runs p.1 p.2) = .ok pairs
  rosterArchitectures : item roster "architectures" = .ok architectures
  rosterElements : Coverage.elements architectures = .ok elements
  architectureRowsOf : elements.mapM (architectureRowOf finished) = .ok architectureRows
  count : countsOf architectureRows.length registered.length (pairs.map Prod.fst) (pairs.map Prod.snd).flatten =
    .ok counts

section Steps

variable {h : Host} {routes : Routes} {retainedTarget : Dict → Run → Except Exn Dict}
  {summaryPaths profilePaths : List PurePath} {checkedAt : Option String}

/-- The matrix of the steps. -/
def Generation.matrix (g : Generation h routes retainedTarget summaryPaths profilePaths checkedAt) : Matrix :=
  { checkedAt := g.checked, revision := g.registry.1
    manifests := (manifestPaths h).map fun path => ((path.relativeTo h.root).render, h.observe path)
    suppliedRuns := g.runs.map (runRow g.registry.2.1), architectures := g.architectureRows
    profiles := g.finished.map (ProfileRow.withTargets (g.pairs.map Prod.fst))
    targets := g.pairs.map Prod.fst, functions := (g.pairs.map Prod.snd).flatten, counts := g.counts }

theorem generateMatrix_eq_ok_iff {matrix : Matrix} :
    generateMatrix h routes retainedTarget summaryPaths profilePaths checkedAt = .ok matrix ↔
      ∃ g : Generation h routes retainedTarget summaryPaths profilePaths checkedAt, matrix = g.matrix := by
  unfold generateMatrix
  constructor
  · intro hm
    obtain ⟨checked, hchecked, hm⟩ := bind_eq_ok_iff.mp hm
    obtain ⟨_, hmanifests, hm⟩ := bind_eq_ok_iff.mp hm
    obtain ⟨registry, hregistry, hm⟩ := bind_eq_ok_iff.mp hm
    obtain ⟨registered, hregistered, hm⟩ := bind_eq_ok_iff.mp hm
    obtain ⟨roster, hroster, hm⟩ := bind_eq_ok_iff.mp hm
    obtain ⟨_, hrevision, hm⟩ := bind_eq_ok_iff.mp hm
    obtain ⟨runs, hruns, hm⟩ := bind_eq_ok_iff.mp hm
    obtain ⟨rows, hrows, hm⟩ := bind_eq_ok_iff.mp hm
    obtain ⟨finished, hfinished, hm⟩ := bind_eq_ok_iff.mp hm
    obtain ⟨pairs, hpairs, hm⟩ := bind_eq_ok_iff.mp hm
    obtain ⟨architectures, harchitectures, hm⟩ := bind_eq_ok_iff.mp hm
    obtain ⟨elements, helements, hm⟩ := bind_eq_ok_iff.mp hm
    obtain ⟨architectureRows, harchitectureRows, hm⟩ := bind_eq_ok_iff.mp hm
    obtain ⟨counts, hcounts, hlast⟩ := bind_eq_ok_iff.mp hm
    refine ⟨⟨checked, registry, registered, roster, runs, rows, finished, pairs, architectures, elements,
      architectureRows, counts, hchecked, hmanifests, hregistry, hregistered, hroster, ?_, hruns, hrows, hfinished,
      hpairs, harchitectures, helements, harchitectureRows, hcounts⟩, (Except.ok.inj hlast).symm⟩
    exact not_not.mp (raiseIf_eq_ok_iff.mp hrevision)
  · rintro ⟨g, rfl⟩
    have hrevision : raiseIf (Value.get g.roster "kernel_revision" ≠ .str g.registry.1)
        (coverageError "architecture roster and target revisions disagree") = .ok () :=
      raiseIf_eq_ok_iff.mpr (not_not.mpr g.sameRevision)
    exact bind_eq_ok_iff.mpr ⟨_, g.checkTime, bind_eq_ok_iff.mpr ⟨_, g.checkManifests, bind_eq_ok_iff.mpr
      ⟨_, g.loadRegistry, bind_eq_ok_iff.mpr ⟨_, g.loadProfiles, bind_eq_ok_iff.mpr ⟨_, g.readRoster,
      bind_eq_ok_iff.mpr ⟨_, hrevision, bind_eq_ok_iff.mpr ⟨_, g.readSummaries, bind_eq_ok_iff.mpr
      ⟨_, g.addModels, bind_eq_ok_iff.mpr ⟨_, g.finish, bind_eq_ok_iff.mpr ⟨_, g.targetRows, bind_eq_ok_iff.mpr
      ⟨_, g.rosterArchitectures, bind_eq_ok_iff.mpr ⟨_, g.rosterElements, bind_eq_ok_iff.mpr
      ⟨_, g.architectureRowsOf, bind_eq_ok_iff.mpr ⟨_, g.count, rfl⟩⟩⟩⟩⟩⟩⟩⟩⟩⟩⟩⟩⟩⟩

end Steps

/-! ## Other orders of the summaries -/

/-- What the matrix decides: the architectures, the level and the targets of each profile, the targets, the
functions and the counts. -/
structure Verdicts where
  architectures : List ArchitectureRow
  profiles : List (Value × Value × List String)
  targets : List TargetRow
  functions : List FunctionRow
  counts : Counts

/-- The verdicts of a matrix. -/
def Matrix.verdicts (matrix : Matrix) : Verdicts :=
  { architectures := matrix.architectures
    profiles := matrix.profiles.map fun row => (row.id, row.currentDatedModelLevel, row.targets)
    targets := matrix.targets, functions := matrix.functions, counts := matrix.counts }

section Orders

variable {h : Host} {routes : Routes} {retainedTarget : Dict → Run → Except Exn Dict}
  {summaryPaths summaryPaths' profilePaths : List PurePath} {checkedAt : Option String}

theorem map_withTargets_congr {rows rows' : List ProfileRow} (hrows : List.Forall₂ SameProfile rows rows')
    (targets : List TargetRow) :
    (rows.map (ProfileRow.withTargets targets)).map (fun row => (row.id, row.currentDatedModelLevel, row.targets)) =
      (rows'.map (ProfileRow.withTargets targets)).map fun row =>
        (row.id, row.currentDatedModelLevel, row.targets) := by
  induction hrows with
  | nil => rfl
  | cons hrow _ ih =>
    rw [List.map_cons, List.map_cons, List.map_cons, List.map_cons, ih]
    simp only [ProfileRow.withTargets, ProfileRow.IsNamed, hrow.id, hrow.level]
    rfl

/-- A matrix has the same verdicts in another order of the summaries. -/
theorem generateMatrix_of_perm (hperm : summaryPaths.Perm summaryPaths') {verdicts : Verdicts}
    (hm : (generateMatrix h routes retainedTarget summaryPaths profilePaths checkedAt).toOption.map
      Matrix.verdicts = some verdicts) :
    (generateMatrix h routes retainedTarget summaryPaths' profilePaths checkedAt).toOption.map
      Matrix.verdicts = some verdicts := by
  obtain ⟨matrix, hmatrix, hverdicts⟩ := Option.map_eq_some_iff.mp hm
  obtain ⟨g, rfl⟩ := generateMatrix_eq_ok_iff.mp (toOption_eq_iff.mp hmatrix)
  obtain ⟨runs', hruns', hrunsPerm⟩ := readSummaries_perm hperm g.readSummaries
  obtain ⟨rows', hrows', hevidence⟩ := profileEvidence_perm hrunsPerm g.addModels
  obtain ⟨finished', hfinished', hsame⟩ : ∃ finished', rows'.mapM (finishProfile h g.registry.2.1 runs') =
      .ok finished' ∧ List.Forall₂ SameProfile g.finished finished' := by
    refine exists_mapM_of_forall₂ (fun row row' done hrow hdone => ?_) hevidence g.finish
    obtain ⟨os, rfl, hos⟩ := hrow
    exact finishProfile_perm hrunsPerm hos hdone
  have htargets : ∀ name target, targetRow h g.registered g.registry.1 retainedTarget g.checked (manifestPaths h)
      g.runs name target = targetRow h g.registered g.registry.1 retainedTarget g.checked (manifestPaths h)
        runs' name target := fun name target =>
    targetRow_congr (relevantRuns_perm (readSummaries_eq_ok_iff.mp g.readSummaries).2 hrunsPerm name)
  have hpairs := g.targetRows
  simp only [htargets] at hpairs
  have harchitectures := g.architectureRowsOf
  rw [show architectureRowOf g.finished = architectureRowOf finished' from funext (architectureRowOf_congr hsame)]
    at harchitectures
  let g' : Generation h routes retainedTarget summaryPaths' profilePaths checkedAt :=
    { g with
      runs := runs', rows := rows', finished := finished', readSummaries := hruns', addModels := hrows'
      finish := hfinished', targetRows := hpairs, architectureRowsOf := harchitectures }
  refine Option.map_eq_some_iff.mpr ⟨g'.matrix, toOption_eq_iff.mpr (generateMatrix_eq_ok_iff.mpr ⟨g', rfl⟩), ?_⟩
  rw [← hverdicts]
  simp only [Matrix.verdicts, Generation.matrix, map_withTargets_congr hsame]
  rfl

end Orders

/-! ## Older runs -/

section Older

variable {checked : ℤ}

/-- A run that was completed earlier stands in front. -/
theorem runKey_lt_of_time {run run' : Run} {time time' : ℤ} (h : run.time = some time) (h' : run'.time = some time')
    (hlt : time < time') : runKey checked run < runKey checked run' := by
  rw [runKey, runKey, Run.undated, Run.undated, h, h', Prod.Lex.toLex_lt_toLex]
  exact .inr ⟨rfl, Prod.Lex.toLex_lt_toLex.mpr (.inl hlt)⟩

/-- In front of a run with a date there are only runs with a date, and none is later. -/
theorem exists_time_of_runKey_le {run run' : Run} {time' : ℤ} (h' : run'.time = some time')
    (hle : runKey checked run ≤ runKey checked run') : ∃ time, run.time = some time ∧ time ≤ time' := by
  rw [runKey, runKey, Run.undated, Run.undated, h', Prod.Lex.toLex_le_toLex] at hle
  cases htime : run.time with
  | none =>
    rw [htime] at hle
    rcases hle with hlt | ⟨heq, -⟩
    · exact absurd hlt (by simp)
    · exact absurd heq (by simp)
  | some time =>
    rw [htime] at hle
    refine ⟨time, rfl, ?_⟩
    rcases hle with hlt | ⟨-, hle⟩
    · exact absurd hlt (by simp)
    · rcases Prod.Lex.toLex_le_toLex.mp hle with hlt | ⟨heq, -⟩
      · exact hlt.le
      · exact heq.le

variable {run : Run} {runs : List Run} {name : String} {time : ℤ}

/-- **A run before another one of the target changes neither its last run nor whether that is the only
one at its moment.** -/
theorem relevantRuns_older (hnodup : ((run :: runs).map Run.path).Nodup) (htime : run.time = some time)
    (hlater : name ∈ run.selected →
      ∃ later ∈ runs, name ∈ later.selected ∧ ∃ time', later.time = some time' ∧ time < time') :
    (relevantRuns checked (run :: runs) name).getLast? = (relevantRuns checked runs name).getLast? ∧
      isAmbiguous (relevantRuns checked (run :: runs) name) = isAmbiguous (relevantRuns checked runs name) := by
  by_cases hname : name ∈ run.selected
  · obtain ⟨later, hmem, hselected, time', htime', hlt⟩ := hlater hname
    have hfilter : ((run :: runs).filter fun run => name ∈ run.selected) =
        run :: runs.filter fun run => name ∈ run.selected := List.filter_cons_of_pos (decide_eq_true hname)
    have hlaterMem : later ∈ runs.filter fun run => name ∈ run.selected :=
      List.mem_filter.mpr ⟨hmem, decide_eq_true hselected⟩
    obtain ⟨last, rest, hnewest⟩ : ∃ last rest, newest (runKey checked)
        (runs.filter fun run => name ∈ run.selected) = last :: rest :=
      List.exists_cons_of_ne_nil (List.ne_nil_of_mem (mem_newest.mpr hlaterMem))
    have hkey : runKey checked run < runKey checked last :=
      (runKey_lt_of_time htime htime' hlt).trans_le (le_of_newest_eq_cons hnewest hlaterMem)
    have hkeys : ((run :: runs.filter fun run => name ∈ run.selected).map (runKey checked)).Nodup :=
      hfilter ▸ (nodup_runKey hnodup).sublist (List.filter_sublist.map _)
    obtain ⟨rest', hnewest', hhead⟩ := newest_cons_of_lt hkeys hnewest hkey
    have hreverse : (relevantRuns checked runs name).reverse = last :: rest := hnewest
    have hreverse' : (relevantRuns checked (run :: runs) name).reverse = last :: rest' := by
      rw [relevantRuns, hfilter]
      exact hnewest'
    -- the last run is later than the further one
    have hlast : ∀ s ≤ time, last.time ≠ some s := by
      intro s hs hlast
      obtain ⟨s', hs', hle⟩ := exists_time_of_runKey_le hlast (le_of_newest_eq_cons hnewest hlaterMem)
      rw [htime', Option.some.injEq] at hs'
      exact absurd (hlt.trans_le (hs' ▸ hle.trans hs)) (lt_irrefl _)
    refine ⟨by rw [List.getLast?_eq_head?_reverse, List.getLast?_eq_head?_reverse, hreverse, hreverse']; rfl, ?_⟩
    rw [isAmbiguous, isAmbiguous, hreverse, hreverse']
    rcases hhead with hhead | ⟨hhead, hbefore⟩
    · cases rest with
      | nil => rw [List.head?_eq_none_iff.mp hhead]
      | cons before rest =>
        obtain ⟨tail, rfl⟩ := List.head?_eq_some_iff.mp hhead
        rfl
    · obtain ⟨tail, rfl⟩ := List.head?_eq_some_iff.mp hhead
      have hne : last.time ≠ run.time := fun heq => hlast time le_rfl (heq.trans htime)
      cases rest with
      | nil => exact decide_eq_false hne
      | cons before rest =>
        obtain ⟨s, hs, hle⟩ := exists_time_of_runKey_le htime (hbefore before rfl).le
        have hne' : last.time ≠ before.time := fun heq => hlast s hle (heq.trans hs)
        exact (decide_eq_false hne).trans (decide_eq_false hne').symm
  · have hfilter : ((run :: runs).filter fun run => name ∈ run.selected) =
        runs.filter fun run => name ∈ run.selected := List.filter_cons_of_neg (by simpa using hname)
    rw [relevantRuns, relevantRuns, hfilter]
    exact ⟨rfl, rfl⟩

variable {h : Host} {registered : Table Dict} {revision : String} {retainedTarget : Dict → Run → Except Exn Dict}
  {manifests : List PurePath}

/-- The last run decides about a target and its functions. -/
theorem targetRow_of_last {runs runs' : List Run} {target : Dict} {r r' : TargetRow × List FunctionRow}
    (hlast : (relevantRuns checked runs' name).getLast? = (relevantRuns checked runs name).getLast?)
    (hambiguous : isAmbiguous (relevantRuns checked runs' name) = isAmbiguous (relevantRuns checked runs name))
    (hr : targetRow h registered revision retainedTarget checked manifests runs name target = .ok r)
    (hr' : targetRow h registered revision retainedTarget checked manifests runs' name target = .ok r') :
    r'.1 = { r.1 with history := r'.1.history } ∧ r'.2 = r.2 := by
  unfold targetRow at hr hr'
  obtain ⟨source, hsource, hr⟩ := bind_eq_ok_iff.mp hr
  obtain ⟨source', hsource', hr'⟩ := bind_eq_ok_iff.mp hr'
  obtain ⟨history, hhistory, hr⟩ := bind_eq_ok_iff.mp hr
  obtain ⟨history', hhistory', hr'⟩ := bind_eq_ok_iff.mp hr'
  obtain rfl := Except.ok.inj (hsource.symm.trans hsource')
  have hsame : history'.getLast? = history.getLast? := by
    change (relevantRuns checked runs name).mapM _ = _ at hhistory
    change (relevantRuns checked runs' name).mapM _ = _ at hhistory'
    cases hrun : (relevantRuns checked runs name).getLast? with
    | none =>
      rw [List.getLast?_eq_none_iff.mp hrun] at hhistory
      rw [List.getLast?_eq_none_iff.mp (hlast.trans hrun)] at hhistory'
      rw [← Except.ok.inj hhistory, ← Except.ok.inj hhistory']
    | some last =>
      obtain ⟨o, ho, hgetLast⟩ := getLast?_of_mapM hhistory hrun
      obtain ⟨o', ho', hgetLast'⟩ := getLast?_of_mapM hhistory' (hlast.trans hrun)
      rw [hgetLast, hgetLast', Except.ok.inj (ho'.symm.trans ho)]
  simp only [hsame] at hr'
  change isAmbiguous ((runs'.filter _).insertionSort _) = isAmbiguous ((runs.filter _).insertionSort _) at hambiguous
  rw [hambiguous] at hr'
  obtain ⟨profile, hprofile, hr⟩ := bind_eq_ok_iff.mp hr
  obtain ⟨found, hfound, hr⟩ := bind_eq_ok_iff.mp hr
  obtain ⟨current, hcurrent, hr⟩ := bind_eq_ok_iff.mp hr
  obtain ⟨architecture, harchitecture, hr⟩ := bind_eq_ok_iff.mp hr
  obtain ⟨harness, hharness, hr⟩ := bind_eq_ok_iff.mp hr
  obtain ⟨role, hrole, hr⟩ := bind_eq_ok_iff.mp hr
  obtain ⟨analysis, hanalysis, hr⟩ := bind_eq_ok_iff.mp hr
  obtain ⟨project, hproject, hr⟩ := bind_eq_ok_iff.mp hr
  obtain ⟨functions, hfunctions, hr⟩ := bind_eq_ok_iff.mp hr
  obtain ⟨_, hhashable, hr⟩ := bind_eq_ok_iff.mp hr
  obtain ⟨rows, hrows, hr⟩ := bind_eq_ok_iff.mp hr
  simp only [hprofile, hfound, hcurrent, harchitecture, hharness, hrole, hanalysis, hproject, hfunctions, hhashable,
    ok_bind] at hr'
  obtain ⟨rows', hrows', hr'⟩ := bind_eq_ok_iff.mp hr'
  rw [← Except.ok.inj hr, ← Except.ok.inj hr']
  exact ⟨rfl, Except.ok.inj (hrows'.symm.trans hrows)⟩

/-- The row of a target without its history. -/
def TargetRow.forget (row : TargetRow) : TargetRow := { row with history := [] }

/-- The counts do not see the histories. -/
theorem countsOf_forget (architectures profiles : ℕ) (targets : List TargetRow) (functions : List FunctionRow) :
    countsOf architectures profiles (targets.map TargetRow.forget) functions =
      countsOf architectures profiles targets functions := by
  have hstate : TargetRow.state ∘ TargetRow.forget = TargetRow.state := rfl
  have hreported : (fun row : TargetRow => row.latest.any TargetObservation.reportedAccepted &&
      !Value.eq row.state (.str "ambiguous-latest")) ∘ TargetRow.forget =
    fun row => row.latest.any TargetObservation.reportedAccepted &&
      !Value.eq row.state (.str "ambiguous-latest") := rfl
  simp only [countsOf, List.map_map, hstate, List.length_map, List.filter_map, hreported]

end Older

section Summaries

variable {h : Host} {routes : Routes} {retainedTarget : Dict → Run → Except Exn Dict}
  {summaryPaths profilePaths : List PurePath} {checkedAt : Option String} {path : PurePath}

/-- A further summary that stands in front, and is older for every target that it selects. -/
theorem generateMatrix_older_cons {matrix matrix' : Matrix} {run : Run} {time : ℤ}
    (hm : generateMatrix h routes retainedTarget summaryPaths profilePaths checkedAt = .ok matrix)
    (hm' : generateMatrix h routes retainedTarget (path :: summaryPaths) profilePaths checkedAt = .ok matrix')
    (hrun : readSummary h matrix.checkedAt path = .ok run) (htime : run.time = some time)
    (hlater : ∀ row ∈ matrix.targets, row.id ∈ run.selected → ∃ path' ∈ summaryPaths, ∃ later,
      readSummary h matrix.checkedAt path' = .ok later ∧ row.id ∈ later.selected ∧
        ∃ time', later.time = some time' ∧ time < time') :
    matrix'.targets.map TargetRow.forget = matrix.targets.map TargetRow.forget ∧
      matrix'.functions = matrix.functions ∧ matrix'.counts = matrix.counts := by
  obtain ⟨g, rfl⟩ := generateMatrix_eq_ok_iff.mp hm
  obtain ⟨g', rfl⟩ := generateMatrix_eq_ok_iff.mp hm'
  have hchecked : g'.checked = g.checked := Except.ok.inj (g'.checkTime.symm.trans g.checkTime)
  have hregistry : g'.registry = g.registry := Except.ok.inj (g'.loadRegistry.symm.trans g.loadRegistry)
  have hregistered : g'.registered = g.registered := Except.ok.inj (g'.loadProfiles.symm.trans g.loadProfiles)
  obtain ⟨hreads, -⟩ := readSummaries_eq_ok_iff.mp g.readSummaries
  obtain ⟨hreads', hnodup⟩ := readSummaries_eq_ok_iff.mp g'.readSummaries
  -- the further summary is the further run
  have hruns : g'.runs = run :: g.runs := by
    rw [hchecked] at hreads'
    refine Except.ok.inj ((mapM_eq_ok_iff.mpr hreads').symm.trans (mapM_eq_ok_iff.mpr (.cons hrun hreads)))
  have htargets' := g'.targetRows
  rw [hregistry, hregistered, hchecked, hruns] at htargets'
  have hrows : g'.pairs.map (fun r => (r.1.forget, r.2)) = g.pairs.map fun r => (r.1.forget, r.2) := by
    refine map_eq_map_of_mapM g.targetRows htargets' fun p _ r hmem r' hr hr' => ?_
    obtain ⟨hid, -, -⟩ := targetRow_eq_ok_history hr
    have hlater : p.1 ∈ run.selected →
        ∃ later ∈ g.runs, p.1 ∈ later.selected ∧ ∃ time', later.time = some time' ∧ time < time' := by
      intro hselected
      obtain ⟨path', hpath', later, hread, hlater⟩ := hlater r.1 (List.mem_map_of_mem hmem) (hid ▸ hselected)
      obtain ⟨later', hmem', hread'⟩ := exists_of_forall₂_left hreads hpath'
      obtain rfl := Except.ok.inj (hread.symm.trans hread')
      exact ⟨later, hmem', hid ▸ hlater⟩
    obtain ⟨hlast, hambiguous⟩ := relevantRuns_older (hruns ▸ hnodup) htime hlater
    obtain ⟨hrow, hfunctions⟩ := targetRow_of_last hlast hambiguous hr hr'
    rw [hrow, hfunctions]
    rfl
  have htargets : (g'.pairs.map Prod.fst).map TargetRow.forget = (g.pairs.map Prod.fst).map TargetRow.forget := by
    simpa only [List.map_map, Function.comp_def] using congrArg (List.map Prod.fst) hrows
  have hfunctions : g'.pairs.map Prod.snd = g.pairs.map Prod.snd := by
    simpa only [List.map_map, Function.comp_def] using congrArg (List.map Prod.snd) hrows
  have hlength : g'.architectureRows.length = g.architectureRows.length := by
    have hroster := Except.ok.inj (g'.readRoster.symm.trans g.readRoster)
    have harchitectures := g'.rosterArchitectures
    rw [hroster] at harchitectures
    have helements := g'.rosterElements
    rw [Except.ok.inj (harchitectures.symm.trans g.rosterArchitectures)] at helements
    rw [← (mapM_eq_ok_iff.mp g'.architectureRowsOf).length_eq, ← (mapM_eq_ok_iff.mp g.architectureRowsOf).length_eq,
      Except.ok.inj (helements.symm.trans g.rosterElements)]
  refine ⟨htargets, congrArg List.flatten hfunctions, ?_⟩
  have hcount := g'.count
  rw [← countsOf_forget, htargets, countsOf_forget, hfunctions, hlength, hregistered] at hcount
  exact Except.ok.inj (hcount.symm.trans g.count)

/-- **An older run changes no verdict**: a further summary, wherever it stands, whose run was completed before
another one of every registered target that it selects, leaves the verdicts about the targets and their functions
and the counts as they are; it only stands in the histories. -/
theorem generateMatrix_older {summaryPaths' : List PurePath} {matrix matrix' : Matrix} {run : Run} {time : ℤ}
    (hperm : summaryPaths'.Perm (path :: summaryPaths))
    (hm : generateMatrix h routes retainedTarget summaryPaths profilePaths checkedAt = .ok matrix)
    (hm' : generateMatrix h routes retainedTarget summaryPaths' profilePaths checkedAt = .ok matrix')
    (hrun : readSummary h matrix.checkedAt path = .ok run) (htime : run.time = some time)
    (hlater : ∀ row ∈ matrix.targets, row.id ∈ run.selected → ∃ path' ∈ summaryPaths, ∃ later,
      readSummary h matrix.checkedAt path' = .ok later ∧ row.id ∈ later.selected ∧
        ∃ time', later.time = some time' ∧ time < time') :
    matrix'.targets.map TargetRow.forget = matrix.targets.map TargetRow.forget ∧
      matrix'.functions = matrix.functions ∧ matrix'.counts = matrix.counts := by
  obtain ⟨matrix'', hm'', hverdicts⟩ := Option.map_eq_some_iff.mp
    (generateMatrix_of_perm hperm (Option.map_eq_some_iff.mpr ⟨matrix', toOption_eq_iff.mpr hm', rfl⟩))
  have htargets : matrix''.targets = matrix'.targets := congrArg Verdicts.targets hverdicts
  have hfunctions : matrix''.functions = matrix'.functions := congrArg Verdicts.functions hverdicts
  have hcounts : matrix''.counts = matrix'.counts := congrArg Verdicts.counts hverdicts
  rw [← htargets, ← hfunctions, ← hcounts]
  exact generateMatrix_older_cons hm (toOption_eq_iff.mp hm'') hrun htime hlater

end Summaries

/-- A summary of a run that produced nothing for its target. -/
def emptySummary (completedAt : String) : Doc :=
  .obj [("schema_version", .int 1), ("status", .str "incomplete"), ("started_at", .str "2026-01-01T00:00:00+00:00"),
    ("completed_at", .str completedAt), ("selected_targets", .arr [.str "t"]), ("targets", .arr []),
    ("accepted", .bool false)]

/-- A project with one target and the summaries of two runs. -/
def runsHost : Host :=
  { projectOf exampleConfigs (("/r/first.json", emptySummary "2026-01-01T01:00:00+00:00") ::
      ("/r/second.json", emptySummary "2026-01-01T02:00:00+00:00") :: manifestsOf [harnessTarget]) with
    instant := fun text =>
      if text = "2026-01-01T00:00:00+00:00" then .ok 1767225600
      else if text = "2026-01-01T01:00:00+00:00" then .ok 1767229200
      else if text = "2026-01-01T02:00:00+00:00" then .ok 1767232800
      else .error (coverageError ("invalid evidence date: " ++ text)) }

def firstSummary : PurePath := PurePath.parse "first.json"

def secondSummary : PurePath := PurePath.parse "second.json"

/-- The run of a summary selects the target and was completed at a moment. -/
def Completes (path : PurePath) (time : ℤ) (run : Run) : Prop :=
  readSummary runsHost runsHost.now path = .ok run ∧ run.selected = ["t"] ∧ run.time = some time

theorem exists_completes (path : PurePath) (time : ℤ) (h : returns (readSummary runsHost runsHost.now path)
    (fun run => decide (run.selected = ["t"] ∧ run.time = some time)) = true) : ∃ run, Completes path time run := by
  obtain ⟨run, hrun, hfields⟩ := exists_of_returns h
  exact ⟨run, hrun, of_decide_eq_true hfields⟩

/-- The first run beside the second one. -/
theorem generateMatrix_older_sample :
    ∃ matrix matrix', generateMatrix runsHost anyRoutes noEvidence [secondSummary] [] none = .ok matrix ∧
      generateMatrix runsHost anyRoutes noEvidence [secondSummary, firstSummary] [] none = .ok matrix' ∧
      matrix'.targets.map TargetRow.forget = matrix.targets.map TargetRow.forget ∧
      matrix'.functions = matrix.functions ∧ matrix'.counts = matrix.counts := by
  obtain ⟨matrix, hm, hchecked⟩ := exists_of_returns
    (x := generateMatrix runsHost anyRoutes noEvidence [secondSummary] [] none)
    (f := fun m => decide (m.checkedAt = runsHost.now)) (by decide +kernel)
  obtain ⟨matrix', hm', -⟩ := exists_of_returns
    (x := generateMatrix runsHost anyRoutes noEvidence [secondSummary, firstSummary] [] none)
    (f := fun _ => true) (by decide +kernel)
  obtain ⟨first, hfirst, hfirstSelected, hfirstTime⟩ :=
    exists_completes firstSummary 1767229200 (by decide +kernel)
  obtain ⟨second, hsecond, hsecondSelected, hsecondTime⟩ :=
    exists_completes secondSummary 1767232800 (by decide +kernel)
  rw [← of_decide_eq_true hchecked] at hfirst hsecond
  refine ⟨matrix, matrix', hm, hm', generateMatrix_older (List.Perm.swap _ _ _) hm hm' hfirst hfirstTime
    fun row _ hselected => ?_⟩
  rw [hfirstSelected, ← hsecondSelected] at hselected
  exact ⟨secondSummary, List.mem_singleton_self _, second, hsecond, hselected, 1767232800, hsecondTime, by decide⟩

/-! ## Current acceptance -/

/-- A run is the strictly latest one of a target: it has a moment of completion, and every other run that selects
the target was completed before. -/
def StrictlyLatest (runs : List Run) (name : String) (run : Run) : Prop :=
  run ∈ runs ∧ name ∈ run.selected ∧ ∃ time, run.time = some time ∧
    ∀ other ∈ runs, name ∈ other.selected → other = run ∨ ∃ time', other.time = some time' ∧ time' < time

theorem mem_relevantRuns {checked : ℤ} {runs : List Run} {name : String} {run : Run} :
    run ∈ relevantRuns checked runs name ↔ run ∈ runs ∧ name ∈ run.selected := by
  rw [relevantRuns, mem_sortBy, List.mem_filter, decide_eq_true_eq]

theorem exists_time_of_dated {run : Run} (hdated : run.undated = false) : ∃ time, run.time = some time := by
  rw [Run.undated, Option.isNone_eq_false_iff] at hdated
  exact Option.isSome_iff_exists.mp hdated

/-- **The strictly latest run is the last one, where that has a moment that it shares with no other.** -/
theorem strictlyLatest_iff {checked : ℤ} {runs : List Run} {name : String} {run : Run}
    (hnodup : (runs.map Run.path).Nodup) :
    StrictlyLatest runs name run ↔ (relevantRuns checked runs name).getLast? = some run ∧
      isAmbiguous (relevantRuns checked runs name) = false ∧ run.undated = false := by
  rw [List.getLast?_eq_head?_reverse, isAmbiguous]
  have hmem : ∀ other, other ∈ (relevantRuns checked runs name).reverse ↔ other ∈ runs ∧ name ∈ other.selected :=
    fun other => List.mem_reverse.trans mem_relevantRuns
  have hpairwise : (relevantRuns checked runs name).reverse.Pairwise fun a b => runKey checked b ≤ runKey checked a :=
    pairwise_newest (runKey checked) (runs.filter fun run => name ∈ run.selected)
  have hrunsOnce : (relevantRuns checked runs name).reverse.Nodup :=
    List.nodup_reverse.mpr ((perm_sortBy _ _).nodup_iff.mpr (hnodup.of_map.filter _))
  generalize (relevantRuns checked runs name).reverse = newest at hmem hpairwise hrunsOnce
  constructor
  · rintro ⟨hrun, hselected, time, htime, hothers⟩
    cases newest with
    | nil => exact absurd ((hmem run).mpr ⟨hrun, hselected⟩) List.not_mem_nil
    | cons last rest =>
      have hlast : last = run := by
        obtain ⟨hlastRuns, hlastSelected⟩ := (hmem last).mp List.mem_cons_self
        rcases hothers last hlastRuns hlastSelected with heq | ⟨time', htime', hlt⟩
        · exact heq
        · rcases List.mem_cons.mp ((hmem run).mpr ⟨hrun, hselected⟩) with heq | hrest
          · exact heq.symm
          · have hle := (List.pairwise_cons.mp hpairwise).1 run hrest
            exact absurd (runKey_lt_of_time htime' htime hlt) (not_lt.mpr hle)
      refine ⟨congrArg some hlast, ?_, by rw [Run.undated, htime]; rfl⟩
      cases rest with
      | nil => rfl
      | cons before rest =>
        refine decide_eq_false fun heq => ?_
        obtain ⟨hbeforeRuns, hbeforeSelected⟩ := (hmem before).mp (List.mem_cons_of_mem last List.mem_cons_self)
        rcases hothers before hbeforeRuns hbeforeSelected with rfl | ⟨time', htime', hlt⟩
        · exact (List.nodup_cons.mp hrunsOnce).1 (hlast ▸ List.mem_cons_self)
        · rw [hlast, htime, htime', Option.some.injEq] at heq
          exact absurd heq hlt.ne'
  · rintro ⟨hhead, hambiguous, hdated⟩
    obtain ⟨rest, rfl⟩ := List.head?_eq_some_iff.mp hhead
    obtain ⟨hrun, hselected⟩ := (hmem run).mp List.mem_cons_self
    obtain ⟨time, htime⟩ := exists_time_of_dated hdated
    refine ⟨hrun, hselected, time, htime, fun other hother hotherSelected => ?_⟩
    rcases List.mem_cons.mp ((hmem other).mpr ⟨hother, hotherSelected⟩) with heq | hrest
    · exact .inl heq
    · obtain ⟨hfirst, hpairwise⟩ := List.pairwise_cons.mp hpairwise
      obtain ⟨time', htime', hle⟩ := exists_time_of_runKey_le htime (hfirst other hrest)
      refine .inr ⟨time', htime', lt_of_le_of_ne hle fun heq => ?_⟩
      cases rest with
      | nil => exact List.not_mem_nil hrest
      | cons before rest =>
        -- the one behind it would stand at the same moment
        obtain ⟨s, hs, hsle⟩ := exists_time_of_runKey_le htime (hfirst before List.mem_cons_self)
        have hbefore : time' ≤ s := by
          rcases List.mem_cons.mp hrest with rfl | hrest
          · exact (Option.some.inj (htime'.symm.trans hs)).le
          · obtain ⟨s', hs', hle'⟩ := exists_time_of_runKey_le hs ((List.pairwise_cons.mp hpairwise).1 other hrest)
            exact (Option.some.inj (htime'.symm.trans hs')).le.trans hle'
        exact of_decide_eq_false hambiguous (htime.trans ((congrArg some (le_antisymm (heq ▸ hbefore) hsle)).trans hs.symm))

section Current

variable {h : Host} {routes : Routes} {retainedTarget : Dict → Run → Except Exn Dict}
  {summaryPaths profilePaths : List PurePath} {checkedAt : Option String}

/-- What makes an observation current. -/
theorem current_iff {reported undated : Bool} {stale : List Change} {binding : List String} {issue : String} :
    (reported && decide ((if undated then "unbound" else if stale ≠ [] then "stale" else if binding ≠ [] then "unbound"
      else "current") = "current")) = true ↔
      reported = true ∧ stale = [] ∧ binding ++ issueUnless (undated = false) issue = [] := by
  rw [Bool.and_eq_true, decide_eq_true_eq, List.append_eq_nil_iff, issueUnless_eq_nil_iff]
  cases undated with
  | true => simp
  | false =>
    by_cases hstale : stale = []
    · by_cases hbinding : binding = []
      · simp [hstale, hbinding]
      · simp [hstale, hbinding]
    · simp [hstale]

/-- An observation is current where the item is accepted, every recorded input is unchanged, nothing is unbound and
the run has a moment of completion. -/
theorem targetObservation_current_iff {registered : Table Dict} {revision : String} {manifests : List PurePath}
    {target record : Dict} {run : Run} {o : TargetObservation}
    (ho : targetObservation h registered revision retainedTarget manifests target record run = .ok o) :
    o.summary = run.path ∧ (o.currentAccepted = true ↔
      o.reportedAccepted = true ∧ o.staleInputs = [] ∧ o.identityIssues = []) ∧
      (o.identityIssues = [] → run.undated = false) := by
  unfold targetObservation at ho
  obtain ⟨profile, -, ho⟩ := bind_eq_ok_iff.mp ho
  obtain ⟨model, -, ho⟩ := bind_eq_ok_iff.mp ho
  obtain ⟨reported, -, ho⟩ := bind_eq_ok_iff.mp ho
  obtain ⟨evaluation, -, ho⟩ := bind_eq_ok_iff.mp ho
  obtain ⟨found, -, ho⟩ := bind_eq_ok_iff.mp ho
  obtain ⟨current, -, ho⟩ := bind_eq_ok_iff.mp ho
  obtain ⟨m, -, ho⟩ := bind_eq_ok_iff.mp ho
  obtain ⟨provenance, -, ho⟩ := bind_eq_ok_iff.mp ho
  obtain ⟨source, -, ho⟩ := bind_eq_ok_iff.mp ho
  obtain ⟨sourceMatches, -, ho⟩ := bind_eq_ok_iff.mp ho
  obtain ⟨⟨records, stale, recordIssues⟩, -, ho⟩ := bind_eq_ok_iff.mp ho
  obtain ⟨fieldIssues, -, ho⟩ := bind_eq_ok_iff.mp ho
  obtain ⟨build, -, ho⟩ := bind_eq_ok_iff.mp ho
  obtain ⟨content, -, ho⟩ := bind_eq_ok_iff.mp ho
  obtain ⟨⟨retained, acceptedIssues⟩, -, ho⟩ := bind_eq_ok_iff.mp ho
  obtain ⟨recorded, -, ho⟩ := bind_eq_ok_iff.mp ho
  obtain ⟨assumptions, -, ho⟩ := bind_eq_ok_iff.mp ho
  obtain ⟨assumptions', -, ho⟩ := bind_eq_ok_iff.mp ho
  obtain ⟨names, -, ho⟩ := bind_eq_ok_iff.mp ho
  obtain ⟨evidence, -, ho⟩ := bind_eq_ok_iff.mp ho
  obtain ⟨preconditions, -, ho⟩ := bind_eq_ok_iff.mp ho
  rw [← Except.ok.inj ho]
  exact ⟨rfl, current_iff, fun hissues => issueUnless_eq_nil_iff.mp (List.append_eq_nil_iff.mp hissues).2⟩

/-- **A target is current exactly where its strictly latest run says so**: that run accepted it, none of the inputs
that it recorded has changed, and nothing of its identity is unbound.  A run without a moment, or another one at the
same moment, is never current. -/
theorem generateMatrix_current_iff {matrix : Matrix}
    (hm : generateMatrix h routes retainedTarget summaryPaths profilePaths checkedAt = .ok matrix) :
    ∃ runs, readSummaries h matrix.checkedAt summaryPaths = .ok runs ∧ ∀ row ∈ matrix.targets,
      (row.latest.any TargetObservation.currentAccepted = true ↔
        ∃ run, StrictlyLatest runs row.id run ∧ ∃ o ∈ row.history, o.summary = run.path ∧
          o.reportedAccepted = true ∧ o.staleInputs = [] ∧ o.identityIssues = []) := by
  obtain ⟨g, rfl⟩ := generateMatrix_eq_ok_iff.mp hm
  refine ⟨g.runs, g.readSummaries, fun row hrow => ?_⟩
  obtain ⟨r, hr, rfl⟩ := List.mem_map.mp hrow
  obtain ⟨p, -, hr⟩ := exists_of_forall₂_right (mapM_eq_ok_iff.mp g.targetRows) hr
  obtain ⟨hid, hhistory, hlatest⟩ := targetRow_eq_ok_history hr
  obtain ⟨-, hnodup⟩ := readSummaries_eq_ok_iff.mp g.readSummaries
  rw [hid, hlatest, latestOf]
  cases hlast : (relevantRuns g.checked g.runs p.1).getLast? with
  | none =>
    rw [List.getLast?_eq_none_iff.mp hlast] at hhistory ⊢
    rw [← Except.ok.inj hhistory]
    simp [isAmbiguous]
  | some run =>
    obtain ⟨o, ho, hgetLast⟩ := getLast?_of_mapM hhistory hlast
    obtain ⟨hsummary, hcurrent, hdated⟩ := targetObservation_current_iff ho
    rw [hgetLast]
    constructor
    · intro haccepted
      cases hambiguous : isAmbiguous (relevantRuns g.checked g.runs p.1) with
      | true =>
        rw [hambiguous] at haccepted
        exact absurd haccepted Bool.false_ne_true
      | false =>
        rw [hambiguous] at haccepted
        obtain ⟨hreported, hstale, hissues⟩ := hcurrent.mp haccepted
        exact ⟨run, (strictlyLatest_iff hnodup).mpr ⟨hlast, hambiguous, hdated hissues⟩, o,
          List.mem_of_getLast? hgetLast, hsummary, hreported, hstale, hissues⟩
    · rintro ⟨run', hlatest', o', hmem', hsummary', hreported, hstale, hissues⟩
      obtain ⟨hlast', hambiguous, -⟩ := (strictlyLatest_iff hnodup).mp hlatest'
      obtain rfl : run = run' := Option.some.inj (hlast.symm.trans hlast')
      obtain ⟨run'', hrun'', ho''⟩ := exists_of_forall₂_right (mapM_eq_ok_iff.mp hhistory) hmem'
      have hpath : run''.path = run.path := (targetObservation_current_iff ho'').1.symm.trans hsummary'
      obtain rfl : run'' = run :=
        List.inj_on_of_nodup_map hnodup (mem_relevantRuns.mp hrun'').1 hlatest'.1 hpath
      obtain rfl : o' = o := Except.ok.inj (ho''.symm.trans ho)
      rw [hambiguous]
      exact hcurrent.mpr ⟨hreported, hstale, hissues⟩

end Current

/-- The target of the two runs is not current, since its latest run produced nothing. -/
theorem generateMatrix_current_iff_sample :
    ∃ matrix, generateMatrix runsHost anyRoutes noEvidence [firstSummary, secondSummary] [] none = .ok matrix ∧
      ∃ runs, readSummaries runsHost matrix.checkedAt [firstSummary, secondSummary] = .ok runs ∧
        ∀ row ∈ matrix.targets, (row.latest.any TargetObservation.currentAccepted = true ↔
          ∃ run, StrictlyLatest runs row.id run ∧ ∃ o ∈ row.history, o.summary = run.path ∧
            o.reportedAccepted = true ∧ o.staleInputs = [] ∧ o.identityIssues = []) := by
  obtain ⟨matrix, hm, -⟩ := exists_of_returns
    (x := generateMatrix runsHost anyRoutes noEvidence [firstSummary, secondSummary] [] none)
    (f := fun _ => true) (by decide +kernel)
  exact ⟨matrix, hm, generateMatrix_current_iff hm⟩

end Coverage
end Fragma
