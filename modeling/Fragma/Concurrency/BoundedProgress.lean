import Fragma.Python.Exn
import Fragma.Python.Product

/-!
# Bounded progress of a compare-and-swap loop

`_simulate_bounded_schedule` and `_bounded_progress_aggregate` of
`fragma/concurrency_c3_ipc_refcount.py`.  A thread increments a counter with a
compare-and-swap loop while other threads write to the counter a finite number of times,
and then no more.  A mismatch either updates the expected value to the one that was
observed, or leaves the stale one.

The manifest lists the outcomes of all schedules up to length three over four values.
Here the schedules have any length and any values.

* `turn`, `quiesce`, `simulateBoundedSchedule`: the loop, its end, and the whole run.
* `Synced`, `run_updating`: with the update, the thread expects what the counter holds,
  so that it cannot fail once the interference is over.
* `run_stale`: without the update, the thread waits for its first value.
* `boundedProgressAggregate`: the runs over all schedules of a domain.
* `boundedProgress`: **the bounds, for schedules of every length.**
-/

namespace Fragma
namespace Concurrency

open Python

/-! ## The loop -/

/-- What is noted in the trace, with the counter and the expected value at that point. -/
inductive Event where
  | initialRead (refs expected : ℤ)
  | zeroExit (refs expected : ℤ)
  | interferenceObservation (refs expected : ℤ)
  | casSuccess (refs expected : ℤ)
  | casMismatch (refs expectedBefore expectedAfter : ℤ)
  | zeroExitAfterQuiescence (refs expected : ℤ)
  | quiescentCasSuccess (refs expected : ℤ)
  | quiescentStaleExpectedCycle (refs expected : ℤ)
  deriving DecidableEq, Repr

/-- The value that an event observes. -/
def Event.observed : Event → Option ℤ
  | .initialRead refs _ => some refs
  | .interferenceObservation refs _ => some refs
  | _ => none

/-- The event is an increment of the counter. -/
def Event.Increments : Event → Prop
  | .casSuccess _ _ => True
  | .quiescentCasSuccess _ _ => True
  | _ => False

instance (e : Event) : Decidable e.Increments := by
  cases e <;> unfold Event.Increments <;> infer_instance

/-- How a run ends. -/
inductive Outcome where
  | zeroExit
  | successful
  | nonterminating
  deriving DecidableEq, Repr

/-- The local variables of the loop. -/
structure State where
  refs : ℤ
  expected : ℤ
  attempts : ℕ
  failures : ℕ
  trace : List Event
  deriving DecidableEq, Repr

namespace State

/-- `trace.append(e)`. -/
def note (s : State) (e : Event) : State := { s with trace := s.trace ++ [e] }

/-- Another thread has written `observed`, and the thread tries its swap. -/
def observe (s : State) (observed : ℤ) : State :=
  { s with
    refs := observed
    attempts := s.attempts + 1
    trace := s.trace ++ [.interferenceObservation observed s.expected] }

/-- The swap finds the expected value. -/
def swap (s : State) (increment : ℤ) : State := { s with refs := s.expected + increment }

/-- The swap finds another value. -/
def mismatch (s : State) (updateExpected : Bool) : State :=
  { s with
    failures := s.failures + 1
    expected := if updateExpected then s.refs else s.expected
    trace := s.trace ++
      [.casMismatch s.refs s.expected (if updateExpected then s.refs else s.expected)] }

end State

/-- The state before the loop. -/
def State.initial (value : ℤ) : State := ⟨value, value, 0, 0, [.initialRead value value]⟩

section Loop

variable (increment : ℤ) (updateExpected : Bool)

/-- One turn of the loop: the outcome, where the loop returns. -/
def turn (s : State) (observed : ℤ) : Option Outcome × State :=
  if s.expected = 0 then (some .zeroExit, s.note (.zeroExit s.refs s.expected))
  else
    let tried := s.observe observed
    if tried.refs = tried.expected then
      let swapped := tried.swap increment
      (some .successful, swapped.note (.casSuccess swapped.refs swapped.expected))
    else (none, tried.mismatch updateExpected)

/-- `ConcurrencyC3IpcRefcountError(message)`. -/
def refcountError (message : String) : Exn := ⟨.valueError, message⟩

/-- What follows the loop. -/
def quiesce (s : State) : Except Exn (Outcome × State) :=
  if s.expected = 0 then
    .ok (.zeroExit, s.note (.zeroExitAfterQuiescence s.refs s.expected))
  else
    let tried := { s with attempts := s.attempts + 1 }
    if tried.refs = tried.expected then
      let swapped := tried.swap increment
      .ok (.successful, swapped.note (.quiescentCasSuccess swapped.refs swapped.expected))
    else if updateExpected then
      .error (refcountError "updated expected value disagrees with quiescent counter")
    else
      let failed := { tried with failures := tried.failures + 1 }
      .ok (.nonterminating, failed.note (.quiescentStaleExpectedCycle failed.refs failed.expected))

/-- The loop and what follows it. -/
def runSchedule (s : State) : List ℤ → Except Exn (Outcome × State)
  | [] => quiesce increment updateExpected s
  | observed :: rest =>
    match turn increment updateExpected s observed with
    | (some outcome, s') => .ok (outcome, s')
    | (none, s') => runSchedule s' rest

end Loop

/-- The record of a run. -/
structure Row where
  outcome : Outcome
  initial : ℤ
  schedule : List ℤ
  casAttempts : ℕ
  casFailures : ℕ
  refs : ℤ
  expected : ℤ
  trace : List Event
  deriving DecidableEq, Repr

/-- `terminal(outcome)`. -/
def terminal (initial : ℤ) (schedule : List ℤ) (outcome : Outcome) (s : State) : Row :=
  ⟨outcome, initial, schedule, s.attempts, s.failures, s.refs, s.expected, s.trace⟩

/-- `_simulate_bounded_schedule(initial, schedule, increment=…, update_expected=…)`. -/
def simulateBoundedSchedule (initial : ℤ) (schedule : List ℤ) (increment : ℤ)
    (updateExpected : Bool) : Except Exn Row :=
  (runSchedule increment updateExpected (.initial initial) schedule).map fun p =>
    terminal initial schedule p.1 p.2

/-! ## One turn -/

variable {increment : ℤ} {updateExpected : Bool}

/-- **What a turn can do.** -/
theorem turn_cases (s : State) (observed : ℤ) :
    (s.expected = 0 ∧ turn increment updateExpected s observed =
        (some .zeroExit, s.note (.zeroExit s.refs s.expected))) ∨
      (s.expected ≠ 0 ∧ observed = s.expected ∧ turn increment updateExpected s observed =
        (some .successful, ((s.observe observed).swap increment).note
          (.casSuccess (s.expected + increment) s.expected))) ∨
      (s.expected ≠ 0 ∧ observed ≠ s.expected ∧ turn increment updateExpected s observed =
        (none, (s.observe observed).mismatch updateExpected)) := by
  unfold turn
  by_cases hzero : s.expected = 0
  · exact Or.inl ⟨hzero, if_pos hzero⟩
  · rw [if_neg hzero]
    by_cases hfound : observed = s.expected
    · exact Or.inr (Or.inl ⟨hzero, hfound, if_pos hfound⟩)
    · exact Or.inr (Or.inr ⟨hzero, hfound, if_neg hfound⟩)

/-! ## With the update -/

/-- The thread expects what the counter holds, it has failed at every attempt, it has not
incremented, and it expects zero when it has observed zero. -/
structure Synced (s : State) : Prop where
  expected : s.expected = s.refs
  failures : s.failures = s.attempts
  waiting : ∀ e ∈ s.trace, ¬ e.Increments
  zero : ∀ e ∈ s.trace, e.observed = some 0 → s.expected = 0

theorem synced_initial (value : ℤ) : Synced (.initial value) := by
  refine ⟨rfl, rfl, fun e he => ?_, fun e he hzero => ?_⟩
  · rw [List.mem_singleton.mp he]
    exact id
  · rw [List.mem_singleton.mp he] at hzero
    exact Option.some.inj hzero

/-- A mismatch keeps the invariant. -/
theorem Synced.mismatch {s : State} (hs : Synced s) (hne : s.expected ≠ 0) (observed : ℤ) :
    Synced ((s.observe observed).mismatch true) := by
  refine ⟨rfl, congrArg (· + 1) hs.failures, fun e he => ?_, fun e he hzero => ?_⟩
  · simp only [State.mismatch, State.observe, List.mem_append, List.mem_singleton] at he
    rcases he with (he | rfl) | rfl
    · exact hs.waiting e he
    · exact id
    · exact id
  · simp only [State.mismatch, State.observe, List.mem_append, List.mem_singleton] at he
    rcases he with (he | rfl) | rfl
    · exact absurd (hs.zero e he hzero) hne
    · exact Option.some.inj hzero
    · exact absurd hzero (by simp [Event.observed])

/-- How a run with the update ends, `n` values after the state `s`. -/
structure Ends (increment : ℤ) (s : State) (n : ℕ) (outcome : Outcome) (s' : State) : Prop where
  ended : outcome = .successful ∨ outcome = .zeroExit
  attempted : s'.attempts ≤ s.attempts + (n + 1)
  failed : s'.failures ≤ s.failures + n
  successful : outcome = .successful → s'.failures + 1 = s'.attempts
  zeroExit : outcome = .zeroExit → s'.failures = s'.attempts
  stored : (s'.refs = s'.expected + increment ∧ s'.expected ≠ 0) ↔ outcome = .successful
  increments : ∀ e ∈ s'.trace, e.observed = some 0 → ∀ e' ∈ s'.trace, ¬ e'.Increments

/-- A thread that expects zero leaves. -/
theorem Synced.ends_zeroExit {s : State} (hs : Synced s) (hzero : s.expected = 0) (n : ℕ)
    (e : Event) (he : ¬ e.Increments) : Ends increment s n .zeroExit (s.note e) where
  ended := Or.inr rfl
  attempted := by show s.attempts ≤ _; omega
  failed := by show s.failures ≤ _; omega
  successful := fun h => absurd h (by simp)
  zeroExit := fun _ => hs.failures
  stored := ⟨fun h => absurd hzero h.2, fun h => absurd h (by simp)⟩
  increments := by
    intro _ _ _ e' he'
    rcases List.mem_append.mp he' with he' | he'
    · exact hs.waiting e' he'
    · rwa [List.mem_singleton.mp he']

/-- A thread that finds the value it expects has observed no zero. -/
theorem Synced.ends_successful {s t : State} (hs : Synced s) (hne : s.expected ≠ 0) (n : ℕ)
    (hexpected : t.expected = s.expected) (hrefs : t.refs = s.expected + increment)
    (hattempts : t.attempts = s.attempts + 1) (hfailures : t.failures = s.failures)
    (htrace : ∀ e ∈ t.trace, e.observed = some 0 → e ∈ s.trace) :
    Ends increment s n .successful t where
  ended := Or.inl rfl
  attempted := by omega
  failed := by omega
  successful := fun _ => by rw [hattempts, hfailures, hs.failures]
  zeroExit := fun h => absurd h (by simp)
  stored := ⟨fun _ => rfl, fun _ => ⟨by rw [hrefs, hexpected], by rwa [hexpected]⟩⟩
  increments := fun e he hzero => absurd (hs.zero e (htrace e he hzero) hzero) hne

/-- **With the update, no run fails at its end.** -/
theorem run_updating {s : State} (hs : Synced s) (schedule : List ℤ) :
    ∃ outcome s', runSchedule increment true s schedule = .ok (outcome, s') ∧
      Ends increment s schedule.length outcome s' := by
  induction schedule generalizing s with
  | nil =>
    rw [runSchedule]
    unfold quiesce
    by_cases hzero : s.expected = 0
    · exact ⟨_, _, if_pos hzero, hs.ends_zeroExit hzero _ _ id⟩
    · rw [if_neg hzero, if_pos hs.expected.symm]
      refine ⟨_, _, rfl, hs.ends_successful hzero _ rfl rfl rfl rfl fun e he h => ?_⟩
      rcases List.mem_append.mp he with he | he
      · exact he
      · rw [List.mem_singleton.mp he] at h
        exact absurd h (by simp [Event.observed])
  | cons observed rest ih =>
    rw [runSchedule]
    rcases @turn_cases increment true s observed with
      ⟨hzero, hturn⟩ | ⟨hne, rfl, hturn⟩ | ⟨hne, hobserved, hturn⟩
    · rw [hturn]
      exact ⟨_, _, rfl, hs.ends_zeroExit hzero _ _ id⟩
    · rw [hturn]
      refine ⟨_, _, rfl, hs.ends_successful hne _ rfl rfl rfl rfl fun e he h => ?_⟩
      simp only [State.note, State.swap, State.observe, List.mem_append, List.mem_singleton] at he
      rcases he with (he | rfl) | rfl
      · exact he
      · exact absurd (Option.some.inj h) hne
      · exact absurd h (by simp [Event.observed])
    · rw [hturn]
      obtain ⟨outcome, s', hrun, hends⟩ := ih (hs.mismatch hne observed)
      refine ⟨outcome, s', hrun, { hends with attempted := ?_, failed := ?_ }⟩
      · have h : s'.attempts ≤ (s.attempts + 1) + (rest.length + 1) := hends.attempted
        rw [List.length_cons]
        omega
      · have h : s'.failures ≤ (s.failures + 1) + rest.length := hends.failed
        rw [List.length_cons]
        omega

/-- A schedule in which every value differs from the one before, and none is zero, makes
the thread fail at each of them. -/
theorem run_changing {s : State} {schedule : List ℤ} (hs : Synced s)
    (hchange : (s.expected :: schedule).IsChain (· ≠ ·)) (hne : s.expected ≠ 0)
    (hschedule : (0 : ℤ) ∉ schedule) :
    ∃ s', runSchedule increment true s schedule = .ok (.successful, s') ∧
      s'.attempts = s.attempts + schedule.length + 1 ∧
      s'.failures = s.failures + schedule.length := by
  induction schedule generalizing s with
  | nil =>
    rw [runSchedule]
    unfold quiesce
    rw [if_neg hne, if_pos hs.expected.symm]
    exact ⟨_, rfl, rfl, rfl⟩
  | cons observed rest ih =>
    rw [runSchedule]
    obtain ⟨hobserved, hrest⟩ := List.isChain_cons_cons.mp hchange
    have hnonzero : observed ≠ 0 := fun h => hschedule (h ▸ List.mem_cons_self)
    rcases @turn_cases increment true s observed with
      ⟨hzero, -⟩ | ⟨-, hfound, -⟩ | ⟨-, -, hturn⟩
    · exact absurd hzero hne
    · exact absurd hfound.symm hobserved
    · rw [hturn]
      obtain ⟨s', hrun, hattempts, hfailures⟩ := ih (hs.mismatch hne observed) hrest hnonzero
        fun h => hschedule (List.mem_cons_of_mem _ h)
      refine ⟨s', hrun, ?_, ?_⟩
      · rw [hattempts, List.length_cons]
        show s.attempts + 1 + rest.length + 1 = _
        omega
      · rw [hfailures, List.length_cons]
        show s.failures + 1 + rest.length = _
        omega

/-! ## Without the update -/

/-- **Without the update, the thread waits for the value that it expects.** -/
theorem run_stale {s : State} (schedule : List ℤ) (hne : s.expected ≠ 0) :
    ∃ outcome s', runSchedule increment false s schedule = .ok (outcome, s') ∧
      (outcome = .successful ∧ (s.expected ∈ schedule ∨ schedule = [] ∧ s.refs = s.expected) ∨
        outcome = .nonterminating ∧ s.expected ∉ schedule ∧
          (schedule = [] → s.refs ≠ s.expected)) := by
  induction schedule generalizing s with
  | nil =>
    rw [runSchedule]
    unfold quiesce
    rw [if_neg hne]
    by_cases hrefs : s.refs = s.expected
    · exact ⟨_, _, if_pos hrefs, Or.inl ⟨rfl, Or.inr ⟨rfl, hrefs⟩⟩⟩
    · rw [if_neg hrefs]
      exact ⟨_, _, rfl, Or.inr ⟨rfl, List.not_mem_nil, fun _ => hrefs⟩⟩
  | cons observed rest ih =>
    rw [runSchedule]
    rcases @turn_cases increment false s observed with
      ⟨hzero, -⟩ | ⟨-, rfl, hturn⟩ | ⟨-, hobserved, hturn⟩
    · exact absurd hzero hne
    · rw [hturn]
      exact ⟨_, _, rfl, Or.inl ⟨rfl, Or.inl List.mem_cons_self⟩⟩
    · rw [hturn]
      -- what the thread expects stays, and the counter holds what was observed
      have hkept : ((s.observe observed).mismatch false).expected = s.expected := rfl
      have hholds : ((s.observe observed).mismatch false).refs = observed := rfl
      obtain ⟨outcome, s', hrun, hends⟩ := ih (s := (s.observe observed).mismatch false) hne
      rw [hkept, hholds] at hends
      refine ⟨outcome, s', hrun, ?_⟩
      rcases hends with ⟨rfl, hmem | ⟨-, heq⟩⟩ | ⟨rfl, hmem, -⟩
      · exact Or.inl ⟨rfl, Or.inl (List.mem_cons_of_mem _ hmem)⟩
      · exact absurd heq hobserved
      · refine Or.inr ⟨rfl, fun h => ?_, fun h => absurd h (by simp)⟩
        rcases List.mem_cons.mp h with heq | h
        · exact hobserved heq.symm
        · exact hmem h

/-- A thread that expects zero leaves, whatever the schedule is. -/
theorem run_zero {s : State} (schedule : List ℤ) (hzero : s.expected = 0) :
    ∃ s', runSchedule increment updateExpected s schedule = .ok (.zeroExit, s') := by
  cases schedule with
  | nil => exact ⟨_, if_pos hzero⟩
  | cons observed rest =>
    rw [runSchedule, turn, if_pos hzero]
    exact ⟨_, rfl⟩

/-! ## Whole runs -/

/-- What a run with the update guarantees, for a schedule of `n` values. -/
structure Row.Updating (row : Row) (n : ℕ) (increment : ℤ) : Prop where
  ended : row.outcome = .successful ∨ row.outcome = .zeroExit
  attempts : row.casAttempts ≤ n + 1
  failures : row.casFailures ≤ n
  successful : row.outcome = .successful → row.casFailures + 1 = row.casAttempts
  zeroExit : row.outcome = .zeroExit → row.casFailures = row.casAttempts
  stored : (row.refs = row.expected + increment ∧ row.expected ≠ 0) ↔ row.outcome = .successful
  increments : ∀ e ∈ row.trace, e.observed = some 0 → ∀ e' ∈ row.trace, ¬ e'.Increments

/-- How a run without the update ends. -/
structure Row.Stale (row : Row) (initial : ℤ) (schedule : List ℤ) : Prop where
  nonterminating : row.outcome = .nonterminating ↔
    initial ≠ 0 ∧ schedule ≠ [] ∧ initial ∉ schedule
  zeroExit : row.outcome = .zeroExit ↔ initial = 0
  successful : row.outcome = .successful ↔
    initial ≠ 0 ∧ (schedule = [] ∨ initial ∈ schedule)

theorem simulate_updating (initial : ℤ) (schedule : List ℤ) (increment : ℤ) :
    ∃ row, simulateBoundedSchedule initial schedule increment true = .ok row ∧
      row.Updating schedule.length increment := by
  obtain ⟨outcome, s', hrun, hends⟩ := @run_updating increment _
    (synced_initial initial) schedule
  refine ⟨terminal initial schedule outcome s', by rw [simulateBoundedSchedule, hrun]; rfl, ?_⟩
  have hattempted : s'.attempts ≤ 0 + (schedule.length + 1) := hends.attempted
  have hfailed : s'.failures ≤ 0 + schedule.length := hends.failed
  exact ⟨hends.ended, by show s'.attempts ≤ _; omega, by show s'.failures ≤ _; omega,
    hends.successful, hends.zeroExit, hends.stored, hends.increments⟩

theorem simulate_stale (initial : ℤ) (schedule : List ℤ) (increment : ℤ) :
    ∃ row, simulateBoundedSchedule initial schedule increment false = .ok row ∧
      row.Stale initial schedule := by
  by_cases hzero : initial = 0
  · obtain ⟨s', hrun⟩ := @run_zero increment false (.initial initial)
      schedule hzero
    refine ⟨terminal initial schedule .zeroExit s', by rw [simulateBoundedSchedule, hrun]; rfl, ?_⟩
    exact ⟨⟨fun h => absurd h (by simp [terminal]), fun h => absurd hzero h.1⟩,
      ⟨fun _ => hzero, fun _ => rfl⟩,
      ⟨fun h => absurd h (by simp [terminal]), fun h => absurd hzero h.1⟩⟩
  · obtain ⟨outcome, s', hrun, hends⟩ := @run_stale increment (.initial initial)
      schedule hzero
    refine ⟨terminal initial schedule outcome s', by rw [simulateBoundedSchedule, hrun]; rfl, ?_⟩
    have hexpected : (State.initial initial).expected = initial := rfl
    have hrefs : (State.initial initial).refs = initial := rfl
    rw [hexpected, hrefs] at hends
    rcases hends with ⟨rfl, hends⟩ | ⟨rfl, hmem, hnil⟩
    · have hfound : schedule = [] ∨ initial ∈ schedule := by
        rcases hends with h | ⟨h, -⟩
        · exact Or.inr h
        · exact Or.inl h
      refine ⟨⟨fun h => absurd h (by simp [terminal]), fun h => ?_⟩,
        ⟨fun h => absurd h (by simp [terminal]), fun h => absurd h hzero⟩,
        ⟨fun _ => ⟨hzero, hfound⟩, fun _ => rfl⟩⟩
      rcases hfound with h' | h'
      · exact absurd h' h.2.1
      · exact absurd h' h.2.2
    · have hne : schedule ≠ [] := fun h => hnil h rfl
      refine ⟨⟨fun _ => ⟨hzero, hne, hmem⟩, fun _ => rfl⟩,
        ⟨fun h => absurd h (by simp [terminal]), fun h => absurd h hzero⟩,
        ⟨fun h => absurd h (by simp [terminal]), fun h => ?_⟩⟩
      rcases h.2 with h' | h'
      · exact absurd h' hne
      · exact absurd h' hmem

/-! ## All schedules of a domain -/

/-- The values and the length that a manifest declares. -/
structure Domain where
  initialValues : List ℤ
  interferenceValues : List ℤ
  maxInterferenceObservations : ℕ
  increment : ℤ

/-- The domain of the manifest. -/
def manifestDomain : Domain := ⟨[0, 1, 2, 3], [0, 1, 2, 3], 3, 1⟩

/-- The schedules of a domain, by their length. -/
def Domain.schedules (domain : Domain) : List (List ℤ) :=
  (List.range (domain.maxInterferenceObservations + 1)).flatMap fun length =>
    product domain.interferenceValues length

/-- The runs of a domain: where they start and what they observe. -/
def Domain.runs (domain : Domain) : List (ℤ × List ℤ) :=
  domain.initialValues.flatMap fun initial => domain.schedules.map fun schedule =>
    (initial, schedule)

/-- What is reported about the runs of a domain. -/
structure Aggregate where
  totalSchedules : ℕ
  successful : ℕ
  zeroExit : ℕ
  nonterminating : ℕ
  maxCasAttempts : ℕ
  maxFailures : ℕ
  maxAttemptWitness : Option Row
  nonterminatingWitness : Option Row
  deriving DecidableEq, Repr

/-- `max(values)`. -/
def maximum (values : List ℕ) : Except Exn ℕ :=
  orRaise values.max? ⟨.valueError, "max() iterable argument is empty"⟩

/-- `_bounded_progress_aggregate(domain, update_expected=…)`. -/
def boundedProgressAggregate (domain : Domain) (updateExpected : Bool) :
    Except Exn Aggregate := do
  let rows ← collect (fun run => (simulateBoundedSchedule run.1 run.2 domain.increment
    updateExpected).map fun row => [row]) domain.runs
  let maxAttempts ← maximum (rows.map Row.casAttempts)
  let maxFailures ← maximum (rows.map Row.casFailures)
  let nonterminating := rows.filter fun row => row.outcome = .nonterminating
  .ok
    { totalSchedules := rows.length
      successful := rows.countP fun row => row.outcome = .successful
      zeroExit := rows.countP fun row => row.outcome = .zeroExit
      nonterminating := nonterminating.length
      maxCasAttempts := maxAttempts
      maxFailures := maxFailures
      maxAttemptWitness := rows.find? fun row => row.casAttempts = maxAttempts
      nonterminatingWitness := nonterminating.head? }

theorem mem_schedules {domain : Domain} {schedule : List ℤ} :
    schedule ∈ domain.schedules ↔ schedule.length ≤ domain.maxInterferenceObservations ∧
      ∀ x ∈ schedule, x ∈ domain.interferenceValues := by
  rw [Domain.schedules, List.mem_flatMap]
  constructor
  · rintro ⟨length, hlength, hmem⟩
    obtain ⟨rfl, hvalues⟩ := mem_product.mp hmem
    exact ⟨Nat.lt_succ_iff.mp (List.mem_range.mp hlength), hvalues⟩
  · rintro ⟨hlength, hvalues⟩
    exact ⟨_, List.mem_range.mpr (Nat.lt_succ_iff.mpr hlength), mem_product.mpr ⟨rfl, hvalues⟩⟩

theorem mem_runs {domain : Domain} {initial : ℤ} {schedule : List ℤ} :
    (initial, schedule) ∈ domain.runs ↔
      initial ∈ domain.initialValues ∧ schedule ∈ domain.schedules := by
  simp [Domain.runs]

theorem maximum_eq_ok_iff {values : List ℕ} {n : ℕ} :
    maximum values = .ok n ↔ n ∈ values ∧ ∀ m ∈ values, m ≤ n := by
  rw [maximum, orRaise_eq_ok_iff, List.max?_eq_some_iff]

/-- The report, once every run returns and there is one. -/
theorem aggregate_eq_ok {domain : Domain} {updateExpected : Bool}
    (hrun : ∀ run ∈ domain.runs, ∃ row,
      simulateBoundedSchedule run.1 run.2 domain.increment updateExpected = .ok row)
    (hne : domain.runs ≠ []) :
    ∃ rows report, boundedProgressAggregate domain updateExpected = .ok report ∧
      List.Forall₂ (fun run row => simulateBoundedSchedule run.1 run.2 domain.increment
        updateExpected = .ok row) domain.runs rows ∧
      maximum (rows.map Row.casAttempts) = .ok report.maxCasAttempts ∧
      maximum (rows.map Row.casFailures) = .ok report.maxFailures ∧
      report.nonterminating = rows.countP fun row => row.outcome = .nonterminating := by
  obtain ⟨rows, hrows⟩ := collect_ok_of_forall (f := fun run : ℤ × List ℤ =>
    (simulateBoundedSchedule run.1 run.2 domain.increment updateExpected).map fun row => [row])
    fun run hmem => by
      obtain ⟨row, hrow⟩ := hrun run hmem
      exact ⟨[row], by rw [hrow]; rfl⟩
  have hpaired := forall₂_of_collect_map hrows
  have hmax : ∀ f : Row → ℕ, ∃ n, maximum (rows.map f) = .ok n := by
    intro f
    have hrows : rows ≠ [] := by
      rintro rfl
      exact hne (List.forall₂_nil_right_iff.mp hpaired)
    obtain ⟨n, hn⟩ := Option.isSome_iff_exists.mp
      (List.isSome_max?_of_ne_nil (l := rows.map f) (by simpa using hrows))
    exact ⟨n, orRaise_eq_ok_iff.mpr hn⟩
  obtain ⟨maxAttempts, hattempts⟩ := hmax Row.casAttempts
  obtain ⟨maxFailures, hfailures⟩ := hmax Row.casFailures
  rw [boundedProgressAggregate, hrows]
  simp only [bind, Except.bind, hattempts, hfailures]
  exact ⟨rows, _, rfl, hpaired, hattempts, hfailures, List.countP_eq_length_filter.symm⟩

/-- Two values make a schedule of any length in which every value differs from the one
before. -/
theorem exists_changing {a b : ℤ} (hab : a ≠ b) (n : ℕ) (current : ℤ) :
    ∃ schedule : List ℤ, schedule.length = n ∧ (∀ x ∈ schedule, x = a ∨ x = b) ∧
      (current :: schedule).IsChain (· ≠ ·) := by
  induction n generalizing current with
  | zero => exact ⟨[], rfl, fun x hx => absurd hx List.not_mem_nil, .singleton _⟩
  | succ n ih =>
    obtain ⟨next, hnext, hne⟩ : ∃ next, (next = a ∨ next = b) ∧ current ≠ next := by
      by_cases h : current = a
      · exact ⟨b, Or.inr rfl, fun hb => hab (h ▸ hb)⟩
      · exact ⟨a, Or.inl rfl, h⟩
    obtain ⟨schedule, hlength, hvalues, hchain⟩ := ih next
    exact ⟨next :: schedule, by rw [List.length_cons, hlength],
      List.forall_mem_cons.mpr ⟨hnext, hvalues⟩, List.isChain_cons_cons.mpr ⟨hne, hchain⟩⟩

/-- **The bounds are reached.**  With the update, a domain with two values that can
alternate reports one attempt more than its longest schedule has values. -/
theorem aggregate_updating {domain : Domain} {v a b : ℤ} (hv : v ∈ domain.initialValues)
    (hv0 : v ≠ 0) (ha : a ∈ domain.interferenceValues) (hb : b ∈ domain.interferenceValues)
    (hab : a ≠ b) (ha0 : a ≠ 0) (hb0 : b ≠ 0) :
    ∃ report, boundedProgressAggregate domain true = .ok report ∧
      report.maxCasAttempts = domain.maxInterferenceObservations + 1 ∧
      report.maxFailures = domain.maxInterferenceObservations ∧ report.nonterminating = 0 := by
  obtain ⟨schedule, hlength, hvalues, hchain⟩ :=
    exists_changing hab domain.maxInterferenceObservations v
  have hrange : ∀ x ∈ schedule, x ∈ domain.interferenceValues ∧ x ≠ 0 := by
    intro x hx
    rcases hvalues x hx with rfl | rfl
    · exact ⟨ha, ha0⟩
    · exact ⟨hb, hb0⟩
  have hmem : (v, schedule) ∈ domain.runs :=
    mem_runs.mpr ⟨hv, mem_schedules.mpr ⟨hlength.le, fun x hx => (hrange x hx).1⟩⟩
  obtain ⟨rows, report, hreport, hpaired, hattempts, hfailures, hnonterminating⟩ :=
    @aggregate_eq_ok domain true
      (fun run _ => (simulate_updating run.1 run.2 _).imp fun _ h => h.1)
      (List.ne_nil_of_mem hmem)
  -- every row keeps the bounds, and the row of the alternating schedule reaches them
  have hrows : ∀ row ∈ rows, ∃ n ≤ domain.maxInterferenceObservations,
      row.Updating n domain.increment := by
    intro row hrow
    obtain ⟨⟨initial, s⟩, hrun, hsim⟩ := exists_of_forall₂_right hpaired hrow
    obtain ⟨row', hsim', hupdating⟩ := simulate_updating initial s domain.increment
    obtain rfl : row' = row := Except.ok.inj (hsim'.symm.trans hsim)
    exact ⟨s.length, (mem_schedules.mp (mem_runs.mp hrun).2).1, hupdating⟩
  obtain ⟨row, hrow, hsim⟩ : ∃ row ∈ rows,
      simulateBoundedSchedule v schedule domain.increment true = .ok row :=
    exists_of_forall₂_right hpaired.flip hmem
  obtain ⟨s', hrun, hattempted, hfailed⟩ := @run_changing domain.increment _ _
    (synced_initial v) hchain hv0 fun h => (hrange 0 h).2 rfl
  have hreached : row.casAttempts = domain.maxInterferenceObservations + 1 ∧
      row.casFailures = domain.maxInterferenceObservations := by
    rw [simulateBoundedSchedule, hrun] at hsim
    rw [← Except.ok.inj hsim]
    exact ⟨by show s'.attempts = _; rw [hattempted, hlength]; show 0 + _ + 1 = _; omega,
      by show s'.failures = _; rw [hfailed, hlength]; show 0 + _ = _; omega⟩
  obtain ⟨hin, hmax⟩ := maximum_eq_ok_iff.mp hattempts
  obtain ⟨hin', hmax'⟩ := maximum_eq_ok_iff.mp hfailures
  refine ⟨report, hreport, le_antisymm ?_ ?_, le_antisymm ?_ ?_, ?_⟩
  · obtain ⟨r, hr, heq⟩ := List.mem_map.mp hin
    obtain ⟨n, hn, hupdating⟩ := hrows r hr
    have := hupdating.attempts
    omega
  · rw [← hreached.1]
    exact hmax _ (List.mem_map_of_mem hrow)
  · obtain ⟨r, hr, heq⟩ := List.mem_map.mp hin'
    obtain ⟨n, hn, hupdating⟩ := hrows r hr
    have := hupdating.failures
    omega
  · rw [← hreached.2]
    exact hmax' _ (List.mem_map_of_mem hrow)
  · rw [hnonterminating, List.countP_eq_zero]
    intro r hr
    obtain ⟨n, -, hupdating⟩ := hrows r hr
    rcases hupdating.ended with h | h <;> rw [h] <;> decide

/-- A run without the update that does not terminate. -/
def IsStuck (run : ℤ × List ℤ) : Prop := run.1 ≠ 0 ∧ run.2 ≠ [] ∧ run.1 ∉ run.2

instance (run : ℤ × List ℤ) : Decidable (IsStuck run) := by
  unfold IsStuck
  infer_instance

theorem countP_eq_of_forall₂ {α β : Type*} {R : α → β → Prop} {p : α → Bool} {q : β → Bool}
    (hR : ∀ a b, R a b → p a = q b) {as : List α} {bs : List β} (h : List.Forall₂ R as bs) :
    as.countP p = bs.countP q := by
  induction h with
  | nil => rfl
  | cons hab _ ih => rw [List.countP_cons, List.countP_cons, ih, hR _ _ hab]

/-- The schedules of a domain that leave a thread stuck at a first value other than
zero, by their length. -/
theorem countP_schedules (domain : Domain) {v : ℤ} (hv : v ≠ 0) :
    domain.schedules.countP (fun schedule => IsStuck (v, schedule)) =
      ((List.range domain.maxInterferenceObservations).map fun n =>
        (domain.interferenceValues.countP fun x => x ≠ v) ^ (n + 1)).sum := by
  have hlength : ∀ n, (product domain.interferenceValues (n + 1)).countP
      (fun schedule => IsStuck (v, schedule)) =
        (domain.interferenceValues.countP fun x => x ≠ v) ^ (n + 1) := by
    intro n
    rw [← countP_product]
    refine List.countP_congr fun schedule hmem => ?_
    have hne : schedule ≠ [] := fun h => by
      have := (mem_product.mp hmem).1
      rw [h] at this
      exact absurd this (by simp)
    rw [decide_eq_true_eq, List.all_eq_true]
    constructor
    · intro hstuck x hx
      exact decide_eq_true fun h => hstuck.2.2 (h ▸ hx)
    · exact fun hall => ⟨hv, hne, fun h => of_decide_eq_true (hall v h) rfl⟩
  rw [Domain.schedules, List.countP_flatMap, List.range_succ_eq_map, List.map_cons, List.sum_cons,
    List.map_map]
  have hzero : (product domain.interferenceValues 0).countP
      (fun schedule => IsStuck (v, schedule)) = 0 := by
    rw [product, List.countP_singleton, if_neg]
    rw [decide_eq_true_eq]
    exact fun h => h.2.1 rfl
  rw [Function.comp_apply, hzero, Nat.zero_add]
  exact congrArg List.sum (List.map_congr_left fun n _ => hlength n)

/-- **What a domain counts without the update.**  A run does not terminate when its first
value is not zero and its schedule is not empty and does not have that value. -/
theorem aggregate_stale {domain : Domain} (hne : domain.initialValues ≠ []) :
    ∃ report, boundedProgressAggregate domain false = .ok report ∧
      report.nonterminating = (domain.initialValues.map fun v => if v = 0 then 0 else
        ((List.range domain.maxInterferenceObservations).map fun n =>
          (domain.interferenceValues.countP fun x => x ≠ v) ^ (n + 1)).sum).sum := by
  obtain ⟨v, hv⟩ := List.exists_mem_of_ne_nil _ hne
  have hmem : (v, []) ∈ domain.runs :=
    mem_runs.mpr ⟨hv, mem_schedules.mpr ⟨Nat.zero_le _, fun x hx => absurd hx List.not_mem_nil⟩⟩
  obtain ⟨rows, report, hreport, hpaired, -, -, hnonterminating⟩ :=
    @aggregate_eq_ok domain false
      (fun run _ => (simulate_stale run.1 run.2 _).imp fun _ h => h.1) (List.ne_nil_of_mem hmem)
  refine ⟨report, hreport, ?_⟩
  have hcount : domain.runs.countP (fun run => IsStuck run) =
      rows.countP fun row => row.outcome = .nonterminating := by
    refine countP_eq_of_forall₂ (fun run row hsim => ?_) hpaired
    obtain ⟨row', hsim', hstale⟩ := simulate_stale run.1 run.2 domain.increment
    obtain rfl : row' = row := Except.ok.inj (hsim'.symm.trans hsim)
    exact decide_eq_decide.mpr hstale.nonterminating.symm
  rw [hnonterminating, ← hcount, Domain.runs, List.countP_flatMap]
  refine congrArg List.sum (List.map_congr_left fun v _ => ?_)
  rw [Function.comp_apply, List.countP_map]
  by_cases hv0 : v = 0
  · rw [if_pos hv0, List.countP_eq_zero]
    exact fun schedule _ h => (of_decide_eq_true h : IsStuck (v, schedule)).1 hv0
  · rw [if_neg hv0, ← countP_schedules domain hv0]
    rfl

example : (boundedProgressAggregate manifestDomain false).map (fun r => (r.totalSchedules,
    r.successful, r.zeroExit, r.nonterminating, r.maxCasAttempts, r.maxFailures)) =
      .ok (340, 138, 85, 117, 4, 4) := by decide +kernel

/-- **Bounded progress, for every schedule length.**  With the update no run raises or
fails to end, the attempts and failures are bounded by the length of the schedule, and
the counter is only incremented from a value other than zero.  Without the update a run
ends unless its first value never comes back.  Over all schedules of a domain the bounds
are reached. -/
theorem boundedProgress :
    (∀ (initial : ℤ) (schedule : List ℤ) (increment : ℤ),
      (∃ row, simulateBoundedSchedule initial schedule increment true = .ok row ∧
        row.Updating schedule.length increment) ∧
      ∃ row, simulateBoundedSchedule initial schedule increment false = .ok row ∧
        row.Stale initial schedule) ∧
    ∀ domain : Domain, (∃ v ∈ domain.initialValues, v ≠ 0) →
      (∃ a ∈ domain.interferenceValues, ∃ b ∈ domain.interferenceValues,
        a ≠ b ∧ a ≠ 0 ∧ b ≠ 0) →
      ∃ report, boundedProgressAggregate domain true = .ok report ∧
        report.maxCasAttempts = domain.maxInterferenceObservations + 1 ∧
        report.maxFailures = domain.maxInterferenceObservations ∧
        report.nonterminating = 0 := by
  refine ⟨fun initial schedule increment =>
    ⟨simulate_updating initial schedule increment, simulate_stale initial schedule increment⟩, ?_⟩
  rintro domain ⟨v, hv, hv0⟩ ⟨a, ha, b, hb, hab, ha0, hb0⟩
  exact aggregate_updating hv hv0 ha hb hab ha0 hb0

theorem boundedProgress_manifest :
    ∃ report, boundedProgressAggregate manifestDomain true = .ok report ∧
      report.maxCasAttempts = 4 ∧ report.maxFailures = 3 ∧ report.nonterminating = 0 :=
  boundedProgress.2 manifestDomain ⟨1, by decide, by decide⟩
    ⟨1, by decide, 2, by decide, by decide, by decide, by decide⟩

end Concurrency
end Fragma
