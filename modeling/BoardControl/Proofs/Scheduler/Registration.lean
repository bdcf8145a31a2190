import BoardControl.Proofs.Scheduler.Tables

namespace BoardControl.Scheduler

open Run

-- A request for an entry in one of the tables, or in both.
inductive Registration (count : Nat) where
  | Register (place : Fin count)
  | MarkTimer (handle : Nat)
  | RegisterTimer (place : Fin count)
deriving DecidableEq, Repr

section

variable {count : Nat}

def Registration.request : Registration count → Request count
  | .Register place => .Register place
  | .MarkTimer handle => .MarkTimer handle
  | .RegisterTimer place => .RegisterTimer place

-- The handle of the task that was registered or marked, and the tables.
def enroll (scheduler : Scheduler) : Registration count → Except SchedulerError Nat × Scheduler
  | .Register place => scheduler.register place
  | .MarkTimer handle =>
      let (answer, scheduler) := scheduler.markTimer handle
      (answer.map fun _ => handle, scheduler)
  | .RegisterTimer place => scheduler.registerTimer place

-- What stands in the way of a registration. A handle is no more than a position in
-- the polling order, so one of another scheduler is unknown only behind its end.
def obstacle (scheduler : Scheduler) : Registration count → Option SchedulerError
  | .Register _ =>
      if scheduler.capacity ≤ scheduler.tasks.length then some .TaskTableFull else none
  | .MarkTimer handle =>
      if scheduler.tasks.length ≤ handle then some .UnknownTask
      else if scheduler.timerCapacity ≤ scheduler.timers.length then some .TimerTableFull
      else none
  | .RegisterTimer _ =>
      if scheduler.capacity ≤ scheduler.tasks.length then some .TaskTableFull
      else if scheduler.timerCapacity ≤ scheduler.timers.length then some .TimerTableFull
      else none

-- The handle and the entries that are asked for.

def handleOf (scheduler : Scheduler) : Registration count → Nat
  | .Register _ | .RegisterTimer _ => scheduler.tasks.length
  | .MarkTimer handle => handle

def granted (scheduler : Scheduler) : Registration count → Scheduler
  | .Register place => { scheduler with tasks := scheduler.tasks ++ [place.val] }
  | .MarkTimer handle => { scheduler with timers := scheduler.timers ++ [handle] }
  | .RegisterTimer place =>
      { scheduler with
        tasks := scheduler.tasks ++ [place.val]
        timers := scheduler.timers ++ [scheduler.tasks.length] }

-- There is room for a timer task, and none for its mark.
def MarkMissing (scheduler : Scheduler) : Registration count → Prop
  | .RegisterTimer _ =>
      scheduler.tasks.length < scheduler.capacity ∧
        scheduler.timerCapacity ≤ scheduler.timers.length
  | .Register _ | .MarkTimer _ => False

theorem register_of_room {scheduler : Scheduler} (place : Nat)
    (hroom : scheduler.tasks.length < scheduler.capacity) :
    scheduler.register place =
      (.ok scheduler.tasks.length, { scheduler with tasks := scheduler.tasks ++ [place] }) :=
  if_pos hroom

theorem register_of_full {scheduler : Scheduler} (place : Nat)
    (hfull : scheduler.capacity ≤ scheduler.tasks.length) :
    scheduler.register place = (.error .TaskTableFull, scheduler) :=
  if_neg (Nat.not_lt.mpr hfull)

theorem markTimer_of_unknown {scheduler : Scheduler} {handle : Nat}
    (hunknown : scheduler.tasks.length ≤ handle) :
    scheduler.markTimer handle = (.error .UnknownTask, scheduler) :=
  if_pos hunknown

theorem markTimer_of_room {scheduler : Scheduler} {handle : Nat}
    (hknown : handle < scheduler.tasks.length)
    (hroom : scheduler.timers.length < scheduler.timerCapacity) :
    scheduler.markTimer handle =
      (.ok (), { scheduler with timers := scheduler.timers ++ [handle] }) := by
  rw [markTimer, if_neg (Nat.not_le.mpr hknown), if_pos hroom]

theorem markTimer_of_full {scheduler : Scheduler} {handle : Nat}
    (hknown : handle < scheduler.tasks.length)
    (hfull : scheduler.timerCapacity ≤ scheduler.timers.length) :
    scheduler.markTimer handle = (.error .TimerTableFull, scheduler) := by
  rw [markTimer, if_neg (Nat.not_le.mpr hknown), if_neg (Nat.not_lt.mpr hfull)]

-- The task is registered before the room for its mark is looked at.
theorem registerTimer_eq {scheduler : Scheduler} {place : Nat}
    (hroom : scheduler.tasks.length < scheduler.capacity) :
    scheduler.registerTimer place =
      if scheduler.timers.length < scheduler.timerCapacity then
        (.ok scheduler.tasks.length,
          { scheduler with
            tasks := scheduler.tasks ++ [place]
            timers := scheduler.timers ++ [scheduler.tasks.length] })
      else (.error .TimerTableFull, (scheduler.register place).2) := by
  let registered : Scheduler := { scheduler with tasks := scheduler.tasks ++ [place] }
  have hlast : scheduler.tasks.length < registered.tasks.length := by
    change scheduler.tasks.length < (scheduler.tasks ++ [place]).length
    rw [List.length_append]
    exact Nat.lt_succ_self _
  have hregister : scheduler.register place = (.ok scheduler.tasks.length, registered) :=
    register_of_room place hroom
  rw [registerTimer, hregister]
  by_cases htimer : scheduler.timers.length < scheduler.timerCapacity
  · simp only [if_pos htimer, markTimer_of_room hlast htimer]
    rfl
  · simp only [if_neg htimer, markTimer_of_full hlast (Nat.not_lt.mp htimer)]

-- The three ways in which a registration comes out: it is carried out, it is refused
-- and nothing is changed, or a timer task is registered and refused all the same.
inductive Enrolls (scheduler : Scheduler) :
    Registration count → Option SchedulerError → Except SchedulerError Nat × Scheduler → Prop
  | granted (registration : Registration count) :
      Enrolls scheduler registration none
        (.ok (scheduler.handleOf registration), scheduler.granted registration)
  | refused (registration : Registration count) (failure : SchedulerError)
      (hwhole : ¬ scheduler.MarkMissing registration) :
      Enrolls scheduler registration (some failure) (.error failure, scheduler)
  | halved (place : Fin count)
      (hmissing : scheduler.MarkMissing (.RegisterTimer place)) :
      Enrolls scheduler (.RegisterTimer place) (some .TimerTableFull)
        (.error .TimerTableFull, (scheduler.register place).2)

theorem enroll_enrolls (scheduler : Scheduler) (registration : Registration count) :
    Enrolls scheduler registration (scheduler.obstacle registration)
      (scheduler.enroll registration) := by
  cases registration with
  | Register place =>
      rw [obstacle, enroll]
      split
      · rename_i hfull
        rw [register_of_full _ hfull]
        exact .refused _ _ fun hmissing => hmissing
      · rename_i hroom
        rw [register_of_room _ (Nat.not_le.mp hroom)]
        exact .granted (.Register place)
  | MarkTimer handle =>
      rw [obstacle, enroll]
      split
      · rename_i hunknown
        rw [markTimer_of_unknown hunknown]
        exact .refused _ _ fun hmissing => hmissing
      · rename_i hknown
        split
        · rename_i hfull
          rw [markTimer_of_full (Nat.not_le.mp hknown) hfull]
          exact .refused _ _ fun hmissing => hmissing
        · rename_i hroom
          rw [markTimer_of_room (Nat.not_le.mp hknown) (Nat.not_le.mp hroom)]
          exact .granted (.MarkTimer handle)
  | RegisterTimer place =>
      rw [obstacle, enroll]
      split
      · rename_i hfull
        rw [registerTimer, register_of_full _ hfull]
        exact .refused _ _ fun hmissing => absurd hmissing.1 (Nat.not_lt.mpr hfull)
      · rename_i hroom
        have hroom := Nat.not_le.mp hroom
        rw [registerTimer_eq hroom]
        split
        · rename_i hfull
          rw [if_neg (Nat.not_lt.mpr hfull)]
          exact .halved place ⟨hroom, hfull⟩
        · rename_i htimer
          rw [if_pos (Nat.not_le.mp htimer)]
          exact .granted (.RegisterTimer place)

variable {scheduler : Scheduler} {registration : Registration count} {failure : SchedulerError}

theorem enroll_of_clear (h : scheduler.obstacle registration = none) :
    scheduler.enroll registration =
      (.ok (scheduler.handleOf registration), scheduler.granted registration) := by
  have henrolls := enroll_enrolls scheduler registration
  rw [h] at henrolls
  generalize scheduler.enroll registration = result at henrolls ⊢
  cases henrolls
  rfl

theorem answer_of_obstacle (h : scheduler.obstacle registration = some failure) :
    (scheduler.enroll registration).1 = .error failure := by
  have henrolls := enroll_enrolls scheduler registration
  rw [h] at henrolls
  generalize scheduler.enroll registration = result at henrolls ⊢
  cases henrolls with
  | refused => rfl
  | halved => rfl

theorem enroll_of_refused (h : scheduler.obstacle registration = some failure)
    (hwhole : ¬ scheduler.MarkMissing registration) :
    scheduler.enroll registration = (.error failure, scheduler) := by
  have henrolls := enroll_enrolls scheduler registration
  rw [h] at henrolls
  generalize scheduler.enroll registration = result at henrolls ⊢
  cases henrolls with
  | refused => rfl
  | halved place hmissing => exact absurd hmissing hwhole

theorem enroll_of_markMissing {place : Fin count}
    (h : scheduler.MarkMissing (.RegisterTimer place)) :
    scheduler.obstacle (.RegisterTimer place) = some .TimerTableFull ∧
      scheduler.enroll (.RegisterTimer place) =
        (.error .TimerTableFull, (scheduler.register place).2) := by
  have hobstacle : scheduler.obstacle (.RegisterTimer place) = some .TimerTableFull := by
    rw [obstacle, if_neg (Nat.not_le.mpr h.1), if_pos h.2]
  have henrolls := enroll_enrolls scheduler (.RegisterTimer place)
  rw [hobstacle] at henrolls
  refine ⟨hobstacle, ?_⟩
  generalize scheduler.enroll (.RegisterTimer place) = result at henrolls ⊢
  cases henrolls with
  | refused _ _ hwhole => exact absurd h hwhole
  | halved => rfl

end

section

variable {σ τ : Type} [TickCounter σ] [Task σ τ] {scheduler : Scheduler}

theorem answerAll_registration {count : Nat} (scheduler : Scheduler)
    (work : Run (Roster σ τ) Unit) (registration : Registration count)
    (later : List (Request count)) :
    answerAll work (registration.request :: later) scheduler =
      answerAll work later (scheduler.enroll registration).2 := by
  cases registration with
  | Register place => rfl
  | MarkTimer handle => rfl
  | RegisterTimer place => rfl

omit [TickCounter σ] in
-- The handles of earlier tasks go on to name them.
theorem shiftTimers_snoc {tasks timers : List Nat}
    (hhandles : ∀ handle ∈ timers, handle < tasks.length) (place : Nat) (delta : UInt32) :
    shiftTimers (σ := σ) (τ := τ) (tasks ++ [place]) delta timers =
      shiftTimers tasks delta timers := by
  induction timers with
  | nil => rfl
  | cons handle rest ih =>
      have hknown := hhandles handle List.mem_cons_self
      rw [shiftTimers, shiftTimers, List.getElem?_append_left hknown,
        ih fun other hmem => hhandles other (List.mem_cons_of_mem handle hmem)]

-- A task that is registered is polled after all the others, and no restart is told to it.
theorem pass_registered {place : Nat} (hroom : scheduler.tasks.length < scheduler.capacity)
    (hhandles : ∀ handle ∈ scheduler.timers, handle < scheduler.tasks.length)
    (work : Run (Roster σ τ) Unit) :
    (scheduler.register place).2.pass work = scheduler.pass (do
      Roster.onTask place Task.poll
      work) := by
  rw [register_of_room place hroom, pass, pass]
  simp only [shiftTimers_snoc hhandles, pollAll_append, pollAll, bind_assoc, pure_bind]

theorem passes_registered {place : Nat} (hroom : scheduler.tasks.length < scheduler.capacity)
    (hhandles : ∀ handle ∈ scheduler.timers, handle < scheduler.tasks.length)
    (work : Run (Roster σ τ) Unit) (count : Nat) :
    (scheduler.register place).2.passes work count = scheduler.passes (do
      Roster.onTask place Task.poll
      work) count := by
  induction count with
  | zero => rfl
  | succ count ih => rw [passes, passes, pass_registered hroom hhandles, ih]

-- Whatever was registered before and however many passes there were, a registration
-- that cannot be carried out is answered by its error, and all that is asked later is
-- answered as if it had not been made. Only a timer task whose mark finds no room is
-- registered all the same, without the mark: from then on every pass polls it after
-- the others and does for the rest what it would have done.
theorem refused_registration_has_no_effect (capacity timerCapacity : Nat) (ceiling : UInt32)
    (tasks : List τ) (board : σ) (hook : Run σ Unit) (earlier : List (Request tasks.length))
    {begun : Roster σ τ}
    (hreached : answerAll (Roster.onBoard hook) earlier { capacity, timerCapacity, ceiling }
      { board, tasks } = .ok scheduler begun)
    (registration : Registration tasks.length) :
    let work : Run (Roster σ τ) Unit := Roster.onBoard hook
    let enrolled := scheduler.enroll registration
    (scheduler.obstacle registration = none →
      enrolled = (.ok (scheduler.handleOf registration), scheduler.granted registration)) ∧
    (∀ failure, scheduler.obstacle registration = some failure →
      enrolled.1 = .error failure ∧
      (¬ scheduler.MarkMissing registration →
        enrolled.2 = scheduler ∧
        ∀ later, answerAll work (registration.request :: later) scheduler =
          answerAll work later scheduler)) ∧
    ∀ place, registration = .RegisterTimer place → scheduler.MarkMissing registration →
      scheduler.obstacle registration = some .TimerTableFull ∧
      (∀ later, answerAll work (registration.request :: later) scheduler =
        answerAll work (.Register place :: later) scheduler) ∧
      ∀ count, enrolled.2.passes work count = scheduler.passes (do
        Roster.onTask place Task.poll
        work) count := by
  intro work enrolled
  obtain ⟨hfilled, _⟩ :=
    (answerAll_filled hook earlier (.start capacity timerCapacity ceiling _) rfl).of_eq_ok hreached
  have hlater := answerAll_registration scheduler work registration
  refine ⟨enroll_of_clear, ?_, ?_⟩
  · intro failure hobstacle
    refine ⟨answer_of_obstacle hobstacle, ?_⟩
    intro hwhole
    have hrefused := enroll_of_refused hobstacle hwhole
    refine ⟨congrArg Prod.snd hrefused, fun later => ?_⟩
    rw [hlater, hrefused]
  · rintro place rfl hmissing
    obtain ⟨hobstacle, hhalved⟩ := enroll_of_markMissing hmissing
    refine ⟨hobstacle, fun later => ?_, fun count => ?_⟩
    · rw [hlater, hhalved]
      rfl
    · change (scheduler.enroll (.RegisterTimer place)).2.passes work count = _
      rw [hhalved]
      exact passes_registered hmissing.1 hfilled.handles work count

end

section

open Bench

-- Two tasks, a table with room for both, and a timer table with room for one.
def desk : Roster Board BenchTask where
  board := {}
  tasks := [.Recorder "a" 0, .Recorder "b" 0]

def filled : Scheduler :=
  { capacity := 4, timerCapacity := 1, ceiling := 60000, tasks := [0], timers := [0] }

-- A mark that finds no room, and a timer task that is registered without one.
theorem refused_registration_has_no_effect_table_full :
    let work : Run (Roster Board BenchTask) Unit := Roster.onBoard (pure ())
    let tables : Scheduler := { capacity := 4, timerCapacity := 1, ceiling := 60000 }
    let again : Registration desk.tasks.length := .MarkTimer 0
    let second : Registration desk.tasks.length := .RegisterTimer ⟨1, by decide⟩
    answerAll work [.RegisterTimer (⟨0, by decide⟩ : Fin desk.tasks.length)] tables desk =
        .ok filled desk ∧
    filled.obstacle again = some .TimerTableFull ∧ ¬ filled.MarkMissing again ∧
    filled.enroll again = (.error .TimerTableFull, filled) ∧
    filled.MarkMissing second ∧
    ∀ count, (filled.enroll second).2.passes work count = filled.passes (do
      Roster.onTask 1 Task.poll
      work) count := by
  intro work tables again second
  have hreached : answerAll work [.RegisterTimer (⟨0, by decide⟩ : Fin desk.tasks.length)] tables
      desk = .ok filled desk := rfl
  have hobstacle : filled.obstacle again = some .TimerTableFull := by decide
  have hmissing : filled.MarkMissing second := by
    change 1 < 4 ∧ 1 ≤ 1
    decide
  obtain ⟨_, hrefused, _⟩ :=
    refused_registration_has_no_effect 4 1 60000 desk.tasks desk.board (pure ()) _ hreached again
  obtain ⟨_, _, hhalved⟩ :=
    refused_registration_has_no_effect 4 1 60000 desk.tasks desk.board (pure ()) _ hreached second
  obtain ⟨hanswer, heffect⟩ := hrefused _ hobstacle
  refine ⟨hreached, hobstacle, id, Prod.ext hanswer (heffect id).1, hmissing, ?_⟩
  exact (hhalved _ rfl hmissing).2.2

-- A timer task that was turned down is polled like the one that was not.
theorem refused_timer_task_polled :
    let second : Registration desk.tasks.length := .RegisterTimer ⟨1, by decide⟩
    let work : Run (Roster Board BenchTask) Unit := Roster.onBoard (pure ())
    filled.obstacle second = some .TimerTableFull ∧
      (filled.enroll second).1 = .error .TimerTableFull ∧
      (filled.enroll second).2 ≠ filled ∧
      (final (filled.pass work) desk).board.events = #[.Polled "a" 0] ∧
      (final ((filled.enroll second).2.pass work) desk).board.events =
        #[.Polled "a" 0, .Polled "b" 0] := by
  decide +kernel

end

end BoardControl.Scheduler
