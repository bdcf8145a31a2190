import BoardControl.Task

namespace BoardControl

inductive SchedulerError where
  | TaskTableFull
  | TimerTableFull
  | UnknownTask
deriving DecidableEq, Repr

def SchedulerError.message : SchedulerError → String
  | .TaskTableFull => "task table full"
  | .TimerTableFull => "timer task table full"
  | .UnknownTask => "unknown task handle"

-- A main loop over two tables of fixed capacity. `tasks` lists the roster
-- places to poll, in order; a handle is a position in that table. `timers`
-- lists the handles whose due times move when the tick counter is restarted.
structure Scheduler where
  capacity : Nat := Settings.maxTasks
  timerCapacity : Nat := Settings.maxTimerTasks
  ceiling : UInt32 := Settings.wrapCeiling
  tasks : List Nat := []
  timers : List Nat := []
deriving DecidableEq, Repr

namespace Scheduler

-- Appends a roster place to the polling order and answers its handle.
def register (scheduler : Scheduler) (place : Nat) : Except SchedulerError Nat × Scheduler :=
  if scheduler.tasks.length < scheduler.capacity then
    (.ok scheduler.tasks.length, { scheduler with tasks := scheduler.tasks ++ [place] })
  else
    (.error .TaskTableFull, scheduler)

-- Marks a registered task as a timer task, as often as it is asked for.
def markTimer (scheduler : Scheduler) (handle : Nat) : Except SchedulerError Unit × Scheduler :=
  if scheduler.tasks.length ≤ handle then
    (.error .UnknownTask, scheduler)
  else if scheduler.timers.length < scheduler.timerCapacity then
    (.ok (), { scheduler with timers := scheduler.timers ++ [handle] })
  else
    (.error .TimerTableFull, scheduler)

-- Registers a task and then marks it. A task whose mark finds no room stays in
-- the polling order.
def registerTimer (scheduler : Scheduler) (place : Nat) :
    Except SchedulerError Nat × Scheduler :=
  match scheduler.register place with
  | (.error failure, scheduler) => (.error failure, scheduler)
  | (.ok handle, scheduler) =>
      match scheduler.markTimer handle with
      | (.error failure, scheduler) => (.error failure, scheduler)
      | (.ok (), scheduler) => (.ok handle, scheduler)

section

variable {σ τ : Type} [Task σ τ]

-- Tells the marked tasks, in table order, how far the counter had come.
def shiftTimers (tasks : List Nat) (delta : UInt32) : List Nat → Run (Roster σ τ) Unit
  | [] => pure ()
  | handle :: rest => do
      match tasks[handle]? with
      | none => throw .OutOfRange
      | some place => Roster.onTask place (Task.rebase delta)
      shiftTimers tasks delta rest

def pollAll : List Nat → Run (Roster σ τ) Unit
  | [] => pure ()
  | place :: rest => do
      Roster.onTask place Task.poll
      pollAll rest

-- One pass: the tick counter is restarted once it has come to the ceiling,
-- every task is polled in order, and the application's own work comes last.
def pass [TickCounter σ] (scheduler : Scheduler) (hook : Run (Roster σ τ) Unit) :
    Run (Roster σ τ) Unit := do
  let now ← Roster.onBoard (perform TickCounter.count)
  if scheduler.ceiling ≤ now then
    Roster.onBoard (perform TickCounter.restart)
    shiftTimers scheduler.tasks now scheduler.timers
  pollAll scheduler.tasks
  hook

def passes [TickCounter σ] (scheduler : Scheduler) (hook : Run (Roster σ τ) Unit) :
    Nat → Run (Roster σ τ) Unit
  | 0 => pure ()
  | count + 1 => do
      scheduler.pass hook
      scheduler.passes hook count

end

end Scheduler

end BoardControl
