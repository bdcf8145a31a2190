import BoardControl.Proofs.Mirrors
import BoardControl.Ticks

namespace BoardControl

-- Any board with what happens on it written down, oldest first. The board cannot
-- see that, so its answers stay what they were.
structure Recorded (σ ε : Type) where
  board : σ
  events : List ε := []
deriving DecidableEq, Repr

-- What a kind of event keeps of a tick counter.
class TickEvents (ε : Type) where
  counted : UInt32 → List ε := fun _ => []
  slept : UInt32 → List ε := fun _ => []
  restarted : List ε := []

namespace Recorded

variable {σ ε α : Type}

-- What the board does, with the events that its answer makes.
def noting (events : α → List ε) (act : Action σ α) : Action (Recorded σ ε) α := fun recorded =>
  let (value, board) := act recorded.board
  (value, { board, events := recorded.events ++ events value })

-- A run that stops leaves its event as well.
def notingRun (event : ε) (run : Run σ α) : Run (Recorded σ ε) α := fun recorded =>
  let events := recorded.events ++ [event]
  match run recorded.board with
  | .ok value board => .ok value { board, events }
  | .error fault board => .error fault { board, events }

instance [TickEvents ε] [TickCounter σ] : TickCounter (Recorded σ ε) where
  count := noting TickEvents.counted TickCounter.count
  sleep ticks := noting (fun _ => TickEvents.slept ticks) (TickCounter.sleep ticks)
  restart := noting (fun _ => TickEvents.restarted) TickCounter.restart

instance [Logger σ] : Logger (Recorded σ ε) where
  enabled severity recorded := Logger.enabled severity recorded.board
  record severity text recorded :=
    { recorded with board := Logger.record severity text recorded.board }

-- What events are kept beside does what it would do without them.

theorem noting_mirrors (events : α → List ε) (act : Action σ α) :
    Mirrors board id (noting events act) act :=
  fun _ => rfl

theorem notingRun_mirrors (event : ε) (run : Run σ α) :
    RunMirrors board id (notingRun event run) run := by
  intro recorded
  simp only [notingRun]
  cases run recorded.board with
  | ok value after => rfl
  | error fault after => rfl

theorem notingRun_ok {event : ε} {run : Run σ α} {recorded : Recorded σ ε} {value : α} {after : σ}
    (hrun : run recorded.board = .ok value after) :
    notingRun event run recorded =
      .ok value { board := after, events := recorded.events ++ [event] } := by
  simp only [notingRun, hrun]

-- A run that stops has been written down all the same.
theorem events_notingRun (event : ε) (run : Run σ α) (recorded : Recorded σ ε) :
    Run.Leaves (notingRun event run) recorded
      (fun _ after => after.events = recorded.events ++ [event])
      fun after => after.events = recorded.events ++ [event] := by
  simp only [Run.Leaves, notingRun]
  cases run recorded.board with
  | ok value after => rfl
  | error fault after => rfl

theorem log_recorded [Logger σ] (severity : Severity) (text : String) (recorded : Recorded σ ε) :
    log severity text recorded =
      ((), { recorded with board := (log severity text recorded.board).2 }) := by
  simp only [log, Logger.enabled, Logger.record]
  split
  · rfl
  · rfl

theorem log_mirrors [Logger σ] (severity : Severity) (text : String) :
    Mirrors board id (log severity text : Action (Recorded σ ε) Unit) (log severity text) := by
  intro recorded
  rw [log_recorded]
  rfl

@[simp] theorem events_log [Logger σ] (severity : Severity) (text : String)
    (recorded : Recorded σ ε) : (log severity text recorded).2.events = recorded.events := by
  rw [log_recorded]

end Recorded

end BoardControl
