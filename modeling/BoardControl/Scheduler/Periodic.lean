import BoardControl.Scheduler
import BoardControl.Word

namespace BoardControl

-- What a timer task does when it comes due.
class DueHandler (σ η : Type) where
  onDue : η → Run σ η

-- A task that runs its handler at a fixed period. The next due tick is counted
-- from the last due tick, never from the moment the task was polled.
structure PeriodicTask (η : Type) where
  target : UInt32
  period : UInt32
  handler : η
deriving DecidableEq, Repr

namespace PeriodicTask

section

variable {σ η : Type}

-- A task that is first due `offset` ticks from now.
def create [TickCounter σ] (offset period : UInt32) (handler : η) : Action σ (PeriodicTask η) := do
  pure { target := (← TickCounter.count) + offset, period, handler }

-- Due again one period from now.
def restart [TickCounter σ] (task : PeriodicTask η) : Action σ (PeriodicTask η) := do
  pure { task with target := (← TickCounter.count) + task.period }

def poll [TickCounter σ] [DueHandler σ η] (task : PeriodicTask η) : Run σ (PeriodicTask η) := do
  if Ticks.hasReached (← perform TickCounter.count) task.target then
    let handler ← DueHandler.onDue task.handler
    pure { task with target := task.target + task.period, handler := handler }
  else
    pure task

-- A due tick that has already passed becomes zero, so it is due at once.
def shift (delta : UInt32) (task : PeriodicTask η) : PeriodicTask η :=
  { task with target := Word.subSaturating task.target delta }

instance [TickCounter σ] [DueHandler σ η] : Task σ (PeriodicTask η) where
  poll := poll
  rebase delta task := pure (task.shift delta)

end

end PeriodicTask

end BoardControl
