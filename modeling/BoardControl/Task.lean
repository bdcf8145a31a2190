import BoardControl.Supervisor

namespace BoardControl

-- A unit of work that is polled once per pass. It hands back the task as it is
-- afterwards. `rebase` tells a timer task that the tick counter was
-- restarted after counting that many ticks.
class Task (σ τ : Type) where
  poll : τ → Run σ τ
  rebase : UInt32 → τ → Run σ τ := fun _ => pure

instance {σ ρ κ η : Type} [TickCounter σ] [Logger σ] [Rail σ ρ] [Reset σ κ] [Hooks σ η] :
    Task σ (Supervisor ρ κ η) where
  poll := Supervisor.poll

-- A board together with the tasks that live on it. A place in the list names a
-- task for good, so a table of tasks can name the same one several times.
structure Roster (σ τ : Type) where
  board : σ
  tasks : List τ

namespace Roster

variable {σ τ α : Type}

def onBoard (act : Run σ α) : Run (Roster σ τ) α := fun roster =>
  match act roster.board with
  | .ok value board => .ok value { roster with board := board }
  | .error fault board => .error fault { roster with board := board }

-- Runs the task at a place, which has to be there.
def onTask (place : Nat) (act : τ → Run σ τ) : Run (Roster σ τ) Unit := fun roster =>
  match roster.tasks[place]? with
  | none => .error .OutOfRange roster
  | some task =>
      match act task roster.board with
      | .ok task board => .ok () { board := board, tasks := roster.tasks.set place task }
      | .error fault board => .error fault { roster with board := board }

end Roster

end BoardControl
