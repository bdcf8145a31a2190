import BoardControl.Proofs.Recorded
import BoardControl.Proofs.Scheduler.Seat

namespace BoardControl.Scheduler

open Run
open Supervisor (Numbered numbered parts)

-- What a timer task does in one poll: the counts that it reads and how often it
-- calls its handler.
structure Heard where
  counts : List UInt32 := []
  calls : Nat := 0
deriving DecidableEq, Repr

-- What a scheduler does, oldest first. Tasks go by their roster places. `Stopped`
-- follows a task or an application hook that did not come back.
inductive Entry where
  | Counted (now : UInt32)
  | Restarted
  | Rebased (place : Nat) (delta : UInt32)
  | Polled (place : Nat) (heard : Option Heard)
  | Hooked
  | Stopped
deriving DecidableEq, Repr

-- Any board as one timer task uses it.
structure Listening (σ : Type) where
  board : σ
  heard : Heard := {}

-- A board with a journal of what the scheduler on it does. Tasks use the board
-- itself and leave no entries of their own.
abbrev Journaled (σ : Type) := Recorded σ Entry

instance : TickEvents Entry where
  counted now := [.Counted now]
  restarted := [.Restarted]

@[simp] theorem counted_entry (now : UInt32) :
    TickEvents.counted now = [Entry.Counted now] := rfl

@[simp] theorem restarted_entry : TickEvents.restarted = [Entry.Restarted] := rfl

section

variable {σ α : Type}

instance [TickCounter σ] : TickCounter (Listening σ) where
  count listening :=
    let (now, board) := TickCounter.count listening.board
    let heard := { listening.heard with counts := listening.heard.counts ++ [now] }
    (now, { board, heard })
  sleep ticks listening :=
    ((), { listening with board := (TickCounter.sleep ticks listening.board).2 })
  restart listening := ((), { listening with board := (TickCounter.restart listening.board).2 })

instance {ζ : Type} [DueHandler σ ζ] : DueHandler (Listening σ) ζ where
  onDue handler listening :=
    let heard := { listening.heard with calls := listening.heard.calls + 1 }
    match DueHandler.onDue handler listening.board with
    | .ok handler board => .ok handler { board, heard }
    | .error fault board => .error fault { board, heard }

namespace Journaled

-- An entry, and then what the board does.
def during (entry : Entry) (run : Run σ α) : Run (Journaled σ) α := fun journal =>
  match run journal.board with
  | .ok value board => .ok value { board, events := journal.events ++ [entry] }
  | .error fault board => .error fault { board, events := journal.events ++ [entry, .Stopped] }

-- An entry of what was heard while the board was used.
def listened (entry : Heard → Entry) (run : Run (Listening σ) α) : Run (Journaled σ) α :=
  fun journal =>
    match run { board := journal.board } with
    | .ok value after =>
        .ok value { board := after.board, events := journal.events ++ [entry after.heard] }
    | .error fault after =>
        .error fault
          { board := after.board, events := journal.events ++ [entry after.heard, .Stopped] }

end Journaled

end

open Journaled

-- Timer tasks are listened to, and of all others only their turns are noted.
instance {σ ζ ν : Type} [TickCounter σ] [DueHandler σ ζ] [Task σ ν] :
    Task (Journaled σ) (Numbered (PeriodicTask ζ ⊕ ν)) where
  poll task := do
    let part ← eachSide (fun timer => listened (.Polled task.place <| some ·) (Task.poll timer))
      (fun other => during (.Polled task.place none) (Task.poll other)) task.part
    pure { task with part }
  rebase delta task := do
    let part ← during (.Rebased task.place delta) (Task.rebase delta task.part)
    pure { task with part }

-- The same tasks on the same board, with an empty journal.
def journaled {σ τ : Type} (roster : Roster σ τ) : Roster (Journaled σ) (Numbered τ) :=
  { board := { board := roster.board }, tasks := numbered roster.tasks }

def unjournaled {σ τ : Type} (roster : Roster (Journaled σ) (Numbered τ)) : Roster σ τ :=
  { board := roster.board.board, tasks := parts roster.tasks }

-- A journal changes nothing for the tasks and the board.
section

variable {σ τ α : Type}

theorem unjournaled_journaled (roster : Roster σ τ) : unjournaled (journaled roster) = roster := by
  simp [unjournaled, journaled]

theorem during_mirrors (entry : Entry) (run : Run σ α) :
    RunMirrors Recorded.board id (during entry run) run := by
  intro journal
  simp only [during]
  cases run journal.board <;> rfl

theorem listened_mirrors (entry : Heard → Entry) {run : Run (Listening σ) α} {bare : Run σ α}
    (h : RunMirrors Listening.board id run bare) :
    RunMirrors Recorded.board id (listened entry run) bare := by
  intro journal
  have hlistened := h { board := journal.board }
  simp only at hlistened
  simp only [listened]
  rw [hlistened]
  cases run { board := journal.board } <;> rfl

theorem onBoard_mirrors {run : Run (Journaled σ) α} {bare : Run σ α}
    (h : RunMirrors Recorded.board id run bare) :
    RunMirrors unjournaled id (Roster.onBoard (τ := Numbered τ) run) (Roster.onBoard bare) := by
  intro roster
  have hrun := h roster.board
  simp only [Roster.onBoard, unjournaled]
  rw [hrun]
  cases run roster.board <;> rfl

theorem onTask_mirrors {act : Numbered τ → Run (Journaled σ) (Numbered τ)} {bare : τ → Run σ τ}
    (h : ∀ task, RunMirrors Recorded.board Numbered.part (act task) (bare task.part))
    (place : Nat) :
    RunMirrors unjournaled id (Roster.onTask place act) (Roster.onTask place bare) := by
  intro roster
  simp only [Roster.onTask, unjournaled, parts, List.getElem?_map]
  cases roster.tasks[place]? with
  | none => rfl
  | some task =>
      have hrun := h task roster.board
      simp only [Option.map_some]
      rw [hrun]
      cases act task roster.board with
      | ok next after => simp [List.map_set]
      | error fault after => rfl

variable {ζ ν : Type} [TickCounter σ] [DueHandler σ ζ] [Task σ ν]

theorem listened_poll_mirrors (timer : PeriodicTask ζ) :
    RunMirrors (Listening.board (σ := σ)) id (Task.poll timer) (Task.poll timer) := by
  have hcount : Mirrors (Listening.board (σ := σ)) id TickCounter.count TickCounter.count :=
    fun _ => rfl
  have hcall : RunMirrors (Listening.board (σ := σ)) id (DueHandler.onDue timer.handler)
      (DueHandler.onDue timer.handler) := by
    intro listening
    simp only [DueHandler.onDue]
    cases DueHandler.onDue timer.handler listening.board <;> rfl
  simp only [Task.poll, PeriodicTask.poll]
  refine .bind (.perform hcount) fun now => ?_
  simp only [id]
  split
  · refine .bind hcall fun handler => ?_
    exact .pure { timer with target := timer.target + timer.period, handler := handler }
  · exact .pure timer

theorem task_poll_mirrors (task : Numbered (PeriodicTask ζ ⊕ ν)) :
    RunMirrors (Recorded.board (σ := σ) (ε := Entry)) Numbered.part (Task.poll task)
      (Task.poll task.part) := by
  obtain ⟨place, part⟩ := task
  cases part with
  | inl timer =>
      simp only [Task.poll, eachSide, map_eq_pure_bind, bind_assoc, pure_bind]
      refine .bind (listened_mirrors _ (listened_poll_mirrors timer)) fun timer => ?_
      exact .pure (Numbered.mk place (Sum.inl timer))
  | inr other =>
      simp only [Task.poll, eachSide, map_eq_pure_bind, bind_assoc, pure_bind]
      refine .bind (during_mirrors _ _) fun other => ?_
      exact .pure (Numbered.mk place (Sum.inr other))

theorem task_rebase_mirrors (delta : UInt32) (task : Numbered (PeriodicTask ζ ⊕ ν)) :
    RunMirrors (Recorded.board (σ := σ) (ε := Entry)) Numbered.part (Task.rebase delta task)
      (Task.rebase delta task.part) := by
  rw [← bind_pure (Task.rebase delta task.part)]
  refine .bind (during_mirrors _ _) fun part => ?_
  exact .pure { task with part }

end

-- One turn for the task at each place.
section

variable {σ τ : Type}

def turns (act : τ → Run σ τ) (places : List Nat) : Run (Roster σ τ) Unit :=
  forM places fun place => Roster.onTask place act

theorem turns_cons (act : τ → Run σ τ) (place : Nat) (rest : List Nat) :
    turns act (place :: rest) = (do
      Roster.onTask place act
      turns act rest) := List.forM_cons

theorem pollAll_eq_turns [Task σ τ] (places : List Nat) :
    pollAll places = turns (σ := σ) (τ := τ) Task.poll places := by
  induction places with
  | nil => rfl
  | cons place rest ih => rw [pollAll, ih, turns_cons]

-- The places that a timer table names, in its order.
def named (tasks timers : List Nat) : List Nat := timers.filterMap (tasks[·]?)

theorem map_some_named {tasks timers : List Nat} (hvalid : ∀ handle ∈ timers, handle < tasks.length) :
    (named tasks timers).map some = timers.map (tasks[·]?) := by
  induction timers with
  | nil => rfl
  | cons handle rest ih =>
      have hfound := List.getElem?_eq_getElem (hvalid handle List.mem_cons_self)
      rw [List.map_cons, hfound, named, List.filterMap_cons_some hfound, List.map_cons, ← named,
        ih fun other hmem => hvalid other (List.mem_cons_of_mem handle hmem)]

theorem shiftTimers_eq_turns [Task σ τ] {tasks timers : List Nat}
    (hvalid : ∀ handle ∈ timers, handle < tasks.length) (delta : UInt32) :
    shiftTimers tasks delta timers =
      turns (σ := σ) (τ := τ) (Task.rebase delta) (named tasks timers) := by
  induction timers with
  | nil => rfl
  | cons handle rest ih =>
      have hfound := List.getElem?_eq_getElem (hvalid handle List.mem_cons_self)
      have hrest := ih fun other hmem => hvalid other (List.mem_cons_of_mem handle hmem)
      rw [named, List.filterMap_cons_some hfound, turns_cons, shiftTimers, hfound, hrest]
      rfl

theorem turns_append (act : τ → Run σ τ) (first second : List Nat) :
    turns act (first ++ second) = (do
      turns act first
      turns act second) := by
  simp [turns]

theorem turns_mirrors {act : Numbered τ → Run (Journaled σ) (Numbered τ)} {bare : τ → Run σ τ}
    (h : ∀ task, RunMirrors Recorded.board Numbered.part (act task) (bare task.part))
    (places : List Nat) :
    RunMirrors unjournaled id (turns act places) (turns bare places) := by
  induction places with
  | nil => exact .pure ()
  | cons place rest ih =>
      rw [turns_cons, turns_cons]
      exact .bind (onTask_mirrors h place) fun _ => ih

end

end BoardControl.Scheduler
