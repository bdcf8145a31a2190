import BoardControl.Proofs.Scheduler.Timeline

namespace BoardControl.Scheduler

open Run

-- Ticks that are less than half the range of the counter compare as they are.
theorem hasReached_iff_le {now target : UInt32} (hnow : now.toNat < 0x80000000)
    (htarget : target.toNat < 0x80000000) :
    Ticks.hasReached now target = true ↔ target.toNat ≤ now.toNat := by
  rw [Ticks.hasReached_iff, Ticks.elapsed_toNat]
  simp only [UInt32.size]
  omega

-- Tasks of two kinds on one board.

def eachSide {σ ω ν : Type} (left : ω → Run σ ω) (right : ν → Run σ ν) : ω ⊕ ν → Run σ (ω ⊕ ν)
  | .inl task => .inl <$> left task
  | .inr task => .inr <$> right task

instance {σ ω ν : Type} [Task σ ω] [Task σ ν] : Task σ (ω ⊕ ν) where
  poll := eachSide Task.poll Task.poll
  rebase delta := eachSide (Task.rebase delta) (Task.rebase delta)

section

variable {σ τ α : Type} {roster : Roster σ τ} {broken : Roster σ τ → Prop}

@[simp] theorem leaves_onBoard (run : Run σ α) (post : α → Roster σ τ → Prop) :
    Leaves (Roster.onBoard run) roster post broken ↔
      Leaves run roster.board (fun value board => post value { roster with board })
        fun board => broken { roster with board } := by
  unfold Leaves Roster.onBoard
  cases run roster.board <;> rfl

theorem leaves_onTask (place : Nat) (act : τ → Run σ τ) (post : Unit → Roster σ τ → Prop) :
    Leaves (Roster.onTask place act) roster post broken ↔
      match roster.tasks[place]? with
      | none => broken roster
      | some task =>
          Leaves (act task) roster.board
            (fun task board => post () { board, tasks := roster.tasks.set place task })
            fun board => broken { roster with board } := by
  unfold Leaves Roster.onTask
  cases roster.tasks[place]? with
  | none => rfl
  | some task =>
      dsimp only
      cases act task roster.board <;> rfl

end

-- What is written down when a run stops, with or without a fault.
def chronicle {σ τ α : Type} (run : Run (Roster (Timed σ) τ) α) (roster : Roster (Timed σ) τ) :
    List Event := (final run roster).board.history

-- Tasks that leave nothing written down and do not restart the tick counter.
class Quiet (σ ν : Type) [Task (Timed σ) ν] : Prop where
  poll : ∀ task : ν, RunLasts (σ := σ) (Task.poll task)
  rebase : ∀ delta (task : ν), RunLasts (σ := σ) (Task.rebase delta task)

section

variable {σ ρ κ η π δ ζ ω ν : Type} [Pace σ]

instance [DueHandler σ ζ] : Quiet σ (PeriodicTask ζ) where
  poll task := by
    simp only [Task.poll, PeriodicTask.poll]
    refine .bind (.perform count_lasts) fun now => ?_
    split
    · exact .bind (takingRun_lasts _) fun _ => .pure _
    · exact .pure _
  rebase _ _ := .pure _

instance [Logger σ] [OutputPin σ π] [InputPin σ δ] [Rail σ ρ] [Reset σ κ] [Hooks σ η] :
    Quiet σ (Supervisor ρ (ResetLine π δ ⊕ κ) η) where
  poll sup timed := by
    have hupkeep : Supervisor.Upkeep ρ η fun (_ : List (ResetLine π δ ⊕ κ)) => Later timed :=
      upkeep_of_later (fun _ _ _ hnext hlater => hlater.trans hnext)
        (fun _ line _ _ hlater => hlater.trans (line_hold_lasts line _))
        (fun _ line _ _ hlater => hlater.trans (line_release_lasts line _))
        (fun _ line _ _ hlater => hlater.trans (line_isReady_lasts line _))
    exact (hupkeep.poll (Later.refl timed)).mono (fun _ _ => id) fun _ ⟨_, hlater⟩ => hlater
  rebase _ _ := .pure _

omit [Pace σ] in
instance [Task (Timed σ) ω] [Task (Timed σ) ν] [Quiet σ ω] [Quiet σ ν] : Quiet σ (ω ⊕ ν) where
  poll
    | .inl task => (Quiet.poll task).map _
    | .inr task => (Quiet.poll task).map _
  rebase
    | delta, .inl task => (Quiet.rebase delta task).map _
    | delta, .inr task => (Quiet.rebase delta task).map _

end

section

variable {σ ω ν : Type} {seat : Nat} {holds becomes : ω → Timed σ → Prop}
  {broken : Timed σ → Prop} {roster : Roster (Timed σ) (ω ⊕ ν)}

-- One task of the first kind, at a place of its own, of which something holds.
structure Seated (seat : Nat) (holds : ω → Timed σ → Prop) (roster : Roster (Timed σ) (ω ⊕ ν)) :
    Prop where
  there : ∃ task, roster.tasks[seat]? = some (.inl task) ∧ holds task roster.board
  alone : ∀ place task, roster.tasks[place]? = some (.inl task) → place = seat

-- What holds of a task goes on to hold while time passes, and says enough when a
-- run faults.
structure Lasting (holds : ω → Timed σ → Prop) (broken : Timed σ → Prop) : Prop where
  later : ∀ task before after, Later before after → holds task before → holds task after
  broken : ∀ task board, holds task board → broken board

-- One task of the first kind among any others.
def crewed (earlier : List ν) (task : ω) (others : List ν) (board : Timed σ) :
    Roster (Timed σ) (ω ⊕ ν) where
  board := board
  tasks := earlier.map .inr ++ .inl task :: others.map .inr

theorem seated_crewed {earlier others : List ν} {task : ω} {board : Timed σ}
    (h : holds task board) :
    Seated earlier.length holds (crewed earlier task others board) := by
  refine ⟨⟨task, ?_, h⟩, ?_⟩
  · simp [crewed]
  · intro place found hfound
    simp only [crewed, List.getElem?_append, List.length_map, List.getElem?_map] at hfound
    split at hfound
    · cases hother : earlier[place]? with
      | none => simp [hother] at hfound
      | some other => simp [hother] at hfound
    · cases hplace : place - earlier.length with
      | zero => omega
      | succ further =>
          rw [hplace, List.getElem?_cons_succ, List.getElem?_map] at hfound
          cases hother : others[further]? with
          | none => simp [hother] at hfound
          | some other => simp [hother] at hfound

namespace Seated

theorem onBoard (h : Seated seat holds roster) {board : Timed σ}
    (hboard : ∀ task, holds task roster.board → becomes task board) :
    Seated seat becomes { roster with board } := by
  obtain ⟨task, hthere, hholds⟩ := h.there
  exact ⟨⟨task, hthere, hboard task hholds⟩, h.alone⟩

-- The task at its place is used.
theorem used (h : Seated seat holds roster) {left : ω → Run (Timed σ) ω}
    {right : ν → Run (Timed σ) ν}
    (hleft : ∀ task board, holds task board → Leaves (left task) board becomes broken) :
    Leaves (Roster.onTask seat (eachSide left right)) roster
      (fun _ after => Seated seat becomes after) fun after => broken after.board := by
  obtain ⟨task, hthere, hholds⟩ := h.there
  rw [leaves_onTask, hthere]
  simp only [eachSide, leaves_map]
  refine (hleft task roster.board hholds).mono ?_ fun _ => id
  intro next board hnext
  refine ⟨⟨next, ?_, hnext⟩, ?_⟩
  · rw [List.getElem?_set_self (List.getElem?_eq_some_iff.mp hthere).1]
  · intro place task hplace
    by_cases hseat : seat = place
    · exact hseat.symm
    · rw [List.getElem?_set_ne hseat] at hplace
      exact h.alone place task hplace

-- A task at some other place is used.
theorem passed (h : Seated seat holds roster) (hlasting : Lasting holds broken)
    {left : ω → Run (Timed σ) ω} {right : ν → Run (Timed σ) ν}
    (hright : ∀ task, RunLasts (right task)) {place : Nat} (hplace : place ≠ seat) :
    Leaves (Roster.onTask place (eachSide left right)) roster
      (fun _ after => Seated seat holds after) fun after => broken after.board := by
  obtain ⟨task, hthere, hholds⟩ := h.there
  rw [leaves_onTask]
  split
  · exact hlasting.broken task _ hholds
  · rename_i other hother
    cases other with
    | inl other => exact absurd (h.alone place other hother) hplace
    | inr other =>
        simp only [eachSide, leaves_map]
        refine (hright other roster.board).mono ?_ ?_
        · intro next board hlater
          refine ⟨⟨task, ?_, hlasting.later _ _ _ hlater hholds⟩, ?_⟩
          · rw [List.getElem?_set_ne hplace, hthere]
          · intro found task hfound
            by_cases hsame : place = found
            · subst hsame
              rw [List.getElem?_set_self (List.getElem?_eq_some_iff.mp hother).1] at hfound
              cases hfound
            · rw [List.getElem?_set_ne hsame] at hfound
              exact h.alone found task hfound
        · intro board hlater
          exact hlasting.broken task _ (hlasting.later _ _ _ hlater hholds)

variable [Task (Timed σ) ω] [Task (Timed σ) ν] [Quiet σ ν]

-- A list of places without the task polls other tasks only.
theorem pollAll (hlasting : Lasting holds broken) (places : List Nat)
    (hpoll : seat ∈ places → ∀ task board, holds task board →
      Leaves (Task.poll task) board holds broken)
    (h : Seated seat holds roster) :
    Leaves (pollAll places) roster (fun _ after => Seated seat holds after)
      fun after => broken after.board := by
  induction places generalizing roster with
  | nil => exact h
  | cons place rest ih =>
      have hrest := fun hmem => hpoll (List.mem_cons_of_mem place hmem)
      rw [Scheduler.pollAll, leaves_bind]
      refine Leaves.mono ?_ (fun _ _ => ih hrest) fun _ => id
      by_cases hplace : place = seat
      · subst hplace
        exact h.used (hpoll List.mem_cons_self)
      · exact h.passed hlasting Quiet.poll hplace

-- A timer table that does not name the task moves other due times only.
theorem shiftTimers (hlasting : Lasting holds broken) (tasks : List Nat) (delta : UInt32)
    (handles : List Nat)
    (hrebase : ∀ handle ∈ handles, tasks[handle]? = some seat →
      ∀ task board, holds task board → Leaves (Task.rebase delta task) board holds broken)
    (h : Seated seat holds roster) :
    Leaves (shiftTimers tasks delta handles) roster (fun _ after => Seated seat holds after)
      fun after => broken after.board := by
  induction handles generalizing roster with
  | nil => exact h
  | cons handle rest ih =>
      have hrest := fun other hmem => hrebase other (List.mem_cons_of_mem handle hmem)
      rw [Scheduler.shiftTimers]
      split
      · obtain ⟨task, _, hholds⟩ := h.there
        rw [leaves_bind, leaves_throw]
        exact hlasting.broken task _ hholds
      · rename_i place hfound
        rw [leaves_bind]
        refine Leaves.mono ?_ (fun _ _ => ih hrest) fun _ => id
        by_cases hplace : place = seat
        · subst hplace
          exact h.used (hrebase handle List.mem_cons_self hfound)
        · exact h.passed hlasting (Quiet.rebase delta) hplace

end Seated

end

section

variable {σ τ : Type} [Task σ τ]

theorem pollAll_append (first second : List Nat) :
    pollAll (σ := σ) (τ := τ) (first ++ second) = (do
      pollAll first
      pollAll second) := by
  induction first with
  | nil => simp [pollAll]
  | cons place rest ih =>
      rw [List.cons_append, pollAll, pollAll, ih]
      simp

theorem shiftTimers_append (tasks : List Nat) (delta : UInt32) (first second : List Nat) :
    shiftTimers (σ := σ) (τ := τ) tasks delta (first ++ second) = (do
      shiftTimers tasks delta first
      shiftTimers tasks delta second) := by
  induction first with
  | nil => simp [shiftTimers]
  | cons handle rest ih =>
      rw [List.cons_append, shiftTimers, shiftTimers, ih]
      split
      · rfl
      · simp

end

end BoardControl.Scheduler
