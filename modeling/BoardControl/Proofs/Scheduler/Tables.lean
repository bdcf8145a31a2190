import BoardControl.Bench.Units
import BoardControl.Proofs.Scheduler.TimerPass

namespace BoardControl.Scheduler

open Run Journaled

-- What an application may ask of a scheduler that has so many tasks to register.
inductive Request (count : Nat) where
  | Register (place : Fin count)
  | MarkTimer (handle : Nat)
  | RegisterTimer (place : Fin count)
  | Pass
deriving DecidableEq, Repr

-- Both tables are within their capacity, every task in the polling order is there,
-- and every timer handle is one of the polling order.
structure Filled (capacity timerCapacity : Nat) (ceiling : UInt32) (count : Nat)
    (scheduler : Scheduler) : Prop where
  capacity_eq : scheduler.capacity = capacity
  timerCapacity_eq : scheduler.timerCapacity = timerCapacity
  ceiling_eq : scheduler.ceiling = ceiling
  tasks_le : scheduler.tasks.length ≤ capacity
  timers_le : scheduler.timers.length ≤ timerCapacity
  places : ∀ place ∈ scheduler.tasks, place < count
  handles : ∀ handle ∈ scheduler.timers, handle < scheduler.tasks.length

namespace Filled

variable {capacity timerCapacity count : Nat} {ceiling : UInt32} {scheduler : Scheduler}

theorem start (capacity timerCapacity : Nat) (ceiling : UInt32) (count : Nat) :
    Filled capacity timerCapacity ceiling count { capacity, timerCapacity, ceiling } where
  capacity_eq := rfl
  timerCapacity_eq := rfl
  ceiling_eq := rfl
  tasks_le := Nat.zero_le _
  timers_le := Nat.zero_le _
  places := List.forall_mem_nil _
  handles := List.forall_mem_nil _

theorem register (h : Filled capacity timerCapacity ceiling count scheduler) {place : Nat}
    (hplace : place < count) :
    Filled capacity timerCapacity ceiling count (scheduler.register place).2 := by
  unfold Scheduler.register
  split
  · rename_i hroom
    rw [h.capacity_eq] at hroom
    exact { h with
      tasks_le := by
        rw [List.length_append]
        exact hroom
      places := List.forall_mem_append.mpr ⟨h.places, by simpa using hplace⟩
      handles := fun handle hmem => by
        rw [List.length_append]
        exact Nat.lt_add_right _ (h.handles handle hmem) }
  · exact h

theorem markTimer (h : Filled capacity timerCapacity ceiling count scheduler) (handle : Nat) :
    Filled capacity timerCapacity ceiling count (scheduler.markTimer handle).2 := by
  unfold Scheduler.markTimer
  split
  · exact h
  · rename_i hknown
    split
    · rename_i hroom
      rw [h.timerCapacity_eq] at hroom
      exact { h with
        timers_le := by
          rw [List.length_append]
          exact hroom
        handles := List.forall_mem_append.mpr ⟨h.handles, by simpa using hknown⟩ }
    · exact h

-- A registration that fails half way leaves well-formed tables.
theorem registerTimer (h : Filled capacity timerCapacity ceiling count scheduler) {place : Nat}
    (hplace : place < count) :
    Filled capacity timerCapacity ceiling count (scheduler.registerTimer place).2 := by
  have hregistered := h.register hplace
  unfold Scheduler.registerTimer
  rcases hregister : scheduler.register place with ⟨failure | handle, registered⟩
  · rw [hregister] at hregistered
    exact hregistered
  · rw [hregister] at hregistered
    have hmarked := hregistered.markTimer handle
    simp only at hmarked ⊢
    rcases hmark : registered.markTimer handle with ⟨failure | done, marked⟩
    · rw [hmark] at hmarked
      exact hmarked
    · rw [hmark] at hmarked
      exact hmarked

end Filled

section

variable {σ τ : Type} [TickCounter σ] [Task σ τ] {count : Nat}

def answer (work : Run (Roster σ τ) Unit) (scheduler : Scheduler) :
    Request count → Run (Roster σ τ) Scheduler
  | .Register place => pure (scheduler.register place).2
  | .MarkTimer handle => pure (scheduler.markTimer handle).2
  | .RegisterTimer place => pure (scheduler.registerTimer place).2
  | .Pass => do
      scheduler.pass work
      pure scheduler

def answerAll (work : Run (Roster σ τ) Unit) (requests : List (Request count))
    (scheduler : Scheduler) : Run (Roster σ τ) Scheduler :=
  requests.foldlM (answer work) scheduler

end

-- No task is added to the roster and none leaves it.
def KeepsTasks {σ τ α : Type} (run : Run (Roster σ τ) α) : Prop :=
  ∀ roster, Leaves run roster (fun _ after => after.tasks.length = roster.tasks.length)
    fun _ => True

namespace KeepsTasks

variable {σ τ α β : Type}

theorem pure (value : α) : KeepsTasks (Pure.pure value : Run (Roster σ τ) α) := fun _ => rfl

theorem bind {run : Run (Roster σ τ) α} {next : α → Run (Roster σ τ) β} (hrun : KeepsTasks run)
    (hnext : ∀ value, KeepsTasks (next value)) : KeepsTasks (run >>= next) := by
  intro roster
  rw [leaves_bind]
  refine (hrun roster).mono ?_ fun _ => id
  intro value middle hmiddle
  rw [← hmiddle]
  exact hnext value middle

theorem onBoard (run : Run σ α) : KeepsTasks (τ := τ) (Roster.onBoard run) := by
  intro roster
  rw [leaves_onBoard]
  unfold Leaves
  split
  · rfl
  · trivial

theorem onTask (place : Nat) (act : τ → Run σ τ) : KeepsTasks (Roster.onTask place act) := by
  intro roster
  rw [leaves_onTask]
  split
  · trivial
  · unfold Leaves
    split
    · exact List.length_set ..
    · trivial

theorem turns (act : τ → Run σ τ) (places : List Nat) : KeepsTasks (turns act places) := by
  induction places with
  | nil => exact .pure ()
  | cons place rest ih =>
      rw [turns_cons]
      exact .bind (.onTask place act) fun _ => ih

theorem pass [TickCounter σ] [Task σ τ] {scheduler : Scheduler}
    (hhandles : ∀ handle ∈ scheduler.timers, handle < scheduler.tasks.length) (hook : Run σ Unit) :
    KeepsTasks (τ := τ) (scheduler.pass (Roster.onBoard hook)) := by
  have hpolls : KeepsTasks (do pollAll (σ := σ) (τ := τ) scheduler.tasks; Roster.onBoard hook) := by
    rw [pollAll_eq_turns]
    exact .bind (.turns _ _) fun _ => .onBoard hook
  unfold Scheduler.pass
  refine .bind (.onBoard _) fun now => ?_
  split
  · refine .bind (.onBoard _) fun _ => ?_
    rw [shiftTimers_eq_turns hhandles]
    exact .bind (.turns _ _) fun _ => hpolls
  · exact hpolls

end KeepsTasks

section

variable {σ τ : Type} [TickCounter σ] [Task σ τ] {capacity timerCapacity count : Nat}
  {ceiling : UInt32} {scheduler : Scheduler} {roster : Roster σ τ}

theorem answer_filled (hook : Run σ Unit) (request : Request count)
    (h : Filled capacity timerCapacity ceiling count scheduler)
    (hcount : roster.tasks.length = count) :
    Leaves (answer (Roster.onBoard hook) scheduler request) roster
      (fun next after => Filled capacity timerCapacity ceiling count next ∧
        after.tasks.length = count)
      fun _ => True := by
  cases request with
  | Register place => exact ⟨h.register place.isLt, hcount⟩
  | MarkTimer handle => exact ⟨h.markTimer handle, hcount⟩
  | RegisterTimer place => exact ⟨h.registerTimer place.isLt, hcount⟩
  | Pass =>
      simp only [answer, leaves_bind, leaves_pure]
      refine (KeepsTasks.pass h.handles hook roster).mono ?_ fun _ => id
      exact fun _ after hafter => ⟨h, hafter.trans hcount⟩

theorem answerAll_filled (hook : Run σ Unit) (requests : List (Request count))
    (h : Filled capacity timerCapacity ceiling count scheduler)
    (hcount : roster.tasks.length = count) :
    Leaves (answerAll (Roster.onBoard hook) requests scheduler) roster
      (fun next after => Filled capacity timerCapacity ceiling count next ∧
        after.tasks.length = count)
      fun _ => True := by
  induction requests generalizing scheduler roster with
  | nil => exact ⟨h, hcount⟩
  | cons request rest ih =>
      rw [answerAll, List.foldlM_cons, leaves_bind]
      refine (answer_filled hook request h hcount).mono ?_ fun _ => id
      exact fun next after hends => ih hends.1 hends.2

end

section

variable {σ ζ ν : Type} [TickCounter σ] [DueHandler σ ζ] [Task σ ν]

theorem pass_mirrors {scheduler : Scheduler}
    (hhandles : ∀ handle ∈ scheduler.timers, handle < scheduler.tasks.length) (hook : Run σ Unit) :
    RunMirrors (unjournaled (σ := σ) (τ := PeriodicTask ζ ⊕ ν)) id
      (scheduler.pass (Roster.onBoard (during .Hooked hook)))
      (scheduler.pass (Roster.onBoard hook)) := by
  have hpolls : RunMirrors (unjournaled (σ := σ) (τ := PeriodicTask ζ ⊕ ν)) id
      (do pollAll scheduler.tasks; Roster.onBoard (during .Hooked hook))
      (do pollAll scheduler.tasks; Roster.onBoard hook) := by
    rw [pollAll_eq_turns, pollAll_eq_turns]
    exact .bind (turns_mirrors task_poll_mirrors _) fun _ => onBoard_mirrors (during_mirrors _ _)
  unfold Scheduler.pass
  refine .bind (onBoard_mirrors (.perform fun _ => rfl)) fun now => ?_
  simp only [id]
  split
  · refine .bind (onBoard_mirrors (.perform fun _ => rfl)) fun _ => ?_
    rw [shiftTimers_eq_turns hhandles, shiftTimers_eq_turns hhandles]
    exact .bind (turns_mirrors (task_rebase_mirrors now) _) fun _ => hpolls
  · exact hpolls

-- What the next pass does to a timer task, on a board without a journal.
theorem timer_pass_due {scheduler : Scheduler} {begun : Roster σ (PeriodicTask ζ ⊕ ν)}
    (hook : Run σ Unit) (hhandles : ∀ handle ∈ scheduler.timers, handle < scheduler.tasks.length)
    {seat : Nat} {timer : PeriodicTask ζ} (hthere : begun.tasks[seat]? = some (.inl timer))
    (honce : scheduler.tasks.count seat = 1)
    (hmark : (named scheduler.tasks scheduler.timers).count seat ≤ 1) {now : UInt32} {due : Nat}
    (hnow : (TickCounter.count begun.board).1 = now)
    (hdue : due =
      if scheduler.ceiling ≤ now ∧ seat ∈ named scheduler.tasks scheduler.timers then
        timer.target.toNat - now.toNat
      else timer.target.toNat) :
    ∃ count : UInt32,
      (∀ heard, .Polled seat heard ∈ (final (scheduler.pass (Roster.onBoard (during .Hooked hook)))
          (journaled begun)).board.events → heard = some (heardAt due.toUInt32 count)) ∧
      ∀ after, scheduler.pass (Roster.onBoard hook) begun = .ok () after →
        ∃ next, after.tasks[seat]? = some (.inl next) ∧
          next.target = if Ticks.hasReached count due.toUInt32 then due.toUInt32 + timer.period
            else due.toUInt32 := by
  have hword : due.toUInt32.toNat = due := by
    have hbound := timer.target.toNat_lt_size
    rw [Nat.toUInt32_eq, UInt32.toNat_ofNat']
    refine Nat.mod_eq_of_lt (Nat.lt_of_le_of_lt ?_ hbound)
    rw [hdue]
    split <;> omega
  have hseat : (journaled begun).tasks[seat]? = some ⟨seat, .inl timer⟩ := by
    rw [journaled, Supervisor.numbered, List.getElem?_mapIdx, hthere, Option.map_some]
  have hpass := timer_pass_leaves hook (placed_journaled begun) hseat hhandles honce hmark hnow
    (hword.trans hdue)
  have hmirror : RunMirrors unjournaled id _ _ := pass_mirrors (ζ := ζ) (ν := ν) hhandles hook
  unfold Leaves at hpass
  unfold final
  cases hrun : scheduler.pass (Roster.onBoard (during .Hooked hook)) (journaled begun) with
  | ok value noted =>
      rw [hrun] at hpass
      obtain ⟨count, next, htarget, hseen⟩ := hpass
      have hbare := hmirror.ok hrun
      rw [unjournaled_journaled] at hbare
      refine ⟨count, ?_, ?_⟩
      · obtain ⟨later, hentries, hlater⟩ := hseen.said
        intro heard hmem
        rw [hentries] at hmem
        exact hlater heard hmem
      · intro after hafter
        rw [hbare] at hafter
        cases hafter
        refine ⟨next, ?_, htarget⟩
        rw [unjournaled, Supervisor.parts, List.getElem?_map, hseen.there, Option.map_some]
  | error fault noted =>
      rw [hrun] at hpass
      obtain ⟨count, later, hentries, hlater⟩ := hpass
      refine ⟨count, ?_, ?_⟩
      · intro heard hmem
        rw [hentries] at hmem
        exact hlater heard hmem
      · intro after hafter
        have hbare := hmirror (journaled begun)
        rw [unjournaled_journaled, hafter, hrun] at hbare
        cases hbare

-- Whatever has been registered in whichever order, with or without success, and
-- however many passes there were: every timer handle is in the polling order, and
-- the next pass does by its tables what the script says, with nothing but a task or
-- the hook to stop it. A timer task that is in the polling order once and marked at
-- most once is polled for its due tick, less the count if the pass restarts the
-- counter and it is marked.
theorem passes_by_the_script (capacity timerCapacity : Nat) (ceiling : UInt32)
    (tasks : List (PeriodicTask ζ ⊕ ν)) (board : σ) (hook : Run σ Unit)
    (requests : List (Request tasks.length)) {scheduler : Scheduler}
    {begun : Roster σ (PeriodicTask ζ ⊕ ν)}
    (hreached : answerAll (Roster.onBoard hook) requests { capacity, timerCapacity, ceiling }
      { board, tasks } = .ok scheduler begun) :
    let now := (TickCounter.count begun.board).1
    let marked := named scheduler.tasks scheduler.timers
    let pass := scheduler.pass (Roster.onBoard hook)
    let noted := scheduler.pass (Roster.onBoard (during .Hooked hook))
    Filled capacity timerCapacity ceiling tasks.length scheduler ∧
    marked.map some = scheduler.timers.map (scheduler.tasks[·]?) ∧
    unjournaled (final noted (journaled begun)) = final pass begun ∧
    (Returning σ ζ ν hook → Ends pass begun fun _ _ => True) ∧
    Leaves noted (journaled begun)
      (fun _ after => IsScript scheduler now after.board.events)
      (fun after => ∃ part rest, IsScript scheduler now (part ++ rest) ∧
        after.board.events = part ++ [.Stopped]) ∧
    ∀ seat timer, begun.tasks[seat]? = some (.inl timer) → scheduler.tasks.count seat = 1 →
      marked.count seat ≤ 1 →
      let due := if ceiling ≤ now ∧ seat ∈ marked then timer.target.toNat - now.toNat
        else timer.target.toNat
      ∃ count : UInt32,
        (∀ heard, .Polled seat heard ∈ (final noted (journaled begun)).board.events →
          heard = some (heardAt due.toUInt32 count)) ∧
        (∀ after, pass begun = .ok () after → ∃ next, after.tasks[seat]? = some (.inl next) ∧
          next.target = if Ticks.hasReached count due.toUInt32 then due.toUInt32 + timer.period
            else due.toUInt32) ∧
        (count.toNat < 0x80000000 → timer.target.toNat < 0x80000000 →
          (Ticks.hasReached count due.toUInt32 = true ↔ due ≤ count.toNat)) := by
  intro now marked pass noted
  obtain ⟨hfilled, hcount⟩ :=
    (answerAll_filled hook requests (.start capacity timerCapacity ceiling _) rfl).of_eq_ok hreached
  have hplaced := placed_journaled begun
  have hplaces : ∀ place ∈ scheduler.tasks, place < (journaled begun).tasks.length := by
    intro place hplace
    rw [journaled, Supervisor.numbered, List.length_mapIdx, hcount]
    exact hfilled.places place hplace
  have hmirror := pass_mirrors (ζ := ζ) (ν := ν) hfilled.handles hook
  have hscript := pass_leaves hook hplaced hplaces hfilled.handles
  refine ⟨hfilled, map_some_named hfilled.handles, ?_, ?_, ?_, ?_⟩
  · rw [hmirror.final, unjournaled_journaled]
  · intro hreturns
    obtain ⟨_, after, hrun, _⟩ := hscript.ends fun _ hhalts => hhalts.1 hreturns
    have hbare := hmirror.ok hrun
    rw [unjournaled_journaled] at hbare
    exact ⟨(), unjournaled after, hbare, trivial⟩
  · refine hscript.mono ?_ ?_
    · rintro _ after ⟨script, hscript, hentries⟩
      rw [hentries]
      exact hscript
    · rintro after ⟨_, part, rest, hscript, hentries⟩
      exact ⟨part, rest, hscript, hentries⟩
  · intro seat timer hthere honce hmark due
    have hdue : due = if scheduler.ceiling ≤ now ∧ seat ∈ marked then
        timer.target.toNat - now.toNat else timer.target.toNat := by rw [hfilled.ceiling_eq]
    obtain ⟨count, hheard, hnext⟩ :=
      timer_pass_due hook hfilled.handles hthere honce hmark rfl hdue
    refine ⟨count, hheard, hnext, ?_⟩
    intro hcount htarget
    have hbound : due < 0x80000000 := by
      refine Nat.lt_of_le_of_lt ?_ htarget
      rw [hdue]
      split <;> omega
    have hword : due.toUInt32.toNat = due := by
      rw [Nat.toUInt32_eq, UInt32.toNat_ofNat']
      exact Nat.mod_eq_of_lt (Nat.lt_trans hbound (by decide))
    rw [hasReached_iff_le hcount (by rw [hword]; exact hbound), hword]

end

section

open Bench

-- Two timer tasks, the second of which finds no room in the timer table.
def overdue : Roster Board (PeriodicTask BenchHandler ⊕ PeriodicTask BenchHandler) where
  board := { now := 60500 }
  tasks := [.inl ⟨60000, 5000, ⟨"heartbeat", none⟩⟩, .inr ⟨61000, 5000, ⟨"blink", none⟩⟩]

def crowded : Scheduler :=
  { capacity := 4, timerCapacity := 1, ceiling := 60000, tasks := [0, 1], timers := [0] }

-- The restart finds the heartbeat overdue, which is due at zero from then on.
theorem passes_by_the_script_overdue :
    answerAll (Roster.onBoard (pure ()))
        ([.RegisterTimer ⟨0, by decide⟩, .RegisterTimer ⟨1, by decide⟩, .MarkTimer 7] :
          List (Request overdue.tasks.length))
        { capacity := 4, timerCapacity := 1, ceiling := 60000 } overdue = .ok crowded overdue ∧
    Leaves (crowded.pass (Roster.onBoard (during .Hooked (pure ())))) (journaled overdue)
      (fun _ after => IsScript crowded 60500 after.board.events)
      (fun after => ∃ part rest, IsScript crowded 60500 (part ++ rest) ∧
        after.board.events = part ++ [.Stopped]) ∧
    ∃ count : UInt32,
      (∀ heard, .Polled 0 heard ∈ (final (crowded.pass (Roster.onBoard (during .Hooked (pure ()))))
        (journaled overdue)).board.events → heard = some (heardAt 0 count)) ∧
      (count.toNat < 0x80000000 → Ticks.hasReached count 0 = true) := by
  have hreached : answerAll (Roster.onBoard (pure ()))
      ([.RegisterTimer ⟨0, by decide⟩, .RegisterTimer ⟨1, by decide⟩, .MarkTimer 7] :
        List (Request overdue.tasks.length))
      { capacity := 4, timerCapacity := 1, ceiling := 60000 } overdue = .ok crowded overdue := rfl
  obtain ⟨_, _, _, _, hscript, htimer⟩ := passes_by_the_script 4 1 60000 overdue.tasks
    overdue.board (pure ()) _ hreached
  obtain ⟨count, hheard, _, hreaches⟩ := htimer 0 _ rfl rfl (Nat.le_refl 1)
  exact ⟨hreached, hscript, count, hheard,
    fun hcount => (hreaches hcount (by decide)).mpr (Nat.zero_le _)⟩

end

end BoardControl.Scheduler
