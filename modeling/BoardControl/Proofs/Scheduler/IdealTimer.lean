import BoardControl.Bench.Units
import BoardControl.Proofs.Run

namespace BoardControl.Scheduler

open Run

-- A timer over ticks that never wrap. The tick it is due at moves on by one
-- period each time it fires.
structure IdealTimer where
  first : Nat
  period : Nat
  fired : Nat := 0
deriving DecidableEq, Repr

namespace IdealTimer

def due (ideal : IdealTimer) : Nat := ideal.first + ideal.fired * ideal.period

def poll (ideal : IdealTimer) (tick : Nat) : IdealTimer :=
  if ideal.due ≤ tick then { ideal with fired := ideal.fired + 1 } else ideal

-- How often the timer is due up to a tick.
def dueBy (ideal : IdealTimer) (tick : Nat) : Nat :=
  if tick < ideal.first then 0 else (tick - ideal.first) / ideal.period + 1

-- The due tick is less than half the range of a counter away, on either side.
def Near (ideal : IdealTimer) (tick : Nat) : Prop :=
  tick < ideal.due + 0x80000000 ∧ ideal.due < tick + 0x80000000

def NearAll : List Nat → IdealTimer → Prop
  | [], _ => True
  | tick :: rest, ideal => ideal.Near tick ∧ NearAll rest (ideal.poll tick)

variable {ideal : IdealTimer} {tick later : Nat}

theorem poll_of_due (h : ideal.due ≤ tick) :
    ideal.poll tick = { ideal with fired := ideal.fired + 1 } := if_pos h

theorem poll_of_early (h : ¬ ideal.due ≤ tick) : ideal.poll tick = ideal := if_neg h

theorem fired_poll (ideal : IdealTimer) (tick : Nat) :
    (ideal.poll tick).fired = ideal.fired + if ideal.due ≤ tick then 1 else 0 := by
  unfold poll
  split <;> rfl

theorem poll_first : (ideal.poll tick).first = ideal.first := by
  unfold poll
  split <;> rfl

theorem poll_period : (ideal.poll tick).period = ideal.period := by
  unfold poll
  split <;> rfl

theorem foldl_poll_first (ticks : List Nat) : (ticks.foldl poll ideal).first = ideal.first := by
  induction ticks generalizing ideal with
  | nil => rfl
  | cons tick rest ih => rw [List.foldl_cons, ih, poll_first]

theorem foldl_poll_period (ticks : List Nat) :
    (ticks.foldl poll ideal).period = ideal.period := by
  induction ticks generalizing ideal with
  | nil => rfl
  | cons tick rest ih => rw [List.foldl_cons, ih, poll_period]

theorem due_foldl_poll (ideal : IdealTimer) (ticks : List Nat) :
    (ticks.foldl poll ideal).due =
      ideal.first + (ticks.foldl poll ideal).fired * ideal.period := by
  rw [due, foldl_poll_first, foldl_poll_period]

theorem dueBy_poll (ideal : IdealTimer) (tick later : Nat) :
    (ideal.poll tick).dueBy later = ideal.dueBy later := by
  simp only [dueBy, poll_first, poll_period]

theorem dueBy_foldl_poll (ticks : List Nat) :
    (ticks.foldl poll ideal).dueBy later = ideal.dueBy later := by
  simp only [dueBy, foldl_poll_first, foldl_poll_period]

theorem nearAll_append (ticks more : List Nat) :
    NearAll (ticks ++ more) ideal ↔
      NearAll ticks ideal ∧ NearAll more (ticks.foldl poll ideal) := by
  induction ticks generalizing ideal with
  | nil => simp only [List.nil_append, NearAll, true_and, List.foldl_nil]
  | cons tick rest ih => simp only [List.cons_append, NearAll, ih, List.foldl_cons, and_assoc]

-- The timer is due as long as it has not fired as often as it was due.
theorem due_le_iff (hperiod : 0 < ideal.period) :
    ideal.due ≤ tick ↔ ideal.fired < ideal.dueBy tick := by
  unfold due dueBy
  split
  · omega
  · rw [Nat.lt_succ_iff, Nat.le_div_iff_mul_le hperiod]
    omega

theorem dueBy_mono (h : tick ≤ later) : ideal.dueBy tick ≤ ideal.dueBy later := by
  unfold dueBy
  split
  · omega
  · have hquotient : (tick - ideal.first) / ideal.period ≤ (later - ideal.first) / ideal.period :=
      Nat.div_le_div_right (Nat.sub_le_sub_right h _)
    rw [if_neg (by omega)]
    exact Nat.succ_le_succ hquotient

-- The timer never fires more often than it was due.
theorem fired_le_dueBy (hperiod : 0 < ideal.period) (ticks : List Nat)
    (hlast : ∀ tick ∈ ticks, tick ≤ later) (hfired : ideal.fired ≤ ideal.dueBy later) :
    (ticks.foldl poll ideal).fired ≤ ideal.dueBy later := by
  induction ticks generalizing ideal with
  | nil => exact hfired
  | cons tick rest ih =>
      rw [List.foldl_cons, ← dueBy_poll ideal tick later]
      refine ih (by rw [poll_period]; exact hperiod)
        (fun other hmem => hlast other (List.mem_cons_of_mem _ hmem)) ?_
      rw [dueBy_poll]
      by_cases hdue : ideal.due ≤ tick
      · have hmono : ideal.dueBy tick ≤ ideal.dueBy later :=
          dueBy_mono (hlast tick List.mem_cons_self)
        rw [due_le_iff hperiod] at hdue
        rw [poll_of_due ((due_le_iff hperiod).mpr hdue)]
        exact Nat.le_trans hdue hmono
      · rw [poll_of_early hdue]
        exact hfired

-- Polls at one tick catch up with all that was due, and then nothing fires.
theorem fired_replicate (hperiod : 0 < ideal.period) (hfired : ideal.fired ≤ ideal.dueBy tick)
    (times : Nat) :
    ((List.replicate times tick).foldl poll ideal).fired =
      min (ideal.fired + times) (ideal.dueBy tick) := by
  induction times generalizing ideal with
  | zero => exact (Nat.min_eq_left hfired).symm
  | succ times ih =>
      rw [List.replicate_succ, List.foldl_cons]
      by_cases hdue : ideal.due ≤ tick
      · rw [poll_of_due hdue]
        rw [due_le_iff hperiod] at hdue
        have hrest : ((List.replicate times tick).foldl poll
            { ideal with fired := ideal.fired + 1 }).fired =
              min (ideal.fired + 1 + times) (ideal.dueBy tick) := ih hperiod hdue
        rw [hrest]
        omega
      · rw [poll_of_early hdue, ih hperiod hfired]
        rw [due_le_iff hperiod] at hdue
        omega

theorem fired_foldl_replicate (hperiod : 0 < ideal.period) {ticks : List Nat}
    (hlast : ∀ other ∈ ticks, other ≤ tick) (hfired : ideal.fired ≤ ideal.dueBy tick)
    (times : Nat) :
    ((List.replicate times tick).foldl poll (ticks.foldl poll ideal)).fired =
      min ((ticks.foldl poll ideal).fired + times) (ideal.dueBy tick) := by
  have hbounded := fired_le_dueBy hperiod ticks hlast hfired
  rw [← dueBy_foldl_poll ticks] at hbounded
  rw [← foldl_poll_period ticks] at hperiod
  rw [fired_replicate hperiod hbounded times, dueBy_foldl_poll]

end IdealTimer

-- A moment that a board can be brought to: whatever has happened before, its tick
-- counter then shows the low 32 bits of the tick.
structure Moment (σ : Type) [TickCounter σ] where
  tick : Nat
  reach : σ → σ
  shows : ∀ board, (TickCounter.count (reach board)).1 = tick.toUInt32

-- A handler with the number of its calls.
structure Tallied (ζ : Type) where
  handler : ζ
  calls : Nat := 0
deriving DecidableEq, Repr

section

variable {σ ζ : Type} [TickCounter σ] [DueHandler σ ζ]

instance : DueHandler σ (Tallied ζ) where
  onDue tallied := do
    let handler ← DueHandler.onDue tallied.handler
    pure { handler, calls := tallied.calls + 1 }

namespace Moment

def create (moment : Moment σ) (offset period : UInt32) (handler : ζ) :
    Action σ (PeriodicTask (Tallied ζ)) := do
  modify moment.reach
  PeriodicTask.create offset period { handler }

def poll (task : PeriodicTask (Tallied ζ)) (moment : Moment σ) :
    Run σ (PeriodicTask (Tallied ζ)) := do
  perform (modify moment.reach)
  Task.poll task

-- A task from the moment it is created.
def follow (begun : Moment σ) (offset period : UInt32) (handler : ζ) (moments : List (Moment σ)) :
    Run σ (PeriodicTask (Tallied ζ)) := do
  moments.foldlM poll (← perform (begun.create offset period handler))

end Moment

-- The timer that a task created at a moment stands for.
def Moment.ideal (begun : Moment σ) (offset period : UInt32) : IdealTimer :=
  { first := begun.tick + offset.toNat, period := period.toNat }

-- A timer task on the wrapping counter, beside the timer it stands for.
structure Refines (ideal : IdealTimer) (task : PeriodicTask (Tallied ζ)) : Prop where
  period : task.period.toNat = ideal.period
  target : task.target.toNat = ideal.due % UInt32.size
  calls : task.handler.calls = ideal.fired

variable {ideal : IdealTimer} {task : PeriodicTask (Tallied ζ)} {moment begun : Moment σ}
  {board : σ}

theorem toUInt32_toNat (tick : Nat) : tick.toUInt32.toNat = tick % UInt32.size :=
  UInt32.toNat_ofNat'

-- Words compare as the ticks they stand for while these are near each other.
theorem hasReached_of_near {now target : UInt32} {tick : Nat}
    (hnow : now.toNat = tick % UInt32.size) (htarget : target.toNat = ideal.due % UInt32.size)
    (hnear : ideal.Near tick) :
    Ticks.hasReached now target = true ↔ ideal.due ≤ tick := by
  obtain ⟨hafter, hbefore⟩ := hnear
  rw [Ticks.hasReached_iff, Ticks.elapsed_toNat, hnow, htarget]
  simp only [UInt32.size]
  omega

-- Some call of the handler does not return.
abbrev Unreturned (σ ζ : Type) [DueHandler σ ζ] : Prop :=
  ∃ (handler : ζ) (board : σ), ¬ Ends (DueHandler.onDue handler) board fun (_ : ζ) _ => True

omit [TickCounter σ] in
theorem leaves_onDue (tallied : Tallied ζ) (board : σ) :
    Leaves (DueHandler.onDue tallied) board (fun next _ => next.calls = tallied.calls + 1)
      fun _ => Unreturned σ ζ := by
  simp only [DueHandler.onDue, leaves_bind, leaves_pure]
  unfold Leaves
  cases hrun : DueHandler.onDue tallied.handler board with
  | ok handler after => trivial
  | error fault after =>
      refine ⟨tallied.handler, board, ?_⟩
      rintro ⟨_, _, hok, _⟩
      rw [hrun] at hok
      cases hok

omit [DueHandler σ ζ] in
theorem refines_create (offset period : UInt32) (handler : ζ) :
    Refines (begun.ideal offset period)
      (begun.create offset period handler board).1 where
  period := rfl
  target := by
    have htarget : (begun.create offset period handler board).1.target =
        begun.tick.toUInt32 + offset := by rw [← begun.shows board]; rfl
    rw [htarget, UInt32.toNat_add, toUInt32_toNat]
    simp only [Moment.ideal, IdealTimer.due, UInt32.size]
    omega
  calls := rfl

omit [TickCounter σ] [DueHandler σ ζ] in
theorem Refines.target_after {ticks : List Nat}
    (h : Refines (ticks.foldl IdealTimer.poll ideal) task) :
    task.target.toNat = (ideal.first + task.handler.calls * ideal.period) % UInt32.size := by
  rw [h.target, h.calls, IdealTimer.due_foldl_poll]

-- A poll fires when the timer that does not wrap is due, and at no other moment.
theorem Refines.poll (h : Refines ideal task) (hnear : ideal.Near moment.tick) :
    Leaves (moment.poll task) board (fun next _ => Refines (ideal.poll moment.tick) next)
      fun _ => Unreturned σ ζ := by
  have hnow : (TickCounter.count (moment.reach board)).1.toNat = moment.tick % UInt32.size := by
    rw [moment.shows board, toUInt32_toNat]
  have hreached := hasReached_of_near hnow h.target hnear
  simp only [Moment.poll, Task.poll, PeriodicTask.poll, leaves_bind, leaves_perform]
  change Leaves (if Ticks.hasReached (TickCounter.count (moment.reach board)).1 task.target = true
    then _ else _) (TickCounter.count (moment.reach board)).2 _ _
  split
  · rename_i hdue
    rw [hreached] at hdue
    rw [IdealTimer.poll_of_due hdue]
    simp only [leaves_bind, leaves_pure]
    refine (leaves_onDue task.handler _).mono ?_ fun _ => id
    intro handler after hcalls
    refine ⟨h.period, ?_, hcalls.trans (congrArg (· + 1) h.calls)⟩
    rw [UInt32.toNat_add, h.target, h.period]
    simp only [IdealTimer.due, UInt32.size, Nat.succ_mul]
    omega
  · rename_i hearly
    rw [hreached] at hearly
    rw [IdealTimer.poll_of_early hearly, leaves_pure]
    exact h

theorem Refines.foldlM (moments : List (Moment σ)) (h : Refines ideal task)
    (hnear : IdealTimer.NearAll (moments.map Moment.tick) ideal) :
    Leaves (moments.foldlM Moment.poll task) board
      (fun next _ => Refines ((moments.map Moment.tick).foldl IdealTimer.poll ideal) next)
      fun _ => Unreturned σ ζ := by
  induction moments generalizing ideal task board with
  | nil => exact h
  | cons moment rest ih =>
      rw [List.foldlM_cons, leaves_bind]
      refine (h.poll hnear.1).mono ?_ fun _ => id
      exact fun next after hnext => ih hnext hnear.2

theorem refines_follow (offset period : UInt32) (handler : ζ) (moments : List (Moment σ))
    (hnear : IdealTimer.NearAll (moments.map Moment.tick)
      (begun.ideal offset period)) :
    Leaves (begun.follow offset period handler moments) board
      (fun task _ => Refines
        ((moments.map Moment.tick).foldl IdealTimer.poll (begun.ideal offset period)) task)
      fun _ => Unreturned σ ζ := by
  rw [Moment.follow, leaves_bind, leaves_perform]
  exact (refines_create offset period handler).foldlM moments hnear

-- A timer task on a counter of 32 bits does what a timer on unbounded ticks does,
-- as long as every poll finds the due tick less than half the range away. Polls at
-- one tick fire until as many firings as are due by then have been made.
theorem timer_refines_ideal (begun moment : Moment σ) (offset period : UInt32) (handler : ζ)
    (earlier : List (Moment σ)) (times : Nat) (board : σ)
    (hnear : IdealTimer.NearAll ((earlier ++ List.replicate times moment).map Moment.tick)
      (begun.ideal offset period)) :
    Leaves
      (do
        let before ← begun.follow offset period handler earlier
        let after ← (List.replicate times moment).foldlM Moment.poll before
        pure (before, after)) board
      (fun tasks _ =>
        let ideal := (earlier.map Moment.tick).foldl IdealTimer.poll (begun.ideal offset period)
        let first := begun.tick + offset.toNat
        let before := tasks.1
        let after := tasks.2
        before.handler.calls = ideal.fired ∧
        before.target.toNat = (first + before.handler.calls * period.toNat) % UInt32.size ∧
        after.target.toNat = (first + after.handler.calls * period.toNat) % UInt32.size ∧
        (times = 1 → after.handler.calls = before.handler.calls +
          if first + before.handler.calls * period.toNat ≤ moment.tick then 1 else 0) ∧
        (0 < period → (∀ other ∈ earlier, other.tick ≤ moment.tick) →
          after.handler.calls = min (before.handler.calls + times)
            (if moment.tick < first then 0 else (moment.tick - first) / period.toNat + 1)))
      fun _ => Unreturned σ ζ := by
  rw [List.map_append, List.map_replicate, IdealTimer.nearAll_append] at hnear
  simp only [leaves_bind, leaves_pure]
  refine (refines_follow offset period handler earlier hnear.1).mono ?_ fun _ => id
  intro before left hbefore
  refine (hbefore.foldlM (List.replicate times moment) ?_).mono ?_ fun _ => id
  · rw [List.map_replicate]
    exact hnear.2
  intro after _ hafter
  rw [List.map_replicate] at hafter
  have hcalls := hbefore.calls
  refine ⟨hcalls, hbefore.target_after, ?_, ?_, ?_⟩
  · rw [← List.foldl_append] at hafter
    exact hafter.target_after
  · rintro rfl
    rw [hafter.calls, hcalls, List.replicate_one, List.foldl_cons, List.foldl_nil,
      IdealTimer.fired_poll, IdealTimer.due_foldl_poll]
    rfl
  · intro hpositive hlast
    have hperiod : 0 < (begun.ideal offset period).period := UInt32.lt_iff_toNat_lt.mp hpositive
    have hticks : ∀ tick ∈ earlier.map Moment.tick, tick ≤ moment.tick := by
      simpa only [List.mem_map, forall_exists_index, and_imp, forall_apply_eq_imp_iff₂] using hlast
    rw [hafter.calls, hcalls,
      IdealTimer.fired_foldl_replicate hperiod hticks (Nat.zero_le _) times]
    rfl

end

section

open Bench

-- The bench shows whatever tick it is set to.
def Moment.onBench (tick : Nat) : Moment Board where
  tick
  reach board := { board with now := tick.toUInt32 }
  shows _ := rfl

theorem benchHandler_returns : ¬ Unreturned Board BenchHandler := by
  rintro ⟨handler, board, hnever⟩
  refine hnever ?_
  simp only [DueHandler.onDue, ends_bind, ends_perform, ends_pure]

-- Around the first wrap of the counter.
def wellBefore : Moment Board := .onBench 0xffffff00

def justBefore : Moment Board := .onBench 0xffffffce

def wellAfter : Moment Board := .onBench 0x1000000aa

-- The task is due 50 ticks before the counter wraps, and again 50 ticks after. Of
-- three polls 170 ticks after the wrap the first two catch up.
theorem timer_refines_ideal_wrapping :
    IdealTimer.NearAll (([justBefore] ++ List.replicate 3 wellAfter).map Moment.tick)
      (wellBefore.ideal 206 100) ∧
    Ends
      (do
        let before ← wellBefore.follow 206 100 (⟨"heartbeat", none⟩ : BenchHandler) [justBefore]
        let after ← (List.replicate 3 wellAfter).foldlM Moment.poll before
        pure (before, after)) ({} : Board)
      fun tasks _ => tasks.1.handler.calls = 1 ∧ tasks.1.target = 50 ∧
        tasks.2.handler.calls = 3 := by
  have hnear : IdealTimer.NearAll (([justBefore] ++ List.replicate 3 wellAfter).map Moment.tick)
      (wellBefore.ideal 206 100) := by
    simp [IdealTimer.NearAll, IdealTimer.Near, IdealTimer.poll, IdealTimer.due, Moment.ideal,
      wellBefore, justBefore, wellAfter, Moment.onBench, List.replicate]
  refine ⟨hnear, ?_⟩
  have hboth := timer_refines_ideal wellBefore wellAfter 206 100
    (⟨"heartbeat", none⟩ : BenchHandler) [justBefore] 3 {}
  simp only [hnear, true_implies] at hboth
  refine (hboth.ends fun _ => benchHandler_returns).mono ?_
  rintro ⟨before, after⟩ _ ⟨hcalls, htarget, _, _, hburst⟩
  have hfired : before.handler.calls = 1 := hcalls
  have hall := hburst (by decide) (by simp [justBefore, wellAfter, Moment.onBench])
  rw [hfired] at htarget hall
  exact ⟨hfired, UInt32.toNat_inj.mp htarget, hall⟩

end

end BoardControl.Scheduler
