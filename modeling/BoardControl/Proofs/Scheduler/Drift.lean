import BoardControl.Proofs.Scheduler.Seat
import Mathlib.Data.List.Induction

namespace BoardControl.Scheduler

open Run Timed

namespace Event

def due? : Event → Option Nat
  | .Fired due _ => some due
  | _ => none

def restart? : Event → Option Nat
  | .Restarted tick => some tick
  | _ => none

end Event

-- The ticks that the handler was called for.
def dues (history : List Event) : List Nat := history.filterMap Event.due?

-- The tick one period after the latest one that the handler was called for.
def nextDue (first period : Nat) (history : List Event) : Nat :=
  history.foldl (fun due event => (event.due?.map (· + period)).getD due) first

def latestRestart (history : List Event) : Nat :=
  history.foldl (fun origin event => event.restart?.getD origin) 0

-- The due ticks follow each other at the period, and the handler is never called
-- before its due tick. A restart of the tick counter that finds the task overdue
-- makes it due at that moment instead.
def OnSchedule (first period : Nat) : List Event → Prop :=
  AtEach fun before event => ∀ due tick, event = .Fired due tick →
    due = max (nextDue first period before) (latestRestart before) ∧ due ≤ tick

-- No restart of the tick counter finds the task overdue.
def InTime (first period : Nat) : List Event → Prop :=
  AtEach fun before event => ∀ tick, event = .Restarted tick → tick ≤ nextDue first period before

section

variable {first period : Nat} {history : List Event} {event : Event}

theorem dues_snoc : dues (history ++ [event]) = dues history ++ event.due?.toList := by
  cases event <;> simp [dues, Event.due?]

theorem nextDue_snoc :
    nextDue first period (history ++ [event]) =
      (event.due?.map (· + period)).getD (nextDue first period history) :=
  List.foldl_concat _ _ _ _

theorem latestRestart_snoc :
    latestRestart (history ++ [event]) = event.restart?.getD (latestRestart history) :=
  List.foldl_concat _ _ _ _

-- Without a restart that finds the task overdue its due ticks are an arithmetic
-- progression.
theorem dues_of_inTime (h : OnSchedule first period history) (hintime : InTime first period history) :
    dues history = List.range' first (dues history).length period ∧
    nextDue first period history = first + period * (dues history).length ∧
    latestRestart history ≤ nextDue first period history := by
  induction history using List.reverseRecOn with
  | nil => simp [dues, nextDue, latestRestart]
  | append_singleton history event ih =>
      obtain ⟨hbefore, hevent⟩ := AtEach.of_snoc h
      obtain ⟨hintimeBefore, hintimeEvent⟩ := AtEach.of_snoc hintime
      obtain ⟨hdues, hnext, hrestart⟩ := ih hbefore hintimeBefore
      rw [dues_snoc, nextDue_snoc, latestRestart_snoc]
      cases event with
      | Fired due tick =>
          obtain ⟨hdue, _⟩ := hevent due tick rfl
          rw [Nat.max_eq_left hrestart] at hdue
          simp only [Event.due?, Event.restart?, Option.toList_some, Option.map_some,
            Option.getD_some, Option.getD_none, List.length_append, List.length_singleton]
          refine ⟨?_, ?_, ?_⟩
          · rw [List.range'_concat, ← hdues, hdue, hnext]
          · rw [hdue, hnext, Nat.mul_add, Nat.mul_one, Nat.add_assoc]
          · omega
      | Restarted tick =>
          have htick := hintimeEvent tick rfl
          simpa [Event.due?, Event.restart?] using ⟨hdues, hnext, htick⟩
      | Held reset => simpa [Event.due?, Event.restart?] using ⟨hdues, hnext, hrestart⟩
      | Released reset tick => simpa [Event.due?, Event.restart?] using ⟨hdues, hnext, hrestart⟩
      | Answered reset ready tick =>
          simpa [Event.due?, Event.restart?] using ⟨hdues, hnext, hrestart⟩

end

-- A handler with the number of its calls.
structure Counted (ζ : Type) where
  handler : ζ
  calls : Nat := 0
deriving DecidableEq, Repr

-- A timer task whose due ticks are written down when its handler was called.
structure Dated (ζ : Type) where
  timer : PeriodicTask (Counted ζ)
deriving DecidableEq, Repr

section

variable {σ ζ ν : Type}

-- When the task is due, across all restarts of the tick counter.
def Dated.due (dated : Dated ζ) (timed : Timed σ) : Nat :=
  timed.origin + dated.timer.target.toNat

-- The due tick of a task, as it was set when the tick counter began at `begun`.
structure Due (first period begun : Nat) (dated : Dated ζ) (timed : Timed σ) : Prop where
  paced : dated.timer.period.toNat = period
  restarted : timed.origin = latestRestart timed.history
  due : begun + dated.timer.target.toNat = max (nextDue first period timed.history) begun
  law : OnSchedule first period timed.history

abbrev DueNow (first period : Nat) (dated : Dated ζ) (timed : Timed σ) : Prop :=
  Due first period timed.origin dated timed

-- Something that holds at one moment, as long as it is that moment.
def During (moment : Nat) (holds : Dated ζ → Timed σ → Prop) (dated : Dated ζ) (timed : Timed σ) :
    Prop :=
  moment ≤ timed.real ∧ (timed.real = moment → holds dated timed)

-- The due tick and the tick counter are both in the range that ticks can be
-- compared in.
structure Ready (first period : Nat) (dated : Dated ζ) (timed : Timed σ) : Prop where
  due : DueNow first period dated timed
  count : timed.real - timed.origin < 0x80000000
  target : dated.timer.target.toNat < 0x80000000

-- The tick counter was restarted, which the task has not been told yet.
structure Restarting (first period : Nat) (delta : UInt32) (dated : Dated ζ) (timed : Timed σ) :
    Prop where
  due : ∃ begun, begun + delta.toNat = timed.origin ∧ Due first period begun dated timed
  fresh : timed.real = timed.origin
  target : dated.timer.target.toNat < 0x80000000

variable {first period begun moment : Nat} {delta : UInt32} {dated : Dated ζ}
  {timed next : Timed σ}

theorem Due.later (h : Due first period begun dated timed) (hlater : Later timed next) :
    Due first period begun dated next where
  paced := h.paced
  restarted := by rw [hlater.origin, hlater.history, h.restarted]
  due := by rw [hlater.history, h.due]
  law := by rw [hlater.history]; exact h.law

theorem During.lasting {holds : Dated ζ → Timed σ → Prop}
    (hlater : ∀ dated before after, Later before after → after.real = before.real →
      holds dated before → holds dated after)
    (hlaw : ∀ dated timed, holds dated timed → OnSchedule first period timed.history) :
    Lasting (During moment holds)
      fun timed => timed.real = moment → OnSchedule first period timed.history where
  later dated before after hnext h := by
    obtain ⟨hreal, hholds⟩ := h
    have hreal' := hnext.real
    refine ⟨Nat.le_trans hreal hreal', fun heq => ?_⟩
    exact hlater dated before after hnext (by omega) (hholds (by omega))
  broken dated timed h heq := hlaw dated timed (h.2 heq)

theorem ready_lasting (first period moment : Nat) :
    Lasting (During (σ := σ) (ζ := ζ) moment (Ready first period))
      fun timed => timed.real = moment → OnSchedule first period timed.history := by
  refine During.lasting (fun dated before after hlater hreal h => ?_) fun _ _ h => h.due.law
  have hdue := h.due.later hlater
  rw [← hlater.origin] at hdue
  exact ⟨hdue, by rw [hreal, hlater.origin]; exact h.count, h.target⟩

theorem restarting_lasting (first period moment : Nat) (delta : UInt32) :
    Lasting (During (σ := σ) (ζ := ζ) moment (Restarting first period delta))
      fun timed => timed.real = moment → OnSchedule first period timed.history := by
  refine During.lasting (fun dated before after hlater hreal h => ?_) fun _ _ h => ?_
  · obtain ⟨begun, hbegun, hdue⟩ := h.due
    refine ⟨⟨begun, ?_, hdue.later hlater⟩, ?_, h.target⟩
    · rw [hlater.origin, hbegun]
    · rw [hreal, hlater.origin, h.fresh]
  · obtain ⟨_, _, hdue⟩ := h.due
    exact hdue.law

theorem due_lasting (first period moment : Nat) :
    Lasting (During (σ := σ) (ζ := ζ) moment (DueNow first period))
      fun timed => timed.real = moment → OnSchedule first period timed.history := by
  refine During.lasting (fun dated before after hlater _ h => ?_) fun _ _ h => h.law
  rw [DueNow, hlater.origin]
  exact h.later hlater

-- A restart moves the origin, and the shift of the due tick makes up for it. A
-- due tick that has passed is moved to the restart.
theorem Restarting.shift (h : Restarting first period delta dated timed) :
    Ready first period ⟨dated.timer.shift delta⟩ timed := by
  obtain ⟨begun, hbegun, hdue⟩ := h.due
  have htarget := h.target
  have hold := hdue.due
  have hshift := Word.toNat_subSaturating dated.timer.target delta
  refine ⟨⟨hdue.paced, hdue.restarted, ?_, hdue.law⟩, ?_, ?_⟩
  · simp only [PeriodicTask.shift, hshift]
    omega
  · rw [h.fresh, Nat.sub_self]
    decide
  · simp only [PeriodicTask.shift, hshift]
    omega

theorem Ready.restart (h : Ready first period dated timed) :
    Restarting first period timed.reading dated timed.restarted := by
  have hcount := h.count
  have hbegun := timed.begun
  have hreading : timed.reading.toNat = timed.real - timed.origin := by
    simp only [reading, Nat.toUInt32_eq, UInt32.toNat_ofNat']
    omega
  refine ⟨⟨timed.origin, ?_, h.due.paced, ?_, ?_, ?_⟩, rfl, h.target⟩
  · rw [hreading]
    simp only [Timed.restarted]
    omega
  · rw [Timed.restarted, latestRestart_snoc]
    rfl
  · have hdue := h.due.due
    simp only [Timed.restarted, nextDue_snoc]
    exact hdue
  · exact h.due.law.snoc nofun

variable [Pace σ] [DueHandler σ ζ]

instance : DueHandler (Timed σ) (Counted ζ) where
  onDue counted := do
    let handler ← takingRun (DueHandler.onDue counted.handler)
    pure { handler, calls := counted.calls + 1 }

instance : Task (Timed σ) (Dated ζ) where
  poll dated := do
    let due := dated.due (← get)
    let timer ← Task.poll dated.timer
    unless timer.handler.calls = dated.timer.handler.calls do
      perform (note fun timed => .Fired due timed.real)
    pure ⟨timer⟩
  rebase delta dated := do pure ⟨← Task.rebase delta dated.timer⟩

-- What a poll comes to: the task is not due yet, or its handler is called and it
-- is due again one period later.
theorem leaves_poll (dated : Dated ζ) (timed : Timed σ) :
    Leaves (Task.poll dated) timed
      (fun next after =>
        (next = dated ∧ Later timed after) ∨
        (Ticks.hasReached timed.lapsed.reading dated.timer.target = true ∧
          next.timer.target = dated.timer.target + dated.timer.period ∧
          next.timer.period = dated.timer.period ∧
          ∃ called, Later timed.lapsed called ∧
            after = { called with
              history := called.history ++ [.Fired (dated.due timed) called.real] }))
      (Later timed) := by
  have hlapsed := Later.lapsed timed
  simp only [Task.poll, PeriodicTask.poll, leaves_bind, leaves_get, leaves_perform]
  split
  · rename_i hreached
    simp only [DueHandler.onDue, leaves_bind, leaves_pure]
    refine (takingRun_lasts _ timed.lapsed).mono ?_ fun _ => hlapsed.trans
    intro handler called hcalled
    rw [if_neg (Nat.succ_ne_self _)]
    exact .inr ⟨hreached, rfl, rfl, called, hcalled, rfl⟩
  · simp only [leaves_pure, ↓reduceIte]
    exact .inl ⟨trivial, hlapsed⟩

theorem Ready.poll (hperiod : period < 0x80000000)
    (h : During moment (Ready first period) dated timed) :
    Leaves (Task.poll dated) timed
      (During moment (DueNow first period))
      fun after => after.real = moment → OnSchedule first period after.history := by
  obtain ⟨hmoment, hready⟩ := h
  refine (leaves_poll dated timed).mono ?_ ?_
  · rintro next after (⟨rfl, hlater⟩ | ⟨hreached, htarget, hsame, called, hcalled, rfl⟩)
    · have hreal := hlater.real
      refine ⟨by omega, fun heq => ?_⟩
      rw [DueNow, hlater.origin]
      exact (hready (by omega)).due.later hlater
    · have hlapsed := Later.lapsed timed
      have hlater := hlapsed.trans hcalled
      have hreal := hlapsed.real
      have hreal' := hcalled.real
      refine ⟨by simp only; omega, fun heq => ?_⟩
      simp only at heq
      have hready := hready (by omega)
      have hnow : timed.lapsed.reading.toNat = timed.real - timed.origin := by
        have hcount := hready.count
        simp only [reading, Nat.toUInt32_eq, UInt32.toNat_ofNat', hlapsed.origin]
        omega
      have hpast := (hasReached_iff_le (by rw [hnow]; exact hready.count) hready.target).mp hreached
      have hdue := hready.due.due
      have hbegun := timed.begun
      have hnext : next.timer.target.toNat = dated.timer.target.toNat + period := by
        have hbound := hready.target
        rw [htarget, UInt32.toNat_add, hready.due.paced]
        omega
      refine ⟨by rw [hsame, hready.due.paced], ?_, ?_, ?_⟩
      · rw [latestRestart_snoc]
        exact (hready.due.later hlater).restarted
      · rw [nextDue_snoc, hnext]
        simp only [Event.due?, Option.map_some, Option.getD_some, Dated.due, hlater.origin]
        omega
      · refine (hready.due.later hlater).law.snoc ?_
        intro due tick hfired
        obtain ⟨rfl, rfl⟩ := Event.Fired.inj hfired
        rw [hlater.history, ← hready.due.restarted, Dated.due]
        omega
  · intro after hlater heq
    have hreal := hlater.real
    exact ((hready (by omega)).due.later hlater).law

-- A task that is registered once, in both tables of a scheduler.
structure Registered (scheduler : Scheduler) (handle seat : Nat) : Prop where
  task : ∀ other, scheduler.tasks[other]? = some seat ↔ other = handle
  timer : scheduler.timers.count handle = 1

variable {scheduler : Scheduler} {handle seat : Nat}

omit [Pace σ] [DueHandler σ ζ] in
theorem Registered.split_tasks (h : Registered scheduler handle seat) :
    ∃ front back, scheduler.tasks = front ++ seat :: back ∧ seat ∉ front ∧ seat ∉ back := by
  have hhandle := (h.task handle).mpr rfl
  obtain ⟨front, back, hsplit, hfront⟩ :=
    List.eq_append_cons_of_mem (List.mem_of_getElem? hhandle)
  refine ⟨front, back, hsplit, hfront, fun hmem => ?_⟩
  obtain ⟨index, hindex, hback⟩ := List.getElem_of_mem hmem
  have hfirst := (h.task front.length).mp (by simp [hsplit])
  have hsecond := (h.task (front.length + (index + 1))).mp (by
    rw [hsplit, List.getElem?_append_right (Nat.le_add_right _ _), Nat.add_sub_cancel_left,
      List.getElem?_cons_succ, List.getElem?_eq_getElem hindex, hback])
  omega

omit [Pace σ] [DueHandler σ ζ] in
theorem Registered.split_timers (h : Registered scheduler handle seat) :
    ∃ front back, scheduler.timers = front ++ handle :: back ∧ handle ∉ front ∧ handle ∉ back := by
  have hcount := h.timer
  have hmem : handle ∈ scheduler.timers := List.count_pos_iff.mp (by omega)
  obtain ⟨front, back, hsplit, hfront⟩ := List.eq_append_cons_of_mem hmem
  refine ⟨front, back, hsplit, hfront, List.count_eq_zero.mp ?_⟩
  rw [hsplit, List.count_append, List.count_cons_self, List.count_eq_zero.mpr hfront] at hcount
  omega

variable [Task (Timed σ) ν] [Quiet σ ν] {roster : Roster (Timed σ) (Dated ζ ⊕ ν)}

theorem ready_pollAll (hregistered : Registered scheduler handle seat) (hperiod : period < 0x80000000)
    (h : Seated seat (During moment (Ready first period)) roster) :
    Leaves (pollAll scheduler.tasks) roster
      (fun _ after => Seated seat (During moment (DueNow first period)) after)
      fun after => after.board.real = moment → OnSchedule first period after.board.history := by
  obtain ⟨front, back, htasks, hfront, hback⟩ := hregistered.split_tasks
  rw [htasks, pollAll_append, leaves_bind]
  refine Leaves.mono (h.pollAll (ready_lasting ..) front (absurd · hfront)) ?_ fun _ => id
  intro _ before hbefore
  rw [pollAll, leaves_bind]
  refine Leaves.mono (hbefore.used fun dated timed => Ready.poll hperiod) ?_ fun _ => id
  exact fun _ _ hpolled => hpolled.pollAll (due_lasting ..) back (absurd · hback)

theorem restarting_shiftTimers (hregistered : Registered scheduler handle seat)
    (h : Seated seat (During moment (Restarting first period delta)) roster) :
    Leaves (shiftTimers scheduler.tasks delta scheduler.timers) roster
      (fun _ after => Seated seat (During moment (Ready first period)) after)
      fun after => after.board.real = moment → OnSchedule first period after.board.history := by
  obtain ⟨front, back, htimers, hfront, hback⟩ := hregistered.split_timers
  have helsewhere : ∀ {handles : List Nat} {place : Nat}, handle ∉ handles → place ∈ handles →
      scheduler.tasks[place]? ≠ some seat := by
    intro handles place hnone hmem hplace
    obtain rfl := (hregistered.task place).mp hplace
    exact hnone hmem
  rw [htimers, shiftTimers_append, leaves_bind]
  refine Leaves.mono (h.shiftTimers (restarting_lasting ..) _ _ front
    fun place hmem hplace => absurd hplace (helsewhere hfront hmem)) ?_ fun _ => id
  intro _ before hbefore
  have hshift : ∀ (dated : Dated ζ) (timed : Timed σ),
      During moment (Restarting first period delta) dated timed →
      Leaves (Task.rebase delta dated) timed (During moment (Ready first period))
        fun after => after.real = moment → OnSchedule first period after.history :=
    fun dated timed h => ⟨h.1, fun heq => (h.2 heq).shift⟩
  rw [shiftTimers, (hregistered.task handle).mpr rfl]
  simp only [leaves_bind]
  refine Leaves.mono (hbefore.used hshift) ?_ fun _ => id
  exact fun _ _ hshifted => hshifted.shiftTimers (ready_lasting ..) _ _ back
    fun place hmem hplace => absurd hplace (helsewhere hback hmem)

-- A pass in which no time goes by.
theorem ready_pass (hregistered : Registered scheduler handle seat) (hperiod : period < 0x80000000)
    (h : Seated seat (Ready first period) roster) :
    Leaves (scheduler.pass (pure ())) roster
      (fun _ after => after.board.real = roster.board.real →
        Seated seat (DueNow first period) after)
      fun after => after.board.real = roster.board.real →
        OnSchedule first period after.board.history := by
  have hlapsed := Later.lapsed roster.board
  have hcounted : Seated seat (During roster.board.real (Ready first period))
      { roster with board := roster.board.lapsed } := h.onBoard fun dated hready =>
    (ready_lasting ..).later dated _ _ hlapsed ⟨Nat.le_refl _, fun _ => hready⟩
  have hpolled : ∀ {roster' : Roster (Timed σ) (Dated ζ ⊕ ν)},
      Seated seat (During roster.board.real (Ready first period)) roster' →
      Leaves (pollAll scheduler.tasks) roster'
        (fun _ after => after.board.real = roster.board.real →
          Seated seat (DueNow first period) after)
        fun after => after.board.real = roster.board.real →
          OnSchedule first period after.board.history := by
    intro roster' hready
    refine (ready_pollAll hregistered hperiod hready).mono ?_ fun _ => id
    exact fun _ after hdue heq => hdue.onBoard fun dated hduring => hduring.2 heq
  simp only [Scheduler.pass, leaves_bind, leaves_onBoard, leaves_perform]
  split
  · simp only [leaves_bind, leaves_onBoard, leaves_perform, leaves_pure]
    have hrestarted : Seated seat
        (During roster.board.real (Restarting first period roster.board.lapsed.reading))
        { roster with board := roster.board.lapsed.lapsed.restarted } := by
      refine hcounted.onBoard fun dated hduring => ?_
      have hagain := Later.lapsed roster.board.lapsed
      obtain ⟨hmoment, hready⟩ := (ready_lasting ..).later dated _ _ hagain hduring
      refine ⟨hmoment, fun heq => ?_⟩
      have hreal := hlapsed.real
      have hreal' := hagain.real
      have hsame : roster.board.lapsed.lapsed.real = roster.board.real := heq
      have hreading : roster.board.lapsed.lapsed.reading = roster.board.lapsed.reading := by
        rw [reading, reading, hagain.origin]
        congr 2
        omega
      rw [← hreading]
      exact (hready hsame).restart
    refine Leaves.mono (restarting_shiftTimers hregistered hrestarted) ?_ fun _ => id
    exact fun _ _ => hpolled
  · simp only [leaves_bind, leaves_pure]
    exact hpolled hcounted

-- A while, and then one pass.
def round {τ : Type} [Task (Timed σ) τ] (scheduler : Scheduler) (wait : Nat) :
    Run (Roster (Timed σ) τ) Unit := do
  Roster.onBoard (perform fun timed => ((), timed.elapse wait))
  scheduler.pass (pure ())

def rounds {τ : Type} [Task (Timed σ) τ] (scheduler : Scheduler) (waits : List Nat) :
    Run (Roster (Timed σ) τ) Unit := forM waits (round scheduler)

-- No time goes by within a pass, and each pass finds the tick counter and the due
-- tick in the range that ticks can be compared in.
def Calm (scheduler : Scheduler) (seat : Nat) : List Nat → Roster (Timed σ) (Dated ζ ⊕ ν) → Prop
  | [], _ => True
  | wait :: rest, roster =>
      let waited := { roster with board := roster.board.elapse wait }
      waited.board.real - waited.board.origin < 0x80000000 ∧
      (∀ dated, roster.tasks[seat]? = some (.inl dated) → dated.timer.target.toNat < 0x80000000) ∧
      match scheduler.pass (pure ()) waited with
      | .ok _ after => after.board.real = waited.board.real ∧ Calm scheduler seat rest after
      | .error _ after => after.board.real = waited.board.real

theorem due_rounds (hregistered : Registered scheduler handle seat) (hperiod : period < 0x80000000)
    (waits : List Nat) (hcalm : Calm scheduler seat waits roster)
    (h : Seated seat (DueNow first period) roster) :
    Leaves (rounds scheduler waits) roster (fun _ after => Seated seat (DueNow first period) after)
      fun after => OnSchedule first period after.board.history := by
  induction waits generalizing roster with
  | nil => exact h
  | cons wait rest ih =>
      obtain ⟨hcount, htarget, hpass⟩ := hcalm
      have hready : Seated seat (Ready first period)
          { roster with board := roster.board.elapse wait } := by
        obtain ⟨dated, hthere, hdue⟩ := h.there
        refine ⟨⟨dated, hthere, ?_, hcount, htarget dated hthere⟩, h.alone⟩
        exact hdue.later (.elapse _ _)
      have hready := ready_pass hregistered hperiod hready
      rw [rounds, List.forM_cons, leaves_bind, round, leaves_bind, leaves_onBoard, leaves_perform]
      unfold Leaves at hready ⊢
      cases hrun : scheduler.pass (pure ()) { roster with board := roster.board.elapse wait } with
      | ok value after =>
          rw [hrun] at hready hpass
          exact ih hpass.2 (hready hpass.1)
      | error fault after =>
          rw [hrun] at hready hpass
          exact hready hpass

omit [DueHandler σ ζ] in
-- A new task is due an offset from now.
theorem due_created {offset period : UInt32} {handler : ζ} {board : σ} {real : Nat}
    {timer : PeriodicTask (Counted ζ)} {begun : Timed σ}
    (hcreated : PeriodicTask.create offset period { handler } ({ board, real } : Timed σ) =
      (timer, begun))
    (hoffset : offset.toNat < 0x80000000) (hcount : begun.real < 0x80000000) :
    DueNow (begun.real + offset.toNat) period.toNat ⟨timer⟩ begun := by
  obtain ⟨rfl, rfl⟩ := Prod.mk.inj hcreated
  have hlapsed := Later.lapsed ({ board, real } : Timed σ)
  have hreading : ({ board, real } : Timed σ).lapsed.reading.toNat =
      ({ board, real } : Timed σ).lapsed.real := by
    simp only [reading, hlapsed.origin, Nat.sub_zero, Nat.toUInt32_eq, UInt32.toNat_ofNat']
    exact Nat.mod_eq_of_lt (Nat.lt_trans hcount (by decide))
  have hbound : ({ board, real } : Timed σ).lapsed.real < 0x80000000 := hcount
  refine ⟨rfl, rfl, ?_, atEach_nil _⟩
  have htarget : (({ board, real } : Timed σ).lapsed.reading + offset).toNat =
      ({ board, real } : Timed σ).lapsed.real + offset.toNat := by
    rw [UInt32.toNat_add, hreading]
    omega
  change 0 + (({ board, real } : Timed σ).lapsed.reading + offset).toNat =
    max (({ board, real } : Timed σ).lapsed.real + offset.toNat) 0
  rw [htarget, Nat.zero_add, Nat.max_zero]

-- The handler of a timer task is called for due ticks at its period, however late
-- and irregular the passes are. Only a restart of the tick counter that finds the
-- task overdue moves its due tick, to that moment.
theorem due_ticks_on_schedule (earlier others : List ν) {offset period : UInt32} {handler : ζ}
    {board : σ} {real : Nat} {timer : PeriodicTask (Counted ζ)} {begun : Timed σ} (waits : List Nat)
    (hcreated : PeriodicTask.create offset period { handler } ({ board, real } : Timed σ) =
      (timer, begun))
    (hregistered : Registered scheduler handle earlier.length)
    (hoffset : offset.toNat < 0x80000000) (hperiod : period.toNat < 0x80000000)
    (hcount : begun.real < 0x80000000)
    (hcalm : Calm scheduler earlier.length waits (crewed earlier (Dated.mk timer) others begun)) :
    let history := chronicle (rounds scheduler waits) (crewed earlier (Dated.mk timer) others begun)
    let first := begun.real + offset.toNat
    OnSchedule first period.toNat history ∧
    (InTime first period.toNat history →
      dues history = List.range' first (dues history).length period.toNat) := by
  have hstart : Seated earlier.length (DueNow (begun.real + offset.toNat) period.toNat)
      (crewed earlier (Dated.mk timer) others begun) :=
    seated_crewed (due_created hcreated hoffset hcount)
  have hends := due_rounds hregistered hperiod waits hcalm hstart
  have hlaw : OnSchedule (begun.real + offset.toNat) period.toNat
      (chronicle (rounds scheduler waits) (crewed earlier (Dated.mk timer) others begun)) := by
    refine Leaves.final (hends.mono ?_ fun _ => id)
    intro _ after hafter
    obtain ⟨dated, _, hdue⟩ := hafter.there
    exact hdue.law
  exact ⟨hlaw, fun hintime => (dues_of_inTime hlaw hintime).1⟩

end

section

open Bench

variable {σ ζ ν : Type} [Pace σ] [DueHandler σ ζ] [Task (Timed σ) ν]

instance decidableCalm (scheduler : Scheduler) (seat : Nat) : (waits : List Nat) →
    (roster : Roster (Timed σ) (Dated ζ ⊕ ν)) → Decidable (Calm scheduler seat waits roster)
  | [], _ => isTrue trivial
  | wait :: rest, roster =>
      let waited : Roster (Timed σ) (Dated ζ ⊕ ν) :=
        { roster with board := roster.board.elapse wait }
      letI : Decidable (∀ dated, roster.tasks[seat]? = some (.inl dated) →
          dated.timer.target.toNat < 0x80000000) :=
        match roster.tasks[seat]? with
        | some (.inl dated) =>
            decidable_of_iff (dated.timer.target.toNat < 0x80000000) (by simp)
        | some (.inr _) => isTrue (by simp)
        | none => isTrue (by simp)
      letI : Decidable (match scheduler.pass (pure ()) waited with
          | .ok _ after => after.board.real = waited.board.real ∧ Calm scheduler seat rest after
          | .error _ after => after.board.real = waited.board.real) :=
        match scheduler.pass (pure ()) waited with
        | .ok _ after =>
            letI := decidableCalm scheduler seat rest after
            inferInstanceAs (Decidable (after.board.real = waited.board.real ∧
              Calm scheduler seat rest after))
        | .error _ after => inferInstanceAs (Decidable (after.board.real = waited.board.real))
      inferInstanceAs (Decidable (_ < _ ∧ _ ∧ _))

-- A heartbeat that is due at 55000, on a board whose counter stands at 50000.
def heartbeat : PeriodicTask (Counted BenchHandler) × Timed Board :=
  PeriodicTask.create 5000 Settings.heartbeatPeriod { handler := ⟨"heartbeat", none⟩ }
    { board := {}, real := 50000 }

def beating : Roster (Timed Board) (Dated BenchHandler ⊕ PeriodicTask BenchHandler) :=
  crewed [] (Dated.mk heartbeat.1) [] heartbeat.2

def onlyTimer : Scheduler := { tasks := [0], timers := [0] }

theorem onlyTimer_registered : Registered onlyTimer 0 0 where
  task other := by
    cases other with
    | zero => simp [onlyTimer]
    | succ other => simp [onlyTimer]
  timer := rfl

theorem due_ticks_on_schedule_heartbeat :
    Calm onlyTimer 0 [5000, 5500, 5000] beating ∧
    OnSchedule 55000 5000 (chronicle (rounds onlyTimer [5000, 5500, 5000]) beating) ∧
    (InTime 55000 5000 (chronicle (rounds onlyTimer [5000, 5500, 5000]) beating) →
      dues (chronicle (rounds onlyTimer [5000, 5500, 5000]) beating) =
        List.range' 55000 (dues (chronicle (rounds onlyTimer [5000, 5500, 5000]) beating)).length
          5000) := by
  have hcalm : Calm onlyTimer 0 [5000, 5500, 5000] beating := by decide +kernel
  have hcreated : PeriodicTask.create 5000 5000 { handler := ⟨"heartbeat", none⟩ }
      ({ board := {}, real := 50000 } : Timed Board) = (heartbeat.1, heartbeat.2) := rfl
  have hschedule := due_ticks_on_schedule ([] : List (PeriodicTask BenchHandler)) []
    [5000, 5500, 5000] hcreated onlyTimer_registered (by decide) (by decide) (by decide) hcalm
  exact ⟨hcalm, hschedule⟩

-- The restart at 60500 finds the heartbeat of 60000 overdue, and all later ones
-- come 500 ticks late.
theorem due_ticks_drift_at_restart :
    Registered onlyTimer 0 0 ∧ Calm onlyTimer 0 [5000, 5500, 5000] beating ∧
    dues (chronicle (rounds onlyTimer [5000, 5500, 5000]) beating) = [55000, 60500, 65500] ∧
    ∀ first, [55000, 60500, 65500] ≠ List.range' first 3 5000 := by
  refine ⟨onlyTimer_registered, by decide +kernel, by decide +kernel, ?_⟩
  intro first heq
  simp [List.range'] at heq
  omega

end

end BoardControl.Scheduler
