import BoardControl.Proofs.Supervisor.Upkeep
import BoardControl.Reset.Line
import BoardControl.Scheduler.Periodic

namespace BoardControl.Scheduler

open Run

-- What is written down about a run, oldest first. Resets go by their place in
-- the list, and ticks are counted across all restarts of the tick counter. `due`
-- is the tick that a timer task was due at when its handler was called at `tick`.
inductive Event where
  | Held (reset : Nat)
  | Released (reset tick : Nat)
  | Answered (reset : Nat) (ready : Bool) (tick : Nat)
  | Restarted (tick : Nat)
  | Fired (due tick : Nat)
deriving DecidableEq, Repr

-- A board that takes its time: how many ticks pass before the next thing is done.
class Pace (σ : Type) where
  lapse : Action σ Nat

-- The bench takes no time of its own.
instance : Pace Bench.Board where
  lapse := pure 0

-- Any board with a tick counter that runs on through its restarts. `real` counts
-- all ticks so far, and `origin` is where the tick counter was last restarted.
structure Timed (σ : Type) where
  board : σ
  real : Nat := 0
  origin : Nat := 0
  begun : origin ≤ real := by exact Nat.zero_le _
  history : List Event := []
deriving DecidableEq

namespace Timed

variable {σ α : Type}

def reading (timed : Timed σ) : UInt32 := (timed.real - timed.origin).toUInt32

def elapse (ticks : Nat) (timed : Timed σ) : Timed σ :=
  { timed with
    real := timed.real + ticks
    begun := Nat.le_trans timed.begun (Nat.le_add_right _ _) }

def restarted (timed : Timed σ) : Timed σ :=
  { timed with
    origin := timed.real
    begun := Nat.le_refl _
    history := timed.history ++ [.Restarted timed.real] }

def note (event : Timed σ → Event) : Action (Timed σ) Unit := fun timed =>
  ((), { timed with history := timed.history ++ [event timed] })

variable [Pace σ]

def lapsed (timed : Timed σ) : Timed σ :=
  let (ticks, board) := Pace.lapse timed.board
  elapse ticks { timed with board }

-- What the board does, after the time that it takes. The board does not see the
-- tick counter.
def taking (act : Action σ α) : Action (Timed σ) α := fun timed =>
  let timed := timed.lapsed
  let (value, board) := act timed.board
  (value, { timed with board })

def takingRun (run : Run σ α) : Run (Timed σ) α := fun timed =>
  let timed := timed.lapsed
  match run timed.board with
  | .ok value board => .ok value { timed with board }
  | .error fault board => .error fault { timed with board }

end Timed

open Timed

section

variable {σ ρ κ η π δ ζ τ : Type} [Pace σ]

instance : TickCounter (Timed σ) where
  count timed := (timed.lapsed.reading, timed.lapsed)
  sleep ticks timed := ((), timed.lapsed.elapse ticks.toNat)
  restart timed := ((), timed.lapsed.restarted)

instance [Logger σ] : Logger (Timed σ) where
  enabled severity timed := Logger.enabled severity timed.board
  record severity text timed :=
    (taking (fun board => ((), Logger.record severity text board)) timed).2

instance [OutputPin σ π] : OutputPin (Timed σ) π where
  write pin level := taking (OutputPin.write pin level)

instance [InputPin σ δ] : InputPin (Timed σ) δ where
  read pin := taking (InputPin.read pin)

instance [Rail σ ρ] : Rail (Timed σ) ρ where
  name rail := Rail.name σ rail
  switchOn rail := taking (Rail.switchOn rail)
  switchOff rail := taking (Rail.switchOff rail)
  isGood rail := taking (Rail.isGood rail)
  isCritical rail := Rail.isCritical σ rail
  isInputSupply rail := Rail.isInputSupply σ rail

instance [Hooks σ η] : Hooks (Timed σ) η where
  onPowerOn hooks := taking (Hooks.onPowerOn hooks)
  onPowerOff hooks := taking (Hooks.onPowerOff hooks)
  onResetDone hooks := taking (Hooks.onResetDone hooks)
  onPowerLost hooks := taking (Hooks.onPowerLost hooks)
  onRailDegraded name hooks := taking (Hooks.onRailDegraded name hooks)
  onFault hooks := takingRun (Hooks.onFault hooks)

-- A line that is described by its pins, or any other one of the board.
instance [Logger σ] [OutputPin σ π] [InputPin σ δ] [Reset σ κ] :
    Reset (Timed σ) (ResetLine π δ ⊕ κ) where
  name
    | .inl line => line.name
    | .inr line => Reset.name σ line
  hold
    | .inl line => do pure (.inl (← line.hold))
    | .inr line => do pure (.inr (← taking (Reset.hold line)))
  release
    | .inl line => do pure (.inl (← line.release))
    | .inr line => do pure (.inr (← taking (Reset.release line)))
  isReady
    | .inl line => do
        let (ready, line) ← line.isReady
        pure (ready, .inl line)
    | .inr line => do
        let (ready, line) ← taking (Reset.isReady line)
        pure (ready, .inr line)

instance [DueHandler σ ζ] : DueHandler (Timed σ) ζ where
  onDue handler := takingRun (DueHandler.onDue handler)

end

-- Time has passed, and nothing that is written down has happened.
structure Later {σ : Type} (before after : Timed σ) : Prop where
  history : after.history = before.history
  origin : after.origin = before.origin
  real : before.real ≤ after.real

namespace Later

variable {σ : Type} {before middle after : Timed σ}

theorem refl (timed : Timed σ) : Later timed timed := ⟨rfl, rfl, Nat.le_refl _⟩

theorem trans (h : Later before middle) (h' : Later middle after) : Later before after where
  history := by rw [h'.history, h.history]
  origin := by rw [h'.origin, h.origin]
  real := Nat.le_trans h.real h'.real

theorem elapse (timed : Timed σ) (ticks : Nat) : Later timed (timed.elapse ticks) :=
  ⟨rfl, rfl, Nat.le_add_right _ _⟩

theorem lapsed [Pace σ] (timed : Timed σ) : Later timed timed.lapsed :=
  ⟨rfl, rfl, Nat.le_add_right _ _⟩

end Later

section

variable {σ α β : Type}

def Lasts (act : Action (Timed σ) α) : Prop := ∀ timed, Later timed (act timed).2

def RunLasts (run : Run (Timed σ) α) : Prop :=
  ∀ timed, Leaves run timed (fun _ after => Later timed after) (Later timed)

theorem Lasts.pure (value : α) : Lasts (σ := σ) (Pure.pure value) := Later.refl

theorem Lasts.bind {act : Action (Timed σ) α} {next : α → Action (Timed σ) β} (hact : Lasts act)
    (hnext : ∀ value, Lasts (next value)) : Lasts (act >>= next) :=
  fun timed => (hact timed).trans (hnext _ _)

theorem RunLasts.perform {act : Action (Timed σ) α} (hact : Lasts act) : RunLasts (perform act) :=
  hact

theorem RunLasts.pure (value : α) : RunLasts (σ := σ) (Pure.pure value) := Later.refl

theorem RunLasts.bind {run : Run (Timed σ) α} {next : α → Run (Timed σ) β} (hrun : RunLasts run)
    (hnext : ∀ value, RunLasts (next value)) : RunLasts (run >>= next) := by
  intro timed
  rw [leaves_bind]
  refine (hrun timed).mono ?_ fun _ => id
  intro value middle hmiddle
  exact (hnext value middle).mono (fun _ _ => hmiddle.trans) fun _ => hmiddle.trans

theorem RunLasts.map {run : Run (Timed σ) α} (change : α → β) (hrun : RunLasts run) :
    RunLasts (change <$> run) := by
  rw [map_eq_pure_bind]
  exact hrun.bind fun value => .pure (change value)

variable {π δ κ : Type} [Pace σ]

theorem taking_lasts (act : Action σ α) : Lasts (taking act) :=
  fun timed => (Later.lapsed timed).trans ⟨rfl, rfl, Nat.le_refl _⟩

theorem takingRun_lasts (run : Run σ α) : RunLasts (takingRun run) := by
  intro timed
  have hlapsed := Later.lapsed timed
  unfold Leaves takingRun
  dsimp only
  cases run timed.lapsed.board with
  | ok value board => exact hlapsed.trans ⟨rfl, rfl, Nat.le_refl _⟩
  | error fault board => exact hlapsed.trans ⟨rfl, rfl, Nat.le_refl _⟩

theorem count_lasts : Lasts (TickCounter.count (σ := Timed σ)) := Later.lapsed

theorem sleep_lasts (ticks : UInt32) : Lasts (TickCounter.sleep (σ := Timed σ) ticks) :=
  fun timed => (Later.lapsed timed).trans (.elapse _ _)

theorem log_lasts [Logger σ] (severity : Severity) (text : String) :
    Lasts (log (σ := Timed σ) severity text) := by
  intro timed
  simp only [log]
  split
  · exact taking_lasts _ timed
  · exact .refl timed

theorem drive_lasts [OutputPin σ π] (polarity : Polarity) (pin : π) (asserted : Bool) :
    Lasts (polarity.drive (σ := Timed σ) pin asserted) := taking_lasts _

theorem hold_lasts [Logger σ] [OutputPin σ π] (line : ResetLine π δ) :
    Lasts (σ := σ) line.hold := by
  refine .bind (log_lasts _ _) fun _ => .bind (drive_lasts _ _ _) fun driven => ?_
  cases driven with
  | true => exact .pure _
  | false => exact .bind (log_lasts _ _) fun _ => .pure _

theorem release_lasts [Logger σ] [OutputPin σ π] (line : ResetLine π δ) :
    Lasts (σ := σ) line.release := by
  refine .bind (log_lasts _ _) fun _ => .bind (drive_lasts _ _ _) fun driven => ?_
  cases line.readiness with
  | Delay ticks start done =>
      have hend : Lasts (σ := σ) (do
          pure (line.released.startDelay ticks (← TickCounter.count))) :=
        .bind count_lasts fun _ => .pure _
      cases driven with
      | true => exact hend
      | false => exact .bind (log_lasts _ _) fun _ => hend
  | Immediate =>
      cases driven with
      | true => exact .pure _
      | false => exact .bind (log_lasts _ _) fun _ => .pure _
  | DonePin _ _ =>
      cases driven with
      | true => exact .pure _
      | false => exact .bind (log_lasts _ _) fun _ => .pure _

theorem isReady_lasts [InputPin σ δ] (line : ResetLine π δ) :
    Lasts (σ := σ) line.isReady := by
  unfold ResetLine.isReady
  split
  · exact .pure _
  · exact .bind count_lasts fun _ => .pure _
  · exact .pure _
  · refine .bind (.bind (taking_lasts _) fun reading => ?_) fun _ => .pure _
    cases reading with
    | none => exact .pure _
    | some level => exact .pure _

end

section

variable {σ ρ κ η π δ : Type} [Pace σ] [Logger σ] [OutputPin σ π] [InputPin σ δ] [Reset σ κ]

theorem line_hold_lasts (line : ResetLine π δ ⊕ κ) : Lasts (σ := σ) (Reset.hold line) := by
  cases line with
  | inl line => exact .bind (hold_lasts line) fun _ => .pure _
  | inr line => exact .bind (taking_lasts _) fun _ => .pure _

theorem line_release_lasts (line : ResetLine π δ ⊕ κ) : Lasts (σ := σ) (Reset.release line) := by
  cases line with
  | inl line => exact .bind (release_lasts line) fun _ => .pure _
  | inr line => exact .bind (taking_lasts _) fun _ => .pure _

theorem line_isReady_lasts (line : ResetLine π δ ⊕ κ) : Lasts (σ := σ) (Reset.isReady line) := by
  cases line with
  | inl line => exact .bind (isReady_lasts line) fun _ => .pure _
  | inr line => exact .bind (taking_lasts _) fun _ => .pure _

end

section

variable {σ ρ κ η : Type} [Pace σ] [Logger σ] [Rail σ ρ] [Hooks σ η] [Reset (Timed σ) κ]
  {keeps : List κ → Timed σ → Prop}

open Supervisor

-- On such a board only the reset lines need a look.
theorem upkeep_of_later
    (hlater : ∀ lines before after, Later before after → keeps lines before → keeps lines after)
    (hold : Served keeps fun line => do pure ((), ← Reset.hold line))
    (release : Served keeps fun line => do pure ((), ← Reset.release line))
    (isReady : Served keeps Reset.isReady) : Upkeep ρ η keeps := by
  have hspared : ∀ {α : Type} {act : Action (Timed σ) α}, Lasts act → Spared keeps act :=
    fun hlasts lines timed => hlater lines _ _ (hlasts timed)
  exact {
    log := fun _ _ => hspared (log_lasts _ _)
    sleep := fun _ => hspared (sleep_lasts _)
    switchOn := fun _ => hspared (taking_lasts _)
    switchOff := fun _ => hspared (taking_lasts _)
    isGood := fun _ => hspared (taking_lasts _)
    onPowerOn := fun _ => hspared (taking_lasts _)
    onPowerOff := fun _ => hspared (taking_lasts _)
    onResetDone := fun _ => hspared (taking_lasts _)
    onPowerLost := fun _ => hspared (taking_lasts _)
    onRailDegraded := fun _ _ => hspared (taking_lasts _)
    onFault := fun hooks lines timed hkeeps =>
      (takingRun_lasts (Hooks.onFault hooks) timed).mono
        (fun _ after hafter => hlater lines _ after hafter hkeeps)
        fun after hafter => ⟨lines, hlater lines _ after hafter hkeeps⟩
    hold := hold
    release := release
    isReady := isReady }

end

-- What every event of a history comes after.
def AtEach (holds : List Event → Event → Prop) (history : List Event) : Prop :=
  ∀ before event after, history = before ++ event :: after → holds before event

theorem atEach_nil (holds : List Event → Event → Prop) : AtEach holds [] := by
  intro before event after hnil
  cases before <;> cases hnil

theorem AtEach.snoc {holds : List Event → Event → Prop} {history : List Event} {event : Event}
    (h : AtEach holds history) (hevent : holds history event) : AtEach holds (history ++ [event]) := by
  intro before found after hsplit
  rcases List.eq_nil_or_concat after with rfl | ⟨middle, last, rfl⟩
  · obtain ⟨rfl, hlast⟩ := List.append_inj' hsplit rfl
    cases hlast
    exact hevent
  · rw [List.concat_eq_append, ← List.cons_append, ← List.append_assoc] at hsplit
    exact h before found middle (List.append_inj' hsplit rfl).1

theorem AtEach.of_snoc {holds : List Event → Event → Prop} {history : List Event} {event : Event}
    (h : AtEach holds (history ++ [event])) : AtEach holds history ∧ holds history event := by
  refine ⟨?_, h history event [] rfl⟩
  intro before found after hsplit
  apply h before found (after ++ [event])
  rw [hsplit, List.append_assoc, List.cons_append]

end BoardControl.Scheduler
