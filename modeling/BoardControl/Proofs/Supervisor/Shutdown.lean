import BoardControl.Bench.Board
import BoardControl.Proofs.Supervisor.Probed
import BoardControl.Proofs.Supervisor.Safety
import BoardControl.Rail.Switched
import BoardControl.Reset.Line

namespace BoardControl

section

variable {σ π δ : Type} [TickCounter σ] [Logger σ] [OutputPin σ π] [InputPin σ δ]

-- What a line may have become, on any boards, while it was asked and held but not
-- released.
inductive ResetLine.Unreleased (σ : Type) {π δ : Type} [TickCounter σ] [Logger σ] [OutputPin σ π]
    [InputPin σ δ] (line : ResetLine π δ) : ResetLine π δ → Prop where
  | start : Unreleased σ line line
  | held {later : ResetLine π δ} (earlier : Unreleased σ line later) (board : σ) :
      Unreleased σ line (later.hold board).1
  | asked {later : ResetLine π δ} (earlier : Unreleased σ line later) (board : σ) :
      Unreleased σ line (later.isReady board).1.2

-- A delay that was not started is not started by a question.
theorem ResetLine.Unreleased.readiness {line later : ResetLine π δ} {ticks : UInt16}
    (h : Unreleased σ line later) (hline : line.readiness = .Delay ticks none false) :
    later.readiness = .Delay ticks none false := by
  induction h with
  | start => exact hline
  | held _ board ih => rw [hold_value, ResetLine.held, ih]
  | asked _ board ih =>
      rw [isReady, ih]
      exact ih

omit [Logger σ] [OutputPin σ π] in
theorem ResetLine.isReady_of_unstarted {line : ResetLine π δ} {ticks : UInt16}
    (hline : line.readiness = .Delay ticks none false) (board : σ) :
    (line.isReady board).1.1 = false := by
  rw [isReady, hline]
  rfl

end

namespace Supervisor

open Run

section

variable {σ π ι ς δ η : Type}

def offEvent (rail : SwitchedRail π ι ς) : PinEvent π :=
  .Drove rail.enable (rail.polarity.level false)

def heldEvent (line : ResetLine π δ) : PinEvent π := .Drove line.pin (line.polarity.level true)

theorem pins_off (rails : List (SwitchedRail π ι ς)) :
    (rails.map offEvent).filterMap PinEvent.pin? = rails.map SwitchedRail.enable := by
  rw [List.filterMap_map]
  exact congrFun List.filterMap_eq_map rails

theorem pins_held (lines : List (ResetLine π δ)) :
    (lines.map heldEvent).filterMap PinEvent.pin? = lines.map ResetLine.pin := by
  rw [List.filterMap_map]
  exact congrFun List.filterMap_eq_map lines

theorem pins_paused (ticks : UInt32) (rails : List (SwitchedRail π ι ς)) :
    (rails.flatMap fun rail => [offEvent rail, .Slept ticks]).filterMap PinEvent.pin? =
      rails.map SwitchedRail.enable := by
  induction rails with
  | nil => rfl
  | cons rail rest ih => exact congrArg (List.cons rail.enable) ih

variable [TickCounter σ] [Logger σ] [OutputPin σ π] [InputPin σ ι] [VoltageSensor σ ς]
  [InputPin σ δ] [Hooks σ η]

theorem holdInOrder_value (lines : List (ResetLine π δ)) (board : σ) :
    (holdInOrder lines board).1 = lines.map ResetLine.held := by
  induction lines generalizing board with
  | nil => rfl
  | cons line rest ih => exact congrArg₂ List.cons (ResetLine.hold_value line board) (ih _)

theorem holdFromLast_value (lines : List (ResetLine π δ)) (board : σ) :
    (holdFromLast lines board).1 = lines.map ResetLine.held := by
  induction lines generalizing board with
  | nil => rfl
  | cons line rest ih => exact congrArg₂ List.cons (ResetLine.hold_value line _) (ih board)

variable [DecidableEq π] {panel : Panel σ π η}

theorem switchOff_steers (rail : SwitchedRail π ι ς) :
    Steers panel (Rail.switchOff rail) [offEvent rail] := by
  have hdriven : Steers panel (rail.drive false) [offEvent rail] := .drive _ _ _
  exact hdriven.warned _ _ (.pure ())

theorem hold_steers (line : ResetLine π δ) :
    Steers panel (Reset.hold line) [heldEvent line] := by
  have hdriven : Steers panel (line.polarity.drive line.pin true) [heldEvent line] := .drive _ _ _
  exact (Steers.log _ _).bind fun _ => hdriven.warned _ _ (.pure line.held)

theorem switchOffEach_steers (rails : List (SwitchedRail π ι ς)) :
    Steers panel (switchOffEach rails) (rails.map offEvent) := by
  induction rails with
  | nil => exact .pure ()
  | cons rail rest ih => exact (switchOff_steers rail).bind fun _ => ih

theorem switchOffPaused_steers (ticks : UInt32) (rails : List (SwitchedRail π ι ς)) :
    Steers panel (switchOffPaused (TickCounter.sleep ticks) rails)
      (rails.flatMap fun rail => [offEvent rail, .Slept ticks]) := by
  induction rails with
  | nil => exact .pure ()
  | cons rail rest ih =>
      exact (switchOff_steers rail).bind fun _ => (Steers.sleep ticks).bind fun _ => ih

theorem holdInOrder_steers (lines : List (ResetLine π δ)) :
    Steers panel (holdInOrder lines) (lines.map heldEvent) := by
  induction lines with
  | nil => exact .pure []
  | cons line rest ih =>
      refine (hold_steers line).bind fun held => ?_
      rw [← List.append_nil (rest.map heldEvent)]
      exact ih.bind fun rest => .pure (held :: rest)

theorem holdFromLast_steers (lines : List (ResetLine π δ)) :
    Steers panel (holdFromLast lines) (lines.reverse.map heldEvent) := by
  induction lines with
  | nil => exact .pure []
  | cons line rest ih =>
      rw [List.reverse_cons, List.map_append]
      exact ih.bind fun rest => (hold_steers line).bind fun held => .pure (held :: rest)

-- In the order of a power-off, and of an emergency.

def powerOffEvents (sup : Supervisor (SwitchedRail π ι ς) (ResetLine π δ) η) :
    List (PinEvent π) :=
  sup.resets.reverse.map heldEvent ++
    sup.rails.reverse.flatMap (fun rail => [offEvent rail, .Slept 10]) ++ [.Called .PowerOff]

def emergencyEvents (sup : Supervisor (SwitchedRail π ι ς) (ResetLine π δ) η) :
    List (PinEvent π) :=
  sup.rails.reverse.map offEvent ++ sup.resets.map heldEvent ++ [.Called .Fault]

variable (panel) (sup : Supervisor (SwitchedRail π ι ς) (ResetLine π δ) η) (probed : Probed σ π)

theorem powerOff_tracked : Ends sup.powerOff probed fun next after =>
    Tracked panel (powerOffEvents sup) probed after ∧ next.rails = sup.rails ∧
      next.resets = sup.resets.map ResetLine.held := by
  simp only [powerOff, ends_bind, ends_perform, ends_pure]
  have hlogged : Tracked panel [] probed (log .Info "Turning power off" probed).2 :=
    Steers.log _ _ probed
  have hheld := hlogged.append (holdFromLast_steers sup.resets _)
  have hoff := hheld.append (switchOffPaused_steers Settings.railOffSettle sup.rails.reverse _)
  have hcalled := hoff.append (Steers.onPowerOff sup.hooks _)
  exact ⟨hcalled, rfl, holdFromLast_value sup.resets _⟩

theorem onFault_tracked (hreturns : FaultReturns σ η) (hooks : η) :
    Ends (Hooks.onFault hooks) probed fun _ after =>
      Tracked panel [.Called .Fault] probed after := by
  obtain ⟨value, after, hrun⟩ := hreturns hooks probed.board
  refine ⟨value, _, Recorded.notingRun_ok hrun, ?_⟩
  exact .of_contact_eq (panel.onFault hooks value probed.board after hrun) rfl rfl

theorem emergencyOff_tracked (hreturns : FaultReturns σ η) :
    Ends sup.emergencyOff probed fun next after =>
      Tracked panel (emergencyEvents sup) probed after ∧ next.rails = sup.rails ∧
        next.resets = sup.resets.map ResetLine.held := by
  simp only [emergencyOff, ends_bind, ends_perform, ends_pure]
  have hoff : Tracked panel (sup.rails.reverse.map offEvent) probed
      (switchOffEach sup.rails.reverse probed).2 := switchOffEach_steers _ probed
  have hheld := hoff.append (holdInOrder_steers sup.resets _)
  have hlogged := hheld.append (Steers.log .Error "Panic shutdown completed" _)
  rw [List.append_nil] at hlogged
  refine (onFault_tracked panel _ hreturns sup.hooks).mono fun hooks after hcalled => ?_
  exact ⟨hlogged.append hcalled, rfl, holdInOrder_value sup.resets _⟩

end

section

variable {σ π ι ς δ η : Type} [TickCounter σ] [Logger σ] [OutputPin σ π] [InputPin σ δ]
  [Hooks σ η]

-- Every pin that worked is as a shutdown wants it, and every line is held: it is
-- called ready no sooner than it was released again, if it is delayed.
structure ShutDown (panel : Panel σ π η) (sup : Supervisor (SwitchedRail π ι ς) (ResetLine π δ) η)
    (before : σ) (next : Supervisor (SwitchedRail π ι ς) (ResetLine π δ) η) (after : σ) :
    Prop where
  off : ∀ rail ∈ sup.rails, (panel.contact before rail.enable).broken = false →
    panel.contact after rail.enable = ⟨rail.polarity.level false, false⟩
  held : ∀ line ∈ sup.resets, (panel.contact before line.pin).broken = false →
    panel.contact after line.pin = ⟨line.polarity.level true, false⟩
  rails_eq : next.rails = sup.rails
  resets_eq : next.resets = sup.resets.map ResetLine.held
  asserted : ∀ line ∈ next.resets, line.asserted = true
  unready : ∀ line ∈ next.resets, ∀ ticks start done, line.readiness = .Delay ticks start done →
    ∀ later, line.Unreleased σ later → ∀ board : σ, (later.isReady board).1.1 = false

theorem asserted_held (line : ResetLine π δ) : line.held.asserted = true := by
  rw [ResetLine.held]
  split <;> rfl

theorem readiness_held {line : ResetLine π δ} {ticks : UInt16} {start : Option UInt32}
    {done : Bool} (h : line.held.readiness = .Delay ticks start done) :
    line.held.readiness = .Delay ticks none false := by
  simp only [ResetLine.held] at h ⊢
  split at h <;> simp_all

variable [DecidableEq π] {panel : Panel σ π η}
  {sup next : Supervisor (SwitchedRail π ι ς) (ResetLine π δ) η} {probed after : Probed σ π}
  {events : List (PinEvent π)}

-- A pin that works and is driven once is left as it was driven.
theorem Tracked.contact_eq {pin : π} {level : Bool} (h : Tracked panel events probed after)
    (hmem : .Drove pin level ∈ events) (hpins : (events.filterMap PinEvent.pin?).Nodup)
    (hworks : (panel.contact probed.board pin).broken = false) :
    panel.contact after.board pin = ⟨level, false⟩ := by
  have hlevel := h.level_eq pin hworks
  rw [lastLevel_of_mem hmem hpins] at hlevel
  have hbroken := (h.broken_eq pin).trans hworks
  cases hcontact : panel.contact after.board pin
  simp_all

theorem Tracked.shutDown (h : Tracked panel events probed after)
    (hoff : ∀ rail ∈ sup.rails, offEvent rail ∈ events)
    (hheld : ∀ line ∈ sup.resets, heldEvent line ∈ events)
    (hpins : (events.filterMap PinEvent.pin?).Nodup) (hrails : next.rails = sup.rails)
    (hresets : next.resets = sup.resets.map ResetLine.held) :
    ShutDown panel sup probed.board next after.board where
  off rail hrail := h.contact_eq (hoff rail hrail) hpins
  held line hline := h.contact_eq (hheld line hline) hpins
  rails_eq := hrails
  resets_eq := hresets
  asserted := by
    rw [hresets]
    intro line hline
    obtain ⟨earlier, -, rfl⟩ := List.mem_map.mp hline
    exact asserted_held earlier
  unready := by
    rw [hresets]
    intro line hline ticks start done hdelay later hlater
    obtain ⟨earlier, -, rfl⟩ := List.mem_map.mp hline
    exact ResetLine.isReady_of_unstarted (hlater.readiness (readiness_held hdelay))

end

section

variable {σ π ι ς δ η : Type} [TickCounter σ] [Logger σ] [OutputPin σ π] [InputPin σ ι]
  [VoltageSensor σ ς] [InputPin σ δ] [Hooks σ η]

-- A pin that cannot be driven neither stops a shutdown nor changes its order.
theorem shutdown_completes (panel : Panel σ π η) (hreturns : FaultReturns σ η)
    (sup : Supervisor (SwitchedRail π ι ς) (ResetLine π δ) η)
    (hpins : (sup.rails.map SwitchedRail.enable ++ sup.resets.map ResetLine.pin).Nodup)
    (probed : Probed σ π) :
    (Ends sup.powerOff probed fun next after =>
      after.events = probed.events ++ powerOffEvents sup ∧
        ShutDown panel sup probed.board next after.board) ∧
    Ends sup.emergencyOff probed fun next after =>
      after.events = probed.events ++ emergencyEvents sup ∧
        ShutDown panel sup probed.board next after.board := by
  classical
  have hrails := (List.reverse_perm sup.rails).map SwitchedRail.enable
  have hresets := (List.reverse_perm sup.resets).map ResetLine.pin
  constructor
  · refine (powerOff_tracked panel sup probed).mono fun next after ⟨htracked, hsame, hheld⟩ => ?_
    refine ⟨htracked.events_eq, htracked.shutDown ?_ ?_ ?_ hsame hheld⟩
    · intro rail hrail
      simp only [powerOffEvents, List.mem_append, List.mem_flatMap, List.mem_reverse]
      exact .inl (.inr ⟨rail, hrail, List.mem_cons_self⟩)
    · intro line hline
      simp only [powerOffEvents, List.mem_append, List.mem_map, List.mem_reverse]
      exact .inl (.inl ⟨line, hline, rfl⟩)
    · rw [powerOffEvents, List.filterMap_append, List.filterMap_append, pins_held, pins_paused]
      have hcalled : ([.Called .PowerOff] : List (PinEvent π)).filterMap PinEvent.pin? = [] := rfl
      rw [hcalled, List.append_nil]
      exact (List.perm_append_comm.trans (hrails.append hresets)).nodup_iff.mpr hpins
  · refine (emergencyOff_tracked panel sup probed hreturns).mono
      fun next after ⟨htracked, hsame, hheld⟩ => ?_
    refine ⟨htracked.events_eq, htracked.shutDown ?_ ?_ ?_ hsame hheld⟩
    · intro rail hrail
      simp only [emergencyEvents, List.mem_append, List.mem_map, List.mem_reverse]
      exact .inl (.inl ⟨rail, hrail, rfl⟩)
    · intro line hline
      simp only [emergencyEvents, List.mem_append, List.mem_map]
      exact .inl (.inr ⟨line, hline, rfl⟩)
    · rw [emergencyEvents, List.filterMap_append, List.filterMap_append, pins_held, pins_off]
      have hcalled : ([.Called .Fault] : List (PinEvent π)).filterMap PinEvent.pin? = [] := rfl
      rw [hcalled, List.append_nil]
      exact (hrails.append_right _).nodup_iff.mpr hpins

end

section

open Bench (Board)

theorem pin_setPin (name other : String) (pin : Bench.PinState) (board : Board) :
    (board.setPin name pin).pin other = if other = name then pin else board.pin other := by
  simp only [Board.pin, Board.setPin]
  split
  · rename_i hsame
    rw [hsame, Bench.Table.find?_insert]
    rfl
  · rename_i hother
    rw [Bench.Table.find?_insert_of_ne _ _ hother]

theorem write_bench (name : String) (level : Bool) (board : Board) (other : String) :
    (OutputPin.write name level board).2.pin other =
      if other = name then
        { board.pin name with
          level := if (board.pin name).broken then (board.pin name).level else level
          writes := (board.pin name).writes + 1 }
      else board.pin other := by
  rw [← pin_setPin]
  simp only [OutputPin.write, Action.bind_apply, get, getThe, MonadStateOf.get, StateT.get, pure]
  by_cases hbroken : (board.pin name).broken = true
  · simp only [hbroken, ↓reduceIte]
    rfl
  · simp only [hbroken, Bool.false_eq_true, ↓reduceIte]
    rfl

def benchPanel : Panel Board String Tolerant where
  contact board name := ⟨(board.pin name).level, (board.pin name).broken⟩
  driven name level board hworks := by
    simp only at hworks
    simp [write_bench, hworks]
  stuck name level board hbroken := by
    simpa [write_bench] using hbroken
  apart name other level board hother := by
    simp [write_bench, hother]
  logged _ _ _ := rfl
  slept _ _ := rfl
  onPowerOff _ _ := rfl
  onFault _ _ _ _ hrun := by
    cases hrun
    rfl

-- Two rails and two lines of both polarities, two of them on broken pins.
def crippled : Supervisor (SwitchedRail String String String) (ResetLine String String) Tolerant where
  rails := [.plain "core" "core_en" 5, .activeLow "io" "io_en" "io_good" 20]
  resets := [.delayed "processor" "processor_reset" .ActiveLow 100,
    .simple "link" "link_reset" .ActiveHigh]
  hooks := .mk
  state := { powerOn := true }

def crippledBoard : Probed Board String where
  board := { pins := { entries := [("core_en", { level := true }),
    ("io_en", { level := false, broken := true }),
    ("processor_reset", { level := true, broken := true }), ("link_reset", {})] } }

theorem shutdown_completes_broken_pins :
    FaultReturns Board Tolerant ∧
    (crippled.rails.map SwitchedRail.enable ++ crippled.resets.map ResetLine.pin).Nodup ∧
    (Ends crippled.powerOff crippledBoard fun next after =>
      after.events = crippledBoard.events ++ powerOffEvents crippled ∧
        ShutDown benchPanel crippled crippledBoard.board next after.board) ∧
    Ends crippled.emergencyOff crippledBoard fun next after =>
      after.events = crippledBoard.events ++ emergencyEvents crippled ∧
        ShutDown benchPanel crippled crippledBoard.board next after.board := by
  have hreturns : FaultReturns Board Tolerant := fun hooks board => ⟨hooks, board, rfl⟩
  have hpins : (crippled.rails.map SwitchedRail.enable ++
      crippled.resets.map ResetLine.pin).Nodup := by decide
  exact ⟨hreturns, hpins, shutdown_completes benchPanel hreturns crippled hpins crippledBoard⟩

end

end Supervisor

end BoardControl
