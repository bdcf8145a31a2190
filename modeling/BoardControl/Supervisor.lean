import BoardControl.Log
import BoardControl.Settings
import BoardControl.Supervisor.Sequence
import BoardControl.Ticks

namespace BoardControl

-- What an application adds to the supervisor. Everything may be left out; a
-- fault that is not handled halts the board, since supervision must not go on
-- after a rail fault.
class Hooks (σ η : Type) where
  onPowerOn : η → Action σ η := pure
  onPowerOff : η → Action σ η := pure
  onResetDone : η → Action σ η := pure
  onPowerLost : η → Action σ η := pure
  onRailDegraded : String → η → Action σ η := fun _ => pure
  onFault : η → Run σ η := fun _ => throw .Halted

-- Hooks with everything left out.
inductive NoHooks where
  | mk
deriving DecidableEq, Repr

instance (σ : Type) : Hooks σ NoHooks where

-- `resetIndex` is the stage of the reset chain that is waited for, and
-- `monitorIndex` the next rail to check.
structure SequencerState where
  powerOn : Bool := false
  resetsDone : Bool := false
  resetIndex : Nat := 0
  monitorIndex : Nat := 0
deriving DecidableEq, Repr

-- Brings rails up in list order and then releases resets one by one. While
-- powered it keeps checking both.
structure Supervisor (ρ κ η : Type) where
  rails : List ρ
  resets : List κ
  hooks : η
  state : SequencerState := {}

namespace Supervisor

section

variable {σ ρ κ η : Type}

-- Power and resets are down; the rail to check next is kept.
def cleared (sup : Supervisor ρ κ η) : Supervisor ρ κ η :=
  { sup with state := { monitorIndex := sup.state.monitorIndex } }

def withHooks (sup : Supervisor ρ κ η) (hooks : η) : Supervisor ρ κ η :=
  { sup with hooks := hooks }

def withResets (sup : Supervisor ρ κ η) (resets : List κ) : Supervisor ρ κ η :=
  { sup with resets := resets }

def completeResets [Logger σ] [Hooks σ η] (sup : Supervisor ρ κ η) :
    Run σ (Supervisor ρ κ η) := do
  perform (log .Info "Reset sequence complete")
  let state := { sup.state with resetsDone := true, resetIndex := sup.resets.length }
  pure { sup with state := state, hooks := ← perform (Hooks.onResetDone sup.hooks) }

-- Every rail off from last to first with no delay, then every reset held in
-- list order. Ends in the fault hook.
def emergencyOff [Logger σ] [Rail σ ρ] [Reset σ κ] [Hooks σ η] (sup : Supervisor ρ κ η) :
    Run σ (Supervisor ρ κ η) := do
  perform (switchOffEach sup.rails.reverse)
  let resets ← perform (holdInOrder sup.resets)
  perform (log .Error "Panic shutdown completed")
  pure { sup.cleared with resets := resets, hooks := ← Hooks.onFault sup.hooks }

-- Resets are held from last to first, then rails go off from last to first with
-- a settle time after each.
def powerOff [TickCounter σ] [Logger σ] [Rail σ ρ] [Reset σ κ] [Hooks σ η]
    (sup : Supervisor ρ κ η) : Run σ (Supervisor ρ κ η) := do
  perform (log .Info "Turning power off")
  let resets ← perform (holdFromLast sup.resets)
  perform (switchOffPaused (TickCounter.sleep Settings.railOffSettle) sup.rails.reverse)
  pure { sup.cleared with resets := resets, hooks := ← perform (Hooks.onPowerOff sup.hooks) }

-- The first rail that fails shuts everything down. Otherwise the reset chain
-- starts with the release of its first stage.
def powerOn [Logger σ] [Rail σ ρ] [Reset σ κ] [Hooks σ η] (sup : Supervisor ρ κ η) :
    Run σ (Supervisor ρ κ η) := do
  perform (log .Info "Turning power on")
  if ← perform (switchOnAll sup.rails) then
    perform (log .Info "Releasing resets")
    let sup := { sup with state := { powerOn := true } }
    let sup ← match sup.resets with
      | [] => sup.completeResets
      | first :: rest => do
          let first ← perform (Reset.release first)
          pure (sup.withResets (first :: rest))
    pure (sup.withHooks (← perform (Hooks.onPowerOn sup.hooks)))
  else
    sup.emergencyOff

-- Moves the chain on by one stage when its current stage is ready.
def advanceResets [Logger σ] [Reset σ κ] [Hooks σ η] (sup : Supervisor ρ κ η) :
    Run σ (Supervisor ρ κ η) := do
  let index := sup.state.resetIndex
  if sup.state.resetsDone || sup.resets.length ≤ index then
    pure sup
  else
    let (ready, resets) ← visit Reset.isReady index sup.resets
    let sup := sup.withResets resets
    if ready then
      let sup := { sup with state := { sup.state with resetIndex := index + 1 } }
      if sup.resets.length ≤ index + 1 then
        sup.completeResets
      else
        let (_, resets) ← visit (fun line => do pure ((), ← Reset.release line))
          (index + 1) sup.resets
        pure (sup.withResets resets)
    else
      pure sup

-- Holds everything after a stage, from last to first, and waits for that stage
-- again. The stage itself is left as it is.
def fallBackTo [Reset σ κ] (index : Nat) (sup : Supervisor ρ κ η) :
    Run σ (Supervisor ρ κ η) := do
  unless index + 1 ≤ sup.resets.length do throw .OutOfRange
  let after ← perform (holdFromLast (sup.resets.drop (index + 1)))
  let state := { sup.state with resetsDone := false, resetIndex := index }
  pure { sup with state := state, resets := sup.resets.take (index + 1) ++ after }

-- Moves the chain on, then rolls it back to the first earlier stage that is no
-- longer ready, since everything behind that stage was built on it.
def stepResets [Logger σ] [Reset σ κ] [Hooks σ η] (sup : Supervisor ρ κ η) :
    Run σ (Supervisor ρ κ η) := do
  let sup ← sup.advanceResets
  let (down, resets) ← firstDown sup.state.resetIndex sup.resets
  let sup := sup.withResets resets
  match down with
  | none => pure sup
  | some index =>
      let (name, _) ← visit (fun line => pure (Reset.name σ line, line)) index resets
      perform (log .Warn s!"{name} is no longer ready, restarting reset sequence from that point")
      sup.fallBackTo index

-- Checks one rail and moves on to the next. A bad rail is a fault, a loss of
-- the input supply, or only reported, by its kind.
def checkRail [TickCounter σ] [Logger σ] [Rail σ ρ] [Reset σ κ] [Hooks σ η]
    (sup : Supervisor ρ κ η) : Run σ (Supervisor ρ κ η) := do
  let count := sup.rails.length
  if count = 0 then
    pure sup
  else
    let index := sup.state.monitorIndex % count
    match sup.rails[index]? with
    | none => throw .OutOfRange
    | some rail =>
        let state := { sup.state with monitorIndex := (index + 1) % count }
        let sup := { sup with state := state }
        let name := Rail.name σ rail
        if ← perform (Rail.isGood rail) then
          pure sup
        else if Rail.isCritical σ rail then
          perform (log .Error s!"Rail {name} power failure - panic shutdown")
          sup.emergencyOff
        else if Rail.isInputSupply σ rail then
          perform (log .Warn s!"Input supply {name} lost - powering off")
          let sup ← sup.powerOff
          pure (sup.withHooks (← perform (Hooks.onPowerLost sup.hooks)))
        else
          perform (log .Warn s!"Rail {name} is not power good")
          pure (sup.withHooks (← perform (Hooks.onRailDegraded name sup.hooks)))

-- One pass: resets first, then one rail. Nothing is done while power is off.
def poll [TickCounter σ] [Logger σ] [Rail σ ρ] [Reset σ κ] [Hooks σ η]
    (sup : Supervisor ρ κ η) : Run σ (Supervisor ρ κ η) := do
  if sup.state.powerOn then
    (← sup.stepResets).checkRail
  else
    pure sup

end

end Supervisor

end BoardControl
