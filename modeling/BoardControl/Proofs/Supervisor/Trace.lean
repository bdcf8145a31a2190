import BoardControl.Proofs.Recorded
import BoardControl.Proofs.Run
import BoardControl.Supervisor

namespace BoardControl.Supervisor

open Recorded

inductive Hook where
  | PowerOn
  | PowerOff
  | ResetDone
  | PowerLost
  | RailDegraded
  | Fault
deriving DecidableEq, Repr

-- What a supervisor asks of its rails, resets and hooks, each rail and reset by
-- its place in the list it was built from. `came` is the answer of the rail.
inductive Command where
  | SwitchOn (rail : Nat) (came : Bool)
  | SwitchOff (rail : Nat)
  | Hold (reset : Nat)
  | Release (reset : Nat)
  | Called (hook : Hook)
deriving DecidableEq, Repr

-- A rail or a reset line with its place.
structure Numbered (α : Type) where
  place : Nat
  part : α
deriving DecidableEq, Repr

def numbered {α : Type} (parts : List α) : List (Numbered α) :=
  parts.mapIdx Numbered.mk

-- What a kind of event keeps of the hooks of a supervisor.
class HookEvents (ε : Type) where
  called : Hook → ε
  degraded : String → ε := fun _ => called .RailDegraded

-- What a kind of event keeps of a supervisor at work: always its commands, and at will
-- what it reads from its rails and what its resets answer.
class Transcript (ε : Type) extends TickEvents ε where
  command : Command → ε
  degraded : String → ε := fun _ => command (.Called .RailDegraded)
  measured (rail : Nat) (good : Bool) : List ε := []
  asked (reset : Nat) (ready : Bool) : List ε := []

section

variable {σ ε ρ κ η : Type}

instance [Transcript ε] : HookEvents ε where
  called hook := Transcript.command (.Called hook)
  degraded := Transcript.degraded

instance [HookEvents ε] [Hooks σ η] : Hooks (Recorded σ ε) η where
  onPowerOn hooks := noting (fun _ => [HookEvents.called .PowerOn]) (Hooks.onPowerOn hooks)
  onPowerOff hooks := noting (fun _ => [HookEvents.called .PowerOff]) (Hooks.onPowerOff hooks)
  onResetDone hooks := noting (fun _ => [HookEvents.called .ResetDone]) (Hooks.onResetDone hooks)
  onPowerLost hooks := noting (fun _ => [HookEvents.called .PowerLost]) (Hooks.onPowerLost hooks)
  onRailDegraded name hooks :=
    noting (fun _ => [HookEvents.degraded name]) (Hooks.onRailDegraded name hooks)
  onFault hooks := notingRun (HookEvents.called .Fault) (Hooks.onFault hooks)

variable [Transcript ε]

instance [Rail σ ρ] : Rail (Recorded σ ε) (Numbered ρ) where
  name rail := Rail.name σ rail.part
  switchOn rail := noting (fun answer => [Transcript.command (.SwitchOn rail.place answer.isOk)])
    (Rail.switchOn rail.part)
  switchOff rail :=
    noting (fun _ => [Transcript.command (.SwitchOff rail.place)]) (Rail.switchOff rail.part)
  isGood rail := noting (Transcript.measured rail.place) (Rail.isGood rail.part)
  isCritical rail := Rail.isCritical σ rail.part
  isInputSupply rail := Rail.isInputSupply σ rail.part

instance [Reset σ κ] : Reset (Recorded σ ε) (Numbered κ) where
  name line := Reset.name σ line.part
  hold line := noting (fun _ => [Transcript.command (.Hold line.place)]) do
    pure { line with part := ← Reset.hold line.part }
  release line := noting (fun _ => [Transcript.command (.Release line.place)]) do
    pure { line with part := ← Reset.release line.part }
  isReady line := noting (fun answer => Transcript.asked line.place answer.1) do
    let (ready, part) ← Reset.isReady line.part
    pure (ready, { line with part })

-- The hook for a fault comes back, whatever the board is.
def FaultReturns (σ η : Type) [Hooks σ η] : Prop :=
  ∀ (hooks : η) (board : σ), ∃ value after, Hooks.onFault hooks board = .ok value after

end

-- A board whose commands are written down, and nothing else.
abbrev Traced (σ : Type) := Recorded σ Command

instance : Transcript Command where
  command := id

@[simp] theorem transcript_command (command : Command) :
    Transcript.command command = command := rfl

end BoardControl.Supervisor
