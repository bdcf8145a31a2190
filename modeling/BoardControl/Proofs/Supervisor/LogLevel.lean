import BoardControl.Proofs.Supervisor.Blind
import BoardControl.Proofs.Supervisor.Indices
import BoardControl.Proofs.Supervisor.Wired

namespace BoardControl.Supervisor

open Bitstream (Logged)
open Run

-- A rail and a reset line on their own, and a supervisor with its own.
structure Units (π ι ς δ η : Type) where
  rail : SwitchedRail π ι ς
  line : ResetLine π δ
  supervisor : Supervisor (SwitchedRail π ι ς) (ResetLine π δ) η

-- What may be done to them, and what may happen to the board in between.
inductive Order (σ : Type) where
  | InstallRail
  | SwitchOn
  | SwitchOff
  | IsGood
  | Measure
  | InstallLine
  | Hold
  | Release
  | IsReady
  | Supervise (which : Call)
  | Meanwhile (change : σ → σ)

inductive Reply where
  | Done
  | Came (answer : Except RailError Unit)
  | Found (yes : Bool)
  | Measured (millivolts : Option UInt32)
deriving DecidableEq, Repr

section

variable {σ π ι ς δ η : Type} [TickCounter σ] [OutputPin σ π] [InputPin σ ι] [InputPin σ δ]
  [VoltageSensor σ ς] [Hooks σ η]

def obey (units : Units π ι ς δ η) :
    Order σ → Run (Logged σ Journal) (Reply × Units π ι ς δ η)
  | .InstallRail => do
      perform units.rail.install
      pure (.Done, units)
  | .SwitchOn => do pure (.Came (← perform units.rail.switchOn), units)
  | .SwitchOff => do
      perform units.rail.switchOff
      pure (.Done, units)
  | .IsGood => do pure (.Found (← perform units.rail.looksGood), units)
  | .Measure => do pure (.Measured (← perform units.rail.millivolts?), units)
  | .InstallLine => do
      perform units.line.install
      pure (.Done, units)
  | .Hold => do pure (.Done, { units with line := ← perform units.line.hold })
  | .Release => do pure (.Done, { units with line := ← perform units.line.release })
  | .IsReady => do
      let (ready, line) ← perform units.line.isReady
      pure (.Found ready, { units with line })
  | .Supervise which => do
      pure (.Done, { units with supervisor := ← call units.supervisor which })
  | .Meanwhile change => do
      perform (Logged.lift (modify change))
      pure (.Done, units)

def obeyAll : List (Order σ) → Units π ι ς δ η →
    Run (Logged σ Journal) (List Reply × Units π ι ς δ η)
  | [], units => pure ([], units)
  | order :: rest, units => do
      let (reply, units) ← obey units order
      let (replies, units) ← obeyAll rest units
      pure (reply :: replies, units)

theorem blindfold_wired : Blindfold σ (SwitchedRail π ι ς) (ResetLine π δ) η where
  switchOn rail := rail.blind_switchOn
  switchOff rail := rail.blind_switchOff
  isGood rail := rail.blind_looksGood
  hold line := line.blind_hold
  release line := line.blind_release
  isReady line := line.blind_isReady

theorem Blindfold.call {ρ κ : Type} [Rail (Logged σ Journal) ρ] [Reset (Logged σ Journal) κ]
    (h : Blindfold σ ρ κ η) (sup : Supervisor ρ κ η) (which : Call) :
    RunBlind (call sup which : Run (Logged σ Journal) (Supervisor ρ κ η)) := by
  cases which with
  | Operate operation =>
      cases operation with
      | PowerOn => exact h.powerOn sup
      | PowerOff => exact h.powerOff sup
      | EmergencyOff => exact h.emergencyOff sup
      | Poll => exact h.poll sup
  | StepResets => exact h.stepResets sup
  | CheckRail => exact h.checkRail sup

theorem obey_blind (units : Units π ι ς δ η) (order : Order σ) : RunBlind (obey units order) := by
  cases order with
  | InstallRail => exact .bind (.perform units.rail.blind_install) fun _ => .pure _
  | SwitchOn => exact .bind (.perform units.rail.blind_switchOn) fun _ => .pure _
  | SwitchOff => exact .bind (.perform units.rail.blind_switchOff) fun _ => .pure _
  | IsGood => exact .bind (.perform units.rail.blind_looksGood) fun _ => .pure _
  | Measure => exact .bind (.perform units.rail.blind_millivolts?) fun _ => .pure _
  | InstallLine => exact .bind (.perform units.line.blind_install) fun _ => .pure _
  | Hold => exact .bind (.perform units.line.blind_hold) fun _ => .pure _
  | Release => exact .bind (.perform units.line.blind_release) fun _ => .pure _
  | IsReady => exact .bind (.perform units.line.blind_isReady) fun _ => .pure _
  | Supervise which => exact .bind (blindfold_wired.call units.supervisor which) fun _ => .pure _
  | Meanwhile change => exact .bind (.perform (.lift (modify change))) fun _ => .pure _

theorem obeyAll_blind (orders : List (Order σ)) (units : Units π ι ς δ η) :
    RunBlind (obeyAll orders units) := by
  induction orders generalizing units with
  | nil => exact .pure _
  | cons order rest ih =>
      exact .bind (obey_blind units order) fun result => .bind (ih result.2) fun _ => .pure _

-- Whatever is done, and whatever the pins and sensors show, the level of the log
-- makes no difference to what is answered, to what the units and the supervisor come
-- to, and to the board, which may count every access and every tick slept. Only
-- keeping no records can: a log that is on has then told of a rail with a sensor that
-- did not come up, and its sensor was read once more to say so.
theorem log_level_unseen (one other : Option Severity) (orders : List (Order σ))
    (units : Units π ι ς δ η) (board : σ) :
    let left : Logged σ Journal := ⟨board, { level := one }⟩
    let right : Logged σ Journal := ⟨board, { level := other }⟩
    Matches (fun left right => left.board = right.board) Eq
        (obeyAll orders units left) (obeyAll orders units right) ∨
      (one = none ∧ (final (obeyAll orders units) right).journal.Blames) ∨
      (other = none ∧ (final (obeyAll orders units) left).journal.Blames) := by
  intro left right
  have hblind := obeyAll_blind orders units
  refine (hblind.alike left right rfl).imp_right ?_
  rintro (⟨hlevel, hblames⟩ | ⟨hlevel, hblames⟩)
  · exact .inl ⟨(hblind.grew left).level_eq.symm.trans hlevel, hblames⟩
  · exact .inr ⟨(hblind.grew right).level_eq.symm.trans hlevel, hblames⟩

end

section

open Bench

-- A rail that is given no time to come up, and a sensor that finds it up for a
-- single reading.
def hurried : Units String String String String NoHooks where
  rail := .measured "core" "core_enable" "core_sense" ⟨1700, 1900⟩ 0
  line := .simple "processor" "processor_reset" .ActiveLow
  supervisor := { rails := [], resets := [], hooks := .mk }

def sagging : Board := ({} : Board).setSensor "core_sense" { script := [0, 1800, 0] }

def repliesOf {σ α β : Type} : EStateM.Result Fault σ (α × β) → Option α
  | .ok result _ => some result.1
  | .error _ _ => none

-- The record of the rail takes the reading that the next question would have had.
theorem log_level_seen :
    let run := obeyAll [.SwitchOn, .IsGood] hurried
    let left : Logged Board Journal := ⟨sagging, { level := none }⟩
    let right : Logged Board Journal := ⟨sagging, { level := some .Error }⟩
    repliesOf (run left) = some [.Came (.error .NotGood), .Found true] ∧
      repliesOf (run right) = some [.Came (.error .NotGood), .Found false] ∧
      ¬ Matches (fun left right => left.board = right.board) Eq (run left) (run right) := by
  intro run left right
  have hleft : repliesOf (run left) = some [.Came (.error .NotGood), .Found true] := by
    decide +kernel
  have hright : repliesOf (run right) = some [.Came (.error .NotGood), .Found false] := by
    decide +kernel
  refine ⟨hleft, hright, ?_⟩
  intro hmatches
  have hsame : repliesOf (run left) = repliesOf (run right) := by
    generalize run left = one at hmatches
    generalize run right = other at hmatches
    cases hmatches with
    | ok hsame _ => rw [hsame]; rfl
    | error _ _ => rfl
  rw [hleft, hright] at hsame
  cases hsame

end

end BoardControl.Supervisor
