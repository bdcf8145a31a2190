import BoardControl.Log
import BoardControl.Pin
import BoardControl.Rail
import BoardControl.Ticks
import BoardControl.Voltage

namespace BoardControl

-- How a rail is known to be up: after a fixed delay, by a power-good pin, or by
-- a measured voltage. Times are in ticks.
inductive Feedback (ι ς : Type) where
  | Settle (delay : UInt16)
  | PowerGood (pin : ι) (polarity : Polarity) (timeout : UInt16)
  | Sensed (sensor : ς) (window : VoltageWindow) (timeout : UInt16)
deriving DecidableEq, Repr

-- A rail switched by an enable pin.
structure SwitchedRail (π ι ς : Type) where
  name : String
  enable : π
  polarity : Polarity
  feedback : Feedback ι ς
  critical : Bool := true
  inputSupply : Bool := false
deriving DecidableEq, Repr

namespace SwitchedRail

section

variable {π ι ς : Type}

-- The usual ways to wire a rail. All but `activeLow` have an enable pin that is
-- active high, and every power-good pin is active high at first.

def plain (name : String) (enable : π) (delay : UInt16) : SwitchedRail π ι ς :=
  { name, enable, polarity := .ActiveHigh, feedback := .Settle delay }

def withGoodPin (name : String) (enable : π) (good : ι) (timeout : UInt16) :
    SwitchedRail π ι ς :=
  { name, enable, polarity := .ActiveHigh, feedback := .PowerGood good .ActiveHigh timeout }

def activeLow (name : String) (enable : π) (good : ι) (timeout : UInt16) :
    SwitchedRail π ι ς :=
  { name, enable, polarity := .ActiveLow, feedback := .PowerGood good .ActiveHigh timeout }

def measured (name : String) (enable : π) (sensor : ς) (window : VoltageWindow)
    (timeout : UInt16) : SwitchedRail π ι ς :=
  { name, enable, polarity := .ActiveHigh, feedback := .Sensed sensor window timeout }

-- A rail without a power-good pin is left as it is.
def withActiveLowGood (rail : SwitchedRail π ι ς) : SwitchedRail π ι ς :=
  match rail.feedback with
  | .PowerGood pin _ timeout => { rail with feedback := .PowerGood pin .ActiveLow timeout }
  | .Settle _ | .Sensed _ _ _ => rail

def expendable (rail : SwitchedRail π ι ς) : SwitchedRail π ι ς :=
  { rail with critical := false }

-- Losing the input supply is handled in order, so it is not critical either.
def asInputSupply (rail : SwitchedRail π ι ς) : SwitchedRail π ι ς :=
  { rail with inputSupply := true, critical := false }

end

section

variable {σ π ι ς : Type}

def drive [OutputPin σ π] (rail : SwitchedRail π ι ς) (on : Bool) : Action σ Bool :=
  rail.polarity.drive rail.enable on

-- A rail starts switched off. A failed write shows at the next one.
def install [OutputPin σ π] (rail : SwitchedRail π ι ς) : Action σ Unit := do
  let _ ← rail.drive false

-- The voltage at the sensor of a sensed rail.
def millivolts? [VoltageSensor σ ς] (rail : SwitchedRail π ι ς) :
    Action σ (Option UInt32) := do
  match rail.feedback with
  | .Sensed sensor _ _ => pure (some (← VoltageSensor.read sensor))
  | .Settle _ | .PowerGood _ _ _ => pure none

def looksGood [InputPin σ ι] [VoltageSensor σ ς] (rail : SwitchedRail π ι ς) :
    Action σ Bool := do
  match rail.feedback with
  | .Settle _ => pure true
  | .PowerGood pin polarity _ => polarity.sense pin
  | .Sensed sensor window _ => pure (window.contains (← VoltageSensor.read sensor))

-- Looks at the feedback up to `timeout + 1` times with a tick between two looks
-- and stops at the first good one.
def awaitGood [TickCounter σ] [InputPin σ ι] [VoltageSensor σ ς] (rail : SwitchedRail π ι ς) :
    Nat → Action σ Bool
  | 0 => rail.looksGood
  | timeout + 1 => do
      if ← rail.looksGood then
        pure true
      else
        TickCounter.sleep 1
        rail.awaitGood timeout

-- The record of a rail that stayed down. For a sensed rail it shows one more
-- reading, which is taken only if the record is kept.
def reportDown [Logger σ] [VoltageSensor σ ς] (rail : SwitchedRail π ι ς) : Action σ Unit :=
  match rail.feedback with
  | .Sensed sensor window _ =>
      logFrom .Error do
        let measured ← VoltageSensor.read sensor
        pure (s!"Rail {rail.name} failed to come up " ++
          s!"(measured {measured} mV, valid range [{window.low}, {window.high}])")
  | .Settle _ | .PowerGood _ _ _ => log .Error s!"Rail {rail.name} failed to come up"

def awaitUp [TickCounter σ] [Logger σ] [InputPin σ ι] [VoltageSensor σ ς]
    (rail : SwitchedRail π ι ς) (timeout : UInt16) : Action σ (Except RailError Unit) := do
  if ← rail.awaitGood timeout.toNat then
    pure (.ok ())
  else
    rail.reportDown
    pure (.error .NotGood)

def switchOn [TickCounter σ] [Logger σ] [OutputPin σ π] [InputPin σ ι] [VoltageSensor σ ς]
    (rail : SwitchedRail π ι ς) : Action σ (Except RailError Unit) := do
  log .Info s!"Turning on {rail.name}"
  if ← rail.drive true then
    match rail.feedback with
    | .Settle delay =>
        TickCounter.sleep delay.toUInt32
        pure (.ok ())
    | .PowerGood _ _ timeout => rail.awaitUp timeout
    | .Sensed _ _ timeout => rail.awaitUp timeout
  else
    log .Error s!"Rail {rail.name} enable pin error"
    pure (.error .Pin)

def switchOff [Logger σ] [OutputPin σ π] (rail : SwitchedRail π ι ς) : Action σ Unit := do
  unless ← rail.drive false do
    log .Warn s!"Rail {rail.name} enable pin error while turning off"

instance [TickCounter σ] [Logger σ] [OutputPin σ π] [InputPin σ ι] [VoltageSensor σ ς] :
    Rail σ (SwitchedRail π ι ς) where
  name := name
  switchOn := switchOn
  switchOff := switchOff
  isGood := looksGood
  isCritical := critical
  isInputSupply := inputSupply

end

end SwitchedRail

end BoardControl
