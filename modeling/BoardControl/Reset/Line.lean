import BoardControl.Log
import BoardControl.Pin
import BoardControl.Reset
import BoardControl.Ticks

namespace BoardControl

-- How a released block is known to be up: at once, when more than `ticks` ticks
-- have passed since the release, or while a done pin is asserted. A delay that
-- has once passed stays passed until the next command.
inductive Readiness (δ : Type) where
  | Immediate
  | Delay (ticks : UInt16) (releasedAt : Option UInt32) (done : Bool)
  | DonePin (pin : δ) (polarity : Polarity)
deriving DecidableEq, Repr

-- A reset line on an output pin, with the command it was last given.
structure ResetLine (π δ : Type) where
  name : String
  pin : π
  polarity : Polarity
  readiness : Readiness δ
  asserted : Bool := true
deriving DecidableEq, Repr

namespace ResetLine

section

variable {π δ : Type}

def simple (name : String) (pin : π) (polarity : Polarity) : ResetLine π δ :=
  { name, pin, polarity, readiness := .Immediate }

def delayed (name : String) (pin : π) (polarity : Polarity) (ticks : UInt16) :
    ResetLine π δ :=
  { name, pin, polarity, readiness := .Delay ticks none false }

def confirmed (name : String) (pin : π) (polarity : Polarity) (done : δ)
    (donePolarity : Polarity) : ResetLine π δ :=
  { name, pin, polarity, readiness := .DonePin done donePolarity }

-- The line after a command that put it at its asserted or idle level. A delay
-- starts afresh at every release and is off while the line is held.
def held (line : ResetLine π δ) : ResetLine π δ :=
  match line.readiness with
  | .Delay ticks _ _ => { line with asserted := true, readiness := .Delay ticks none false }
  | .Immediate | .DonePin _ _ => { line with asserted := true }

def released (line : ResetLine π δ) : ResetLine π δ := { line with asserted := false }

def startDelay (line : ResetLine π δ) (ticks : UInt16) (now : UInt32) :
    ResetLine π δ :=
  { line with readiness := .Delay ticks (some now) false }

end

section

variable {σ π δ : Type}

-- A line starts held. A failed write shows at the first command.
def install [OutputPin σ π] (line : ResetLine π δ) : Action σ Unit := do
  let _ ← line.polarity.drive line.pin true

def hold [Logger σ] [OutputPin σ π] (line : ResetLine π δ) :
    Action σ (ResetLine π δ) := do
  log .Debug s!"Asserting {line.name} reset"
  unless ← line.polarity.drive line.pin true do
    log .Warn s!"Reset {line.name} pin error while asserting"
  pure line.held

theorem hold_value [Logger σ] [OutputPin σ π] (line : ResetLine π δ) (board : σ) :
    (line.hold board).1 = line.held := by
  simp only [hold, Action.bind_apply]
  split <;> rfl

def release [TickCounter σ] [Logger σ] [OutputPin σ π] (line : ResetLine π δ) :
    Action σ (ResetLine π δ) := do
  log .Debug s!"Releasing {line.name} reset"
  unless ← line.polarity.drive line.pin false do
    log .Warn s!"Reset {line.name} pin error while releasing"
  match line.readiness with
  | .Delay ticks _ _ => pure (line.released.startDelay ticks (← TickCounter.count))
  | .Immediate | .DonePin _ _ => pure line.released

-- The counter is read only while a delay runs or has run.
def isReady [TickCounter σ] [InputPin σ δ] (line : ResetLine π δ) :
    Action σ (Bool × ResetLine π δ) := do
  match line.readiness with
  | .Immediate => pure (true, line)
  | .Delay ticks (some start) done =>
      let passed := ticks.toUInt32 < Ticks.elapsed start (← TickCounter.count)
      let done := done || passed
      pure (done, { line with readiness := .Delay ticks (some start) done })
  | .Delay _ none done => pure (done, line)
  | .DonePin pin polarity => pure (← polarity.sense pin, line)

instance [TickCounter σ] [Logger σ] [OutputPin σ π] [InputPin σ δ] :
    Reset σ (ResetLine π δ) where
  name := name
  hold := hold
  release := release
  isReady := isReady

end

end ResetLine

end BoardControl
