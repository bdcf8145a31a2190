import BoardControl.Bench.Board
import BoardControl.Rail.Switched
import BoardControl.Reset.Line
import BoardControl.Scheduler.Periodic

namespace BoardControl.Bench

-- A rail of the bench: one that only reports what is done to it, one whose
-- power-good answer is the level of a pin, or a real one on pins of the bench.
inductive BenchRail where
  | Bare (name : String) (failure : Option RailError)
  | Mock (name : String) (failure : Option RailError) (good : String)
      (critical inputSupply : Bool)
  | Wired (rail : SwitchedRail String String String)

inductive BenchReset where
  | Bare (name : String)
  | Mock (name : String) (ready : String)
  | Wired (line : ResetLine String String)

-- Reads a pin as a yes or no; a failed read is a no.
def readFlag (name : String) : Action Board Bool := do
  pure ((← InputPin.read name).getD false)

def reportOn (name : String) (failure : Option RailError) :
    Action Board (Except RailError Unit) := do
  Board.emit (.RailOn name)
  match failure with
  | some failure => pure (.error failure)
  | none => pure (.ok ())

namespace BenchRail

def name : BenchRail → String
  | .Bare name _ => name
  | .Mock name _ _ _ _ => name
  | .Wired rail => rail.name

def switchOn : BenchRail → Action Board (Except RailError Unit)
  | .Bare name failure => reportOn name failure
  | .Mock name failure _ _ _ => reportOn name failure
  | .Wired rail => rail.switchOn

def switchOff : BenchRail → Action Board Unit
  | .Bare name _ => Board.emit (.RailOff name)
  | .Mock name _ _ _ _ => Board.emit (.RailOff name)
  | .Wired rail => rail.switchOff

def isGood : BenchRail → Action Board Bool
  | .Bare _ _ => pure true
  | .Mock _ _ good _ _ => readFlag good
  | .Wired rail => rail.looksGood

def isCritical : BenchRail → Bool
  | .Bare _ _ => true
  | .Mock _ _ _ critical _ => critical
  | .Wired rail => rail.critical

def isInputSupply : BenchRail → Bool
  | .Bare _ _ => false
  | .Mock _ _ _ _ inputSupply => inputSupply
  | .Wired rail => rail.inputSupply

instance : Rail Board BenchRail where
  name := name
  switchOn := switchOn
  switchOff := switchOff
  isGood := isGood
  isCritical := isCritical
  isInputSupply := isInputSupply

def millivolts? : BenchRail → Action Board (Option UInt32)
  | .Wired rail => rail.millivolts?
  | .Bare _ _ | .Mock _ _ _ _ _ => pure none

-- Wires a rail to the bench. A real rail is switched off by this.
def install : BenchRail → Action Board Unit
  | .Bare _ _ => pure ()
  | .Mock _ _ good _ _ => Board.connectPin good
  | .Wired rail => do
      Board.connectPin rail.enable
      match rail.feedback with
      | .Settle _ => pure ()
      | .PowerGood pin _ _ => Board.connectPin pin
      | .Sensed sensor _ _ => Board.connectSensor sensor
      rail.install

end BenchRail

namespace BenchReset

def name : BenchReset → String
  | .Bare name => name
  | .Mock name _ => name
  | .Wired line => line.name

def hold : BenchReset → Action Board BenchReset
  | .Bare name => do
      Board.emit (.LineHeld name)
      pure (.Bare name)
  | .Mock name ready => do
      Board.emit (.LineHeld name)
      pure (.Mock name ready)
  | .Wired line => do pure (.Wired (← line.hold))

def release : BenchReset → Action Board BenchReset
  | .Bare name => do
      Board.emit (.LineReleased name)
      pure (.Bare name)
  | .Mock name ready => do
      Board.emit (.LineReleased name)
      pure (.Mock name ready)
  | .Wired line => do pure (.Wired (← line.release))

def isReady : BenchReset → Action Board (Bool × BenchReset)
  | .Bare name => pure (true, .Bare name)
  | .Mock name ready => do pure (← readFlag ready, .Mock name ready)
  | .Wired line => do
      let (ready, line) ← line.isReady
      pure (ready, .Wired line)

instance : Reset Board BenchReset where
  name := name
  hold := hold
  release := release
  isReady := isReady

-- Whether the line is asserted, as far as the line keeps that.
def isAsserted? : BenchReset → Option Bool
  | .Wired line => some line.asserted
  | .Bare _ | .Mock _ _ => none

-- Wires a line to the bench. A real line is held by this.
def install : BenchReset → Action Board Unit
  | .Bare _ => pure ()
  | .Mock _ ready => Board.connectPin ready
  | .Wired line => do
      Board.connectPin line.pin
      match line.readiness with
      | .Immediate | .Delay _ _ _ => pure ()
      | .DonePin pin _ => Board.connectPin pin
      line.install

end BenchReset

-- Hooks that do nothing, or hooks that report and count their calls and always
-- return.
inductive BenchHooks where
  | Silent (hooks : NoHooks)
  | Reporting (calls : Nat)
deriving DecidableEq, Repr

namespace BenchHooks

def calls : BenchHooks → Nat
  | .Silent _ => 0
  | .Reporting calls => calls

def clearCalls : BenchHooks → BenchHooks
  | .Silent hooks => .Silent hooks
  | .Reporting _ => .Reporting 0

def report (call : HookCall) : BenchHooks → Action Board BenchHooks
  | .Silent hooks => pure (.Silent hooks)
  | .Reporting calls => do
      Board.emit (.HookCalled call)
      pure (.Reporting (calls + 1))

instance : Hooks Board BenchHooks where
  onPowerOn := report .PowerOn
  onPowerOff := report .PowerOff
  onResetDone := report .ResetDone
  onPowerLost := report .PowerLost
  onRailDegraded name := report (.RailDegraded name)
  onFault
    | .Silent hooks => do pure (.Silent (← Hooks.onFault hooks))
    | .Reporting calls => perform (report .Fault (.Reporting calls))

end BenchHooks

abbrev BenchSupervisor := Supervisor BenchRail BenchReset BenchHooks

-- A timer handler that reports, and may count its calls.
structure BenchHandler where
  name : String
  fires : Option UInt32
deriving DecidableEq, Repr

instance : DueHandler Board BenchHandler where
  onDue handler := do
    perform (Board.emit (.Fired handler.name (← perform Board.currentTick)))
    pure { handler with fires := handler.fires.map (· + 1) }

-- A task of the bench: one that reports and may sleep, one that only reports
-- its iterations, a timer, or a supervisor.
inductive BenchTask where
  | Recorder (name : String) (sleep : UInt32)
  | Bare (name : String)
  | Timer (task : PeriodicTask BenchHandler)
  | Supervised (supervisor : BenchSupervisor)

namespace BenchTask

def reportPoll (name : String) : Action Board Unit := do
  Board.emit (.Polled name (← Board.currentTick))

def poll : BenchTask → Run Board BenchTask
  | .Recorder name sleep => do
      perform (reportPoll name)
      if 0 < sleep then perform (TickCounter.sleep sleep)
      pure (.Recorder name sleep)
  | .Bare name => do
      perform (reportPoll name)
      pure (.Bare name)
  | .Timer task => do pure (.Timer (← Task.poll task))
  | .Supervised supervisor => do pure (.Supervised (← Task.poll supervisor))

def rebase (delta : UInt32) : BenchTask → Run Board BenchTask
  | .Recorder name sleep => do
      perform (Board.emit (.Shifted name delta))
      pure (.Recorder name sleep)
  | .Bare name => pure (.Bare name)
  | .Timer task => do pure (.Timer (← Task.rebase delta task))
  | .Supervised supervisor => do
      pure (.Supervised (← Task.rebase delta supervisor))

instance : Task Board BenchTask where
  poll := poll
  rebase := rebase

end BenchTask

end BoardControl.Bench
