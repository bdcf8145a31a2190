import BoardControl.Log

namespace BoardControl.Bench

inductive HookCall where
  | PowerOn
  | PowerOff
  | ResetDone
  | PowerLost
  | RailDegraded (name : String)
  | Fault
deriving DecidableEq, Repr

-- What can be watched from outside while the bench runs.
inductive Event where
  | Logged (severity : Severity) (text : String)
  | Driven (pin : String) (level : Bool) (now : UInt32)
  | DriveFailed (pin : String) (level : Bool) (now : UInt32)
  | RailOn (name : String)
  | RailOff (name : String)
  | LineHeld (name : String)
  | LineReleased (name : String)
  | HookCalled (call : HookCall)
  | Polled (name : String) (now : UInt32)
  | Shifted (name : String) (delta : UInt32)
  | Fired (name : String) (now : UInt32)
  | Passed (now : UInt32)
  | Erased (addr : UInt32) (ok : Bool)
  | Wrote (addr : UInt32) (length : Nat) (ok : Bool)
  | Stored (key : String) (value : List UInt8) (ok : Bool)
deriving DecidableEq, Repr

end BoardControl.Bench
