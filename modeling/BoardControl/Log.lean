import BoardControl.Run

namespace BoardControl

inductive Severity where
  | Error
  | Warn
  | Info
  | Debug
  | Trace
deriving DecidableEq, Repr

namespace Severity

def name : Severity → String
  | .Error => "error"
  | .Warn => "warn"
  | .Info => "info"
  | .Debug => "debug"
  | .Trace => "trace"

def rank : Severity → Nat
  | .Error => 1
  | .Warn => 2
  | .Info => 3
  | .Debug => 4
  | .Trace => 5

end Severity

-- A board with a log. `enabled` tells whether records of a severity are kept,
-- and `record` keeps one.
class Logger (σ : Type) where
  enabled : Severity → σ → Bool
  record : Severity → String → σ → σ

section

variable {σ : Type} [Logger σ]

def log (severity : Severity) (text : String) : Action σ Unit := fun board =>
  ((), if Logger.enabled severity board then Logger.record severity text board else board)

-- A record whose text uses the board. The text is made only when it is kept.
def logFrom (severity : Severity) (text : Action σ String) : Action σ Unit := fun board =>
  if Logger.enabled severity board then
    let (text, board) := text board
    ((), Logger.record severity text board)
  else
    ((), board)

theorem log_of_disabled (severity : Severity) (text : String) (board : σ)
    (h : Logger.enabled severity board = false) : log severity text board = ((), board) := by
  simp only [log, h, Bool.false_eq_true, ↓reduceIte]

theorem logFrom_of_disabled (severity : Severity) (text : Action σ String) (board : σ)
    (h : Logger.enabled severity board = false) :
    logFrom severity text board = ((), board) := by
  simp only [logFrom, h, Bool.false_eq_true, ↓reduceIte]

end

end BoardControl
