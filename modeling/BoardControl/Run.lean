namespace BoardControl

-- What stops a program in the middle: an arithmetic result that does not fit
-- its word, a division by zero, a position outside a list, a transfer between
-- buffers that was turned down, a parser that no longer shortens its input,
-- or a board that was halted on purpose.
inductive Fault where
  | AddOverflow
  | SubOverflow
  | MulOverflow
  | DivideByZero
  | RemainderByZero
  | OutOfRange
  | Refused
  | Stalled
  | Halted
deriving DecidableEq, Repr

def Fault.message : Fault → String
  | .AddOverflow => "attempt to add with overflow"
  | .SubOverflow => "attempt to subtract with overflow"
  | .MulOverflow => "attempt to multiply with overflow"
  | .DivideByZero => "attempt to divide by zero"
  | .RemainderByZero => "attempt to calculate the remainder with a divisor of zero"
  | .OutOfRange => "position out of range"
  | .Refused => "buffer transfer refused"
  | .Stalled => "parser made no progress"
  | .Halted => "board halted"

-- An `Action` uses the board `σ` and always finishes. A `Run` may also stop
-- with a fault; the board is then left as it was when the fault happened.
abbrev Action (σ : Type) := StateM σ

abbrev Run (σ : Type) := EStateM Fault σ

section

variable {σ α β : Type}

def perform (act : Action σ α) : Run σ α := fun board =>
  let (value, board) := act board
  .ok value board

def Run.ofExcept (result : Except Fault α) : Run σ α := fun board =>
  match result with
  | .ok value => .ok value board
  | .error fault => .error fault board

instance : MonadLift (Except Fault) (Run σ) := ⟨Run.ofExcept⟩

theorem perform_apply (act : Action σ α) (board : σ) :
    perform act board = .ok (act board).1 (act board).2 := rfl

theorem Action.pure_apply (value : α) (board : σ) :
    (pure value : Action σ α) board = (value, board) := rfl

theorem Action.bind_apply (act : Action σ α) (next : α → Action σ β) (board : σ) :
    (act >>= next) board = next (act board).1 (act board).2 := rfl

theorem Run.ofExcept_ok (value : α) (board : σ) :
    Run.ofExcept (.ok value) board = .ok value board := rfl

theorem Run.ofExcept_error (fault : Fault) (board : σ) :
    (Run.ofExcept (.error fault) : Run σ α) board = .error fault board := rfl

-- A run that goes on does so from the board that its first part left.
theorem Run.bind_ok {first : Run σ α} {next : α → Run σ β} {board after : σ} {value : α}
    (h : first board = .ok value after) : (first >>= next) board = next value after := by
  simp only [bind, EStateM.bind, h]

theorem Run.bind_error {first : Run σ α} {next : α → Run σ β} {board after : σ} {fault : Fault}
    (h : first board = .error fault after) : (first >>= next) board = .error fault after := by
  simp only [bind, EStateM.bind, h]

end

end BoardControl
