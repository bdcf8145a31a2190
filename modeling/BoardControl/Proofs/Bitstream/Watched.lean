import BoardControl.Bitstream.Flash
import BoardControl.Proofs.Run
import BoardControl.Ticks

namespace BoardControl.Bitstream

-- A call of the flash with what it was given and what it answered.
inductive FlashCall where
  | Erase (addr : UInt32) (ok : Bool)
  | Write (addr : UInt32) (data : List UInt8) (ok : Bool)
  | Read (addr : UInt32) (data : List UInt8)
deriving DecidableEq, Repr

-- Any device whose flash calls are written down, oldest first.
structure Watched (φ : Type) where
  device : φ
  calls : List FlashCall := []
deriving DecidableEq, Repr

namespace Watched

variable {φ : Type}

instance [Flash φ] : Flash (Watched φ) where
  sectorSize board := Flash.sectorSize board.device
  pageSize board := Flash.pageSize board.device
  erase addr board :=
    let (ok, device) := Flash.erase addr board.device
    (ok, { device, calls := board.calls ++ [.Erase addr ok] })
  write addr data board :=
    let (ok, device) := Flash.write addr data board.device
    (ok, { device, calls := board.calls ++ [.Write addr data ok] })
  read addr count board :=
    let (data, device) := Flash.read addr count board.device
    (data, { device, calls := board.calls ++ [.Read addr data.toList] })

instance [TickCounter φ] : TickCounter (Watched φ) where
  count board :=
    let (now, device) := TickCounter.count board.device
    (now, { board with device })
  sleep ticks board :=
    let ((), device) := TickCounter.sleep ticks board.device
    ((), { board with device })
  restart board :=
    let ((), device) := TickCounter.restart board.device
    ((), { board with device })

section

variable [Flash φ] (board : Watched φ)

@[simp] theorem calls_erase (addr : UInt32) : (Flash.erase addr board).2.calls =
    board.calls ++ [.Erase addr (Flash.erase addr board).1] := rfl

@[simp] theorem calls_write (addr : UInt32) (data : List UInt8) :
    (Flash.write addr data board).2.calls =
      board.calls ++ [.Write addr data (Flash.write addr data board).1] := rfl

@[simp] theorem calls_read (addr : UInt32) (count : Nat) : (Flash.read addr count board).2.calls =
    board.calls ++ [.Read addr (Flash.read addr count board).1.toList] := rfl

omit [Flash φ] in
@[simp] theorem calls_count [TickCounter φ] :
    (TickCounter.count board).2.calls = board.calls := rfl

end

end Watched

-- A board beside a log that nothing on the board can see.
structure Logged (σ μ : Type) where
  board : σ
  journal : μ

namespace Logged

variable {σ μ : Type}

-- An action of the board leaves the log as it is.
def lift {α : Type} (act : Action σ α) : Action (Logged σ μ) α := fun logged =>
  let (value, board) := act logged.board
  (value, { logged with board })

instance [Logger μ] : Logger (Logged σ μ) where
  enabled severity logged := Logger.enabled severity logged.journal
  record severity text logged :=
    { logged with journal := Logger.record severity text logged.journal }

instance [Flash σ] : Flash (Logged σ μ) where
  sectorSize logged := Flash.sectorSize logged.board
  pageSize logged := Flash.pageSize logged.board
  erase addr := lift (Flash.erase addr)
  write addr data := lift (Flash.write addr data)
  read addr count := lift (Flash.read addr count)

instance [TickCounter σ] : TickCounter (Logged σ μ) where
  count := lift TickCounter.count
  sleep ticks := lift (TickCounter.sleep ticks)
  restart := lift TickCounter.restart

section

variable (logged : Logged σ μ)

@[simp] theorem board_log [Logger μ] (severity : Severity) (text : String) :
    (log severity text logged).2.board = logged.board := by
  simp only [log, Logger.record]
  split <;> rfl

-- A record that is only sometimes made makes no difference to what follows.

theorem ends_of_log [Logger μ] {α : Type} {logged : Logged σ μ} {condition : Prop}
    [Decidable condition] {severity : Severity} {text : String} {rest : Run (Logged σ μ) α}
    {post : α → Logged σ μ → Prop}
    (h : ∀ next : Logged σ μ, next.board = logged.board → Run.Ends rest next post) :
    Run.Ends (if condition then do perform (log severity text); rest else rest) logged post := by
  split
  · simp only [Run.ends_bind, Run.ends_perform]
    exact h _ (board_log logged severity text)
  · exact h logged rfl

theorem leaves_of_log [Logger μ] {α : Type} {logged : Logged σ μ} {condition : Prop}
    [Decidable condition] {severity : Severity} {text : String} {rest : Run (Logged σ μ) α}
    {post : α → Logged σ μ → Prop} {broken : Logged σ μ → Prop}
    (h : ∀ next : Logged σ μ, next.board = logged.board → Run.Leaves rest next post broken) :
    Run.Leaves (if condition then do perform (log severity text); rest else rest) logged post
      broken := by
  split
  · simp only [Run.leaves_bind, Run.leaves_perform]
    exact h _ (board_log logged severity text)
  · exact h logged rfl

variable [Flash σ]

@[simp] theorem sectorSize_eq : Flash.sectorSize logged = Flash.sectorSize logged.board := rfl

@[simp] theorem erase_answer (addr : UInt32) :
    (Flash.erase addr logged).1 = (Flash.erase addr logged.board).1 := rfl

@[simp] theorem board_erase (addr : UInt32) :
    (Flash.erase addr logged).2.board = (Flash.erase addr logged.board).2 := rfl

@[simp] theorem write_answer (addr : UInt32) (data : List UInt8) :
    (Flash.write addr data logged).1 = (Flash.write addr data logged.board).1 := rfl

@[simp] theorem board_write (addr : UInt32) (data : List UInt8) :
    (Flash.write addr data logged).2.board = (Flash.write addr data logged.board).2 := rfl

@[simp] theorem read_answer (addr : UInt32) (count : Nat) :
    (Flash.read addr count logged).1 = (Flash.read addr count logged.board).1 := rfl

@[simp] theorem board_read (addr : UInt32) (count : Nat) :
    (Flash.read addr count logged).2.board = (Flash.read addr count logged.board).2 := rfl

omit [Flash σ] in
@[simp] theorem board_count [TickCounter σ] :
    (TickCounter.count logged).2.board = (TickCounter.count logged.board).2 := rfl

end

end Logged

end BoardControl.Bitstream
