import BoardControl.Run

namespace BoardControl

-- A board with a free-running tick counter. Reading and sleeping may change
-- the board, since time passes. After `restart` the count starts again at zero.
class TickCounter (σ : Type) where
  count : Action σ UInt32
  sleep : UInt32 → Action σ Unit
  restart : Action σ Unit

namespace Ticks

-- The ticks from `start` to `now`, right across one wrap of the counter.
def elapsed (start now : UInt32) : UInt32 := now - start

-- Whether `now` is at or past `target`, right while the two are less than half
-- the counter range apart.
def hasReached (now target : UInt32) : Bool := now - target < 0x80000000

-- Whole milliseconds and tenths of a span of ticks.
def milliseconds (ticks : UInt32) : UInt32 × UInt32 := (ticks / 10, ticks % 10)

theorem elapsed_toNat (start now : UInt32) :
    (elapsed start now).toNat = (UInt32.size - start.toNat + now.toNat) % UInt32.size := by
  simp only [elapsed, UInt32.toNat_sub]

-- The counter shows the low bits of a tick, so whole turns of it are lost.
theorem elapsed_toUInt32 {start now : Nat} (h : start ≤ now) :
    (elapsed start.toUInt32 now.toUInt32).toNat = (now - start) % UInt32.size := by
  rw [elapsed_toNat]
  simp only [Nat.toUInt32_eq, UInt32.toNat_ofNat', UInt32.size]
  omega

theorem hasReached_self (now : UInt32) : hasReached now now = true := by
  simp [hasReached]

theorem hasReached_iff (now target : UInt32) :
    hasReached now target = true ↔ (elapsed target now).toNat < 0x80000000 := by
  simp only [hasReached, elapsed, decide_eq_true_eq, UInt32.lt_iff_toNat_lt]
  rfl

end Ticks

end BoardControl
