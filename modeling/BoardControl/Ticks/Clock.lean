import BoardControl.Ticks
import BoardControl.Word

namespace BoardControl.Ticks

-- A tick counter over a microsecond clock: it counts the whole ticks of 100
-- microseconds since its origin.
structure Clock where
  micros : UInt64
  origin : UInt64
deriving DecidableEq, Repr

namespace Clock

def microsPerTick : UInt64 := 100

def start (micros : UInt64) : Clock := ⟨micros, micros⟩

def advance (micros : UInt64) (clock : Clock) : Except Fault Clock := do
  pure { clock with micros := ← Word.addLong clock.micros micros }

def ticks (clock : Clock) : Except Fault UInt64 := do
  pure ((← Word.subLong clock.micros clock.origin) / microsPerTick)

def count (clock : Clock) : Except Fault UInt32 := do
  pure (← clock.ticks).toUInt32

def sleep (ticks : UInt32) (clock : Clock) : Except Fault Clock := do
  clock.advance (← Word.mulLong ticks.toUInt64 microsPerTick)

-- The origin moves by whole ticks, so the part of a tick that has already
-- passed still counts.
def restart (clock : Clock) : Except Fault Clock := do
  let whole ← Word.mulLong (← clock.ticks) microsPerTick
  pure { clock with origin := ← Word.addLong clock.origin whole }

def text (clock : Clock) : Except Fault String := do
  pure s!"SystemTicks({← clock.count})"

end Clock

end BoardControl.Ticks
