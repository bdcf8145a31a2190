import BoardControl.Word

namespace BoardControl

-- A source of voltage readings in millivolts.
class VoltageSensor (σ ς : Type) where
  read : ς → Action σ UInt32

-- The acceptable range of a measured rail in millivolts, both ends included.
structure VoltageWindow where
  low : UInt32
  high : UInt32
deriving DecidableEq, Repr

namespace VoltageWindow

-- The window of `percent` around a nominal voltage. The steps are a product,
-- a quotient, the lower end and the upper end; the first one that leaves the
-- word stops the construction.
def around (nominal percent : UInt32) : Except Fault VoltageWindow := do
  let delta := (← Word.mul nominal percent) / 100
  let low ← Word.sub nominal delta
  let high ← Word.add nominal delta
  pure ⟨low, high⟩

def contains (window : VoltageWindow) (millivolts : UInt32) : Bool :=
  window.low ≤ millivolts && millivolts ≤ window.high

end VoltageWindow

end BoardControl
