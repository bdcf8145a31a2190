import BoardControl.Word

namespace BoardControl.Voltage

-- A resistor divider between a rail and the measuring pin, in ohms.
structure Divider where
  top : UInt32
  bottom : UInt32
deriving DecidableEq, Repr

namespace Divider

-- A pin that is wired straight to the rail.
def none : Divider := ⟨0, 1⟩

-- The rail voltage behind a voltage at the pin. The two resistors are added
-- first, then the product and the quotient are taken.
def railMillivolts (divider : Divider) (pin : UInt32) : Except Fault UInt32 := do
  let sum ← Word.add divider.top divider.bottom
  Word.div (← Word.mul pin sum) divider.bottom

end Divider

end BoardControl.Voltage
