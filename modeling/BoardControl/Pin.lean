import BoardControl.Run

namespace BoardControl

-- Pins of the board. Writing a level answers whether the write succeeded;
-- reading answers the level, or nothing when the read failed.
class OutputPin (σ π : Type) where
  write : π → Bool → Action σ Bool

class InputPin (σ π : Type) where
  read : π → Action σ (Option Bool)

inductive Polarity where
  | ActiveHigh
  | ActiveLow
deriving DecidableEq, Repr, Inhabited

namespace Polarity

-- The pin level that stands for a signal that is asserted or idle.
def level : Polarity → Bool → Bool
  | .ActiveHigh, asserted => asserted
  | .ActiveLow, asserted => !asserted

section

variable {σ π : Type}

def drive [OutputPin σ π] (polarity : Polarity) (pin : π) (asserted : Bool) : Action σ Bool :=
  OutputPin.write pin (polarity.level asserted)

-- Whether the pin is at its asserted level. A failed read counts as idle.
def sense [InputPin σ π] (polarity : Polarity) (pin : π) : Action σ Bool := do
  match ← InputPin.read pin with
  | some level => pure (level == polarity.level true)
  | none => pure false

end

theorem level_not (polarity : Polarity) (asserted : Bool) :
    polarity.level (!asserted) = !polarity.level asserted := by
  cases polarity <;> simp [level]

end Polarity

end BoardControl
