import BoardControl.Run

namespace BoardControl

inductive RailError where
  | NotGood
  | Pin
deriving DecidableEq, Repr

def RailError.message : RailError → String
  | .NotGood => "rail failed to come up"
  | .Pin => "rail enable pin error"

-- A power rail as the supervisor sees it. `switchOn` answers once the rail is up
-- or has failed. Losing a critical rail is unsafe; losing the input supply
-- calls for an orderly power-off.
class Rail (σ ρ : Type) where
  name : ρ → String
  switchOn : ρ → Action σ (Except RailError Unit)
  switchOff : ρ → Action σ Unit
  isGood : ρ → Action σ Bool := fun _ => pure true
  isCritical : ρ → Bool := fun _ => true
  isInputSupply : ρ → Bool := fun _ => false

end BoardControl
