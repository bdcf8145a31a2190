import BoardControl.Run

namespace BoardControl

-- A reset line as the supervisor sees it. `hold` keeps the block behind the
-- line in reset and `release` lets it go; both hand back the line as it is
-- afterwards. A line that has no feedback is always ready.
class Reset (σ κ : Type) where
  name : κ → String
  hold : κ → Action σ κ
  release : κ → Action σ κ
  isReady : κ → Action σ (Bool × κ) := fun line => pure (true, line)

end BoardControl
