import BoardControl.Run

namespace BoardControl

inductive StoreError where
  | WriteFailed
deriving DecidableEq, Repr

def StoreError.message : StoreError → String
  | .WriteFailed => "object store write failed"

-- A board with a store of named values that survives a new application.
class ValueStore (σ : Type) where
  find? : String → σ → Option (List UInt8)
  store : String → List UInt8 → Action σ (Except StoreError Unit)

end BoardControl
