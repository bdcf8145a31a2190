import BoardControl.Run

namespace BoardControl

-- A board with a flash chip that holds the FPGA image. Erasing and writing
-- answer whether they succeeded. Reading hands back as many bytes as were asked
-- for, whatever they are.
class Flash (σ : Type) where
  sectorSize : σ → UInt32
  pageSize : σ → UInt32
  erase : UInt32 → Action σ Bool
  write : UInt32 → List UInt8 → Action σ Bool
  read : UInt32 → (count : Nat) → Action σ (Vector UInt8 count)

end BoardControl
