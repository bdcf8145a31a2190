import BoardControl.Proofs.Bitstream.Programming

namespace BoardControl.Bitstream

-- A flash in memory that does what it is told. A sector begins at any address
-- that it is erased at.
structure Chip (sector page : UInt32) where
  cell : Nat → UInt8

namespace Chip

variable {sector page : UInt32}

-- Every cell holds zero.
def zeroed : Chip sector page := { cell := fun _ => 0 }

-- Puts bytes at ascending addresses.
def store (chip : Chip sector page) (addr : Nat) (data : List UInt8) : Chip sector page :=
  { cell := fun place =>
      if place < addr then chip.cell place else data[place - addr]?.getD (chip.cell place) }

instance : Flash (Chip sector page) where
  sectorSize _ := sector
  pageSize _ := page
  erase addr chip := (true, chip.store addr.toNat (List.replicate sector.toNat 0xff))
  write addr data chip := (true, chip.store addr.toNat data)
  read addr _ chip := (Vector.ofFn fun place => chip.cell (addr.toNat + place.val), chip)

theorem toList_read (chip : Chip sector page) (addr : UInt32) (count : Nat) :
    (Flash.read addr count chip).1.toList =
      (List.range count).map fun place => chip.cell (addr.toNat + place) := by
  simp only [Flash.read]
  apply List.ext_getElem
  · simp
  · intro place _ _
    simp

-- No time passes.
instance : TickCounter (Chip sector page) where
  count chip := (0, chip)
  sleep _ chip := ((), chip)
  restart chip := ((), chip)

-- One sector at the front of the flash, for pages of 256 bytes.
def target : Target :=
  { partition := { offset := 0, size := 0x1000 }, device := "7a100t", page := 256,
    page_pos := by decide, page_le := by decide, fits := by decide }

theorem suits (sector : UInt32) : target.Suits (Chip sector 256) := fun _ => rfl

-- A new updater for that sector.
def updater : Updater := Updater.start target.partition target.device

end Chip

-- A log that keeps nothing.
instance : Logger Unit where
  enabled _ _ := false
  record _ _ _ := ()

-- A board on which nothing has happened.
def Chip.board : Logged (Watched (Chip 0x1000 256)) Unit := ⟨⟨zeroed, []⟩, ()⟩

end BoardControl.Bitstream
