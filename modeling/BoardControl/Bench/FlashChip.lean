namespace BoardControl.Bench

-- A flash chip in memory. It covers the addresses from `base` on; all others
-- read as blank and cannot be changed. `stuck` bytes keep their value when they
-- are erased, and `flip` is a disturbance of bytes that are written.
structure FlashChip where
  base : Nat := 0
  memory : ByteArray := ByteArray.empty
  sector : UInt32 := 4096
  page : UInt32 := 256
  eraseTicks : UInt32 := 0
  stuck : List (UInt32 × UInt8) := []
  flip : List (UInt32 × UInt8) := []
  failErase : List UInt32 := []
  failWrite : List UInt32 := []
  erases : Nat := 0
  writes : Nat := 0
  reads : Nat := 0

namespace FlashChip

def blankMemory (size : Nat) (fill : UInt8) : ByteArray := ⟨Array.replicate size fill⟩

def byteAt (chip : FlashChip) (addr : Nat) : UInt8 :=
  if addr < chip.base then 0xff else chip.memory[addr - chip.base]?.getD 0xff

def setMemory (base addr : Nat) (value : UInt8) (memory : ByteArray) : ByteArray :=
  if addr < base then memory
  else if h : addr - base < memory.size then memory.set (addr - base) value h
  else memory

def setByte (addr : Nat) (value : UInt8) (chip : FlashChip) : FlashChip :=
  { chip with memory := setMemory chip.base addr value chip.memory }

-- Stores bytes at ascending addresses.
def poke (addr : Nat) : List UInt8 → FlashChip → FlashChip
  | [], chip => chip
  | value :: rest, chip => (chip.setByte addr value).poke (addr + 1) rest

def blankFrom (addr : Nat) : Nat → FlashChip → FlashChip
  | 0, chip => chip
  | count + 1, chip => (chip.setByte addr 0xff).blankFrom (addr + 1) count

-- The changes at those addresses that lie in a range.
def inRange (addr length : Nat) (changes : List (UInt32 × UInt8)) : List (UInt32 × UInt8) :=
  changes.filter fun change => addr ≤ change.1.toNat && change.1.toNat < addr + length

-- Only the part of the sector that the chip covers has to be gone through.
def eraseSector (addr : UInt32) (chip : FlashChip) : FlashChip :=
  let first := max addr.toNat chip.base
  let stop := min (addr.toNat + chip.sector.toNat) (chip.base + chip.memory.size)
  let stuck := inRange addr.toNat chip.sector.toNat chip.stuck
  stuck.foldl (fun chip change => chip.setByte change.1.toNat change.2)
    (chip.blankFrom first (stop - first))

def writeBytes (addr : UInt32) (data : List UInt8) (chip : FlashChip) : FlashChip :=
  let flips := inRange addr.toNat data.length chip.flip
  flips.foldl
    (fun chip change =>
      let value := chip.byteAt change.1.toNat ^^^ change.2
      chip.setByte change.1.toNat value)
    (chip.poke addr.toNat data)

def readBytes (chip : FlashChip) (addr count : Nat) : Vector UInt8 count :=
  Vector.ofFn fun position => chip.byteAt (addr + position.val)

end FlashChip

end BoardControl.Bench
