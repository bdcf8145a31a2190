import BoardControl.Bitstream.Flash
import BoardControl.Bitstream.UpdateError
import BoardControl.Log
import BoardControl.Settings
import BoardControl.Ticks
import BoardControl.Word

namespace BoardControl.Bitstream

-- The part of the flash that holds the image.
structure Partition where
  offset : UInt32
  size : UInt32
deriving DecidableEq, Repr

namespace Partition

-- The first address after the partition, or the highest address if there is
-- none.
def stop (partition : Partition) : UInt32 := Word.addSaturating partition.offset partition.size

-- The first byte that is not blank, with its position.
def firstUsed : List UInt8 → Option (Nat × UInt8)
  | [] => none
  | byte :: rest =>
      if byte = 0xff then (firstUsed rest).map fun (position, value) => (position + 1, value)
      else some (0, byte)

section

variable {σ : Type} [Logger σ] [Flash σ]

-- Erases `count` sectors in ascending order, starting with the one at `index`.
def eraseSectors (partition : Partition) (sector : UInt32) (index : Nat) :
    Nat → Run σ (Except UpdateError Unit)
  | 0 => pure (.ok ())
  | count + 1 => do
      let addr ← Word.add partition.offset (← Word.mul index.toUInt32 sector)
      if addr % Settings.progressInterval = 0 then
        perform (log .Debug s!"Erasing {Hex.prefixed addr.toNat}")
      if ← perform (Flash.erase addr) then
        partition.eraseSectors sector (index + 1) count
      else
        perform (log .Error s!"Erase failed at {Hex.prefixed addr.toNat}")
        pure (.error (.EraseFailed addr))

-- Reads `count` blocks from `addr` on, the last one cut at the end of the
-- partition, and stops at the first byte that is not blank.
def checkBlank (partition : Partition) (addr : UInt32) : Nat → Run σ (Except UpdateError Unit)
  | 0 => pure (.ok ())
  | count + 1 => do
      let length := min Settings.blankCheckBlock (partition.stop.toNat - addr.toNat)
      if addr % Settings.progressInterval = 0 then
        perform (log .Debug s!"Blank checking {Hex.prefixed addr.toNat}")
      let block ← perform (Flash.read addr length)
      match firstUsed block.toList with
      | some (position, value) =>
          let bad ← Word.add addr position.toUInt32
          perform (log .Error (s!"Blank check failed at {Hex.prefixed bad.toNat} " ++
            s!"(read {Hex.prefixed value.toNat})"))
          pure (.error (.BlankCheckFailed bad value))
      | none => partition.checkBlank (← Word.add addr length.toUInt32) count

-- Erases every sector of the partition and then checks that each byte of it is
-- blank.
def erase [TickCounter σ] (partition : Partition) : Run σ (Except UpdateError Unit) := do
  let sector := Flash.sectorSize (← get)
  if sector = 0 then
    perform (log .Error "Flash reports a zero erase block size")
    pure (.error (.EraseFailed partition.offset))
  else
    let sectors := Word.blocks partition.size.toNat sector.toNat
    let start ← perform TickCounter.count
    perform (log .Info (s!"Erasing {sectors} sectors of {sector} bytes " ++
      s!"at {Hex.prefixed partition.offset.toNat}"))
    match ← partition.eraseSectors sector 0 sectors with
    | .error failure => pure (.error failure)
    | .ok () =>
        let length := partition.stop.toNat - partition.offset.toNat
        match ← partition.checkBlank partition.offset
            (Word.blocks length Settings.blankCheckBlock) with
        | .error failure => pure (.error failure)
        | .ok () =>
            let (whole, tenths) := Ticks.milliseconds
              (Ticks.elapsed start (← perform TickCounter.count))
            perform (log .Info s!"Erase complete ({whole}.{tenths} ms)")
            pure (.ok ())

end

end Partition

end BoardControl.Bitstream
