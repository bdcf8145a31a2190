import BoardControl.Bitstream.Partition
import BoardControl.Ring

namespace BoardControl.Bitstream

-- Programs a partition page by page: the bytes that wait to be written, and the
-- address at which the next page goes.
structure PageWriter where
  partition : Partition
  pending : Ring Settings.streamBuffer
  cursor : UInt32

namespace PageWriter

def start (partition : Partition) : PageWriter :=
  { partition, pending := Ring.empty _, cursor := partition.offset }

-- Nothing waits, and writing starts again at the front of the partition.
def restart (writer : PageWriter) : PageWriter :=
  { writer with pending := writer.pending.reset, cursor := writer.partition.offset }

def written (writer : PageWriter) : Except Fault UInt32 :=
  Word.sub writer.cursor writer.partition.offset

-- The first place where two equally long byte strings differ, with both bytes.
def firstDifference : List UInt8 → List UInt8 → Option (Nat × UInt8 × UInt8)
  | expected :: rest, actual :: others =>
      if expected = actual then
        (firstDifference rest others).map fun (position, bytes) => (position + 1, bytes)
      else some (0, expected, actual)
  | _, _ => none

section

variable {σ : Type} [Logger σ] [Flash σ]

-- The page size of the flash, if a page can be read back.
def pageSize : Action σ (Except UpdateError Nat) := do
  let page := (Flash.pageSize (← get)).toNat
  if page = 0 ∨ Settings.maxPage < page then
    log .Error s!"Flash write block of {page} bytes is unsupported (max {Settings.maxPage})"
    pure (.error .ReadbackBlockTooLarge)
  else
    pure (.ok page)

-- Programs the oldest waiting bytes at the cursor and reads them back. They
-- leave the queue only when every byte was read as written.
def programBlock (writer : PageWriter) (length : Nat) : Run σ (Except UpdateError PageWriter) := do
  let addr := writer.cursor
  if writer.partition.stop.toNat < addr.toNat + length then
    perform (log .Error (s!"Write of {length} bytes at {Hex.prefixed addr.toNat} " ++
      "is past the end of the partition"))
    pure (.error (.WriteOutOfBounds addr))
  else
    if addr % Settings.progressInterval = 0 then
      perform (log .Info s!"Writing {Hex.prefixed addr.toNat}")
    let data := writer.pending.front length
    if ← perform (Flash.write addr data) then
      let readback ← perform (Flash.read addr length)
      match firstDifference data readback.toList with
      | some (position, expected, actual) =>
          let bad ← Word.add addr position.toUInt32
          perform (log .Error (s!"Readback mismatch at {Hex.prefixed bad.toNat} " ++
            s!"(wrote {Hex.prefixed expected.toNat}, read {Hex.prefixed actual.toNat})"))
          pure (.error (.ReadbackMismatch bad expected actual))
      | none =>
          let cursor ← Word.add addr length.toUInt32
          pure (.ok { writer with pending := writer.pending.popFront length, cursor })
    else
      perform (log .Error s!"Write of {length} bytes failed at {Hex.prefixed addr.toNat}")
      pure (.error (.WriteFailed addr length.toUInt32))

-- Writes `count` pages. What was written before a failure stays written.
def programPages (page : Nat) : Nat → PageWriter → Run σ (PageWriter × Option UpdateError)
  | 0, writer => pure (writer, none)
  | count + 1, writer => do
      match ← writer.programBlock page with
      | .error failure => pure (writer, some failure)
      | .ok writer => programPages page count writer

-- Writes every full page that waits.
def flushPages (writer : PageWriter) : Run σ (PageWriter × Option UpdateError) := do
  match ← perform pageSize with
  | .error failure => pure (writer, some failure)
  | .ok page => programPages page (writer.pending.length / page) writer

-- Writes everything that waits, the last page cut short.
def flushAll (writer : PageWriter) : Run σ (PageWriter × Option UpdateError) := do
  match ← writer.flushPages with
  | (writer, some failure) => pure (writer, some failure)
  | (writer, none) =>
      if 0 < writer.pending.length then
        match ← writer.programBlock writer.pending.length with
        | .error failure => pure (writer, some failure)
        | .ok writer => pure (writer, none)
      else
        pure (writer, none)

end

end PageWriter

end BoardControl.Bitstream
