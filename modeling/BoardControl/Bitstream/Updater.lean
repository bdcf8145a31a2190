import BoardControl.Bitstream.Names
import BoardControl.Bitstream.Packet
import BoardControl.Bitstream.PageWriter
import BoardControl.Text

namespace BoardControl.Bitstream

-- Where in the file the parser is.
inductive Phase where
  | Magic
  | Records
  | SyncWait
  | Packets
  | Bulk
  | Done
  | Failed
deriving DecidableEq, Repr

namespace Phase

def name : Phase → String
  | .Magic => "READ_BITHDR"
  | .Records => "READ_BITHDR_RECORDS"
  | .SyncWait => "SYNC_WAIT"
  | .Packets => "BITSTREAM"
  | .Bulk => "BIG_WRITE"
  | .Done => "DONE"
  | .Failed => "FAILED"

-- Input is ignored from here on.
def isTerminal : Phase → Bool
  | .Done | .Failed => true
  | .Magic | .Records | .SyncWait | .Packets | .Bulk => false

def all : List Phase := [.Magic, .Records, .SyncWait, .Packets, .Bulk, .Done, .Failed]

end Phase

-- Takes a bitstream file in pieces of any size and programs its body into a
-- partition. Each phase goes on only once enough bytes have been received.
structure Updater where
  device : String
  phase : Phase
  lastError : Option UpdateError
  received : Ring Settings.streamBuffer
  writer : PageWriter
  bulkLeft : UInt32

-- What a search for the sync word did: whether it was found, whether bytes were
-- moved at all, and the two buffers afterwards.
structure SyncScan where
  found : Bool
  moved : Bool
  received : Ring Settings.streamBuffer
  pending : Ring Settings.streamBuffer

namespace Updater

def start (partition : Partition) (device : String) : Updater :=
  { device, phase := .Magic, lastError := none, received := Ring.empty _,
    writer := PageWriter.start partition, bulkLeft := 0 }

def bytesWritten (updater : Updater) : Except Fault UInt32 := updater.writer.written

-- A transfer that has to succeed.
def move (received pending : Ring Settings.streamBuffer) (count : Nat) :
    Except Fault (Ring Settings.streamBuffer × Ring Settings.streamBuffer) := do
  let (moved, received, pending) ← received.transfer pending count
  if moved then pure (received, pending) else throw .Refused

def withBuffers (updater : Updater) (received pending : Ring Settings.streamBuffer) : Updater :=
  { updater with received := received, writer := { updater.writer with pending := pending } }

-- Moves `count` received bytes to the bytes that wait to be written.
def moveBytes (updater : Updater) (count : Nat) : Except Fault Updater := do
  let (received, pending) ← move updater.received updater.writer.pending count
  pure (updater.withBuffers received pending)

-- Moves bytes one by one until the sync word is in front, and then the sync
-- word, as long as both buffers have room for a sync word. The first argument
-- bounds the number of moves.
def scanSync : Nat → (received pending : Ring Settings.streamBuffer) → Except Fault SyncScan
  | 0, received, pending => pure ⟨false, false, received, pending⟩
  | count + 1, received, pending => do
      if received.length < syncWord.length ∨ pending.free < syncWord.length then
        pure ⟨false, false, received, pending⟩
      else if received.front syncWord.length = syncWord then
        let (received, pending) ← move received pending syncWord.length
        pure ⟨true, true, received, pending⟩
      else
        let (received, pending) ← move received pending 1
        let rest ← scanSync count received pending
        pure { rest with moved := true }

section

variable {σ : Type} [TickCounter σ] [Logger σ] [Flash σ]

-- Every step answers whether it made progress, with the updater afterwards.

omit [TickCounter σ] [Flash σ] in
def readMagic (updater : Updater) : Run σ (Except UpdateError (Bool × Updater)) := do
  if updater.received.length < fileMagic.length then
    pure (.ok (false, updater))
  else if updater.received.front fileMagic.length = fileMagic then
    let received := updater.received.popFront fileMagic.length
    pure (.ok (true, { updater with received := received, phase := .Records }))
  else
    perform (log .Error "Bad bitstream magic")
    pure (.error .BadMagic)

-- The record in front of the bitstream gives its length. The partition is
-- erased when it arrives.
def readLength (updater : Updater) : Run σ (Except UpdateError (Bool × Updater)) := do
  match updater.received.front 5 with
  | [_, a, b, c, d] =>
      let length := beWord a b c d
      let size := updater.writer.partition.size
      let updater := { updater with received := updater.received.popFront 5 }
      perform (log .Info s!"Bitstream is {length} bytes")
      if size < length then
        perform (log .Error s!"Bitstream of {length} bytes does not fit in {size} byte partition")
        pure (.error .ImageTooLarge)
      else
        match ← updater.writer.partition.erase with
        | .error failure => pure (.error failure)
        | .ok () => pure (.ok (true, { updater with phase := .SyncWait }))
  | _ => pure (.ok (false, updater))

omit [TickCounter σ] [Flash σ] in
-- Uses the text of a complete record. Only the record with the name of the
-- device can be refused.
def useRecord (updater : Updater) (kind : UInt8) (text : String) :
    Run σ (Except UpdateError Unit) := do
  match Char.ofNat kind.toNat with
  | 'a' =>
      perform (log .Info s!"Design: {text}")
      pure (.ok ())
  | 'b' =>
      if text = updater.device then
        perform (log .Info s!"Device: {text}")
        pure (.ok ())
      else
        perform (log .Error s!"Bitstream is for {text}, expected {updater.device}")
        pure (.error .WrongDevice)
  | 'c' =>
      perform (log .Info s!"Build date: {text}")
      pure (.ok ())
  | 'd' =>
      perform (log .Info s!"Build time: {text}")
      pure (.ok ())
  | _ =>
      perform (log .Warn s!"Skipping unknown bitstream header record {Hex.prefixed kind.toNat}")
      pure (.ok ())

omit [TickCounter σ] [Flash σ] in
-- A record is a kind, a length of two bytes and that many bytes of text.
def readText (updater : Updater) : Run σ (Except UpdateError (Bool × Updater)) := do
  match updater.received.front 3 with
  | [kind, high, low] =>
      let total := 3 + (256 * high.toNat + low.toNat)
      if Settings.streamBuffer < total then
        perform (log .Error s!"Bitstream header record {Hex.prefixed kind.toNat} is {total} bytes")
        pure (.error .PacketTooLarge)
      else if updater.received.length < total then
        pure (.ok (false, updater))
      else
        let text := Text.shown (Text.untilNul ((updater.received.front total).drop 3))
        match ← updater.useRecord kind text with
        | .error failure => pure (.error failure)
        | .ok () => pure (.ok (true, { updater with received := updater.received.popFront total }))
  | _ => pure (.ok (false, updater))

def readRecord (updater : Updater) : Run σ (Except UpdateError (Bool × Updater)) := do
  match updater.received.front 1 with
  | [kind] => if kind = bitstreamRecord then updater.readLength else updater.readText
  | _ => pure (.ok (false, updater))

omit [TickCounter σ] [Flash σ] in
def waitForSync (updater : Updater) : Run σ (Bool × Updater) := do
  let scan ← scanSync updater.received.length updater.received updater.writer.pending
  let updater := updater.withBuffers scan.received scan.pending
  if scan.found then
    perform (log .Debug "Found sync word")
    pure (true, { updater with phase := .Packets })
  else
    pure (scan.moved, updater)

omit [TickCounter σ] [Flash σ] in
-- Logs a packet of type 1 and tells whether it ends the bitstream.
def useType1 (opcode : Opcode) (register words : UInt16) (payload : List UInt8) :
    Run σ Bool := do
  if register = commandRegister ∧ words = 1 then
    let command := (frontWord? payload).getD 0
    perform (log .Trace s!"CMD {commandName command}")
    pure (opcode = .Write ∧ command &&& 0x1f = desyncCommand)
  else if 0 < words then
    perform (log .Trace s!"{registerName register} {opcode.name} words {words}")
    pure false
  else
    perform (log .Trace opcode.name)
    pure false

omit [TickCounter σ] [Flash σ] in
-- A packet of type 1 is moved whole, so it must fit the write buffer beside a
-- page that is not yet full.
def readType1 (updater : Updater) (page : Nat) (opcode : Opcode) (register words : UInt16) :
    Run σ (Except UpdateError (Bool × Updater)) := do
  let size := 4 * (words.toNat + 1)
  if Settings.streamBuffer - page < size then
    perform (log .Error s!"Type 1 packet of {words} words does not fit in the write buffer")
    pure (.error .PacketTooLarge)
  else if updater.received.length < size ∨ updater.writer.pending.free < size then
    pure (.ok (false, updater))
  else
    let payload := (updater.received.front size).drop 4
    let last ← useType1 opcode register words payload
    let updater ← updater.moveBytes size
    if last then
      perform (log .Info "End of bitstream")
      pure (.ok (true, { updater with phase := .Done }))
    else
      pure (.ok (true, updater))

omit [TickCounter σ] [Flash σ] in
def readType2 (updater : Updater) (opcode : Opcode) (words : UInt32) :
    Run σ (Except UpdateError (Bool × Updater)) := do
  if updater.writer.pending.free < 4 then
    pure (.ok (false, updater))
  else
    perform (log .Trace s!"Type 2 {opcode.name} of {words} words")
    let updater ← updater.moveBytes 4
    let updater := { updater with bulkLeft := words }
    pure (.ok (true, if 0 < words then { updater with phase := .Bulk } else updater))

omit [TickCounter σ] in
def readPacket (updater : Updater) : Run σ (Except UpdateError (Bool × Updater)) := do
  match ← perform PageWriter.pageSize with
  | .error failure => pure (.error failure)
  | .ok page =>
      match frontWord? (updater.received.front 4) with
      | none => pure (.ok (false, updater))
      | some word =>
          match PacketHeader.decode word with
          | .Type1 opcode register words => updater.readType1 page opcode register words
          | .Type2 opcode words => updater.readType2 opcode words
          | .Unknown kind =>
              perform (log .Error s!"Invalid packet type {kind} (header {Hex.prefixed word.toNat})")
              pure (.error (.InvalidPacketType kind))

omit [TickCounter σ] [Flash σ] in
-- Moves as many whole payload words as both buffers allow.
def moveBulk (updater : Updater) : Run σ (Bool × Updater) := do
  let words := min (min (updater.received.length / 4) updater.bulkLeft.toNat)
    (updater.writer.pending.free / 4)
  if words = 0 then
    pure (false, updater)
  else
    let updater ← updater.moveBytes (words * 4)
    let left ← Word.sub updater.bulkLeft words.toUInt32
    let updater := { updater with bulkLeft := left }
    if left = 0 then
      perform (log .Debug "Bulk write complete")
      pure (true, { updater with phase := .Packets })
    else
      pure (true, updater)

def step (updater : Updater) : Run σ (Except UpdateError (Bool × Updater)) := do
  match updater.phase with
  | .Magic => updater.readMagic
  | .Records => updater.readRecord
  | .SyncWait => pure (.ok (← updater.waitForSync))
  | .Packets => updater.readPacket
  | .Bulk => pure (.ok (← updater.moveBulk))
  | .Done | .Failed => pure (.ok (false, updater))

-- Steps the parser until it makes no progress, and writes full pages after each
-- step. Progress has to shorten the received bytes.
def drain (updater : Updater) : Run σ (Updater × Option UpdateError) := do
  match ← updater.step with
  | .error failure => pure (updater, some failure)
  | .ok (progress, next) =>
      let (writer, failure) ← next.writer.flushPages
      let next := { next with writer := writer }
      if failure.isSome || !progress || next.phase.isTerminal then
        pure (next, failure)
      else if _h : next.received.length < updater.received.length then
        next.drain
      else
        throw .Stalled
termination_by updater.received.length

omit [TickCounter σ] [Flash σ] in
def fail (updater : Updater) (failure : UpdateError) : Action σ Updater := do
  log .Error s!"Bitstream update failed in state {updater.phase.name}: {failure.message}"
  pure { updater with phase := .Failed, lastError := some failure }

omit [TickCounter σ] [Flash σ] in
def overflow (updater : Updater) : Action σ Updater := do
  log .Error s!"Bitstream receive buffer full in state {updater.phase.name}"
  updater.fail .RxOverflow

-- Takes the next piece of the file. A piece that is longer than the free space
-- is taken in parts, and the rest is ignored once the session has ended.
def receive (updater : Updater) (data : List UInt8) : Run σ Updater := do
  if hend : data.isEmpty || updater.phase.isTerminal then
    pure updater
  else
    let room := updater.received.free
    if hroom : room = 0 then
      perform updater.overflow
    else
      match ← updater.received.push (data.take room) with
      | (false, _) => perform updater.overflow
      | (true, received) =>
          let (updater, failure) ← { updater with received := received }.drain
          match failure with
          | none => updater.receive (data.drop room)
          | some failure => (← perform (updater.fail failure)).receive (data.drop room)
termination_by data.length
decreasing_by
  all_goals
    simp only [Bool.or_eq_true, not_or, List.isEmpty_iff] at hend
    have hdata : 0 < data.length := List.length_pos_iff.mpr hend.1
    simp only [List.length_drop]
    omega

omit [TickCounter σ] [Flash σ] in
-- Starts a new session, whatever came before.
def opened (updater : Updater) : Action σ Updater := do
  log .Info "Bitstream session opened"
  pure { updater with
    phase := .Magic, lastError := none, received := updater.received.reset,
    writer := updater.writer.restart, bulkLeft := 0 }

omit [TickCounter σ] in
-- Ends the session and writes the bytes that still wait. A session that has
-- failed writes nothing.
def closed (updater : Updater) : Run σ Updater := do
  if updater.phase = .Failed then
    perform (log .Warn "Bitstream session closed after failure")
    pure updater
  else
    if updater.phase ≠ .Done then
      perform (log .Warn s!"Bitstream session closed in state {updater.phase.name}")
    let (writer, failure) ← updater.writer.flushAll
    let updater := { updater with writer := writer }
    match failure with
    | none =>
        let written ← updater.bytesWritten
        perform (log .Info s!"Bitstream session closed, {written} bytes written")
        pure updater
    | some failure => perform (updater.fail failure)

end

end Updater

end BoardControl.Bitstream
