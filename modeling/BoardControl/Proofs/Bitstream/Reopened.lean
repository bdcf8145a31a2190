import BoardControl.Bench.Board
import BoardControl.Proofs.Bitstream.Alike
import BoardControl.Proofs.Bitstream.Lifetime

namespace BoardControl.Bitstream

-- Two search results that look the same.
structure SyncScan.Alike (one other : SyncScan) : Prop where
  found : one.found = other.found
  moved : one.moved = other.moved
  received : one.received.Alike other.received
  pending : one.pending.Alike other.pending

namespace Updater

-- Two updaters that differ at most in where their bytes lie and in what the other
-- cells of their buffers hold.
structure Alike (one other : Updater) : Prop where
  device : one.device = other.device
  phase : one.phase = other.phase
  lastError : one.lastError = other.lastError
  received : one.received.Alike other.received
  writer : one.writer.Alike other.writer
  bulkLeft : one.bulkLeft = other.bulkLeft

-- Whether there was progress, and the updater afterwards.
def Agrees (result result' : Bool × Updater) : Prop :=
  result.1 = result'.1 ∧ result.2.Alike result'.2

section

variable {received received' pending pending' : Ring Settings.streamBuffer}

theorem move_alike (hreceived : received.Alike received') (hpending : pending.Alike pending')
    (count : Nat) :
    Likewise (fun result result' => result.1.Alike result'.1 ∧ result.2.Alike result'.2)
      (move received pending count) (move received' pending' count) := by
  refine .bind (hreceived.transfer hpending count) ?_
  rintro ⟨moved, received, pending⟩ ⟨_, received', pending'⟩ ⟨rfl, hreceived, hpending⟩
  cases moved with
  | true => exact .ok ⟨hreceived, hpending⟩
  | false => exact .error _

theorem scanSync_alike (fuel : Nat) (hreceived : received.Alike received')
    (hpending : pending.Alike pending') :
    Likewise SyncScan.Alike (scanSync fuel received pending)
      (scanSync fuel received' pending') := by
  induction fuel generalizing received received' pending pending' with
  | zero => exact .ok ⟨rfl, rfl, hreceived, hpending⟩
  | succ fuel ih =>
      rw [scanSync, scanSync, hreceived.length, hpending.free, hreceived.front]
      split
      · exact .ok ⟨rfl, rfl, hreceived, hpending⟩
      · split
        · refine .bind (move_alike hreceived hpending _) ?_
          intro result result' hmoved
          exact .ok ⟨rfl, rfl, hmoved.1, hmoved.2⟩
        · refine .bind (move_alike hreceived hpending 1) ?_
          intro result result' hmoved
          refine .bind (ih hmoved.1 hmoved.2) ?_
          intro rest rest' hrest
          exact .ok ⟨hrest.found, rfl, hrest.received, hrest.pending⟩

end

namespace Alike

variable {one other : Updater}

theorem withBuffers (h : one.Alike other) {received received' pending pending' : Ring _}
    (hreceived : received.Alike received') (hpending : pending.Alike pending') :
    (one.withBuffers received pending).Alike (other.withBuffers received' pending') :=
  { h with received := hreceived, writer := { h.writer with pending := hpending } }

theorem moveBytes (h : one.Alike other) (count : Nat) :
    Likewise Alike (one.moveBytes count) (other.moveBytes count) := by
  refine .bind (move_alike h.received h.writer.pending count) ?_
  intro result result' hmoved
  exact .ok (h.withBuffers hmoved.1 hmoved.2)

theorem bytesWritten (h : one.Alike other) : one.bytesWritten = other.bytesWritten := by
  rw [Updater.bytesWritten, Updater.bytesWritten, PageWriter.written, PageWriter.written,
    h.writer.cursor, h.writer.partition]

section

open Rig

variable {φ τ : Type} [Logger τ] {here there : Rig φ τ}

theorem readMagic (h : one.Alike other) :
    Run.Parallel (Twins here there) (Likewise Agrees) one.readMagic other.readMagic := by
  rw [Updater.readMagic, Updater.readMagic, h.received.length, h.received.front]
  split
  · exact .pure (.ok ⟨rfl, h⟩)
  · split
    · exact .pure (.ok ⟨rfl, { h with phase := rfl, received := h.received.popFront _ }⟩)
    · exact Twins.refused

theorem useRecord (h : one.Alike other) (kind : UInt8) (text : String) :
    Run.Parallel (Twins here there) Eq (one.useRecord kind text) (other.useRecord kind text) := by
  rw [Updater.useRecord, Updater.useRecord, h.device]
  split
  · exact Twins.after_log (.pure rfl)
  · split
    · exact Twins.after_log (.pure rfl)
    · exact Twins.after_log (.pure rfl)
  · exact Twins.after_log (.pure rfl)
  · exact Twins.after_log (.pure rfl)
  · exact Twins.after_log (.pure rfl)

theorem readText (h : one.Alike other) :
    Run.Parallel (Twins here there) (Likewise Agrees) one.readText other.readText := by
  rw [Updater.readText, Updater.readText, h.received.front 3]
  split
  · simp only [h.received.length, h.received.front]
    split
    · exact Twins.refused
    · split
      · exact .pure (.ok ⟨rfl, h⟩)
      · refine .bind (h.useRecord _ _) ?_
        rintro used _ rfl
        cases used with
        | error failure => exact .pure (.error _)
        | ok _ => exact .pure (.ok ⟨rfl, { h with received := h.received.popFront _ }⟩)
  · exact .pure (.ok ⟨rfl, h⟩)

theorem waitForSync (h : one.Alike other) :
    Run.Parallel (Twins here there) Agrees one.waitForSync other.waitForSync := by
  rw [Updater.waitForSync, Updater.waitForSync, h.received.length]
  refine .bind (.lift (scanSync_alike _ h.received h.writer.pending)) ?_
  intro scan scan' hscan
  have hbuffers := h.withBuffers hscan.received hscan.pending
  simp only [hscan.found]
  split
  · exact Twins.after_log (.pure ⟨rfl, { hbuffers with phase := rfl }⟩)
  · exact .pure ⟨hscan.moved, hbuffers⟩

theorem useType1 (opcode : Opcode) (register words : UInt16) (payload : List UInt8) :
    Run.Parallel (Twins here there) Eq (Updater.useType1 opcode register words payload)
      (Updater.useType1 opcode register words payload) := by
  rw [Updater.useType1]
  split
  · exact Twins.after_log (.pure rfl)
  · split
    · exact Twins.after_log (.pure rfl)
    · exact Twins.after_log (.pure rfl)

theorem readType1 (h : one.Alike other) (page : Nat) (opcode : Opcode)
    (register words : UInt16) :
    Run.Parallel (Twins here there) (Likewise Agrees) (one.readType1 page opcode register words)
      (other.readType1 page opcode register words) := by
  rw [Updater.readType1, Updater.readType1]
  simp only [h.received.length, h.received.front, h.writer.pending.free]
  split
  · exact Twins.refused
  · split
    · exact .pure (.ok ⟨rfl, h⟩)
    · refine .bind (useType1 _ _ _ _) ?_
      rintro last _ rfl
      refine .bind (.lift (h.moveBytes _)) ?_
      intro moved moved' hmoved
      cases last with
      | true => exact Twins.after_log (.pure (.ok ⟨rfl, { hmoved with phase := rfl }⟩))
      | false => exact .pure (.ok ⟨rfl, hmoved⟩)

theorem readType2 (h : one.Alike other) (opcode : Opcode) (words : UInt32) :
    Run.Parallel (Twins here there) (Likewise Agrees) (one.readType2 opcode words)
      (other.readType2 opcode words) := by
  rw [Updater.readType2, Updater.readType2, h.writer.pending.free]
  split
  · exact .pure (.ok ⟨rfl, h⟩)
  · refine Twins.after_log ?_
    refine .bind (.lift (h.moveBytes 4)) ?_
    intro moved moved' hmoved
    split
    · exact .pure (.ok ⟨rfl, { hmoved with phase := rfl, bulkLeft := rfl }⟩)
    · exact .pure (.ok ⟨rfl, { hmoved with bulkLeft := rfl }⟩)

theorem moveBulk (h : one.Alike other) :
    Run.Parallel (Twins here there) Agrees one.moveBulk other.moveBulk := by
  rw [Updater.moveBulk, Updater.moveBulk]
  simp only [h.received.length, h.writer.pending.free, h.bulkLeft]
  split
  · exact .pure ⟨rfl, h⟩
  · refine .bind (.lift (h.moveBytes _)) ?_
    intro moved moved' hmoved
    simp only [hmoved.bulkLeft]
    refine .bind (.lift (.of_eq rfl)) ?_
    rintro left _ rfl
    split
    · exact Twins.after_log (.pure ⟨rfl, { hmoved with phase := rfl, bulkLeft := rfl }⟩)
    · exact .pure ⟨rfl, { hmoved with bulkLeft := rfl }⟩

-- A session begins anew whatever came before.
theorem opened (hpartition : one.writer.partition = other.writer.partition)
    (hdevice : one.device = other.device) :
    Run.Parallel (Twins here there) Alike (perform one.opened) (perform other.opened) := by
  refine .perform fun left right htwins => ⟨?_, htwins.of_flash (flash_log ..) (flash_log ..)⟩
  exact {
    device := hdevice
    phase := rfl
    lastError := rfl
    received := Ring.reset_alike ..
    writer := PageWriter.Alike.restart hpartition
    bulkLeft := rfl }

-- Only the log of a failure is made on the board.
theorem fail (h : one.Alike other) (failure : UpdateError) :
    Run.Parallel (Twins here there) Alike (perform (one.fail failure))
      (perform (other.fail failure)) :=
  .perform fun _ _ htwins => ⟨{ h with phase := rfl, lastError := rfl },
    htwins.of_flash (flash_log ..) (flash_log ..)⟩

theorem overflow (h : one.Alike other) :
    Run.Parallel (Twins here there) Alike (perform one.overflow) (perform other.overflow) :=
  .perform fun _ _ htwins => ⟨{ h with phase := rfl, lastError := rfl },
    htwins.of_flash ((flash_log ..).trans (flash_log ..)) ((flash_log ..).trans (flash_log ..))⟩

variable [Flash φ]

theorem readPacket (h : one.Alike other) :
    Run.Parallel (Twins here there) (Likewise Agrees) one.readPacket other.readPacket := by
  rw [Updater.readPacket, Updater.readPacket, h.received.front]
  refine .bind PageWriter.pageSize_parallel ?_
  rintro size _ rfl
  cases size with
  | error failure => exact .pure (.error _)
  | ok page =>
      dsimp only
      split
      · exact .pure (.ok ⟨rfl, h⟩)
      · split
        · exact h.readType1 _ _ _ _
        · exact h.readType2 _ _
        · exact Twins.refused

theorem closed (h : one.Alike other) :
    Run.Parallel (Twins here there) Alike one.closed other.closed := by
  rw [Updater.closed, Updater.closed, h.phase]
  split
  · exact Twins.after_log (.pure h)
  · refine Twins.sometimes_log (.bind h.writer.flushAll ?_)
    rintro ⟨writer, failure⟩ ⟨writer', _⟩ ⟨hwriter, rfl⟩
    have hflushed : Alike { one with phase := other.phase, writer }
        { other with writer := writer' } := { h with phase := rfl, writer := hwriter }
    cases failure with
    | some failure => exact hflushed.fail failure
    | none =>
        refine .bind (.lift (.of_eq hflushed.bytesWritten)) ?_
        intro written written' _
        exact Twins.after_log (.pure hflushed)

variable [TickCounter τ]

theorem readLength (h : one.Alike other) :
    Run.Parallel (Twins here there) (Likewise Agrees) one.readLength other.readLength := by
  rw [Updater.readLength, Updater.readLength, h.received.front]
  split
  · simp only [h.writer.partition]
    refine Twins.after_log ?_
    split
    · exact Twins.refused
    · refine .bind other.writer.partition.erase_parallel ?_
      rintro erased _ rfl
      cases erased with
      | error failure => exact .pure (.error _)
      | ok _ =>
          exact .pure (.ok ⟨rfl, { h with phase := rfl, received := h.received.popFront 5 }⟩)
  · exact .pure (.ok ⟨rfl, h⟩)

theorem readRecord (h : one.Alike other) :
    Run.Parallel (Twins here there) (Likewise Agrees) one.readRecord other.readRecord := by
  rw [Updater.readRecord, Updater.readRecord, h.received.front]
  split
  · split
    · exact h.readLength
    · exact h.readText
  · exact .pure (.ok ⟨rfl, h⟩)

theorem step (h : one.Alike other) :
    Run.Parallel (Twins here there) (Likewise Agrees) one.step other.step := by
  rw [Updater.step, Updater.step, h.phase]
  cases other.phase with
  | Magic => exact h.readMagic
  | Records => exact h.readRecord
  | SyncWait => exact .bind h.waitForSync fun _ _ hstep => .pure (.ok hstep)
  | Packets => exact h.readPacket
  | Bulk => exact .bind h.moveBulk fun _ _ hstep => .pure (.ok hstep)
  | Done | Failed => exact .pure (.ok ⟨rfl, h⟩)

def Drained (result result' : Updater × Option UpdateError) : Prop :=
  result.1.Alike result'.1 ∧ result.2 = result'.2

-- Both parsers go on or stop together, so the bytes that one of them still holds
-- bound the steps of both.
theorem drain (h : one.Alike other) :
    Run.Parallel (Twins here there) Drained one.drain other.drain := by
  induction hlength : one.received.length using Nat.strongRecOn generalizing one other with
  | _ length ih =>
      rw [Updater.drain, Updater.drain]
      refine .bind h.step ?_
      intro result result' hresult
      cases hresult with
      | error failure => exact .pure ⟨h, rfl⟩
      | @ok stepped stepped' hstepped =>
          obtain ⟨progress, next⟩ := stepped
          obtain ⟨_, next'⟩ := stepped'
          obtain ⟨rfl, hnext⟩ := hstepped
          have hnext : next.Alike next' := hnext
          refine .bind hnext.writer.flushPages ?_
          rintro ⟨writer, failure⟩ ⟨writer', _⟩ ⟨hwriter, rfl⟩
          have hflushed : Alike { next with phase := next'.phase, writer }
              { next' with writer := writer' } := { hnext with phase := rfl, writer := hwriter }
          simp only [hnext.phase, hnext.received.length, h.received.length]
          split
          · exact .pure ⟨hflushed, rfl⟩
          · split
            · rename_i hshorter
              have hless : next.received.length < length := by
                rwa [← hlength, hnext.received.length, h.received.length]
              exact ih _ hless hflushed rfl
            · exact .throw _

theorem receive (h : one.Alike other) (data : List UInt8) :
    Run.Parallel (Twins here there) Alike (one.receive data) (other.receive data) := by
  induction hlength : data.length using Nat.strongRecOn generalizing one other data with
  | _ length ih =>
      rw [Updater.receive, Updater.receive]
      simp only [h.phase, h.received.free]
      split
      · exact .pure h
      · rename_i hgoes
        simp only [Bool.or_eq_true, not_or, List.isEmpty_iff] at hgoes
        have hdata := List.length_pos_iff.mpr hgoes.1
        split
        · exact h.overflow
        · -- There is room for at least one byte, and the rest is what comes next.
          have hless : (data.drop other.received.free).length < length := by
            rw [List.length_drop]
            omega
          refine .bind (.lift (h.received.push _)) ?_
          rintro ⟨pushed, received⟩ ⟨_, received'⟩ ⟨rfl, hreceived⟩
          cases pushed with
          | false => exact h.overflow
          | true =>
              refine .bind (drain { h with phase := rfl, received := hreceived }) ?_
              rintro ⟨next, failure⟩ ⟨next', _⟩ ⟨hnext, rfl⟩
              cases failure with
              | none => exact ih _ hless hnext _ rfl
              | some failure =>
                  refine .bind (hnext.fail failure) ?_
                  intro failed failed' hfailed
                  exact ih _ hless hfailed _ rfl

theorem serve (h : one.Alike other) (call : HostCall) :
    Run.Parallel (Twins here there) Alike (one.serve call) (other.serve call) := by
  cases call with
  | Open => exact opened h.writer.partition h.device
  | Data bytes => exact h.receive bytes
  | Close => exact h.closed

theorem serveAll (h : one.Alike other) (calls : List HostCall) :
    Run.Parallel (Twins here there) Alike (Updater.serveAll calls one)
      (Updater.serveAll calls other) := by
  induction calls generalizing one other with
  | nil => exact .pure h
  | cons call rest ih => exact .bind (h.serve call) fun _ _ hnext => ih hnext

end

end Alike

-- What the host can ask of two updaters is the same.
structure SameToHost (one other : Updater) : Prop where
  phase : one.phase = other.phase
  lastError : one.lastError = other.lastError
  bytesWritten : one.bytesWritten = other.bytesWritten

theorem Alike.sameToHost {one other : Updater} (h : one.Alike other) : one.SameToHost other :=
  ⟨h.phase, h.lastError, h.bytesWritten⟩

-- An opened session does not depend on what its updater went through before. The
-- clocks and the logs may differ as well.
theorem session_from_scratch {φ τ : Type} [Flash φ] [TickCounter τ] [Logger τ]
    (one other : Updater) (here there : Rig φ τ)
    (hpartition : one.writer.partition = other.writer.partition)
    (hdevice : one.device = other.device)
    (hflash : here.flash.device = there.flash.device) (session : List HostCall) :
    Run.Matches (Rig.Twins here there) SameToHost (serveAll (.Open :: session) one here)
      (serveAll (.Open :: session) other there) := by
  have hruns : Run.Parallel (Rig.Twins here there) Alike (serveAll (.Open :: session) one)
      (serveAll (.Open :: session) other) :=
    .bind (Alike.opened hpartition hdevice) fun _ _ hopened => hopened.serveAll session
  exact (hruns here there (.refl hflash)).mono fun _ _ hsame => hsame.sameToHost

-- One updater is new and the other one has failed with bytes left over, on boards
-- with different clocks. They are given the shortest file.
theorem session_from_scratch_after_failure :
    let used : Updater := { Chip.updater with
      phase := .Failed
      lastError := some .BadMagic
      received := Chip.updater.received.pushBytes [1, 2, 3]
      bulkLeft := 7 }
    let here : Rig (Chip 0x1000 256) Bench.Board := ⟨⟨Chip.zeroed, []⟩, {}⟩
    let there : Rig (Chip 0x1000 256) Bench.Board :=
      ⟨⟨Chip.zeroed, [.Erase 0 true]⟩, { now := 700 }⟩
    Chip.updater.writer.partition = used.writer.partition ∧ Chip.updater.device = used.device ∧
      here.flash.device = there.flash.device ∧
      Run.Matches (Rig.Twins here there) SameToHost
        (serveAll [.Open, .Data Chip.shortest.bytes, .Close] Chip.updater here)
        (serveAll [.Open, .Data Chip.shortest.bytes, .Close] used there) := by
  intro used here there
  exact ⟨rfl, rfl, rfl, session_from_scratch Chip.updater used here there rfl rfl rfl
    [.Data Chip.shortest.bytes, .Close]⟩

end Updater

end BoardControl.Bitstream
