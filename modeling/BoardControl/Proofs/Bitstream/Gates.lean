import BoardControl.Proofs.Bitstream.Delivery
import BoardControl.Proofs.Bitstream.FlashPhases
import BoardControl.Proofs.Bitstream.Format

namespace BoardControl.Bitstream

-- The magic and some records.
def headingBytes (records : List HeaderRecord) : List UInt8 :=
  fileMagic ++ records.flatMap HeaderRecord.bytes

-- The file may be written: the magic and complete records came, no record names
-- another device, and the announced bitstream fits the partition.
def Partition.Admits (partition : Partition) (device : String) (delivered : List UInt8) : Prop :=
  ∃ (records : List HeaderRecord) (a b c d : UInt8),
    (∀ entry ∈ records, entry.Suits device) ∧ beWord a b c d ≤ partition.size ∧
      headingBytes records ++ [bitstreamRecord, a, b, c, d] <+: delivered

-- A preparation and the pages after it, all of them or as far as they came.

def Partition.Programmed (partition : Partition) (sector : UInt32) (calls : List FlashCall) :
    Prop :=
  ∃ preparation pages, calls = preparation ++ pages ∧
    partition.Prepared sector preparation ∧ Written pages

def Partition.Programming (partition : Partition) (sector : UInt32) (calls : List FlashCall) :
    Prop :=
  ∃ preparation pages, calls = preparation ++ pages ∧
    partition.Prepared sector preparation ∧ Writing pages

-- What is fixed for a session: the partition, the device that the file has to
-- name, and the board at which the session began.
structure Gate (φ : Type) where
  partition : Partition
  device : String
  begun : Watched φ

def Phase.isBody : Phase → Bool
  | .SyncWait | .Packets | .Bulk | .Done => true
  | .Magic | .Records | .Failed => false

theorem Partition.Admits.append {partition : Partition} {device : String}
    {delivered : List UInt8} (h : partition.Admits device delivered) (more : List UInt8) :
    partition.Admits device (delivered ++ more) := by
  obtain ⟨records, a, b, c, d, hsuits, hlength, hbegins⟩ := h
  exact ⟨records, a, b, c, d, hsuits, hlength, hbegins.trans (List.prefix_append ..)⟩

namespace Gate

section

variable {φ : Type} [Flash φ]

def sector (gate : Gate φ) : UInt32 := Flash.sectorSize gate.begun

-- The calls that a session may have made by the time it has been given some bytes.
-- There are none before the file is admitted.
def Behind (gate : Gate φ) (delivered : List UInt8) (board : Watched φ) : Prop :=
  board.calls = gate.begun.calls ∨
    gate.partition.Admits gate.device delivered ∧
      Made (fun calls => gate.partition.Preparing gate.sector calls ∨
        gate.partition.Programming gate.sector calls) gate.begun board

-- In the header the board is as it was and nothing waits to be written. The bytes
-- are those that were accepted and those in the receive buffer.
structure Header (gate : Gate φ) (delivered accepted : List UInt8) (updater : Updater)
    (board : Watched φ) : Prop where
  board_eq : board = gate.begun
  empty : updater.writer.pending.length = 0
  delivered_eq : delivered = accepted ++ updater.received.toList

-- Where a session is that has not failed.
inductive Stage (gate : Gate φ) (delivered : List UInt8) (updater : Updater) (board : Watched φ) :
    Prop
  | magic (hphase : updater.phase = .Magic) (hheader : gate.Header delivered [] updater board)
  | records (hphase : updater.phase = .Records) (records : List HeaderRecord)
      (hsuits : ∀ entry ∈ records, entry.Suits gate.device)
      (hheader : gate.Header delivered (headingBytes records) updater board)
  | body (hphase : updater.phase.isBody) (hadmits : gate.partition.Admits gate.device delivered)
      (hmade : Made (gate.partition.Programmed gate.sector) gate.begun board)

-- The updater works on the partition and for the device of the session.
structure Aims (gate : Gate φ) (updater : Updater) : Prop where
  partition : updater.writer.partition = gate.partition
  device : updater.device = gate.device

structure Live (gate : Gate φ) (delivered : List UInt8) (updater : Updater) (board : Watched φ) :
    Prop extends gate.Aims updater where
  stage : gate.Stage delivered updater board

inductive Guards (gate : Gate φ) (delivered : List UInt8) (updater : Updater)
    (board : Watched φ) : Prop
  | live (h : gate.Live delivered updater board)
  | failed (haims : gate.Aims updater) (hphase : updater.phase = .Failed)
      (hbehind : gate.Behind delivered board)

-- What a step of the parser leads to.
def Steps (gate : Gate φ) (delivered : List UInt8) (result : Except UpdateError (Bool × Updater))
    (after : Watched φ) : Prop :=
  match result with
  | .error _ => gate.Behind delivered after
  | .ok (_, next) => gate.Live delivered next after

variable {gate : Gate φ} {delivered : List UInt8} {updater : Updater} {board : Watched φ}

theorem Behind.append (h : gate.Behind delivered board) (more : List UInt8) :
    gate.Behind (delivered ++ more) board := by
  rcases h with hnone | ⟨hadmits, hmade⟩
  · exact .inl hnone
  · exact .inr ⟨hadmits.append more, hmade⟩

omit [Flash φ] in
-- A part of the received bytes is accepted.
theorem Header.popped {accepted further : List UInt8} {next : Updater} {count : Nat}
    (h : gate.Header delivered accepted updater board)
    (hreceived : next.received = updater.received.popFront count)
    (hwriter : next.writer = updater.writer)
    (hfurther : further = accepted ++ updater.received.toList.take count) :
    gate.Header delivered further next board := by
  refine ⟨h.board_eq, by rw [hwriter, h.empty], ?_⟩
  rw [h.delivered_eq, hfurther, hreceived, Ring.toList_popFront, List.append_assoc,
    List.take_append_drop]

theorem Header.behind {accepted : List UInt8} (h : gate.Header delivered accepted updater board) :
    gate.Behind delivered board :=
  .inl (by rw [h.board_eq])

theorem Stage.behind (h : gate.Stage delivered updater board) : gate.Behind delivered board := by
  cases h with
  | magic _ hheader => exact hheader.behind
  | records _ _ _ hheader => exact hheader.behind
  | body _ hadmits hmade =>
      refine .inr ⟨hadmits, hmade.mono ?_⟩
      rintro calls ⟨preparation, pages, hcalls, hprepared, hwritten⟩
      exact .inr ⟨preparation, pages, hcalls, hprepared, hwritten.writing⟩

-- Pages may be written once the partition is prepared.

theorem programmed {after : Watched φ}
    (h : Made (gate.partition.Programmed gate.sector) gate.begun board)
    (hpages : Made Written board after) :
    Made (gate.partition.Programmed gate.sector) gate.begun after := by
  refine h.append hpages ?_
  rintro _ more ⟨preparation, pages, rfl, hprepared, hbefore⟩ hmore
  exact ⟨preparation, pages ++ more, List.append_assoc .., hprepared, hbefore.append hmore⟩

theorem programming {after : Watched φ}
    (h : Made (gate.partition.Programmed gate.sector) gate.begun board)
    (hpages : Made Writing board after) :
    Made (gate.partition.Programming gate.sector) gate.begun after := by
  refine h.append hpages ?_
  rintro _ more ⟨preparation, pages, rfl, hprepared, hbefore⟩ hmore
  exact ⟨preparation, pages ++ more, List.append_assoc .., hprepared, hbefore.append_writing hmore⟩

end

section

variable {φ μ : Type} [Logger μ] {updater : Updater}

-- A part of the body goes from one buffer to the other, and the flash is left
-- alone.
structure Moved (updater next : Updater) : Prop where
  partition : next.writer.partition = updater.writer.partition
  device : next.device = updater.device
  isBody : next.phase.isBody

theorem withBuffers_moved (hbody : updater.phase.isBody)
    (received pending : Ring Settings.streamBuffer) :
    Moved updater (updater.withBuffers received pending) :=
  ⟨rfl, rfl, hbody⟩

theorem moveBytes_moved (hbody : updater.phase.isBody) {count : Nat} {next : Updater}
    (h : updater.moveBytes count = .ok next) : Moved updater next := by
  obtain ⟨buffers, _, hnext⟩ := Run.exists_of_bind_eq_ok h
  cases hnext
  exact withBuffers_moved hbody _ _

theorem Moved.withPhase {next : Updater} (h : Moved updater next) {phase : Phase}
    (hphase : phase.isBody) : Moved updater { next with phase := phase } :=
  ⟨h.partition, h.device, hphase⟩

-- A step of the body.
def Moves (updater : Updater) (board : Watched φ) (result : Except UpdateError (Bool × Updater))
    (after : Watched φ) : Prop :=
  after = board ∧ ∀ answer, result = .ok answer → Moved updater answer.2

theorem Moves.of_ok {progress : Bool} {next : Updater} {board : Watched φ}
    (h : Moved updater next) : Moves updater board (.ok (progress, next)) board := by
  refine ⟨rfl, ?_⟩
  rintro _ ⟨⟩
  exact h

theorem Moves.of_error {failure : UpdateError} {board : Watched φ} :
    Moves updater board (.error failure) board := by
  refine ⟨rfl, ?_⟩
  intro answer hanswer
  injection hanswer

theorem waitForSync_leaves (hbody : updater.phase.isBody) (logged : Logged (Watched φ) μ) :
    Run.Leaves updater.waitForSync logged
      (fun result after => Moves updater logged.board (.ok result) after.board)
      (fun after => after.board = logged.board) := by
  simp only [Updater.waitForSync, Run.leaves_bind, Run.leaves_lift]
  refine ⟨?_, fun _ _ => trivial⟩
  intro scan _
  have hmoved := withBuffers_moved hbody scan.received scan.pending
  split
  · simp only [Run.leaves_bind, Run.leaves_perform, Run.leaves_pure, Logged.board_log]
    exact .of_ok (hmoved.withPhase rfl)
  · exact .of_ok hmoved

theorem readType1_leaves (hbody : updater.phase.isBody) (page : Nat) (opcode : Opcode)
    (register words : UInt16) (logged : Logged (Watched φ) μ) :
    Run.Leaves (updater.readType1 page opcode register words) logged
      (fun result after => Moves updater logged.board result after.board)
      (fun after => after.board = logged.board) := by
  have hstays : Moved updater updater := ⟨rfl, rfl, hbody⟩
  simp only [Updater.readType1]
  split
  · simp only [Run.leaves_bind, Run.leaves_perform, Run.leaves_pure, Logged.board_log]
    exact .of_error
  · split
    · exact .of_ok hstays
    · simp only [Run.leaves_bind]
      refine Run.Leaves.mono ((useType1_ends opcode register words _ logged).leaves _) ?_
        fun _ => id
      intro last middle hused
      simp only [Run.leaves_lift, hused.1]
      refine ⟨?_, fun _ _ => trivial⟩
      intro next hnext
      have hmoved := moveBytes_moved hbody hnext
      split
      · simp only [Run.leaves_bind, Run.leaves_perform, Run.leaves_pure, Logged.board_log, hused.1]
        exact .of_ok (hmoved.withPhase rfl)
      · rw [Run.leaves_pure, hused.1]
        exact .of_ok hmoved

theorem readType2_leaves (hbody : updater.phase.isBody) (opcode : Opcode) (words : UInt32)
    (logged : Logged (Watched φ) μ) :
    Run.Leaves (updater.readType2 opcode words) logged
      (fun result after => Moves updater logged.board result after.board)
      (fun after => after.board = logged.board) := by
  simp only [Updater.readType2]
  split
  · exact .of_ok ⟨rfl, rfl, hbody⟩
  · simp only [Run.leaves_bind, Run.leaves_perform, Run.leaves_lift, Logged.board_log]
    refine ⟨?_, fun _ _ => trivial⟩
    intro next hnext
    have hmoved := moveBytes_moved hbody hnext
    rw [Run.leaves_pure, Logged.board_log]
    split
    · exact .of_ok ⟨hmoved.partition, hmoved.device, rfl⟩
    · exact .of_ok ⟨hmoved.partition, hmoved.device, hmoved.isBody⟩

theorem moveBulk_leaves (hbody : updater.phase.isBody) (logged : Logged (Watched φ) μ) :
    Run.Leaves updater.moveBulk logged
      (fun result after => Moves updater logged.board (.ok result) after.board)
      (fun after => after.board = logged.board) := by
  simp only [Updater.moveBulk]
  split
  · exact .of_ok ⟨rfl, rfl, hbody⟩
  · simp only [Run.leaves_bind, Run.leaves_lift]
    refine ⟨?_, fun _ _ => trivial⟩
    intro next hnext
    refine ⟨?_, fun _ _ => trivial⟩
    intro left _
    have hmoved := moveBytes_moved hbody hnext
    split
    · simp only [Run.leaves_bind, Run.leaves_perform, Run.leaves_pure, Logged.board_log]
      exact .of_ok ⟨hmoved.partition, hmoved.device, rfl⟩
    · exact .of_ok ⟨hmoved.partition, hmoved.device, hmoved.isBody⟩

end

section

variable {φ μ : Type} [Flash φ] [Logger μ] {gate : Gate φ} {delivered : List UInt8}
  {updater : Updater} {logged : Logged (Watched φ) μ}

theorem readMagic_leaves (haims : gate.Aims updater) (hphase : updater.phase = .Magic)
    (hheader : gate.Header delivered [] updater logged.board) :
    Run.Leaves updater.readMagic logged
      (fun result after => gate.Steps delivered result after.board)
      (fun after => gate.Behind delivered after.board) := by
  simp only [Updater.readMagic, Ring.front_eq_take]
  split
  · exact ⟨haims, .magic hphase hheader⟩
  · split
    · rename_i hmagic
      have hheading : headingBytes [] = [] ++ updater.received.toList.take fileMagic.length := by
        rw [hmagic]
        rfl
      exact ⟨⟨haims.partition, haims.device⟩,
        .records rfl [] (List.forall_mem_nil _) (hheader.popped rfl rfl hheading)⟩
    · simp only [Run.leaves_bind, Run.leaves_perform, Run.leaves_pure, Logged.board_log]
      exact hheader.behind

-- An updater that has accepted some records.
structure Reading (gate : Gate φ) (delivered : List UInt8) (records : List HeaderRecord)
    (updater : Updater) (board : Watched φ) : Prop extends gate.Aims updater where
  phase : updater.phase = .Records
  suits : ∀ entry ∈ records, entry.Suits gate.device
  header : gate.Header delivered (headingBytes records) updater board

section

variable {records : List HeaderRecord} {kind : UInt8} {rest : List UInt8}

theorem Reading.live {board : Watched φ} (h : gate.Reading delivered records updater board) :
    gate.Live delivered updater board :=
  ⟨h.toAims, .records h.phase records h.suits h.header⟩

-- One more record is accepted.
theorem Reading.snoc {board : Watched φ} {entry : HeaderRecord} {count : Nat}
    (h : gate.Reading delivered records updater board) (hentry : entry.Suits gate.device)
    (hfront : updater.received.toList.take count = entry.bytes) :
    gate.Live delivered { updater with received := updater.received.popFront count } board := by
  have hheading : headingBytes (records ++ [entry]) =
      headingBytes records ++ updater.received.toList.take count := by
    simp only [hfront, headingBytes, List.flatMap_append, List.flatMap_singleton,
      List.append_assoc]
  have hall : ∀ other ∈ records ++ [entry], other.Suits gate.device :=
    List.forall_mem_append.mpr ⟨h.suits, List.forall_mem_singleton.mpr hentry⟩
  exact ⟨⟨h.partition, h.device⟩, .records h.phase _ hall (h.header.popped rfl rfl hheading)⟩

theorem readText_leaves (h : gate.Reading delivered records updater logged.board)
    (hbytes : updater.received.toList = kind :: rest) (hkind : kind ≠ bitstreamRecord) :
    Run.Leaves updater.readText logged
      (fun result after => gate.Steps delivered result after.board)
      (fun after => gate.Behind delivered after.board) := by
  have hstays := h.live
  have hlength : updater.received.length = rest.length + 1 := by
    rw [← Ring.length_toList, hbytes, List.length_cons]
  simp only [Updater.readText, Ring.front_eq_take, hbytes]
  rcases rest with _ | ⟨high, _ | ⟨low, rest⟩⟩
  · exact hstays
  · exact hstays
  · simp only [List.length_cons] at hlength
    simp only [List.take_succ_cons, List.take_zero]
    split
    · simp only [Run.leaves_bind, Run.leaves_perform, Run.leaves_pure, Logged.board_log]
      exact h.header.behind
    · rename_i hfits
      split
      · exact hstays
      · rename_i hcomplete
        have hstream : Settings.streamBuffer = 4096 := rfl
        have htake : (kind :: high :: low :: rest).take (3 + (256 * high.toNat + low.toNat)) =
            kind :: high :: low :: rest.take (256 * high.toNat + low.toNat) := by
          rw [Nat.add_comm]
          rfl
        have htext : (rest.take (256 * high.toNat + low.toNat)).length =
            256 * high.toNat + low.toNat := by
          rw [List.length_take]
          omega
        generalize hpayload : rest.take (256 * high.toNat + low.toNat) = payload at htake htext
        let entry : HeaderRecord :=
          { kind, high, low, payload, kind_ne := hkind, length_eq := htext,
            length_le := by rw [htext, maxRecordText]; omega }
        simp only [htake, List.drop_succ_cons, List.drop_zero, Run.leaves_bind]
        refine Run.Leaves.mono ((useRecord_ends updater kind _ logged).leaves _) ?_ fun _ => id
        rintro result after ⟨hafter, rfl⟩
        by_cases hwrong : kind = deviceRecord ∧ recordText payload ≠ updater.device
        · rw [recordText] at hwrong
          rw [if_pos hwrong, Run.leaves_pure, hafter]
          exact h.header.behind
        · have hentry : entry.Suits gate.device := by
            intro hdevice
            rw [← h.device]
            exact Decidable.not_not.mp fun hne => hwrong ⟨hdevice, hne⟩
          rw [recordText] at hwrong
          rw [if_neg hwrong, Run.leaves_pure, hafter]
          exact h.snoc hentry (by rw [hbytes, htake]; rfl)

theorem readLength_leaves [TickCounter φ]
    (h : gate.Reading delivered records updater logged.board)
    (hbytes : updater.received.toList = kind :: rest) (hkind : kind = bitstreamRecord) :
    Run.Leaves updater.readLength logged
      (fun result after => gate.Steps delivered result after.board)
      (fun after => gate.Behind delivered after.board) := by
  have hstays := h.live
  simp only [Updater.readLength, Ring.front_eq_take, hbytes]
  rcases rest with _ | ⟨a, _ | ⟨b, _ | ⟨c, _ | ⟨d, rest⟩⟩⟩⟩
  · exact hstays
  · exact hstays
  · exact hstays
  · exact hstays
  · simp only [List.take_succ_cons, List.take_zero, Run.leaves_bind, Run.leaves_perform,
      h.partition]
    by_cases hlarge : gate.partition.size < beWord a b c d
    · simp only [if_pos hlarge, Run.leaves_bind, Run.leaves_perform, Run.leaves_pure,
        Logged.board_log]
      exact h.header.behind
    · have hadmits : gate.partition.Admits gate.device delivered := by
        refine ⟨records, a, b, c, d, h.suits, UInt32.not_lt.mp hlarge, ?_⟩
        rw [h.header.delivered_eq, hbytes, hkind, List.prefix_append_right_inj]
        exact List.prefix_append [bitstreamRecord, a, b, c, d] rest
      simp only [if_neg hlarge, Run.leaves_bind]
      refine Run.Leaves.mono (gate.partition.erase_leaves _) ?_ ?_
      · intro result after herase
        simp only [Logged.board_log, h.header.board_eq] at herase
        cases result with
        | error _ => exact .inr ⟨hadmits, herase.mono fun _ => .inl⟩
        | ok _ =>
            refine ⟨⟨h.partition, h.device⟩, .body rfl hadmits (herase.mono ?_)⟩
            intro calls hprepared
            exact ⟨calls, [], (List.append_nil _).symm, hprepared, .done⟩
      · intro after herase
        simp only [Logged.board_log, h.header.board_eq] at herase
        exact .inr ⟨hadmits, herase.mono fun _ => .inl⟩

theorem readRecord_leaves [TickCounter φ]
    (h : gate.Reading delivered records updater logged.board) :
    Run.Leaves updater.readRecord logged
      (fun result after => gate.Steps delivered result after.board)
      (fun after => gate.Behind delivered after.board) := by
  simp only [Updater.readRecord, Ring.front_eq_take]
  cases hbytes : updater.received.toList with
  | nil => exact h.live
  | cons kind rest =>
      simp only [List.take_succ_cons, List.take_zero]
      by_cases hkind : kind = bitstreamRecord
      · rw [if_pos hkind]
        exact readLength_leaves h hbytes hkind
      · rw [if_neg hkind]
        exact readText_leaves h hbytes hkind

end

theorem readPacket_leaves (hbody : updater.phase.isBody) (logged : Logged (Watched φ) μ) :
    Run.Leaves updater.readPacket logged
      (fun result after => Moves updater logged.board result after.board)
      (fun after => after.board = logged.board) := by
  simp only [Updater.readPacket, Run.leaves_bind, Run.leaves_perform]
  have hboard := PageWriter.board_pageSize logged
  generalize (PageWriter.pageSize logged).2 = middle at hboard ⊢
  rw [← hboard]
  split
  · exact .of_error
  · split
    · exact .of_ok ⟨rfl, rfl, hbody⟩
    · split
      · exact readType1_leaves hbody _ _ _ _ middle
      · exact readType2_leaves hbody _ _ middle
      · simp only [Run.leaves_bind, Run.leaves_perform, Run.leaves_pure, Logged.board_log]
        exact .of_error

theorem step_leaves [TickCounter φ] (h : gate.Live delivered updater logged.board) :
    Run.Leaves updater.step logged
      (fun result after => gate.Steps delivered result after.board)
      (fun after => gate.Behind delivered after.board) := by
  have haims := h.toAims
  simp only [Updater.step]
  cases h.stage with
  | magic hphase hheader =>
      simp only [hphase]
      exact readMagic_leaves haims hphase hheader
  | records hphase records hsuits hheader =>
      simp only [hphase]
      exact readRecord_leaves ⟨haims, hphase, hsuits, hheader⟩
  | body hphase hadmits hmade =>
      have hbehind := h.stage.behind
      have hmoves : ∀ result after, Moves updater logged.board result after →
          gate.Steps delivered result after := by
        rintro result _ ⟨rfl, hmoved⟩
        cases result with
        | error _ => exact hbehind
        | ok answer =>
            have hnext := hmoved answer rfl
            exact ⟨⟨hnext.partition.trans haims.partition, hnext.device.trans haims.device⟩,
              .body hnext.isBody hadmits hmade⟩
      have hfault : ∀ after : Logged (Watched φ) μ, after.board = logged.board →
          gate.Behind delivered after.board := by
        intro after hafter
        rw [hafter]
        exact hbehind
      cases hcase : updater.phase with
      | Magic | Records | Failed =>
          all_goals
            rw [hcase] at hphase
            cases hphase
      | SyncWait =>
          simp only [Run.leaves_bind, Run.leaves_pure]
          exact (waitForSync_leaves hphase logged).mono (fun _ _ => hmoves _ _) hfault
      | Packets =>
          exact (readPacket_leaves hphase logged).mono (fun _ _ => hmoves _ _) hfault
      | Bulk =>
          simp only [Run.leaves_bind, Run.leaves_pure]
          exact (moveBulk_leaves hphase logged).mono (fun _ _ => hmoves _ _) hfault
      | Done => exact h

end

end Gate

end BoardControl.Bitstream
