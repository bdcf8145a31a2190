import BoardControl.Proofs.Bitstream.Conservation
import BoardControl.Proofs.Bitstream.WholeFile

namespace BoardControl.Bitstream

open Session

section

variable {φ : Type} [Flash φ] [TickCounter φ] {target : Target}

-- Only a file leads to the end of the bitstream.
theorem file_of_done {stream : List UInt8} {last : Session} {board after : Watched φ}
    (hreach : Reaches target ((start target).append stream, board) (last, after))
    (hdone : last.phase = .Done) : ∃ file : File target, file.bytes <+: stream := by
  obtain ⟨header, calls, _, haccount⟩ := Account.reaches hreach (by rw [hdone]; decide)
  have hparsed := haccount.parsed
  rw [hdone] at hparsed
  obtain ⟨⟨announcement, hheader⟩, front, packet, hends, hbody⟩ := hparsed
  refine ⟨⟨announcement, front, packet, hends⟩, last.received, ?_⟩
  rw [haccount.stream_eq, hheader, hbody]
  rfl

end

section

variable {σ : Type} [Flash σ] {target : Target}

-- A body that was programmed has room in the partition.
theorem body_le_of_done (file : File target) (bulkLeft : UInt32) (more : List UInt8) (ready : σ)
    (hdone : let flushed := (file.read bulkLeft more).flush target ready
      (flushed.1.close target flushed.2).1.phase = .Done) :
    file.body.length ≤ target.partition.size.toNat := by
  simp only [Session.flush] at hdone
  rcases hflush : target.flush (file.read bulkLeft more).pending (file.read bulkLeft more).cursor
    ready with ⟨⟨failure | rest, next⟩, after⟩
  · rw [hflush] at hdone
    cases hdone
  · have hlive : ((file.read bulkLeft more).flushed (.ok rest, next)).phase ≠ .Failed := by
      intro hfailed
      cases hfailed
    rw [hflush, Session.close, if_neg hlive] at hdone
    rcases hfinish : target.finish rest next after with ⟨⟨failure | rest', last⟩, left⟩
    · simp only [flushed, hfinish] at hdone
      cases hdone
    · have hnext := target.le_stop_of_flush hflush target.partition.offset_le_stop
      have hlast := target.le_stop_of_finish hfinish hnext
      have hbody := (target.cursor_of_flush hflush).2 rest rfl
      have hrest := ((target.cursor_of_finish hfinish).2 rest' rfl).2
      have hstop := target.partition.stop_le
      simp only [File.read] at hbody
      omega

theorem done_of_close {session : Session} {board : σ}
    (h : (session.close target board).1.phase = .Done) : session.phase = .Done := by
  rw [Session.close] at h
  split at h
  · exact h
  · rcases hfinish : target.finish session.pending session.cursor board with
      ⟨⟨failure | rest, cursor⟩, after⟩
    · rw [hfinish] at h
      cases h
    · rw [hfinish] at h
      exact h

end

section

variable {φ μ : Type} [Flash φ] [TickCounter φ] [Logger μ] {target : Target}

-- An updater accepts the files of its format and nothing else, whatever follows
-- the file. On a faithful flash the body of an accepted file lies at the front of
-- the erased part, the rest of that part is blank, and no other cell changes.
theorem session_done_iff (flash : Faithful φ target) (hsuits : target.Suits φ)
    (hword : target.partition.offset.toNat + target.partition.size.toNat < UInt32.size)
    (updater : Updater) (hpartition : updater.writer.partition = target.partition)
    (hdevice : updater.device = target.device) (chunks : List (List UInt8))
    (logged : Logged (Watched φ) μ) :
    ∃ (closed : Updater) (after : Logged (Watched φ) μ),
      updater.session chunks true logged = .ok closed after ∧
      (closed.phase = .Done ↔ ∃ file : File target, file.bytes <+: chunks.flatten ∧
        file.body.length ≤ target.partition.size.toNat) ∧
      ∀ file : File target, file.bytes <+: chunks.flatten →
        file.body.length ≤ target.partition.size.toNat →
          closed.lastError = none ∧
          (∃ count, closed.bytesWritten = .ok count ∧ count.toNat = file.body.length) ∧
          Stores flash.capacity (flash.cell logged.board.device) (flash.cell after.board.device)
            target.partition.offset.toNat
            (file.body ++ List.replicate (flash.erased - file.body.length) 0xff) := by
  have hwatched : target.Suits (Watched φ) := fun board => hsuits board.device
  obtain ⟨closed, after, hrun, last, left, hsettles, hfollows, _⟩ :=
    session_ends hwatched hpartition hdevice chunks true logged
  rw [if_pos rfl] at hfollows
  have haccepted (file : File target) (hfile : file.bytes <+: chunks.flatten)
      (hsize : file.body.length ≤ target.partition.size.toNat) :
      flash.Ended logged.board.device after.board.device closed none file.body := by
    have hfits : target.partition.offset.toNat + file.body.length ≤
        target.partition.stop.toNat := by
      rw [Partition.stop_eq hword]
      omega
    exact (session_of_fitting_file flash hsuits hpartition hdevice file hfile hfits
      logged).of_eq_ok hrun
  refine ⟨closed, after, hrun, ⟨fun hdone => ?_, ?_⟩, fun file hfile hsize => ?_⟩
  · rw [hfollows.phase] at hdone
    obtain ⟨file, more, hmore⟩ := file_of_done hsettles.1 (done_of_close hdone)
    rw [← hmore] at hsettles
    obtain ⟨bulkLeft, ready, hread, _⟩ := settled_of_file flash.watched file hsettles
    refine ⟨file, ⟨more, hmore⟩, body_le_of_done file bulkLeft more ready ?_⟩
    rw [hread]
    exact hdone
  · intro hfile
    obtain ⟨file, hfile, hsize⟩ := hfile
    exact (haccepted file hfile hsize).phase_eq
  · obtain ⟨_, herror, hwritten, hstores⟩ := haccepted file hfile hsize
    exact ⟨herror, hwritten, hstores⟩

end

-- It is accepted with more bytes behind it.
theorem session_done_iff_shortest :
    ∃ (closed : Updater) (after : Logged (Watched (Chip 0x1000 256)) Unit),
      Chip.updater.session [Chip.shortest.bytes, [0x20]] true ⟨⟨Chip.zeroed, []⟩, ()⟩ =
        .ok closed after ∧
      closed.phase = .Done ∧ closed.lastError = none ∧
      (∃ count, closed.bytesWritten = .ok count ∧ count.toNat = 12) ∧
      Stores 0x1000 (fun _ => 0) after.board.device.cell 0
        (Chip.shortest.body ++ List.replicate (0x1000 - 12) 0xff) := by
  obtain ⟨closed, after, hrun, hdone, hprogrammed⟩ :=
    session_done_iff (Chip.faithful (by decide) Chip.target) (Chip.suits 0x1000) (by decide)
      Chip.updater rfl rfl [Chip.shortest.bytes, [0x20]] ⟨⟨Chip.zeroed, []⟩, ()⟩
  have hfile : Chip.shortest.bytes <+: [Chip.shortest.bytes, [0x20]].flatten := ⟨[0x20], rfl⟩
  obtain ⟨herror, hwritten, hstores⟩ := hprogrammed Chip.shortest hfile (by decide)
  exact ⟨closed, after, hrun, hdone.mpr ⟨_, hfile, by decide⟩, herror, hwritten, hstores⟩

end BoardControl.Bitstream
