import BoardControl.Proofs.Bitstream.Lifetime
import BoardControl.Proofs.Bitstream.UpdaterLaw
import BoardControl.Proofs.Ring.Slices

namespace BoardControl

namespace Bitstream

-- Both queues of an updater lie in their blocks.
structure Updater.InBlocks (updater : Updater) : Prop where
  received : updater.received.InBlock
  pending : updater.writer.pending.InBlock

-- What a step leads to when it is not refused.
def KeepsBlocks : Except UpdateError (Bool × Updater) → Prop
  | .error _ => True
  | .ok (_, next) => next.InBlocks

theorem inBlock_popBuffer (ring : Ring Settings.streamBuffer) (count : Nat) :
    (ring.popFront count).InBlock :=
  Ring.inBlock_popFront (by decide) ring count

section

variable {received pending : Ring Settings.streamBuffer} {count : Nat}

theorem move_inBlock {buffers : Ring Settings.streamBuffer × Ring Settings.streamBuffer}
    (hreceived : received.InBlock) (hpending : pending.InBlock)
    (h : Updater.move received pending count = .ok buffers) :
    buffers.1.InBlock ∧ buffers.2.InBlock := by
  obtain ⟨⟨moved, next, target⟩, htransfer, hmoved⟩ := Run.exists_of_bind_eq_ok h
  cases moved with
  | false => cases hmoved
  | true =>
      cases hmoved
      exact hreceived.transfer hpending htransfer

-- The search for the sync word keeps what every move of bytes keeps.
theorem scanSync_keeps (kept : Ring Settings.streamBuffer → Ring Settings.streamBuffer → Prop)
    (hmove : ∀ {received pending count buffers}, kept received pending →
      Updater.move received pending count = .ok buffers → kept buffers.1 buffers.2)
    {fuel : Nat} {scan : SyncScan} (h : kept received pending)
    (hscan : Updater.scanSync fuel received pending = .ok scan) :
    kept scan.received scan.pending := by
  induction fuel generalizing received pending scan with
  | zero =>
      cases hscan
      exact h
  | succ fuel ih =>
      rw [Updater.scanSync] at hscan
      split at hscan
      · cases hscan
        exact h
      · split at hscan
        · obtain ⟨buffers, hbuffers, hscan⟩ := Run.exists_of_bind_eq_ok hscan
          cases hscan
          exact hmove h hbuffers
        · obtain ⟨buffers, hbuffers, hscan⟩ := Run.exists_of_bind_eq_ok hscan
          obtain ⟨rest, hrest, hlast⟩ := Run.exists_of_bind_eq_ok hscan
          have hkept := ih (hmove h hbuffers) hrest
          cases hlast
          exact hkept

theorem scanSync_inBlock {fuel : Nat} {scan : SyncScan} (hreceived : received.InBlock)
    (hpending : pending.InBlock) (h : Updater.scanSync fuel received pending = .ok scan) :
    scan.received.InBlock ∧ scan.pending.InBlock :=
  scanSync_keeps (fun received pending => received.InBlock ∧ pending.InBlock)
    (fun hbefore => move_inBlock hbefore.1 hbefore.2) ⟨hreceived, hpending⟩ h

theorem moveBytes_inBlocks {updater next : Updater} (h : updater.InBlocks)
    (hmove : updater.moveBytes count = .ok next) : next.InBlocks := by
  obtain ⟨buffers, hbuffers, hnext⟩ := Run.exists_of_bind_eq_ok hmove
  obtain ⟨hreceived, hpending⟩ := move_inBlock h.received h.pending hbuffers
  cases hnext
  exact ⟨hreceived, hpending⟩

end

section

variable {σ μ : Type} [Logger μ] [Flash σ] {updater : Updater} {logged : Logged σ μ}

namespace PageWriter

variable {writer : PageWriter}

theorem programBlock_inBlock (writer : PageWriter) (length : Nat) (logged : Logged σ μ) :
    Run.Leaves (writer.programBlock length) logged
      (fun result _ => ∀ next, result = .ok next → next.pending.InBlock) fun _ => True := by
  simp only [programBlock]
  split
  · simp only [Run.leaves_bind, Run.leaves_perform, Run.leaves_pure]
    rintro next ⟨⟩
  · apply Logged.leaves_of_log
    intro next _
    simp only [Run.leaves_bind, Run.leaves_perform]
    split
    · simp only [Run.leaves_bind, Run.leaves_perform]
      split
      · simp only [Run.leaves_bind, Run.leaves_lift, Run.leaves_perform, Run.leaves_pure]
        refine ⟨?_, fun _ _ => trivial⟩
        rintro cursor _ next ⟨⟩
      · simp only [Run.leaves_bind, Run.leaves_lift, Run.leaves_pure]
        refine ⟨?_, fun _ _ => trivial⟩
        rintro cursor _ _ ⟨⟩
        exact inBlock_popBuffer writer.pending length
    · simp only [Run.leaves_bind, Run.leaves_perform, Run.leaves_pure]
      rintro next ⟨⟩

theorem programPages_inBlock (h : writer.pending.InBlock) (page count : Nat)
    (logged : Logged σ μ) :
    Run.Leaves (programPages page count writer) logged
      (fun result _ => result.1.pending.InBlock) fun _ => True := by
  induction count generalizing writer logged with
  | zero => exact h
  | succ count ih =>
      simp only [programPages, Run.leaves_bind]
      refine Run.Leaves.mono (writer.programBlock_inBlock page logged) ?_ fun _ => id
      intro result middle hblock
      cases result with
      | error _ => exact h
      | ok next => exact ih (hblock next rfl) middle

theorem flushPages_inBlock (h : writer.pending.InBlock) (logged : Logged σ μ) :
    Run.Leaves writer.flushPages logged
      (fun result _ => result.1.pending.InBlock) fun _ => True := by
  simp only [flushPages, Run.leaves_bind, Run.leaves_perform]
  cases (pageSize logged).1 with
  | error _ => exact h
  | ok page => exact programPages_inBlock h page _ _

theorem flushAll_inBlock (h : writer.pending.InBlock) (logged : Logged σ μ) :
    Run.Leaves writer.flushAll logged
      (fun result _ => result.1.pending.InBlock) fun _ => True := by
  simp only [flushAll, Run.leaves_bind]
  refine Run.Leaves.mono (flushPages_inBlock h logged) ?_ fun _ => id
  intro result middle hpages
  obtain ⟨next, failure⟩ := result
  cases failure with
  | some _ => exact hpages
  | none =>
      simp only
      split
      · simp only [Run.leaves_bind]
        refine Run.Leaves.mono (next.programBlock_inBlock _ middle) ?_ fun _ => id
        intro result _ hblock
        cases result with
        | error _ => exact hpages
        | ok last => exact hblock last rfl
      · exact hpages

end PageWriter

-- A part of the header is dropped.
theorem Updater.InBlocks.popped (h : updater.InBlocks) (count : Nat) (phase : Phase) :
    ({ updater with received := updater.received.popFront count, phase } : Updater).InBlocks :=
  ⟨inBlock_popBuffer updater.received count, h.pending⟩

omit [Flash σ] in
theorem readMagic_inBlocks (h : updater.InBlocks) (logged : Logged σ μ) :
    Run.Leaves updater.readMagic logged (fun result _ => KeepsBlocks result) fun _ => True := by
  simp only [Updater.readMagic]
  repeat' split
  · exact h
  · exact h.popped fileMagic.length .Records
  · trivial

theorem readLength_inBlocks [TickCounter σ] (h : updater.InBlocks) (logged : Logged σ μ) :
    Run.Leaves updater.readLength logged (fun result _ => KeepsBlocks result) fun _ => True := by
  simp only [Updater.readLength]
  split
  · simp only [Run.leaves_bind, Run.leaves_perform]
    split
    · trivial
    · simp only [Run.leaves_bind]
      refine Run.Leaves.mono (Run.leaves_trivial _ _) ?_ fun _ => id
      intro result _ _
      cases result with
      | error _ => trivial
      | ok _ => exact h.popped 5 .SyncWait
  · exact h

omit [Flash σ] in
theorem readText_inBlocks (h : updater.InBlocks) (logged : Logged σ μ) :
    Run.Leaves updater.readText logged (fun result _ => KeepsBlocks result) fun _ => True := by
  simp only [Updater.readText]
  split
  · split
    · trivial
    · split
      · exact h
      · simp only [Run.leaves_bind]
        refine Run.Leaves.mono (Run.leaves_trivial _ _) ?_ fun _ => id
        intro result _ _
        cases result with
        | error _ => trivial
        | ok _ => exact h.popped _ updater.phase
  · exact h

theorem readRecord_inBlocks [TickCounter σ] (h : updater.InBlocks) (logged : Logged σ μ) :
    Run.Leaves updater.readRecord logged (fun result _ => KeepsBlocks result) fun _ => True := by
  simp only [Updater.readRecord]
  split
  · split
    · exact readLength_inBlocks h logged
    · exact readText_inBlocks h logged
  · exact h

omit [Flash σ] in
theorem waitForSync_inBlocks (h : updater.InBlocks) (logged : Logged σ μ) :
    Run.Leaves updater.waitForSync logged (fun result _ => result.2.InBlocks) fun _ => True := by
  simp only [Updater.waitForSync, Run.leaves_bind, Run.leaves_lift]
  refine ⟨?_, fun _ _ => trivial⟩
  intro scan hscan
  obtain ⟨hreceived, hpending⟩ := scanSync_inBlock h.received h.pending hscan
  split
  · exact ⟨hreceived, hpending⟩
  · exact ⟨hreceived, hpending⟩

omit [Flash σ] in
theorem readType1_inBlocks (h : updater.InBlocks) (page : Nat) (opcode : Opcode)
    (register words : UInt16) (logged : Logged σ μ) :
    Run.Leaves (updater.readType1 page opcode register words) logged
      (fun result _ => KeepsBlocks result) fun _ => True := by
  simp only [Updater.readType1]
  repeat' split
  · trivial
  · exact h
  · simp only [Run.leaves_bind]
    refine Run.Leaves.mono (Run.leaves_trivial _ _) ?_ fun _ => id
    intro last _ _
    simp only [Run.leaves_lift]
    refine ⟨?_, fun _ _ => trivial⟩
    intro next hnext
    obtain ⟨hreceived, hpending⟩ := moveBytes_inBlocks h hnext
    split
    · exact ⟨hreceived, hpending⟩
    · exact ⟨hreceived, hpending⟩

omit [Flash σ] in
theorem readType2_inBlocks (h : updater.InBlocks) (opcode : Opcode) (words : UInt32)
    (logged : Logged σ μ) :
    Run.Leaves (updater.readType2 opcode words) logged
      (fun result _ => KeepsBlocks result) fun _ => True := by
  simp only [Updater.readType2]
  split
  · exact h
  · simp only [Run.leaves_bind, Run.leaves_perform, Run.leaves_lift, Run.leaves_pure]
    refine ⟨?_, fun _ _ => trivial⟩
    intro next hnext
    obtain ⟨hreceived, hpending⟩ := moveBytes_inBlocks h hnext
    simp only [KeepsBlocks]
    split
    · exact ⟨hreceived, hpending⟩
    · exact ⟨hreceived, hpending⟩

theorem readPacket_inBlocks (h : updater.InBlocks) (logged : Logged σ μ) :
    Run.Leaves updater.readPacket logged (fun result _ => KeepsBlocks result) fun _ => True := by
  simp only [Updater.readPacket, Run.leaves_bind, Run.leaves_perform]
  split
  · trivial
  · split
    · exact h
    · split
      · exact readType1_inBlocks h _ _ _ _ _
      · exact readType2_inBlocks h _ _ _
      · trivial

omit [Flash σ] in
theorem moveBulk_inBlocks (h : updater.InBlocks) (logged : Logged σ μ) :
    Run.Leaves updater.moveBulk logged (fun result _ => result.2.InBlocks) fun _ => True := by
  simp only [Updater.moveBulk]
  split
  · exact h
  · simp only [Run.leaves_bind, Run.leaves_lift]
    refine ⟨?_, fun _ _ => trivial⟩
    intro next hnext
    obtain ⟨hreceived, hpending⟩ := moveBytes_inBlocks h hnext
    refine ⟨?_, fun _ _ => trivial⟩
    intro left _
    split
    · exact ⟨hreceived, hpending⟩
    · exact ⟨hreceived, hpending⟩

variable [TickCounter σ]

theorem step_inBlocks (h : updater.InBlocks) (logged : Logged σ μ) :
    Run.Leaves updater.step logged (fun result _ => KeepsBlocks result) fun _ => True := by
  simp only [Updater.step]
  split
  · exact readMagic_inBlocks h logged
  · exact readRecord_inBlocks h logged
  · simp only [Run.leaves_bind]
    exact waitForSync_inBlocks h logged
  · exact readPacket_inBlocks h logged
  · simp only [Run.leaves_bind]
    exact moveBulk_inBlocks h logged
  · exact h
  · exact h

theorem inBlocks_law :
    UpdaterLaw (σ := Logged σ μ) fun _ updater _ => updater.InBlocks where
  stopped _ h := h
  failed h := ⟨h.received, h.pending⟩
  logged _ _ h := h
  taken h hpush := ⟨h.received.push hpush, h.pending⟩
  step h := by
    refine Run.Leaves.mono (step_inBlocks h _) ?_ fun _ => id
    intro result after hkeeps
    refine ⟨h, ?_⟩
    rintro answer rfl
    exact hkeeps
  flushPages h := by
    refine Run.Leaves.mono (PageWriter.flushPages_inBlock h.pending _) ?_ fun _ => id
    intro flushed after hpending
    exact ⟨h.received, hpending⟩
  flushAll h := by
    refine Run.Leaves.mono (PageWriter.flushAll_inBlock h.pending _) ?_ fun _ => id
    intro flushed after hpending
    exact ⟨h.received, hpending⟩

theorem serveAll_inBlocks (calls : List HostCall) (h : updater.InBlocks) (logged : Logged σ μ) :
    Run.Leaves (Updater.serveAll calls updater) logged (fun next _ => next.InBlocks)
      fun _ => True := by
  induction calls generalizing updater logged with
  | nil => exact h
  | cons call rest ih =>
      have hserve : Run.Leaves (updater.serve call) logged (fun next _ => next.InBlocks)
          fun _ => True := by
        cases call with
        | Open => exact ⟨show 0 < 4096 by decide, show 0 < 4096 by decide⟩
        | Data bytes => exact inBlocks_law.receive bytes h
        | Close => exact inBlocks_law.closed h
      simp only [Updater.serveAll, Run.leaves_bind]
      exact hserve.mono (fun _ middle hnext => ih hnext middle) fun _ => id

end

theorem start_inBlocks (partition : Partition) (device : String) :
    (Updater.start partition device).InBlocks :=
  ⟨show 0 < 4096 by decide, show 0 < 4096 by decide⟩

end Bitstream

end BoardControl
