import BoardControl.Proofs.Bitstream.Ledger
import BoardControl.Proofs.Bitstream.Quiescence

namespace BoardControl.Bitstream

open Updater

section

variable {received pending : Ring Settings.streamBuffer} {count : Nat}

-- Bytes that are moved join those that wait.

theorem move_joins {buffers : Ring Settings.streamBuffer × Ring Settings.streamBuffer}
    (h : Updater.move received pending count = .ok buffers) :
    ∃ bytes, buffers.2.toList = pending.toList ++ bytes := by
  by_cases hfits : count ≤ received.length ∧ count ≤ pending.free
  · rw [move_eq_ok hfits.1 hfits.2] at h
    cases h
    exact ⟨_, toList_pushBytes_take hfits.2⟩
  · have hrefused : received.length < count ∨ pending.free < count := by omega
    rw [Updater.move, Ring.transfer, if_pos hrefused] at h
    cases h

theorem scanSync_joins {fuel : Nat} {scan : SyncScan}
    (h : Updater.scanSync fuel received pending = .ok scan) :
    ∃ bytes, scan.pending.toList = pending.toList ++ bytes := by
  refine scanSync_keeps (fun _ waiting => ∃ bytes, waiting.toList = pending.toList ++ bytes) ?_
    ⟨[], (List.append_nil _).symm⟩ h
  rintro received waiting count buffers ⟨bytes, hwaiting⟩ hmove
  obtain ⟨more, hmore⟩ := move_joins hmove
  exact ⟨bytes ++ more, by rw [hmore, hwaiting, List.append_assoc]⟩

end

-- Bytes join those that wait, and nothing else happens to the writer.
structure Joins (writer next : PageWriter) : Prop where
  partition : next.partition = writer.partition
  cursor : next.cursor = writer.cursor
  pending : ∃ bytes, next.pending.toList = writer.pending.toList ++ bytes

theorem Joins.refl (writer : PageWriter) : Joins writer writer :=
  ⟨rfl, rfl, [], (List.append_nil _).symm⟩

theorem moveBytes_joins {updater next : Updater} {count : Nat}
    (h : updater.moveBytes count = .ok next) : Joins updater.writer next.writer := by
  obtain ⟨buffers, hmove, hnext⟩ := Run.exists_of_bind_eq_ok h
  cases hnext
  exact ⟨rfl, rfl, move_joins hmove⟩

-- A step of the parser writes nothing, and bytes only join those that wait.
structure Parsing {φ : Type} (updater : Updater) (board : Watched φ)
    (result : Except UpdateError (Bool × Updater)) (after : Watched φ) : Prop where
  calls : Made (fun calls => writes calls = []) board after
  joins : ∀ answer, result = .ok answer → Joins updater.writer answer.2.writer

section

variable {φ μ : Type} [Logger μ] {updater : Updater}

omit [Logger μ] in
theorem Parsing.refused {failure : UpdateError} {board after : Watched φ} (hboard : after = board) :
    Parsing updater board (.error failure) after := by
  rw [hboard]
  refine ⟨.none rfl, ?_⟩
  rintro answer ⟨⟩

omit [Logger μ] in
theorem Parsing.of_joins {progress : Bool} {next : Updater} {board after : Watched φ}
    (hboard : after = board) (h : Joins updater.writer next.writer) :
    Parsing updater board (.ok (progress, next)) after := by
  rw [hboard]
  refine ⟨.none rfl, ?_⟩
  rintro answer ⟨⟩
  exact h

omit [Logger μ] in
-- A part of the header is dropped.
theorem Parsing.dropped {received : Ring Settings.streamBuffer} {phase : Phase}
    {board after : Watched φ} (hcalls : Made (fun calls => writes calls = []) board after) :
    Parsing updater board (.ok (true, { updater with received, phase })) after := by
  refine ⟨hcalls, ?_⟩
  rintro answer ⟨⟩
  exact .refl updater.writer

theorem readMagic_parsing (updater : Updater) (logged : Logged (Watched φ) μ) :
    Run.Leaves updater.readMagic logged
      (fun result after => Parsing updater logged.board result after.board) fun _ => True := by
  simp only [Updater.readMagic]
  split
  · exact .of_joins rfl (.refl _)
  · split
    · rw [Run.leaves_pure]
      exact .dropped (.none rfl)
    · simp only [Run.leaves_bind, Run.leaves_perform, Run.leaves_pure]
      exact .refused (Logged.board_log ..)

theorem readText_parsing (updater : Updater) (logged : Logged (Watched φ) μ) :
    Run.Leaves updater.readText logged
      (fun result after => Parsing updater logged.board result after.board) fun _ => True := by
  simp only [Updater.readText]
  split
  · split
    · simp only [Run.leaves_bind, Run.leaves_perform, Run.leaves_pure]
      exact .refused (Logged.board_log ..)
    · split
      · exact .of_joins rfl (.refl _)
      · simp only [Run.leaves_bind]
        refine Run.Leaves.mono ((useRecord_ends updater _ _ logged).leaves fun _ => True) ?_
          fun _ => id
        intro result after hused
        cases result with
        | error failure => exact .refused hused.1
        | ok _ =>
            rw [Run.leaves_pure, hused.1]
            exact .dropped (.none rfl)
  · exact .of_joins rfl (.refl _)

theorem waitForSync_parsing (updater : Updater) (logged : Logged (Watched φ) μ) :
    Run.Leaves updater.waitForSync logged
      (fun result after => Parsing updater logged.board (.ok result) after.board)
      fun _ => True := by
  simp only [Updater.waitForSync, Run.leaves_bind, Run.leaves_lift]
  refine ⟨?_, fun _ _ => trivial⟩
  intro scan hscan
  have hjoins : Joins updater.writer (updater.withBuffers scan.received scan.pending).writer :=
    ⟨rfl, rfl, scanSync_joins hscan⟩
  split
  · simp only [Run.leaves_bind, Run.leaves_perform, Run.leaves_pure]
    exact .of_joins (Logged.board_log ..) hjoins
  · exact .of_joins rfl hjoins

theorem readType1_parsing (updater : Updater) (page : Nat) (opcode : Opcode)
    (register words : UInt16) (logged : Logged (Watched φ) μ) :
    Run.Leaves (updater.readType1 page opcode register words) logged
      (fun result after => Parsing updater logged.board result after.board) fun _ => True := by
  simp only [Updater.readType1]
  split
  · simp only [Run.leaves_bind, Run.leaves_perform, Run.leaves_pure]
    exact .refused (Logged.board_log ..)
  · split
    · exact .of_joins rfl (.refl _)
    · simp only [Run.leaves_bind]
      refine Run.Leaves.mono ((useType1_ends opcode register words _ logged).leaves fun _ => True)
        ?_ fun _ => id
      intro last middle hused
      simp only [Run.leaves_lift]
      refine ⟨?_, fun _ _ => trivial⟩
      intro next hnext
      have hjoins := moveBytes_joins hnext
      split
      · simp only [Run.leaves_bind, Run.leaves_perform, Run.leaves_pure, Logged.board_log]
        exact .of_joins hused.1 hjoins
      · exact .of_joins hused.1 hjoins

theorem readType2_parsing (updater : Updater) (opcode : Opcode) (words : UInt32)
    (logged : Logged (Watched φ) μ) :
    Run.Leaves (updater.readType2 opcode words) logged
      (fun result after => Parsing updater logged.board result after.board) fun _ => True := by
  simp only [Updater.readType2]
  split
  · exact .of_joins rfl (.refl _)
  · simp only [Run.leaves_bind, Run.leaves_perform, Run.leaves_lift, Run.leaves_pure]
    refine ⟨?_, fun _ _ => trivial⟩
    intro next hnext
    have hjoins := moveBytes_joins hnext
    refine .of_joins (Logged.board_log ..) ?_
    split
    · exact hjoins
    · exact hjoins

theorem moveBulk_parsing (updater : Updater) (logged : Logged (Watched φ) μ) :
    Run.Leaves updater.moveBulk logged
      (fun result after => Parsing updater logged.board (.ok result) after.board)
      fun _ => True := by
  simp only [Updater.moveBulk]
  split
  · exact .of_joins rfl (.refl _)
  · simp only [Run.leaves_bind, Run.leaves_lift]
    refine ⟨?_, fun _ _ => trivial⟩
    intro next hnext
    have hjoins := moveBytes_joins hnext
    refine ⟨?_, fun _ _ => trivial⟩
    intro left _
    split
    · simp only [Run.leaves_bind, Run.leaves_perform, Run.leaves_pure]
      exact .of_joins (Logged.board_log ..) hjoins
    · exact .of_joins rfl hjoins

variable [Flash φ]

theorem readLength_parsing [TickCounter φ] (updater : Updater) (logged : Logged (Watched φ) μ) :
    Run.Leaves updater.readLength logged
      (fun result after => Parsing updater logged.board result after.board) fun _ => True := by
  simp only [Updater.readLength]
  split
  · simp only [Run.leaves_bind, Run.leaves_perform]
    split
    · simp only [Run.leaves_bind, Run.leaves_perform, Run.leaves_pure, Logged.board_log]
      exact .refused rfl
    · simp only [Run.leaves_bind]
      refine Run.Leaves.mono (updater.writer.partition.erase_leaves _) ?_ fun _ _ => trivial
      intro result after herase
      simp only [Logged.board_log] at herase
      cases result with
      | error _ =>
          refine ⟨herase.mono fun _ => Partition.Preparing.writes_eq, ?_⟩
          rintro answer ⟨⟩
      | ok _ =>
          exact .dropped (herase.mono fun _ hprepared => hprepared.preparing.writes_eq)
  · exact .of_joins rfl (.refl _)

theorem readRecord_parsing [TickCounter φ] (updater : Updater) (logged : Logged (Watched φ) μ) :
    Run.Leaves updater.readRecord logged
      (fun result after => Parsing updater logged.board result after.board) fun _ => True := by
  simp only [Updater.readRecord]
  split
  · split
    · exact readLength_parsing updater logged
    · exact readText_parsing updater logged
  · exact .of_joins rfl (.refl _)

theorem readPacket_parsing (updater : Updater) (logged : Logged (Watched φ) μ) :
    Run.Leaves updater.readPacket logged
      (fun result after => Parsing updater logged.board result after.board) fun _ => True := by
  simp only [Updater.readPacket, Run.leaves_bind, Run.leaves_perform]
  have hboard := PageWriter.board_pageSize logged
  generalize (PageWriter.pageSize logged).2 = middle at hboard ⊢
  rw [← hboard]
  split
  · exact .refused rfl
  · split
    · exact .of_joins rfl (.refl _)
    · split
      · exact readType1_parsing updater _ _ _ _ middle
      · exact readType2_parsing updater _ _ middle
      · simp only [Run.leaves_bind, Run.leaves_perform, Run.leaves_pure]
        exact .refused (Logged.board_log ..)

theorem step_parsing [TickCounter φ] (updater : Updater) (logged : Logged (Watched φ) μ) :
    Run.Leaves updater.step logged
      (fun result after => Parsing updater logged.board result after.board) fun _ => True := by
  simp only [Updater.step]
  split
  · exact readMagic_parsing updater logged
  · exact readRecord_parsing updater logged
  · simp only [Run.leaves_bind, Run.leaves_pure]
    exact waitForSync_parsing updater logged
  · exact readPacket_parsing updater logged
  · simp only [Run.leaves_bind, Run.leaves_pure]
    exact moveBulk_parsing updater logged
  · exact .of_joins rfl (.refl _)
  · exact .of_joins rfl (.refl _)

end

section

variable {φ μ : Type} {partition : Partition} {begun : Watched φ} {updater : Updater}

theorem Balance.parsed {result : Except UpdateError (Bool × Updater)} {board after : Watched φ}
    (h : Balance partition begun none updater.writer board)
    (hparsing : Parsing updater board result after) :
    Balance partition begun none updater.writer after ∧ ∀ answer, result = .ok answer →
      Balance partition begun none answer.2.writer after := by
  have hprepared := h.prepared hparsing.calls
  refine ⟨hprepared, fun answer hanswer => ?_⟩
  obtain ⟨haims, hcursor, bytes, hpending⟩ := hparsing.joins answer hanswer
  exact hprepared.arrived haims hcursor hpending

variable [Flash φ] [TickCounter φ] [Logger μ]

-- The books are kept as long as the updater works.
theorem balance_law (partition : Partition) (begun : Watched φ) :
    UpdaterLaw (σ := Logged (Watched φ) μ) fun failure updater logged =>
      Balance partition begun failure updater.writer logged.board where
  stopped failure h := h.failed failure
  failed h := h
  logged severity text h := by rwa [Logged.board_log]
  taken h _ := h
  step h := (step_parsing _ _).mono (fun _ _ => h.parsed) fun _ => id
  flushPages h := h.flushPages.leaves _
  flushAll h := h.flushAll.leaves _

theorem Balance.serveAll {session : List HostCall} {logged : Logged (Watched φ) μ}
    (hsession : .Open ∉ session)
    (h : Balance partition begun updater.failure? updater.writer logged.board) :
    Run.Leaves (Updater.serveAll session updater) logged
      (fun next after => Balance partition begun next.failure? next.writer after.board)
      fun _ => True := by
  have law := balance_law (μ := μ) partition begun
  induction session generalizing updater logged with
  | nil => exact h
  | cons call rest ih =>
      have hcall := List.ne_of_not_mem_cons hsession
      have hrest := List.not_mem_of_not_mem_cons hsession
      have hserve : Run.Leaves (updater.serve call) logged
          (fun next after => Balance partition begun next.failure? next.writer after.board)
          fun _ => True := by
        cases call with
        | Open => exact absurd rfl hcall
        | Data bytes => exact law.receive bytes h
        | Close => exact law.closed h
      simp only [Updater.serveAll, Run.leaves_bind]
      exact hserve.mono (fun _ _ hnext => ih hrest hnext) fun _ => id

end

section

variable {φ μ : Type} [Flash φ] [TickCounter φ] [Logger μ] {partition : Partition}
  {device : String} {updater : Updater}

-- A session begins at the front of the partition.
theorem cursor_of_earlier {earlier : List HostCall} {logged begun : Logged (Watched φ) μ}
    (hearlier : serveAll earlier (start partition device) logged = .ok updater begun)
    (hbegins : earlier = [] ∨ ∃ before, earlier = before ++ [.Open]) :
    updater.writer.cursor = updater.writer.partition.offset := by
  rcases hbegins with rfl | ⟨before, rfl⟩
  · cases hearlier
    rfl
  · have hends : Run.Leaves (serveAll (before ++ [.Open]) (start partition device)) logged
        (fun next _ => next.writer.cursor = next.writer.partition.offset) fun _ => True := by
      rw [serveAll_append, Run.leaves_bind]
      refine Run.Leaves.mono (Run.leaves_trivial _ _) ?_ fun _ => id
      intro middle left _
      exact rfl
    exact hends.of_eq_ok hearlier

-- Only verified pages count. A page that is programmed leaves the queue and moves the
-- cursor if it is read back as it was written, and otherwise the writer stays as it is.
-- In a session every write is read back at once, or it is the last call. What counts as
-- written are the pages that were verified, and the first one that was not is what the
-- session fails with.
theorem only_verified_pages_count (partition : Partition) (device : String)
    (hfits : partition.offset.toNat + partition.size.toNat ≤ UInt32.size) (page : UInt32)
    (hpage : ∀ device : φ, Flash.pageSize device = page) (earlier session : List HostCall)
    (logged begun : Logged (Watched φ) μ) (updater : Updater)
    (hearlier : serveAll earlier (start partition device) logged = .ok updater begun)
    (hbegins : earlier = [] ∨ ∃ before, earlier = before ++ [.Open]) (hsession : .Open ∉ session) :
    (∀ (writer : PageWriter) (length : Nat) (now : Logged (Watched φ) μ),
      length ≤ writer.pending.length →
        Run.Ends (writer.programBlock length) now fun result after =>
          Made (writer.Programs (writer.pending.toList.take length) result) now.board
            after.board) ∧
    Run.Ends (serveAll session updater) begun fun next after =>
      ∃ calls written failure, after.board.calls = begun.board.calls ++ calls ∧
        next.bytesWritten = .ok written ∧
        Ledger partition written.toNat next.writer.pending.toList calls failure ∧
        Answered partition calls failure ∧
        (failure = none ∨ next.phase = .Failed ∧ next.lastError = failure) := by
  refine ⟨fun writer length now hlength => writer.programBlock_programs hlength now, ?_⟩
  have hfresh := fresh_of_earlier hearlier hbegins
  have hcursor : updater.writer.cursor = partition.offset := by
    rw [cursor_of_earlier hearlier hbegins, hfresh.partition]
  have hpending : updater.writer.pending.toList = [] := by
    rw [← List.length_eq_zero_iff, Ring.length_toList, hfresh.pending]
  -- The run ends, since the whole run from the start does.
  obtain ⟨next, after, hrun⟩ : ∃ next after, serveAll session updater begun = .ok next after := by
    obtain ⟨holds, hinvariant, hstart⟩ :=
      exists_invariant (μ := μ) partition device hfits page hpage logged.board
    obtain ⟨next, after, hall, _⟩ := hinvariant.serveAll (earlier ++ session) hstart
    rw [serveAll_append, Run.bind_ok hearlier] at hall
    exact ⟨next, after, hall⟩
  have hlive : updater.phase ≠ .Failed := by
    rw [hfresh.phase]
    decide
  have hopened := Balance.opened hfresh.partition hcursor hpending begun.board
  rw [← updater.failure?_of_ne hlive] at hopened
  have hbalance := (Balance.serveAll hsession hopened).of_eq_ok hrun
  obtain ⟨haims, calls, hcalls, count, failure, hplace, hledger, hfailure⟩ := hbalance
  obtain ⟨written, rfl⟩ : ∃ written : UInt32, written.toNat = count := by
    have hword := next.writer.cursor.toNat_lt_size
    exact ⟨count.toUInt32, toNat_toUInt32 (by omega)⟩
  have hwritten : next.bytesWritten = .ok written := by
    rw [bytesWritten, PageWriter.written, haims]
    exact Word.sub_eq_ok_iff.mpr ⟨by omega, by omega⟩
  refine Run.ends_of_eq hrun
    ⟨calls, written, failure, hcalls, hwritten, hledger, hledger.answered, ?_⟩
  by_cases hfailed : next.phase = .Failed
  · rw [failure?, if_pos hfailed] at hfailure
    exact hfailure.imp_right fun herror => ⟨hfailed, herror.symm⟩
  · rw [next.failure?_of_ne hfailed] at hfailure
    exact .inl (hfailure.elim id id)

end

-- The updater is closed and opened, and is given a whole file. Its page is verified.
theorem only_verified_pages_count_reopened :
    Chip.target.partition.offset.toNat + Chip.target.partition.size.toNat ≤ UInt32.size ∧
    (∀ device : Chip 0x1000 256, Flash.pageSize device = 256) ∧
    serveAll [.Close, .Open] Chip.updater Chip.board =
      .ok (Chip.updater.opened Chip.board).1 Chip.board ∧
    (∀ (writer : PageWriter) (length : Nat) (now : Logged (Watched (Chip 0x1000 256)) Unit),
      length ≤ writer.pending.length →
        Run.Ends (writer.programBlock length) now fun result after =>
          Made (writer.Programs (writer.pending.toList.take length) result) now.board
            after.board) ∧
    ∃ (next : Updater) (after : Logged (Watched (Chip 0x1000 256)) Unit),
      serveAll [.Data Chip.shortest.bytes, .Close] (Chip.updater.opened Chip.board).1 Chip.board =
        .ok next after ∧
      next.phase = .Done ∧ next.bytesWritten = .ok 12 ∧
      ∃ calls, after.board.calls = Chip.board.board.calls ++ calls ∧
        Ledger Chip.target.partition 12 next.writer.pending.toList calls none ∧
        Answered Chip.target.partition calls none := by
  have hfits : Chip.target.partition.offset.toNat + Chip.target.partition.size.toNat ≤
      UInt32.size := by decide
  have hpage : ∀ device : Chip 0x1000 256, Flash.pageSize device = 256 := fun _ => rfl
  have hearlier : serveAll [.Close, .Open] Chip.updater Chip.board =
      .ok (Chip.updater.opened Chip.board).1 Chip.board := rfl
  obtain ⟨hprograms, hends⟩ :=
    only_verified_pages_count Chip.target.partition Chip.target.device hfits 256 hpage
      [.Close, .Open] [.Data Chip.shortest.bytes, .Close] Chip.board Chip.board _ hearlier
      (.inr ⟨[.Close], rfl⟩) (by decide)
  obtain ⟨next, after, hrun, hdone, hcount⟩ := Chip.serveAll_shortest
  obtain ⟨calls, written, failure, hcalls, hwritten, hledger, hanswered, hfailure⟩ :=
    hends.of_eq_ok hrun
  cases hwritten.symm.trans hcount
  have hnone : failure = none := by
    apply hfailure.resolve_right
    intro hfailed
    cases hdone.symm.trans hfailed.1
  subst hnone
  exact ⟨hfits, hpage, hearlier, hprograms, next, after, hrun, hdone, hcount, calls, hcalls,
    hledger, hanswered⟩

end BoardControl.Bitstream
