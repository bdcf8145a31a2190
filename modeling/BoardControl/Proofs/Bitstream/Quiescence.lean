import BoardControl.Proofs.Bitstream.Buffers
import BoardControl.Proofs.Bitstream.Contained
import BoardControl.Proofs.Bitstream.SessionLaw

namespace BoardControl.Bitstream

open Session Updater

namespace Updater

section

variable {σ : Type} [TickCounter σ] [Logger σ] [Flash σ]

-- Takes the next piece of the file and hands back what it did not take.
def intake (updater : Updater) (data : List UInt8) : Run σ (Updater × List UInt8) := do
  if hend : data.isEmpty || updater.phase.isTerminal then
    pure (updater, data)
  else
    let room := updater.received.free
    if hroom : room = 0 then
      pure (← perform updater.overflow, data)
    else
      match ← updater.received.push (data.take room) with
      | (false, _) => pure (← perform updater.overflow, data)
      | (true, received) =>
          let (updater, failure) ← { updater with received := received }.drain
          match failure with
          | none => updater.intake (data.drop room)
          | some failure => (← perform (updater.fail failure)).intake (data.drop room)
termination_by data.length
decreasing_by
  all_goals
    simp only [Bool.or_eq_true, not_or, List.isEmpty_iff] at hend
    have hdata : 0 < data.length := List.length_pos_iff.mpr hend.1
    simp only [List.length_drop]
    omega

theorem receive_eq_intake (updater : Updater) (data : List UInt8) :
    (updater.receive data : Run σ Updater) = Prod.fst <$> updater.intake data := by
  induction hlength : data.length using Nat.strongRecOn generalizing updater data with
  | _ length ih =>
      rw [receive, intake]
      split
      · rfl
      · rename_i hend
        have hdata := length_pos_of_goes_on hend
        simp only
        split
        · simp only [map_bind, map_pure, bind_pure]
        · have hrest : (data.drop updater.received.free).length < length := by
            rw [List.length_drop]
            omega
          rw [map_bind]
          refine bind_congr fun result => ?_
          obtain ⟨_ | _, received⟩ := result
          · simp only [map_bind, map_pure, bind_pure]
          · simp only [map_bind]
            refine bind_congr fun result => ?_
            obtain ⟨next, _ | failure⟩ := result
            · exact ih _ hrest _ _ rfl
            · simp only [map_bind]
              exact bind_congr fun failed => ih _ hrest _ _ rfl

-- Bytes are left over only by a session that has ended.
theorem intake_takes_all (updater : Updater) (data : List UInt8) (board : σ) :
    Run.Leaves (updater.intake data) board
      (fun result _ => result.1.phase.isTerminal = false → result.2 = []) fun _ => True := by
  induction hlength : data.length using Nat.strongRecOn generalizing updater data board with
  | _ length ih =>
      rw [intake]
      split
      · rename_i hend
        rw [Run.leaves_pure]
        intro hlive
        rwa [hlive, Bool.or_false, List.isEmpty_iff] at hend
      · rename_i hend
        have hdata := length_pos_of_goes_on hend
        simp only
        split
        · exact nofun
        · have hrest : (data.drop updater.received.free).length < length := by
            rw [List.length_drop]
            omega
          simp only [Run.leaves_bind, Run.leaves_lift]
          refine ⟨?_, fun _ _ => trivial⟩
          intro result _
          obtain ⟨_ | _, received⟩ := result
          · exact nofun
          · simp only [Run.leaves_bind]
            refine Run.Leaves.mono (Run.leaves_trivial _ _) ?_ fun _ => id
            intro result middle _
            obtain ⟨next, _ | failure⟩ := result
            · exact ih _ hrest _ _ _ rfl
            · exact ih _ hrest _ _ _ rfl

end

end Updater

-- An updater that waits for more of the file. There is room for it, less than a
-- page waits to be written, and one more step does nothing. Of pages without
-- bytes nothing waits.
structure Quiescent {φ μ : Type} [Flash φ] [TickCounter φ] [Logger μ] (page : Nat)
    (updater : Updater) (logged : Logged (Watched φ) μ) : Prop where
  free_pos : 0 < updater.received.free
  pending_lt : updater.writer.pending.length < page ∨
    page = 0 ∧ updater.writer.pending.length = 0
  step_ends : Run.Ends updater.step logged fun result after =>
    result = .ok (false, updater) ∧ after.board = logged.board

-- The receive buffer has not overflowed, and the bytes written so far can be counted.
structure Intact (updater : Updater) : Prop where
  noOverflow : updater.lastError ≠ some .RxOverflow
  counted : ∃ count, updater.bytesWritten = .ok count

-- What the host finds whenever it calls, for pages of some size.
structure Invariant {φ : Type} [Flash φ] [TickCounter φ] (μ : Type) [Logger μ] (page : Nat)
    (holds : Updater → Watched φ → Prop) : Prop where
  serve : ∀ (call : HostCall) (updater : Updater) (logged : Logged (Watched φ) μ),
    holds updater logged.board → Run.Ends (updater.serve call) logged fun next after =>
      holds next after.board ∧ Made Sized logged.board after.board
  intact : ∀ (updater : Updater) (board : Watched φ), holds updater board → Intact updater
  quiescent : ∀ (updater : Updater) (logged : Logged (Watched φ) μ), holds updater logged.board →
    updater.phase.isTerminal = false → Quiescent page updater logged

section

variable {φ μ : Type} [Flash φ] [TickCounter φ] [Logger μ] {target : Target}

theorem Invariant.serveAll {page : Nat} {holds : Updater → Watched φ → Prop}
    (h : Invariant μ page holds) (calls : List HostCall) {updater : Updater}
    {logged : Logged (Watched φ) μ} (hholds : holds updater logged.board) :
    Run.Ends (serveAll calls updater) logged fun next after =>
      holds next after.board ∧ Made Sized logged.board after.board := by
  have hlaw : HostLaw μ holds (Made Sized) :=
    ⟨fun _ => .none .done, fun hfirst hsecond => hfirst.append hsecond fun _ _ => Sized.append,
      h.serve⟩
  exact hlaw.serveAll calls hholds

-- An updater at rest follows a session that has no token.
structure Rests (target : Target) (session : Session) (updater : Updater) (board : Watched φ) :
    Prop where
  follows : Follows target updater session
  sound : Sound target session
  settled : advance? target (session, board) = none
  noOverflow : session.lastError ≠ some .RxOverflow

theorem Rests.intact {session : Session} {updater : Updater} {board : Watched φ}
    (h : Rests target session updater board) : Intact updater :=
  ⟨by rw [h.follows.lastError]; exact h.noOverflow,
    ⟨_, h.follows.bytesWritten_eq h.sound.offset_le⟩⟩

omit [TickCounter φ] [Flash φ] in
theorem lastError_append {session : Session} (h : session.lastError ≠ some .RxOverflow)
    (bytes : List UInt8) : (session.append bytes).lastError ≠ some .RxOverflow := by
  rw [Session.append]
  split
  · exact h
  · exact h

theorem contained_law : SessionLaw (σ := Watched φ) target
    (fun session => session.lastError ≠ some .RxOverflow) (Made Sized) where
  refl _ := .none .done
  trans hfirst hsecond := hfirst.append hsecond fun _ _ => Sized.append
  start := nofun
  append _ bytes h := lastError_append h bytes
  advance _ h hstep :=
    have hcontained := advance?_contained h hstep
    ⟨hcontained.failure, hcontained.sized⟩
  close board hsound h :=
    have hcontained := close_contained h hsound board
    ⟨hcontained.failure, hcontained.sized⟩

theorem Rests.serve (hsuits : target.Suits φ) {session : Session} {updater : Updater}
    {logged : Logged (Watched φ) μ} (h : Rests target session updater logged.board)
    (call : HostCall) :
    Run.Ends (updater.serve call) logged fun next after =>
      (∃ last, Rests target last next after.board) ∧ Made Sized logged.board after.board := by
  have hwatched : target.Suits (Watched φ) := fun board => hsuits board.device
  refine (contained_law.serve hwatched ⟨h.follows, h.sound, h.settled, h.noOverflow⟩ call).mono ?_
  rintro next after ⟨⟨last, hlast⟩, hsized⟩
  exact ⟨⟨last, hlast.follows, hlast.sound, hlast.settled, hlast.holds⟩, hsized⟩

theorem Rests.quiescent (hsuits : target.Suits φ) {session : Session} {updater : Updater}
    {logged : Logged (Watched φ) μ} (h : Rests target session updater logged.board)
    (hphase : updater.phase.isTerminal = false) : Quiescent target.page updater logged := by
  have hwatched : target.Suits (Watched φ) := fun board => hsuits board.device
  rw [h.follows.phase] at hphase
  refine ⟨h.follows.free_pos h.sound hphase h.settled, .inl ?_, ?_⟩
  · have hpending := h.sound.pending_lt
    rwa [← h.follows.pending (Phase.ne_of_not_terminal hphase).1, Ring.length_toList] at hpending
  · refine (step_ends hwatched h.follows h.sound hphase logged).mono ?_
    intro result after hstepped
    exact hstepped.eq_of_none h.follows hphase h.settled

theorem rests_start (target : Target) (board : Watched φ) :
    Rests target (Session.start target) (Updater.start target.partition target.device) board :=
  ⟨.of_buffers rfl rfl rfl rfl rfl rfl Ring.toList_empty Ring.toList_empty, Sound.start, rfl,
    nofun⟩

-- Pages that can be read back.
theorem invariant_of_target (target : Target) (hsuits : target.Suits φ) :
    Invariant (φ := φ) μ target.page fun updater board =>
      ∃ session, Rests target session updater board where
  serve := by
    rintro call updater logged ⟨session, h⟩
    exact h.serve hsuits call
  intact := by
    rintro updater board ⟨session, h⟩
    exact h.intact
  quiescent := by
    rintro updater logged ⟨session, h⟩ hphase
    exact h.quiescent hsuits hphase

end

-- With pages that cannot be read back no session gets beyond the magic. Either it
-- has failed, or nothing was received and nothing waits.
structure Barren (updater : Updater) : Prop where
  cursor : updater.writer.cursor = updater.writer.partition.offset
  noOverflow : updater.lastError ≠ some .RxOverflow
  phase : updater.phase = .Failed ∨ updater.phase = .Magic ∧
    updater.received.length = 0 ∧ updater.writer.pending.length = 0

section

variable {φ μ : Type} [Flash φ] [Logger μ] {updater : Updater}

omit [Flash φ] [Logger μ] in
theorem Barren.bytesWritten_eq (h : Barren updater) : updater.bytesWritten = .ok 0 := by
  rw [Updater.bytesWritten, PageWriter.written, h.cursor]
  exact Word.sub_eq_ok_iff.mpr ⟨Nat.le_refl _, (Nat.sub_self _).symm⟩

omit [Flash φ] in
theorem Barren.fail (hcursor : updater.writer.cursor = updater.writer.partition.offset)
    {failure : UpdateError} (hfailure : failure ≠ .RxOverflow) (logged : Logged (Watched φ) μ) :
    Barren (updater.fail failure logged).1 :=
  ⟨hcursor, fun hfull => hfailure (Option.some.inj hfull), .inl rfl⟩

section

variable (hbad : ∀ device : φ, (Flash.pageSize device).toNat = 0 ∨
  Settings.maxPage < (Flash.pageSize device).toNat)
include hbad

theorem flushPages_unsupported (writer : PageWriter) (logged : Logged (Watched φ) μ) :
    Run.Ends writer.flushPages logged fun result after =>
      result = (writer, some .ReadbackBlockTooLarge) ∧ after.board = logged.board := by
  have hpage : (PageWriter.pageSize logged).1 = .error .ReadbackBlockTooLarge := by
    simp only [PageWriter.pageSize, Action.bind_apply]
    split
    · rfl
    · rename_i hgood
      exact absurd (hbad logged.board.device) hgood
  simp only [PageWriter.flushPages, Run.ends_bind, Run.ends_perform, hpage, Run.ends_pure]
  exact ⟨trivial, PageWriter.board_pageSize logged⟩

theorem flushAll_unsupported (writer : PageWriter) (logged : Logged (Watched φ) μ) :
    Run.Ends writer.flushAll logged fun result after =>
      result = (writer, some .ReadbackBlockTooLarge) ∧ after.board = logged.board := by
  simp only [PageWriter.flushAll, Run.ends_bind]
  refine (flushPages_unsupported hbad writer logged).mono ?_
  rintro result after ⟨rfl, hboard⟩
  exact Run.ends_of_eq rfl ⟨rfl, hboard⟩

-- A step that leaves the page writer alone, or is not refused for a full buffer.
def KeepsWriter (writer : PageWriter) : Except UpdateError (Bool × Updater) → Prop
  | .error failure => failure ≠ .RxOverflow
  | .ok (_, next) => next.writer = writer

-- The page size is asked for after the first step.
theorem drain_unsupported [TickCounter φ] (hphase : updater.phase = .Magic)
    (logged : Logged (Watched φ) μ) :
    Run.Ends updater.drain logged fun result after =>
      result.1.writer = updater.writer ∧ after.board = logged.board ∧
        ∃ failure, result.2 = some failure ∧ failure ≠ .RxOverflow := by
  have hstep : Run.Ends updater.step logged fun result after =>
      after.board = logged.board ∧ KeepsWriter updater.writer result := by
    simp only [Updater.step, hphase, Updater.readMagic]
    split
    · exact Run.ends_of_eq rfl ⟨rfl, rfl⟩
    · split
      · exact Run.ends_of_eq rfl ⟨rfl, rfl⟩
      · simp only [Run.ends_bind, Run.ends_perform, Run.ends_pure]
        exact ⟨Logged.board_log .., by rintro ⟨⟩⟩
  rw [Updater.drain, Run.ends_bind]
  refine hstep.mono ?_
  intro result middle hends
  obtain ⟨hboard, hstepped⟩ := hends
  cases result with
  | error failure => exact Run.ends_of_eq rfl ⟨rfl, hboard, failure, rfl, hstepped⟩
  | ok answer =>
      simp only [Run.ends_bind]
      refine (flushPages_unsupported hbad answer.2.writer middle).mono ?_
      rintro result after ⟨rfl, hafter⟩
      exact Run.ends_of_eq rfl ⟨hstepped, hafter.trans hboard, _, rfl, by decide⟩

theorem receive_unsupported [TickCounter φ] (h : Barren updater) (data : List UInt8)
    (logged : Logged (Watched φ) μ) :
    Run.Ends (updater.receive data) logged fun next after =>
      Barren next ∧ after.board = logged.board := by
  rw [Updater.receive]
  split
  · exact Run.ends_of_eq rfl ⟨h, rfl⟩
  · rename_i hend
    rw [Bool.or_eq_true, not_or] at hend
    obtain ⟨hmagic, hreceived, _⟩ : updater.phase = .Magic ∧ _ :=
      h.phase.resolve_left fun hfailed => hend.2 (by rw [hfailed]; rfl)
    have hroom : updater.received.free = 4096 := by
      rw [Ring.free, hreceived]
      rfl
    have htake : (data.take updater.received.free).length ≤ updater.received.free := by
      rw [List.length_take]
      omega
    have hpush := (Ring.push_eq_ok_true_iff updater.received _ _).mpr ⟨htake, by decide, rfl⟩
    rw [dif_neg (show updater.received.free ≠ 0 by omega)]
    simp only [hpush, Run.ends_bind, Run.ends_ok]
    have htaken : { updater with
        received := updater.received.pushBytes (data.take updater.received.free) }.phase = .Magic :=
      hmagic
    refine (drain_unsupported hbad htaken logged).mono ?_
    rintro ⟨next, _⟩ middle ⟨hwriter, hboard, failure, rfl, hfailure⟩
    have hcursor : next.writer.cursor = next.writer.partition.offset := by
      rw [hwriter]
      exact h.cursor
    simp only [Run.ends_bind, Run.ends_perform]
    refine Run.ends_of_eq (receive_of_terminal rfl _ _) ⟨.fail hcursor hfailure middle, ?_⟩
    rw [board_fail, hboard]

theorem closed_unsupported (h : Barren updater) (logged : Logged (Watched φ) μ) :
    Run.Ends updater.closed logged fun next after =>
      Barren next ∧ after.board = logged.board := by
  simp only [Updater.closed]
  split
  · simp only [Run.ends_bind, Run.ends_perform, Run.ends_pure]
    exact ⟨h, Logged.board_log ..⟩
  · apply Logged.ends_of_log
    intro middle hmiddle
    simp only [Run.ends_bind]
    refine (flushAll_unsupported hbad updater.writer middle).mono ?_
    rintro result after ⟨rfl, hafter⟩
    have hfailed : Barren (updater.fail .ReadbackBlockTooLarge after).1 :=
      .fail h.cursor (by decide) after
    simp only [Run.ends_perform, board_fail, hafter, hmiddle]
    exact ⟨hfailed, trivial⟩

theorem serve_unsupported [TickCounter φ] (h : Barren updater) (call : HostCall)
    (logged : Logged (Watched φ) μ) :
    Run.Ends (updater.serve call) logged fun next after =>
      Barren next ∧ after.board = logged.board := by
  cases call with
  | Open => exact Run.ends_of_eq rfl ⟨⟨rfl, nofun, .inr ⟨rfl, rfl, rfl⟩⟩, Logged.board_log ..⟩
  | Data bytes => exact receive_unsupported hbad h bytes logged
  | Close => exact closed_unsupported hbad h logged

-- The flash is left alone, and only empty pieces leave a session that goes on.
theorem invariant_of_unsupported [TickCounter φ] {page : Nat}
    (hpage : ∀ device : φ, (Flash.pageSize device).toNat = page) :
    Invariant (φ := φ) μ page fun updater _ => Barren updater where
  serve := by
    intro call updater logged h
    refine (serve_unsupported hbad h call logged).mono ?_
    intro next after hends
    obtain ⟨hnext, hboard⟩ := hends
    rw [hboard]
    exact ⟨hnext, .none .done⟩
  intact := by
    intro updater _ h
    exact ⟨h.noOverflow, 0, h.bytesWritten_eq⟩
  quiescent := by
    intro updater logged h hphase
    obtain ⟨hmagic, hreceived, hpending⟩ : updater.phase = .Magic ∧ _ :=
      h.phase.resolve_left fun hfailed => by rw [hfailed] at hphase; cases hphase
    have hmagicLength : fileMagic.length = 13 := rfl
    have hbuffer : Settings.streamBuffer = 4096 := rfl
    refine ⟨by rw [Ring.free]; omega, ?_, ?_⟩
    · rcases hbad logged.board.device with hzero | hlarge
      · exact .inr ⟨(hpage _).symm.trans hzero, hpending⟩
      · rw [hpage] at hlarge
        exact .inl (by omega)
    · simp only [Updater.step, hmagic, Updater.readMagic]
      rw [if_pos (by omega)]
      exact Run.ends_of_eq rfl ⟨rfl, rfl⟩

end

theorem barren_start (partition : Partition) (device : String) :
    Barren (Updater.start partition device) :=
  ⟨rfl, nofun, .inr ⟨rfl, rfl, rfl⟩⟩

end

section

variable {φ μ : Type} [Flash φ] [TickCounter φ] [Logger μ]

omit [TickCounter φ] in
-- A page size is refused, or there is a target for it.
theorem unsupported_or_target (partition : Partition) (device : String)
    (hfits : partition.offset.toNat + partition.size.toNat ≤ UInt32.size) (page : UInt32)
    (hpage : ∀ device : φ, Flash.pageSize device = page) :
    (∀ device : φ, (Flash.pageSize device).toNat = 0 ∨
      Settings.maxPage < (Flash.pageSize device).toNat) ∨
    ∃ target : Target, target.partition = partition ∧ target.device = device ∧
      target.page = page.toNat ∧ target.Suits φ := by
  have hsize : ∀ device : φ, (Flash.pageSize device).toNat = page.toNat :=
    fun device => congrArg UInt32.toNat (hpage device)
  by_cases hbad : page.toNat = 0 ∨ Settings.maxPage < page.toNat
  · exact .inl fun device => by rwa [hsize]
  · obtain ⟨hpos, hle⟩ := not_or.mp hbad
    let target : Target :=
      { partition, device, page := page.toNat, page_pos := Nat.pos_of_ne_zero hpos,
        page_le := Nat.le_of_not_lt hle, fits := hfits }
    exact .inr ⟨target, rfl, rfl, rfl, hsize⟩

-- Every page size has its invariant.
theorem exists_invariant (partition : Partition) (device : String)
    (hfits : partition.offset.toNat + partition.size.toNat ≤ UInt32.size) (page : UInt32)
    (hpage : ∀ device : φ, Flash.pageSize device = page) (board : Watched φ) :
    ∃ holds, Invariant (φ := φ) μ page.toNat holds ∧
      holds (Updater.start partition device) board := by
  rcases unsupported_or_target partition device hfits page hpage with
    hbad | ⟨target, rfl, rfl, hsize, hsuits⟩
  · have hsame : ∀ device : φ, (Flash.pageSize device).toNat = page.toNat :=
      fun device => congrArg UInt32.toNat (hpage device)
    exact ⟨_, invariant_of_unsupported hbad hsame, barren_start partition device⟩
  · rw [← hsize]
    exact ⟨_, invariant_of_target target hsuits, _, rests_start target board⟩

-- An updater takes in whatever it is given, whatever the flash answers, whatever
-- the host has done before and however the file is cut. It always ends: no number
-- leaves its word, no transfer between the buffers is turned down, and the parser
-- does not stall. Its queues lie in their blocks, and what goes to the flash and
-- comes from it fits the buffers that hold it. A piece of the file is taken as a
-- whole unless the session ends, and then nothing is left to do before the next
-- piece.
theorem receive_leaves_quiescent (partition : Partition) (device : String)
    (hfits : partition.offset.toNat + partition.size.toNat ≤ UInt32.size) (page : UInt32)
    (hpage : ∀ device : φ, Flash.pageSize device = page) (calls : List HostCall)
    (logged : Logged (Watched φ) μ) :
    Run.Ends (serveAll calls (start partition device)) logged fun updater begun =>
      Intact updater ∧ updater.InBlocks ∧ Made Sized logged.board begun.board ∧
        ∀ data, Run.Ends (updater.intake data) begun fun result after =>
          updater.receive data begun = .ok result.1 after ∧
            (result.1.phase.isTerminal = false →
              result.2 = [] ∧ Quiescent page.toNat result.1 after) := by
  obtain ⟨holds, hinvariant, hstart⟩ :=
    exists_invariant (μ := μ) partition device hfits page hpage logged.board
  obtain ⟨updater, begun, hrun, hholds, hsized⟩ := hinvariant.serveAll calls hstart
  have hblocks := (serveAll_inBlocks calls (start_inBlocks partition device) logged).of_eq_ok hrun
  refine ⟨updater, begun, hrun, hinvariant.intact updater begun.board hholds, hblocks, hsized, ?_⟩
  intro data
  have hreceive := hinvariant.serve (.Data data) updater begun hholds
  rw [Updater.serve, receive_eq_intake, Run.ends_map] at hreceive
  obtain ⟨result, after, hintake, hnext, _⟩ := hreceive
  refine ⟨result, after, hintake, ?_, ?_⟩
  · rw [receive_eq_intake, map_eq_pure_bind, Run.bind_ok hintake]
    rfl
  · intro hphase
    have hall := (intake_takes_all updater data begun).of_eq_ok hintake
    exact ⟨hall hphase, hinvariant.quiescent result.1 after hnext hphase⟩

end

-- An updater that was closed and opened again takes a file that breaks off before its
-- last packet.
theorem receive_leaves_quiescent_reopened :
    serveAll [.Close, .Open] Chip.updater Chip.board =
      .ok (Chip.updater.opened Chip.board).1 Chip.board ∧
    ∃ (next : Updater) (after : Logged (Watched (Chip 0x1000 256)) Unit),
      (Chip.updater.opened Chip.board).1.intake
        (Chip.shortest.announcement.bytes ++ Chip.shortest.front.bytes) Chip.board =
          .ok (next, []) after ∧
      next.phase = .Packets ∧ next.writer.pending.toList = syncWord ∧ Quiescent 256 next after := by
  have hrun : serveAll [.Close, .Open] Chip.updater Chip.board =
      .ok (Chip.updater.opened Chip.board).1 Chip.board := rfl
  obtain ⟨_, _, _, hreceive⟩ :=
    (receive_leaves_quiescent Chip.target.partition Chip.target.device (by decide) 256
      (fun _ => rfl) [.Close, .Open] Chip.board).of_eq_ok hrun
  obtain ⟨⟨next, left⟩, after, hintake, hsame, hquiescent⟩ :=
    hreceive (Chip.shortest.announcement.bytes ++ Chip.shortest.front.bytes)
  obtain ⟨updater, stopped, hfront, hphase, hpending⟩ := Chip.receive_front
  cases hsame.symm.trans hfront
  obtain ⟨rfl, hquiet⟩ := hquiescent (by rw [hphase]; rfl)
  exact ⟨hrun, next, after, hintake, hphase, hpending, hquiet⟩

-- Nothing is less than a page of no bytes: an updater that was given nothing goes
-- on with a page size that it refuses only once a byte has come.
theorem not_short_of_empty_page :
    let board : Logged (Watched (Chip 0x1000 0)) Unit := ⟨⟨Chip.zeroed, []⟩, ()⟩
    Chip.updater.receive [] board = .ok Chip.updater board ∧
      Chip.updater.phase.isTerminal = false ∧
        ¬ Chip.updater.writer.pending.length < (Flash.pageSize board.board.device).toNat := by
  refine ⟨?_, rfl, by decide⟩
  rw [Updater.receive]
  rfl

end BoardControl.Bitstream
