import BoardControl.Proofs.Bitstream.BodyStep

namespace BoardControl.Bitstream

open Session

-- A whole session: opened, fed with pieces of the file, and closed if the host
-- does so.

def Updater.feed {σ : Type} [TickCounter σ] [Logger σ] [Flash σ] (updater : Updater)
    (chunks : List (List UInt8)) : Run σ Updater :=
  chunks.foldlM Updater.receive updater

def Updater.session {σ : Type} [TickCounter σ] [Logger σ] [Flash σ] (updater : Updater)
    (chunks : List (List UInt8)) (closing : Bool) : Run σ Updater := do
  let updater ← perform updater.opened
  let updater ← updater.feed chunks
  if closing then updater.closed else pure updater

-- A session that is closed is one that is left open, and then the close.
theorem Updater.session_closed {σ : Type} [TickCounter σ] [Logger σ] [Flash σ] (updater : Updater)
    (chunks : List (List UInt8)) :
    (updater.session chunks true : Run σ Updater) =
      updater.session chunks false >>= Updater.closed := by
  simp [Updater.session]

theorem Phase.eq_of_terminal {phase : Phase} (h : phase.isTerminal = true) :
    phase = .Failed ∨ phase = .Done := by
  cases phase with
  | Failed => exact Or.inl rfl
  | Done => exact Or.inr rfl
  | Magic | Records | SyncWait | Packets | Bulk => all_goals cases h

namespace Session

variable {σ : Type} [Flash σ] [TickCounter σ] {target : Target}

-- A session that has ended has no token left.
theorem advance?_of_terminal {session : Session} (h : session.phase.isTerminal = true) (board : σ) :
    advance? target (session, board) = none := by
  rw [advance?, Option.map_eq_none_iff]
  rcases Phase.eq_of_terminal h with hphase | hphase
  · simp only [hphase, Target.token?]
  · simp only [hphase, Target.token?]

-- A session that settles, and then settles again with more bytes, is one that
-- had all the bytes at once.
theorem Reaches.append_trans {session middle : Session} {board left : σ} {last : Session × σ}
    {one other : List UInt8} (hone : Reaches target (session.append one, board) (middle, left))
    (hother : Settles target (middle.append other, left) last) :
    Settles target (session.append (one ++ other), board) last := by
  have hfirst := hone.append other
  rw [append_append] at hfirst
  exact ⟨hfirst.trans hother.1, hother.2⟩

omit [TickCounter σ] in
-- The cursor stays in the partition when the session is closed.
theorem Sound.offset_le_close {session : Session} (h : Sound target session) (board : σ) :
    target.partition.offset.toNat ≤ (session.close target board).1.cursor.toNat := by
  have hoffset := h.offset_le
  rw [Session.close]
  split
  · exact hoffset
  · rcases hfinish : target.finish session.pending session.cursor board with ⟨⟨result, next⟩, after⟩
    have hcursor := (target.cursor_of_finish hfinish).1
    rw [cursor_flushed]
    exact Nat.le_trans hoffset hcursor

omit [TickCounter σ] in
theorem Sound.close {session : Session} (h : Sound target session) (board : σ) :
    Sound target (session.close target board).1 := by
  have hoffset := h.offset_le_close board
  rw [Session.close] at hoffset ⊢
  split
  · exact h
  · rename_i hlive
    rw [if_neg hlive] at hoffset
    rcases hfinish : target.finish session.pending session.cursor board with
      ⟨⟨failure | rest, cursor⟩, after⟩
    · rw [hfinish] at hoffset
      exact Sound.failed hoffset
    · rw [hfinish] at hoffset
      obtain ⟨hrest, _⟩ := (target.cursor_of_finish hfinish).2 rest rfl
      exact ⟨hoffset, by rw [hrest]; exact target.page_pos, h.bulk⟩

-- Closing brings no token.
theorem advance?_close {session : Session} {board : σ} (h : advance? target (session, board) = none) :
    advance? target (session.close target board) = none := by
  rw [Session.close]
  split
  · exact h
  · rcases target.finish session.pending session.cursor board with
      ⟨⟨failure | rest, cursor⟩, after⟩
    · exact advance?_of_terminal rfl after
    · exact Option.map_eq_none_iff.mpr (Option.map_eq_none_iff.mp h)

end Session

section

variable {target : Target} {updater : Updater} {session : Session}

-- The distance of a cursor from the front of the partition.
theorem toNat_sub_offset {cursor : UInt32} {length : Nat}
    (h : cursor.toNat = target.partition.offset.toNat + length) :
    (cursor - target.partition.offset).toNat = length := by
  rw [UInt32.toNat_sub_of_le _ _ (UInt32.le_iff_toNat_le.mpr (by omega))]
  omega

-- Pages were programmed from the bytes that waited.
theorem Follows.flushed (h : Follows target updater session) {writer : PageWriter}
    {waiting : List UInt8} {cursor : UInt32} (hpartition : writer.partition = target.partition)
    (hcursor : writer.cursor = cursor) (hwaiting : writer.pending.toList = waiting) :
    Follows target { updater with writer } (session.flushed (.ok waiting, cursor)) :=
  { partition := hpartition, device := h.device, phase := h.phase, lastError := h.lastError,
    cursor := hcursor, bulkLeft := h.bulkLeft, pending := fun _ => hwaiting,
    received := h.received }

theorem Follows.failed {failure : UpdateError} {cursor : UInt32}
    (hpartition : updater.writer.partition = target.partition)
    (hdevice : updater.device = target.device) (hphase : updater.phase = .Failed)
    (herror : updater.lastError = some failure) (hcursor : updater.writer.cursor = cursor) :
    Follows target updater (failed failure cursor) :=
  { partition := hpartition, device := hdevice, phase := hphase, lastError := herror,
    cursor := hcursor, bulkLeft := fun hlive => absurd rfl hlive,
    pending := fun hlive => absurd rfl hlive, received := fun hlive => absurd rfl hlive }

-- A session that has ended takes no more bytes in.
theorem Follows.append_of_terminal (h : Follows target updater session)
    (hphase : session.phase.isTerminal = true) (more : List UInt8) :
    Follows target updater (session.append more) := by
  rcases Phase.eq_of_terminal hphase with hfailed | hdone
  · rw [append, if_pos hfailed]
    exact h
  · rw [append_eq (by rw [hdone]; decide)]
    refine { h with received := fun hlive => ?_ }
    obtain ⟨ignored, hreceived, _⟩ := h.received hlive
    refine ⟨ignored ++ more, ?_, fun hne => absurd hdone hne⟩
    rw [hreceived, List.append_assoc]

theorem Follows.push (h : Follows target updater session)
    (hphase : session.phase.isTerminal = false) {data : List UInt8}
    (hdata : data.length ≤ updater.received.free) :
    Follows target { updater with received := updater.received.pushBytes data }
      (session.append data) := by
  have hlive := (Phase.ne_of_not_terminal hphase).1
  rw [append_eq hlive]
  refine Follows.of_buffers h.partition h.device h.phase h.lastError h.cursor (h.bulkLeft hlive)
    (h.pending hlive) ?_
  rw [Ring.toList_pushBytes _ _ hdata, h.received_eq hphase]

end

section

variable {σ μ : Type} [Flash σ] [TickCounter σ] [Logger μ] {target : Target}

-- What a drained updater has to do with its session: it stands where the session
-- has no more tokens, or it has a failure to report.
def Drained (target : Target) (now : Session × σ) (result : Updater × Option UpdateError)
    (after : σ) : Prop :=
  match result.2 with
  | none => ∃ last, Follows target result.1 last ∧ Settles target now (last, after)
  | some failure =>
      result.1.writer.partition = target.partition ∧ result.1.device = target.device ∧
        Reaches target now (failed failure result.1.writer.cursor, after)

omit [Logger μ] in
theorem Drained.of_reaches {now middle : Session × σ} {result : Updater × Option UpdateError}
    {after : σ} (hreach : Reaches target now middle) (h : Drained target middle result after) :
    Drained target now result after := by
  unfold Drained at h ⊢
  split
  · rename_i hnone
    rw [hnone] at h
    obtain ⟨last, hfollows, hsettles⟩ := h
    exact ⟨last, hfollows, hreach.trans hsettles.1, hsettles.2⟩
  · rename_i failure hsome
    rw [hsome] at h
    exact ⟨h.1, h.2.1, hreach.trans h.2.2⟩

omit [Logger μ] in
-- A step leaves buffers for some session. Only its full pages are still to be
-- programmed.
theorem Stepped.loaded {updater next : Updater} {session : Session} {board after : σ}
    {progress : Bool} (h : Follows target updater session) (hsound : Sound target session)
    (hphase : session.phase.isTerminal = false)
    (hstepped : Stepped target updater session board (.ok (progress, next)) after) :
    ∃ loaded, Follows target next loaded ∧ loaded.phase ≠ .Failed ∧
      Reaches target (session, board) (loaded.flush target after) ∧
      (progress = true → next.received.length < updater.received.length) ∧
      (progress = false → advance? target (loaded.flush target after) = none) := by
  cases progress with
  | false =>
      obtain ⟨rfl, rfl, htoken⟩ := hstepped
      have hflush := flush_of_short session hsound.pending_lt after
      refine ⟨session, h, (Phase.ne_of_not_terminal hphase).1, ?_, by simp, ?_⟩
      · rw [hflush]
        exact Relation.ReflTransGen.refl
      · intro _
        rw [hflush, advance?, htoken]
        rfl
  | true =>
      obtain ⟨hshorter, loaded, hloaded, hlive, hreach⟩ := hstepped
      exact ⟨loaded, hloaded, hlive, hreach, fun _ => hshorter, by simp⟩

theorem drain_ends (hsuits : target.Suits σ) {updater : Updater} {session : Session}
    (h : Follows target updater session) (hsound : Sound target session)
    (hphase : session.phase.isTerminal = false) (logged : Logged σ μ) :
    Run.Ends updater.drain logged fun result after =>
      Drained target (session, logged.board) result after.board := by
  induction hlength : updater.received.length using Nat.strongRecOn
    generalizing updater session logged with
  | _ length ih =>
      rw [Updater.drain, Run.ends_bind]
      apply (step_ends hsuits h hsound hphase logged).mono
      rintro (failure | ⟨progress, next⟩) middle hstepped
      · rw [Run.ends_pure]
        refine ⟨h.partition, h.device, ?_⟩
        rw [h.cursor]
        exact hstepped
      · obtain ⟨loaded, hloaded, hlive, hreach, hshorter, hstuck⟩ :=
          Stepped.loaded h hsound hphase hstepped
        simp only [Run.ends_bind]
        apply (flushPages_ends target hsuits next.writer hloaded.partition middle).mono
        intro result after hends
        obtain ⟨writer, failure⟩ := result
        obtain ⟨hboard, hpartition, hcursor, hshows⟩ := hends
        rw [hloaded.pending hlive, hloaded.cursor] at hboard hcursor hshows
        simp only [flush] at hreach hstuck
        rcases hflush : target.flush loaded.pending loaded.cursor middle.board with
          ⟨⟨reason | rest, cursor⟩, left⟩
        · simp only [hflush] at hreach hboard hcursor hshows
          subst hshows hcursor hboard
          simp only [Option.isSome_some, Bool.true_or, if_true, Run.ends_pure]
          exact ⟨hpartition, hloaded.device, hreach⟩
        · simp only [hflush] at hreach hstuck hboard hcursor hshows
          obtain ⟨rfl, hwaiting⟩ := hshows
          subst hboard
          have hfollows := hloaded.flushed hpartition hcursor hwaiting
          by_cases hstop : (!progress || next.phase.isTerminal) = true
          · simp only [Option.isSome_none, Bool.false_or, hstop, if_true, Run.ends_pure]
            refine ⟨_, hfollows, hreach, ?_⟩
            cases progress with
            | false => exact hstuck rfl
            | true =>
                rw [hloaded.phase] at hstop
                have hended : (loaded.flushed (.ok rest, cursor)).phase.isTerminal = true := hstop
                exact advance?_of_terminal hended after.board
          · obtain ⟨hprogress, hgoes⟩ := not_or.mp (mt Bool.or_eq_true_iff.mpr hstop)
            rw [Bool.not_eq_true, Bool.not_eq_false'] at hprogress
            rw [Bool.not_eq_true, hloaded.phase] at hgoes
            have hless := hshorter hprogress
            simp only [Option.isSome_none, Bool.false_or, hstop, Bool.false_eq_true, if_false,
              dif_pos hless]
            exact (ih next.received.length (by omega) hfollows (hsound.reaches hreach) hgoes after rfl).mono
              fun _ _ hdrained => hdrained.of_reaches hreach

omit [Flash σ] [TickCounter σ] in
@[simp] theorem fail_answer (updater : Updater) (failure : UpdateError) (logged : Logged σ μ) :
    (updater.fail failure logged).1 =
      { updater with phase := .Failed, lastError := some failure } := rfl

omit [Flash σ] [TickCounter σ] in
@[simp] theorem board_fail (updater : Updater) (failure : UpdateError) (logged : Logged σ μ) :
    (updater.fail failure logged).2.board = logged.board :=
  Logged.board_log logged _ _

omit [Logger μ] in
-- A session without a token leaves room in the receive buffer.
theorem Follows.free_pos {updater : Updater} {session : Session} {board : σ}
    (h : Follows target updater session) (hsound : Sound target session)
    (hphase : session.phase.isTerminal = false)
    (hrest : advance? target (session, board) = none) : 0 < updater.received.free := by
  have hlength := Target.length_lt_of_token?_eq_none hphase hsound.bulk
    (Option.map_eq_none_iff.mp hrest)
  rw [← h.received_eq hphase, Ring.length_toList] at hlength
  rw [Ring.free]
  omega

-- A piece of the file settles the session that has as many bytes more.
theorem receive_ends (hsuits : target.Suits σ) (data : List UInt8) {updater : Updater}
    {session : Session} (h : Follows target updater session) (hsound : Sound target session)
    (logged : Logged σ μ) (hrest : advance? target (session, logged.board) = none) :
    Run.Ends (updater.receive data) logged fun result after =>
      ∃ last, Follows target result last ∧
        Settles target (session.append data, logged.board) (last, after.board) := by
  induction hlength : data.length using Nat.strongRecOn
    generalizing data updater session logged with
  | _ length ih =>
      rw [Updater.receive]
      by_cases hend : (data.isEmpty || updater.phase.isTerminal) = true
      · rw [dif_pos hend, Run.ends_pure]
        by_cases hterminal : session.phase.isTerminal = true
        · have hended : (session.append data).phase.isTerminal = true := by
            rw [append]
            split <;> exact hterminal
          exact ⟨_, h.append_of_terminal hterminal data, Relation.ReflTransGen.refl,
            advance?_of_terminal hended logged.board⟩
        · rw [h.phase, Bool.or_eq_true, or_iff_left hterminal, List.isEmpty_iff] at hend
          rw [hend, append_nil]
          exact ⟨session, h, Relation.ReflTransGen.refl, hrest⟩
      · obtain ⟨hdata, hgoes⟩ := not_or.mp (mt Bool.or_eq_true_iff.mpr hend)
        rw [Bool.not_eq_true, h.phase] at hgoes
        rw [List.isEmpty_iff, ← List.length_eq_zero_iff] at hdata
        have hroom := h.free_pos hsound hgoes hrest
        generalize hfree : updater.received.free = room at hroom ⊢
        have htake : (data.take room).length ≤ updater.received.free := by
          rw [List.length_take]
          omega
        have hpush := (Ring.push_eq_ok_true_iff updater.received _ _).mpr ⟨htake, by decide, rfl⟩
        have hmore : (session.append (data.take room)).phase.isTerminal = false := by
          rw [append_eq (Phase.ne_of_not_terminal hgoes).1]
          exact hgoes
        -- What the rest of the data does is what it does after a part of it.
        have hcontinue : ∀ {next : Updater} {last : Session} (now : Logged σ μ),
            Follows target next last →
            Settles target (session.append (data.take room), logged.board) (last, now.board) →
            Run.Ends (next.receive (data.drop room)) now fun result after =>
              ∃ last, Follows target result last ∧
                Settles target (session.append data, logged.board) (last, after.board) := by
          intro next last now hnext hsettles
          have hlast := (hsound.append (data.take room)).reaches hsettles.1
          refine (ih _ (by rw [List.length_drop]; omega) (data.drop room) hnext hlast now
            hsettles.2 rfl).mono ?_
          intro result after hends
          obtain ⟨final, hfinal, hrest⟩ := hends
          have hwhole := hsettles.1.append_trans hrest
          rw [List.take_append_drop] at hwhole
          exact ⟨final, hfinal, hwhole⟩
        rw [dif_neg hend]
        simp only [dif_neg (Nat.ne_of_gt hroom), hpush, Run.ends_bind, Run.ends_ok]
        apply (drain_ends hsuits (h.push hgoes htake) (hsound.append _) hmore logged).mono
        intro result after hdrained
        obtain ⟨next, failure⟩ := result
        cases failure with
        | none =>
            obtain ⟨last, hlast, hsettles⟩ := hdrained
            exact hcontinue after hlast hsettles
        | some failure =>
            obtain ⟨hpartition, hdevice, hreach⟩ := hdrained
            simp only [Run.ends_bind, Run.ends_perform, fail_answer]
            refine hcontinue _ (Follows.failed hpartition hdevice rfl rfl rfl) ⟨?_, rfl⟩
            rw [board_fail]
            exact hreach

-- The bytes written so far can be counted.
theorem Follows.bytesWritten_eq {updater : Updater} {session : Session}
    (h : Follows target updater session)
    (hoffset : target.partition.offset.toNat ≤ session.cursor.toNat) :
    updater.bytesWritten = .ok (session.cursor - target.partition.offset) := by
  rw [Updater.bytesWritten, PageWriter.written, h.cursor, h.partition, Word.sub_eq_ok hoffset]

omit [Flash σ] [TickCounter σ] in
-- Opening starts a session, whatever came before.
theorem opened_follows {updater : Updater} (hpartition : updater.writer.partition = target.partition)
    (hdevice : updater.device = target.device) (logged : Logged σ μ) :
    Follows target (updater.opened logged).1 (start target) ∧
      (updater.opened logged).2.board = logged.board := by
  refine ⟨?_, Logged.board_log logged _ _⟩
  refine Follows.of_buffers hpartition hdevice rfl rfl ?_ rfl (Ring.toList_reset _)
    (Ring.toList_reset _)
  exact congrArg Partition.offset hpartition

omit [TickCounter σ] in
theorem closed_ends (hsuits : target.Suits σ) {updater : Updater} {session : Session}
    (h : Follows target updater session) (hsound : Sound target session) (logged : Logged σ μ) :
    Run.Ends updater.closed logged fun result after =>
      let ended := session.close target logged.board
      Follows target result ended.1 ∧ after.board = ended.2 := by
  have hoffset := hsound.offset_le_close logged.board
  rw [Session.close] at hoffset
  rw [Updater.closed, Session.close]
  by_cases hfailed : session.phase = .Failed
  · simp only [h.phase, if_pos hfailed, Run.ends_bind, Run.ends_perform, Run.ends_pure, Logged.board_log]
    exact ⟨h, trivial⟩
  · rw [if_neg hfailed] at hoffset
    rw [if_neg hfailed, if_neg (by rwa [h.phase])]
    apply Logged.ends_of_log
    intro next hnext
    have hpending := h.pending hfailed
    have hshort := hsound.pending_lt
    rw [← hpending] at hshort
    simp only [Run.ends_bind]
    apply (flushAll_ends target hsuits updater.writer h.partition hshort next).mono
    intro result after hends
    obtain ⟨writer, failure⟩ := result
    obtain ⟨hboard, hpartition, hcursor, hshows⟩ := hends
    rw [hpending, h.cursor, hnext] at hboard hcursor hshows
    rcases hfinish : target.finish session.pending session.cursor logged.board with
      ⟨⟨reason | rest, cursor⟩, left⟩
    · simp only [hfinish] at hboard hcursor hshows
      subst hshows
      simp only [Run.ends_perform, fail_answer, board_fail]
      exact ⟨Follows.failed hpartition h.device rfl rfl hcursor, hboard⟩
    · simp only [hfinish] at hoffset hboard hcursor hshows
      obtain ⟨rfl, hwaiting⟩ := hshows
      simp only at hpartition hcursor hwaiting
      have hfollows := h.flushed hpartition hcursor hwaiting
      have hwritten := hfollows.bytesWritten_eq hoffset
      simp only [hwritten, Run.ends_bind, Run.ends_ok, Run.ends_perform,
        Run.ends_pure, Logged.board_log]
      exact ⟨hfollows, hboard⟩

theorem feed_ends (hsuits : target.Suits σ) (chunks : List (List UInt8)) {updater : Updater}
    {session : Session} (h : Follows target updater session) (hsound : Sound target session)
    (logged : Logged σ μ) (hrest : advance? target (session, logged.board) = none) :
    Run.Ends (updater.feed chunks) logged fun result after =>
      ∃ last, Follows target result last ∧
        Settles target (session.append chunks.flatten, logged.board) (last, after.board) := by
  rw [Updater.feed]
  induction chunks generalizing updater session logged with
  | nil =>
      rw [List.foldlM_nil, Run.ends_pure, List.flatten_nil, append_nil]
      exact ⟨session, h, Relation.ReflTransGen.refl, hrest⟩
  | cons chunk chunks ih =>
      rw [List.foldlM_cons, Run.ends_bind, List.flatten_cons]
      apply (receive_ends hsuits chunk h hsound logged hrest).mono
      intro middle left hends
      obtain ⟨now, hnow, hsettles⟩ := hends
      have hlast := (hsound.append chunk).reaches hsettles.1
      apply (ih hnow hlast left hsettles.2).mono
      intro result after hends
      obtain ⟨last, hfollows, hwhole⟩ := hends
      exact ⟨last, hfollows, hsettles.1.append_trans hwhole⟩

-- The file decides where a session ends. How it was cut and what the updater did
-- before make no difference.
theorem session_ends (hsuits : target.Suits σ) {updater : Updater}
    (hpartition : updater.writer.partition = target.partition)
    (hdevice : updater.device = target.device) (chunks : List (List UInt8)) (closing : Bool)
    (logged : Logged σ μ) :
    Run.Ends (updater.session chunks closing) logged fun result after =>
      ∃ last left, Settles target ((start target).append chunks.flatten, logged.board) (last, left) ∧
        let ended := if closing then last.close target left else (last, left)
        Follows target result ended.1 ∧ after.board = ended.2 ∧
          result.bytesWritten = .ok (ended.1.cursor - target.partition.offset) := by
  obtain ⟨hstart, hboard⟩ := opened_follows hpartition hdevice logged
  have hfresh : advance? target (start target, (updater.opened logged).2.board) = none := rfl
  simp only [Updater.session, Run.ends_bind, Run.ends_perform]
  apply (feed_ends hsuits chunks hstart Sound.start _ hfresh).mono
  intro middle after hends
  obtain ⟨last, hlast, hsettles⟩ := hends
  have hsound := (Sound.start.append chunks.flatten).reaches hsettles.1
  rw [hboard] at hsettles
  cases closing with
  | false =>
      rw [if_neg (by decide), Run.ends_pure]
      exact ⟨last, after.board, hsettles, hlast, rfl, hlast.bytesWritten_eq hsound.offset_le⟩
  | true =>
      rw [if_pos rfl]
      apply (closed_ends hsuits hlast hsound after).mono
      intro result left hends
      obtain ⟨hresult, hleft⟩ := hends
      exact ⟨last, after.board, hsettles, hresult, hleft,
        hresult.bytesWritten_eq (hsound.offset_le_close after.board)⟩

end

end BoardControl.Bitstream
