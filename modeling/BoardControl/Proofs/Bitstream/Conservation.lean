import BoardControl.Proofs.Bitstream.Calls
import BoardControl.Proofs.Bitstream.Parsed
import BoardControl.Proofs.Bitstream.WholeFile

namespace BoardControl.Bitstream

open Session

-- Where all the bytes of a file are in a session that has not failed: in the
-- header, written, waiting to be written, or received.
structure Account (target : Target) (stream : List UInt8) (session : Session)
    (header : List UInt8) (calls : List FlashCall) : Prop where
  stream_eq :
    stream = header ++ (writtenBytes calls ++ session.pending) ++ session.received
  parsed : Parsed target session.phase session.bulkLeft header
    (writtenBytes calls ++ session.pending) session.received
  consecutive : Consecutive target.page target.partition.offset.toNat (writes calls)
  cursor_eq : session.cursor.toNat = target.partition.offset.toNat + (writtenBytes calls).length

namespace Account

variable {φ : Type} [Flash φ] [TickCounter φ] {target : Target} {stream header : List UInt8}
  {session : Session} {calls : List FlashCall}

theorem start (stream : List UInt8) :
    Account target stream ((Session.start target).append stream) [] [] :=
  { stream_eq := rfl, parsed := Parsed.start stream, consecutive := trivial, cursor_eq := rfl }

-- Bytes of the header are read while there is no body.
theorem header_read (h : Account target stream session header calls) (count : Nat)
    (hbody : writtenBytes calls ++ session.pending = []) :
    stream = header ++ session.received.take count ++ (writtenBytes calls ++ session.pending) ++
      session.received.drop count := by
  rw [hbody, List.append_nil, List.append_assoc, List.take_append_drop]
  have hstream := h.stream_eq
  rwa [hbody, List.append_nil] at hstream

theorem skipped {count : Nat} (h : Account target stream session header calls)
    (htoken : target.token? session.phase session.bulkLeft session.received =
      some (.Skip count)) :
    Account target stream (session.skipped count .Records)
      (header ++ session.received.take count) calls :=
  { stream_eq := h.header_read count (h.parsed.body_eq_nil (Target.token?_belongs htoken))
    parsed := h.parsed.skipped htoken
    consecutive := h.consecutive
    cursor_eq := h.cursor_eq }

theorem prepared {more : List FlashCall} (h : Account target stream session header calls)
    (htoken : target.token? session.phase session.bulkLeft session.received = some .Prepare)
    (hmore : writes more = []) :
    Account target stream (session.skipped 5 .SyncWait) (header ++ session.received.take 5)
      (calls ++ more) := by
  have hwrites : writes (calls ++ more) = writes calls := by
    rw [writes_append, hmore, List.append_nil]
  have hbytes : writtenBytes (calls ++ more) = writtenBytes calls := by
    rw [writtenBytes, hwrites, writtenBytes]
  refine { stream_eq := ?_, parsed := ?_, consecutive := ?_, cursor_eq := ?_ }
  · rw [hbytes]
    exact h.header_read 5 (h.parsed.body_eq_nil (Or.inr (Target.token?_belongs htoken)))
  · rw [hbytes]
    exact h.parsed.prepared htoken
  · rw [hwrites]
    exact h.consecutive
  · rw [hbytes]
    exact h.cursor_eq

omit [TickCounter φ] in
-- The full pages among the bytes that wait are written.
theorem copied {count : Nat} {next : Phase} {left cursor : UInt32} {rest : List UInt8}
    {board after : Watched φ} (h : Account target stream session header calls)
    (htoken : target.token? session.phase session.bulkLeft session.received =
      some (.Copy count next left))
    (hflush : target.flush (session.pending ++ session.received.take count) session.cursor board =
      ((.ok rest, cursor), after)) :
    ∃ more : List FlashCall, after.calls = board.calls ++ more ∧
      Account target stream ((session.copied count next left).flushed (.ok rest, cursor)) header
        (calls ++ more) := by
  obtain ⟨more, hmore, hpages, hbytes⟩ := flush_calls hflush
  have hbody : writtenBytes (calls ++ more) ++ rest =
      writtenBytes calls ++ session.pending ++ session.received.take count := by
    rw [writtenBytes_append, List.append_assoc, hbytes, List.append_assoc]
  refine ⟨more, hmore, { stream_eq := ?_, parsed := ?_, consecutive := ?_, cursor_eq := ?_ }⟩
  · have hstream := h.stream_eq
    rw [← List.take_append_drop count session.received, ← List.append_assoc,
      List.append_assoc header, ← hbody] at hstream
    exact hstream
  · have hparsed := h.parsed.copied htoken
    rw [← hbody] at hparsed
    exact hparsed
  · rw [writes_append]
    refine h.consecutive.append ?_
    rw [h.cursor_eq] at hpages
    exact hpages
  · have hcursor := (target.cursor_of_flush hflush).2 rest rfl
    rw [h.cursor_eq, ← hbytes, List.length_append] at hcursor
    simp only [flushed, writtenBytes_append, List.length_append]
    omega

-- A token moves bytes from one place to the next.
theorem advance {board after : Watched φ} {next : Session}
    (h : Account target stream session header calls)
    (hstep : advance? target (session, board) = some (next, after)) (hlive : next.phase ≠ .Failed) :
    ∃ (header' : List UInt8) (more : List FlashCall), after.calls = board.calls ++ more ∧
      Account target stream next header' (calls ++ more) := by
  obtain ⟨token, htoken, htake⟩ := Option.map_eq_some_iff.mp hstep
  simp only at htoken htake
  cases token with
  | Refuse failure =>
      obtain ⟨rfl, _⟩ := Prod.mk.inj htake
      exact absurd rfl hlive
  | Skip count =>
      obtain ⟨rfl, rfl⟩ := Prod.mk.inj htake
      refine ⟨header ++ session.received.take count, [], (List.append_nil _).symm, ?_⟩
      rw [List.append_nil]
      exact h.skipped htoken
  | Prepare =>
      obtain ⟨more, hmore, hnone⟩ := prepare_calls target.partition board
      simp only [take] at htake
      obtain ⟨rfl, rfl⟩ := Prod.mk.inj htake
      cases hready : (target.partition.prepare board).1 with
      | some failure =>
          rw [hready] at hlive
          exact absurd rfl hlive
      | none => exact ⟨_, more, hmore, h.prepared htoken hnone⟩
  | Copy count phase left =>
      simp only [take, flush, Session.copied] at htake
      rcases hflush : target.flush (session.pending ++ session.received.take count) session.cursor
        board with ⟨⟨failure | rest, cursor⟩, last⟩
      · rw [hflush] at htake
        obtain ⟨rfl, _⟩ := Prod.mk.inj htake
        exact absurd rfl hlive
      · rw [hflush] at htake
        obtain ⟨rfl, rfl⟩ := Prod.mk.inj htake
        exact ⟨header, h.copied htoken hflush⟩

-- In a whole session, every byte of the file is somewhere at any time.
theorem reaches {board after : Watched φ} {last : Session}
    (hreach : Reaches target ((Session.start target).append stream, board) (last, after))
    (hlive : last.phase ≠ .Failed) :
    ∃ (header : List UInt8) (calls : List FlashCall), after.calls = board.calls ++ calls ∧
      Account target stream last header calls := by
  generalize hend : (last, after) = now at hreach
  induction hreach generalizing last after with
  | refl =>
      obtain ⟨rfl, rfl⟩ := Prod.mk.inj hend
      exact ⟨[], [], (List.append_nil _).symm, Account.start stream⟩
  | tail _ hstep ih =>
      rename_i middle _ _
      subst hend
      have hgoes : middle.1.phase ≠ .Failed := by
        intro hfailed
        rw [advance?_of_terminal (by rw [hfailed]; rfl)] at hstep
        cases hstep
      obtain ⟨header, calls, hcalls, haccount⟩ := ih hgoes rfl
      obtain ⟨header', more, hmore, hnext⟩ := haccount.advance hstep hlive
      refine ⟨header', calls ++ more, ?_, hnext⟩
      rw [hmore, hcalls, List.append_assoc]

end Account

-- Where all the bytes of a file are in an updater that has not failed: in the
-- header, written in full pages from the front of the partition on, waiting to
-- be written, or received. Bytes after the end of the bitstream are ignored.
structure Conserved (target : Target) (stream : List UInt8) (updater : Updater)
    (calls : List FlashCall) (header ignored : List UInt8) : Prop where
  stream_eq : stream = header ++ (writtenBytes calls ++ updater.writer.pending.toList) ++
    (updater.received.toList ++ ignored)
  ignored_eq : updater.phase ≠ .Done → ignored = []
  parsed : Parsed target updater.phase updater.bulkLeft header
    (writtenBytes calls ++ updater.writer.pending.toList) (updater.received.toList ++ ignored)
  consecutive : Consecutive target.page target.partition.offset.toNat (writes calls)
  cursor_eq : updater.writer.cursor.toNat =
    target.partition.offset.toNat + (writtenBytes calls).length
  written : ∃ count, updater.bytesWritten = .ok count ∧ count.toNat = (writtenBytes calls).length
  pending_lt : updater.writer.pending.length < target.page

-- What a session that is closed without a failure does last: the bytes that wait
-- are written as one more block at the next address, if there are any.
structure Completed (fed closed : Updater) (calls more : List FlashCall) : Prop where
  writes_eq : writes more = if fed.writer.pending.toList = [] then []
    else [(fed.writer.cursor, fed.writer.pending.toList)]
  pending_eq : closed.writer.pending.toList = []
  written : ∃ count, closed.bytesWritten = .ok count ∧
    count.toNat = (writtenBytes calls).length + fed.writer.pending.length

section

variable {φ μ : Type} [Flash φ] [TickCounter φ] [Logger μ] {target : Target}

theorem Account.conserved {stream header : List UInt8} {session : Session}
    {calls : List FlashCall} {updater : Updater} (h : Account target stream session header calls)
    (hfollows : Follows target updater session) (hsound : Sound target session)
    (hlive : session.phase ≠ .Failed) :
    ∃ ignored, Conserved target stream updater calls header ignored := by
  have hpending := hfollows.pending hlive
  obtain ⟨ignored, hreceived, hnone⟩ := hfollows.received hlive
  refine ⟨ignored,
    { stream_eq := ?_, ignored_eq := ?_, parsed := ?_, consecutive := h.consecutive,
      cursor_eq := ?_, written := ?_, pending_lt := ?_ }⟩
  · rw [hpending, ← hreceived]
    exact h.stream_eq
  · rw [hfollows.phase]
    exact hnone
  · rw [hpending, ← hreceived, hfollows.phase, hfollows.bulkLeft hlive]
    exact h.parsed
  · rw [hfollows.cursor]
    exact h.cursor_eq
  · exact ⟨_, hfollows.bytesWritten_eq hsound.offset_le, toNat_sub_offset h.cursor_eq⟩
  · rw [← Ring.length_toList, hpending]
    exact hsound.pending_lt

omit [TickCounter φ] in
-- The last block of a session that is closed well.
theorem Account.completed {stream header : List UInt8} {session : Session}
    {calls : List FlashCall} {fed closed : Updater} {board : Watched φ}
    (h : Account target stream session header calls) (hfollows : Follows target fed session)
    (hlive : session.phase ≠ .Failed)
    (hclosed : Follows target closed (session.close target board).1)
    (hgood : closed.phase ≠ .Failed) :
    ∃ more, (session.close target board).2.calls = board.calls ++ more ∧
      Completed fed closed calls more := by
  rw [hclosed.phase] at hgood
  rw [Session.close, if_neg hlive] at hclosed hgood ⊢
  rcases hfinish : target.finish session.pending session.cursor board with
    ⟨⟨failure | rest, cursor⟩, last⟩
  · rw [hfinish] at hgood
    exact absurd rfl hgood
  · rw [hfinish] at hclosed hgood
    obtain ⟨more, hmore, hwrites⟩ := finish_calls hfinish
    obtain ⟨rfl, hcursor⟩ := (target.cursor_of_finish hfinish).2 rest rfl
    rw [h.cursor_eq, Nat.add_assoc] at hcursor
    refine ⟨more, hmore, { writes_eq := ?_, pending_eq := hclosed.pending hgood, written := ?_ }⟩
    · rw [hfollows.pending hlive, hfollows.cursor]
      exact hwrites
    · refine ⟨_, hclosed.bytesWritten_eq ?_, ?_⟩
      · rw [cursor_flushed, hcursor]
        omega
      · rw [cursor_flushed, toNat_sub_offset hcursor, ← Ring.length_toList, hfollows.pending hlive]

-- No byte is lost, doubled or put in another place on its way to the flash.
theorem session_conserves (hsuits : target.Suits φ) (updater : Updater)
    (hpartition : updater.writer.partition = target.partition)
    (hdevice : updater.device = target.device) (chunks : List (List UInt8))
    (logged : Logged (Watched φ) μ) :
    ∃ (fed : Updater) (after : Logged (Watched φ) μ),
      updater.session chunks false logged = .ok fed after ∧ (fed.phase ≠ .Failed →
        ∃ (calls : List FlashCall) (header ignored : List UInt8),
          after.board.calls = logged.board.calls ++ calls ∧
          Conserved target chunks.flatten fed calls header ignored ∧
          ∃ (closed : Updater) (last : Logged (Watched φ) μ), fed.closed after = .ok closed last ∧
            (closed.phase ≠ .Failed → ∃ more, last.board.calls = after.board.calls ++ more ∧
              Completed fed closed calls more)) := by
  have hwatched : target.Suits (Watched φ) := fun board => hsuits board.device
  obtain ⟨fed, after, hrun, session, board, hsettles, hfollows, hboard, _⟩ :=
    session_ends hwatched hpartition hdevice chunks false logged
  rw [if_neg (by decide)] at hfollows hboard
  simp only at hfollows hboard
  subst hboard
  refine ⟨fed, after, hrun, fun hlive => ?_⟩
  rw [hfollows.phase] at hlive
  have hsound := (Sound.start.append chunks.flatten).reaches hsettles.1
  obtain ⟨header, calls, hcalls, haccount⟩ := Account.reaches hsettles.1 hlive
  obtain ⟨ignored, hconserved⟩ := haccount.conserved hfollows hsound hlive
  refine ⟨calls, header, ignored, hcalls, hconserved, ?_⟩
  obtain ⟨closed, last, hclosed, hended, hlast⟩ := closed_ends hwatched hfollows hsound after
  refine ⟨closed, last, hclosed, fun hgood => ?_⟩
  rw [hlast]
  exact haccount.completed hfollows hlive hended hgood

end

-- The shortest file comes in two pieces. Its page waits until the session is closed.
theorem session_conserves_shortest :
    ∃ (fed : Updater) (after : Logged (Watched (Chip 0x1000 256)) Unit),
      Chip.updater.session Chip.halves false Chip.board = .ok fed after ∧ fed.phase ≠ .Failed ∧
        ∃ (calls : List FlashCall) (header ignored : List UInt8),
          after.board.calls = Chip.board.board.calls ++ calls ∧
          Conserved Chip.target Chip.halves.flatten fed calls header ignored ∧
          ∃ (closed : Updater) (last : Logged (Watched (Chip 0x1000 256)) Unit),
            fed.closed after = .ok closed last ∧ closed.phase = .Done ∧
              closed.bytesWritten = .ok 12 ∧
              ∃ more, last.board.calls = after.board.calls ++ more ∧
                Completed fed closed calls more := by
  obtain ⟨fed, after, hfed, hconserved⟩ :=
    session_conserves (Chip.suits 0x1000) Chip.updater rfl rfl Chip.halves Chip.board
  obtain ⟨closed, last, hsession, hdone, hwritten⟩ := Chip.session_shortest Chip.flatten_halves
  rw [Updater.session_closed, Run.bind_ok hfed] at hsession
  have hlive : fed.phase ≠ .Failed := by
    intro hfailed
    rw [Updater.closed, if_pos hfailed] at hsession
    cases hsession
    cases hfailed.symm.trans hdone
  obtain ⟨calls, header, ignored, hcalls, hheld, same, left, hclosed, hcompleted⟩ :=
    hconserved hlive
  cases hsession.symm.trans hclosed
  exact ⟨fed, after, hfed, hlive, calls, header, ignored, hcalls, hheld, closed, last, hsession,
    hdone, hwritten, hcompleted (by rw [hdone]; decide)⟩

end BoardControl.Bitstream
