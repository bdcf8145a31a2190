import BoardControl.Proofs.Bitstream.Session

namespace BoardControl.Bitstream

-- An updater whose buffers hold the bytes of a session. Of a failed updater only
-- what it answers counts, and a finished one may have dropped bytes at the end.
structure Follows (target : Target) (updater : Updater) (session : Session) : Prop where
  partition : updater.writer.partition = target.partition
  device : updater.device = target.device
  phase : updater.phase = session.phase
  lastError : updater.lastError = session.lastError
  cursor : updater.writer.cursor = session.cursor
  bulkLeft : session.phase ≠ .Failed → updater.bulkLeft = session.bulkLeft
  pending : session.phase ≠ .Failed → updater.writer.pending.toList = session.pending
  received : session.phase ≠ .Failed → ∃ ignored,
    session.received = updater.received.toList ++ ignored ∧
      (session.phase ≠ .Done → ignored = [])

theorem Phase.ne_of_not_terminal {phase : Phase} (h : phase.isTerminal = false) :
    phase ≠ .Failed ∧ phase ≠ .Done := by
  cases phase <;> first | exact ⟨by decide, by decide⟩ | cases h

namespace Follows

variable {target : Target} {updater : Updater} {session : Session}

theorem received_eq (h : Follows target updater session)
    (hphase : session.phase.isTerminal = false) :
    updater.received.toList = session.received := by
  obtain ⟨hfailed, hdone⟩ := Phase.ne_of_not_terminal hphase
  obtain ⟨ignored, hreceived, hnone⟩ := h.received hfailed
  rw [hreceived, hnone hdone, List.append_nil]

-- Buffers that hold the right bytes are all that has to be shown of a session
-- that goes on.
theorem of_buffers (hpartition : updater.writer.partition = target.partition)
    (hdevice : updater.device = target.device) (hphase : updater.phase = session.phase)
    (herror : updater.lastError = session.lastError)
    (hcursor : updater.writer.cursor = session.cursor)
    (hbulk : updater.bulkLeft = session.bulkLeft)
    (hpending : updater.writer.pending.toList = session.pending)
    (hreceived : updater.received.toList = session.received) : Follows target updater session :=
  { partition := hpartition, device := hdevice, phase := hphase, lastError := herror,
    cursor := hcursor, bulkLeft := fun _ => hbulk, pending := fun _ => hpending,
    received := fun _ => ⟨[], by rw [hreceived, List.append_nil], fun _ => rfl⟩ }

end Follows

section

variable {target : Target}

-- Bytes that are there and fit can be moved.
theorem move_eq_ok {received pending : Ring Settings.streamBuffer} {count : Nat}
    (hcount : count ≤ received.length) (hfree : count ≤ pending.free) :
    Updater.move received pending count =
      .ok (received.popFront count, pending.pushBytes (received.toList.take count)) := by
  rw [Updater.move, Ring.transfer_of_fits received pending count hcount hfree (by decide)]
  rfl

theorem toList_pushBytes_take {received pending : Ring Settings.streamBuffer} {count : Nat}
    (hfree : count ≤ pending.free) :
    (pending.pushBytes (received.toList.take count)).toList =
      pending.toList ++ received.toList.take count := by
  apply Ring.toList_pushBytes
  rw [List.length_take]
  omega

-- What one round of the search for the sync word comes to: it waits for bytes or for
-- room, it moves the sync word, or it moves one byte and goes on.
inductive ScanRound (fuel : Nat) (received pending : Ring Settings.streamBuffer) :
    Except Fault SyncScan → Prop
  | waits (hshort : received.length < 4 ∨ pending.free < 4) :
      ScanRound fuel received pending (.ok ⟨false, false, received, pending⟩)
  | found (hlength : 4 ≤ received.length) (hroom : 4 ≤ pending.free)
      (hsync : received.toList.take syncWord.length = syncWord) :
      ScanRound fuel received pending (.ok ⟨true, true, received.popFront 4,
        pending.pushBytes (received.toList.take 4)⟩)
  | goesOn (hlength : 4 ≤ received.length) (hroom : 4 ≤ pending.free)
      (hother : received.toList.take syncWord.length ≠ syncWord) :
      ScanRound fuel received pending (do
        let rest ← Updater.scanSync fuel (received.popFront 1)
          (pending.pushBytes (received.toList.take 1))
        pure { rest with moved := true })

theorem scanSync_round (fuel : Nat) (received pending : Ring Settings.streamBuffer) :
    ScanRound fuel received pending (Updater.scanSync (fuel + 1) received pending) := by
  have hfour : syncWord.length = 4 := rfl
  rw [Updater.scanSync]
  by_cases hgate : received.length < syncWord.length ∨ pending.free < syncWord.length
  · rw [if_pos hgate]
    exact .waits hgate
  · obtain ⟨hlength, hroom⟩ := not_or.mp hgate
    rw [if_neg hgate, Ring.front_eq_take]
    by_cases hsync : received.toList.take syncWord.length = syncWord
    · rw [if_pos hsync, hfour, move_eq_ok (by omega) (by omega)]
      exact .found (by omega) (by omega) hsync
    · rw [if_neg hsync, move_eq_ok (by omega) (by omega)]
      exact .goesOn (by omega) (by omega) hsync

theorem moveBytes_eq_ok {updater : Updater} {count : Nat}
    (hcount : count ≤ updater.received.length) (hfree : count ≤ updater.writer.pending.free) :
    updater.moveBytes count = .ok (updater.withBuffers (updater.received.popFront count)
      (updater.writer.pending.pushBytes (updater.received.toList.take count))) := by
  rw [Updater.moveBytes, move_eq_ok hcount hfree]
  rfl

-- Bytes of the body that went from one buffer to the other.
theorem Follows.copied {updater : Updater} {session : Session}
    {received pending : Ring Settings.streamBuffer} {count : Nat}
    (h : Follows target updater session) (hphase : session.phase.isTerminal = false)
    (hreceived : received.toList = updater.received.toList.drop count)
    (hpending : pending.toList =
      updater.writer.pending.toList ++ updater.received.toList.take count)
    (next : Phase) (left : UInt32) :
    Follows target
      { updater.withBuffers received pending with phase := next, bulkLeft := left }
      (session.copied count next left) := by
  refine Follows.of_buffers h.partition h.device rfl h.lastError h.cursor rfl ?_ ?_
  · rw [h.pending (Phase.ne_of_not_terminal hphase).1, h.received_eq hphase] at hpending
    exact hpending
  · rw [h.received_eq hphase] at hreceived
    exact hreceived

end

namespace Session

variable {σ : Type} [Flash σ] [TickCounter σ] {target : Target}

theorem advance?_of_token {session : Session} {board : σ} {token : Token}
    (h : target.token? session.phase session.bulkLeft session.received = some token) :
    advance? target (session, board) = some (session.take target token board) := by
  simp only [advance?, h, Option.map_some]

theorem reaches_of_token {session : Session} {token : Token}
    (h : target.token? session.phase session.bulkLeft session.received = some token) (board : σ) :
    Reaches target (session, board) (session.take target token board) :=
  Relation.ReflTransGen.single (advance?_of_token h)

omit [TickCounter σ] in
-- A page that is not full can wait.
theorem flush_of_short (session : Session) (h : session.pending.length < target.page)
    (board : σ) : session.flush target board = (session, board) := by
  rw [flush, target.flush_of_short _ _ h]
  rfl

-- Bytes that are copied in parts arrive where they would arrive together.
theorem reaches_of_copies {session : Session} {board : σ} {one other : Nat}
    {middle next : Phase} {leftMiddle left : UInt32} (hmiddle : middle ≠ .Failed)
    (hfirst : Reaches target (session, board)
      ((session.copied one middle leftMiddle).flush target board))
    (hrest : ∀ (now : Session) (after : σ), now.phase = middle → now.bulkLeft = leftMiddle →
      now.received = session.received.drop one → now.pending.length < target.page →
      Reaches target (now, after) ((now.copied other next left).flush target after)) :
    Reaches target (session, board) ((session.copied (one + other) next left).flush target board) := by
  rw [flush_copied_add session one other left leftMiddle hmiddle board]
  by_cases hfailed : ((session.copied one middle leftMiddle).flush target board).1.phase = .Failed
  · simp only [hfailed, if_true]
    exact hfirst
  · simp only [hfailed, if_false]
    refine hfirst.trans ?_
    revert hfailed
    simp only [flush]
    rcases hflush : target.flush (session.copied one middle leftMiddle).pending
      (session.copied one middle leftMiddle).cursor board with ⟨⟨failure | rest, cursor⟩, after⟩
    · intro hfailed
      exact absurd rfl hfailed
    · intro _
      exact hrest _ _ rfl rfl rfl (target.length_lt_of_flush hflush)

end Session

end BoardControl.Bitstream
