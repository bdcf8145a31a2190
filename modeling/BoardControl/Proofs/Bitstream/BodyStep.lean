import BoardControl.Proofs.Bitstream.ParserStep

namespace BoardControl.Bitstream

open Session

-- What a search for the sync word did to `count` bytes of the buffers, and that
-- a session gets as far by its own tokens. A search that moves nothing was over
-- at once.
structure Searched (target : Target) (σ : Type) [Flash σ] [TickCounter σ] (fuel : Nat)
    (received pending : Ring Settings.streamBuffer) (scan : SyncScan) (count : Nat) : Prop where
  moved_iff : scan.moved = true ↔ 0 < count
  found : scan.found = true → 0 < count
  received_eq : scan.received.toList = received.toList.drop count
  pending_eq : scan.pending.toList = pending.toList ++ received.toList.take count
  count_le : count ≤ received.length
  still : count = 0 → scan.received = received ∧ scan.pending = pending ∧
    (fuel = 0 ∨ received.length < syncWord.length ∨ pending.free < syncWord.length)
  reaches : ∀ (session : Session) (board : σ), session.phase = .SyncWait →
    session.received = received.toList → session.pending.length < target.page →
      Reaches target (session, board)
        ((session.copied count (if scan.found then .Packets else .SyncWait)
          session.bulkLeft).flush target board)

section

variable {σ : Type} [Flash σ] [TickCounter σ] {target : Target}

theorem copied_zero {session : Session} (hphase : session.phase = .SyncWait) :
    session.copied 0 .SyncWait session.bulkLeft = session := by
  simp [copied, ← hphase]

theorem Searched.of_still {fuel : Nat} {received pending : Ring Settings.streamBuffer}
    (h : fuel = 0 ∨ received.length < syncWord.length ∨ pending.free < syncWord.length) :
    Searched target σ fuel received pending ⟨false, false, received, pending⟩ 0 :=
  { moved_iff := by simp
    found := by simp
    received_eq := by simp
    pending_eq := by simp
    count_le := Nat.zero_le _
    still := fun _ => ⟨rfl, rfl, h⟩
    reaches := by
      intro session board hphase _ hshort
      simp only [Bool.false_eq_true, if_false, copied_zero hphase, flush_of_short _ hshort]
      exact Relation.ReflTransGen.refl }

theorem scanSync_searched (fuel : Nat) (received pending : Ring Settings.streamBuffer) :
    ∃ scan count, Updater.scanSync fuel received pending = .ok scan ∧
      Searched target σ fuel received pending scan count := by
  have hfour : syncWord.length = 4 := rfl
  induction fuel generalizing received pending with
  | zero => exact ⟨_, 0, rfl, Searched.of_still (Or.inl rfl)⟩
  | succ fuel ih =>
      have hlist := received.length_toList
      have hround := scanSync_round fuel received pending
      generalize Updater.scanSync (fuel + 1) received pending = result at hround ⊢
      cases hround with
      | waits hshort => exact ⟨_, 0, rfl, Searched.of_still (Or.inr hshort)⟩
      | found hlength hroom hsync =>
          refine ⟨_, 4, rfl, by simp, by simp, by rw [Ring.toList_popFront],
            toList_pushBytes_take hroom, hlength, by simp, ?_⟩
          intro session board hphase hreceived _
          have htoken : target.token? session.phase session.bulkLeft session.received =
              some (.Copy 4 .Packets session.bulkLeft) := by
            rw [hphase, hreceived, Target.token?, Target.syncToken?, if_neg (by omega),
              if_pos hsync]
            rfl
          exact reaches_of_token htoken board
      | goesOn hlength hroom hother =>
          have hone : 1 ≤ pending.free := by omega
          obtain ⟨scan, count, hscan, hsearched⟩ :=
            ih (received.popFront 1) (pending.pushBytes (received.toList.take 1))
          have hcount := hsearched.count_le
          rw [Ring.length_popFront] at hcount
          have hpos : 0 < 1 + count := by omega
          refine ⟨{ scan with moved := true }, 1 + count, by rw [hscan]; rfl, by simp [hpos],
            fun _ => hpos, ?_, ?_, by omega, by omega, ?_⟩
          · simp only [hsearched.received_eq, Ring.toList_popFront, List.drop_drop]
          · simp only [hsearched.pending_eq, toList_pushBytes_take hone, Ring.toList_popFront,
              List.append_assoc, List.take_add]
          · intro session board hphase hreceived hshort
            have htoken : target.token? session.phase session.bulkLeft session.received =
                some (.Copy 1 .SyncWait session.bulkLeft) := by
              rw [hphase, hreceived, Target.token?, Target.syncToken?, if_neg (by omega),
                if_neg hother]
            refine reaches_of_copies (by decide) (reaches_of_token htoken board) ?_
            intro now after hnow hleft hrest hpending
            rw [hreceived, ← Ring.toList_popFront] at hrest
            have hreach := hsearched.reaches now after hnow hrest hpending
            rwa [hleft] at hreach

-- Words of a bulk payload are tokens one by one.
theorem reaches_of_words (count : Nat) {session : Session} (board : σ)
    (hphase : session.phase = .Bulk) (hbulk : session.bulkLeft ≠ 0)
    (hcount : count ≤ session.bulkLeft.toNat) (hlength : 4 * count ≤ session.received.length)
    (hshort : session.pending.length < target.page) :
    Reaches target (session, board)
      ((session.copied (4 * count)
        (if session.bulkLeft - count.toUInt32 = 0 then .Packets else .Bulk)
        (session.bulkLeft - count.toUInt32)).flush target board) := by
  induction count generalizing session board with
  | zero =>
      have hleft : session.bulkLeft - Nat.toUInt32 0 = session.bulkLeft := by simp
      have hsame : session.copied 0 .Bulk session.bulkLeft = session := by
        simp [copied, ← hphase]
      rw [hleft, if_neg hbulk, Nat.mul_zero, hsame, flush_of_short _ hshort]
      exact Relation.ReflTransGen.refl
  | succ count ih =>
      have htoken : target.token? session.phase session.bulkLeft session.received =
          some (.Copy 4 (if session.bulkLeft = 1 then .Packets else .Bulk)
            (session.bulkLeft - 1)) := by
        rw [hphase, Target.token?, Target.bulkToken?, if_neg (by simp only [hbulk, or_false]; omega)]
      have hleft : session.bulkLeft - (count + 1).toUInt32 =
          session.bulkLeft - 1 - count.toUInt32 := by
        change session.bulkLeft - UInt32.ofNat (count + 1) = _ - UInt32.ofNat count
        rw [UInt32.ofNat_add]
        grind
      by_cases hone : session.bulkLeft = 1
      · have hzero : count = 0 := by
          rw [hone] at hcount
          exact Nat.le_zero.mp (Nat.le_of_succ_le_succ hcount)
        subst hzero
        rw [if_pos hone] at htoken
        rw [if_pos (by rw [hleft, hone]; rfl), hleft]
        have hreach := reaches_of_token htoken board
        simpa [take] using hreach
      · rw [if_neg hone] at htoken
        have hnext : session.bulkLeft - 1 ≠ 0 := by
          intro hzero
          apply hone
          rw [← UInt32.sub_add_cancel session.bulkLeft 1, hzero]
          rfl
        have htoNat : (session.bulkLeft - 1).toNat = session.bulkLeft.toNat - 1 := by
          have hword : (1 : UInt32).toNat = 1 := rfl
          rw [UInt32.toNat_sub_of_le _ _ (UInt32.le_iff_toNat_le.mpr (by omega)), hword]
        rw [hleft, show 4 * (count + 1) = 4 + 4 * count by omega]
        refine reaches_of_copies (by decide) (reaches_of_token htoken board) ?_
        intro now after hnow hleft hrest hpending
        have hreach := ih after hnow (by rw [hleft]; exact hnext)
          (by rw [hleft, htoNat]; omega)
          (by rw [hrest, List.length_drop]; omega) hpending
        rwa [hleft] at hreach

end

section

variable {σ μ : Type} [Flash σ] [TickCounter σ] [Logger μ] {target : Target} {updater : Updater}
  {session : Session}

omit [Flash σ] [TickCounter σ] in
-- Beside a page that is not yet full there is room for every token.
theorem Follows.lt_free (h : Follows target updater session) (hsound : Sound target session)
    (hlive : session.phase ≠ .Failed) :
    Settings.streamBuffer - target.page < updater.writer.pending.free := by
  have hbuffer : Settings.streamBuffer = 4096 := rfl
  have hpage : target.page ≤ 512 := target.page_le
  have hpending := hsound.pending_lt
  rw [← h.pending hlive, Ring.length_toList] at hpending
  rw [Ring.free]
  omega

omit [Logger μ] in
-- A step that copied bytes of the body.
theorem Stepped.of_copied {received pending : Ring Settings.streamBuffer} {count : Nat}
    {next : Phase} {left : UInt32} {board : σ} (h : Follows target updater session)
    (hphase : session.phase.isTerminal = false) (hpos : 0 < count)
    (hcount : count ≤ updater.received.length)
    (hreceived : received.toList = updater.received.toList.drop count)
    (hpending : pending.toList =
      updater.writer.pending.toList ++ updater.received.toList.take count)
    (hnext : next ≠ .Failed)
    (hreach : Reaches target (session, board) ((session.copied count next left).flush target board)) :
    Stepped target updater session board
      (.ok (true, { updater.withBuffers received pending with phase := next, bulkLeft := left }))
      board := by
  refine ⟨?_, session.copied count next left, h.copied hphase hreceived hpending next left, hnext,
    hreach⟩
  have hlength : received.length = updater.received.length - count := by
    rw [← Ring.length_toList, hreceived, List.length_drop, Ring.length_toList]
  simp only [Updater.withBuffers]
  omega

theorem waitForSync_ends (h : Follows target updater session) (hsound : Sound target session)
    (hphase : session.phase = .SyncWait) (logged : Logged σ μ) :
    Run.Ends updater.waitForSync logged fun result after =>
      Stepped target updater session logged.board (.ok result) after.board := by
  have hbuffer : Settings.streamBuffer = 4096 := rfl
  have hsync : syncWord.length = 4 := rfl
  have hpage : target.page ≤ 512 := target.page_le
  have hterminal : session.phase.isTerminal = false := by rw [hphase]; rfl
  have hlive := (Phase.ne_of_not_terminal hterminal).1
  have hreceived := h.received_eq hterminal
  have hroom := h.lt_free hsound hlive
  obtain ⟨scan, count, hscan, hsearched⟩ :
      ∃ scan count, Updater.scanSync _ updater.received updater.writer.pending = .ok scan ∧
        Searched target σ _ updater.received updater.writer.pending scan count :=
    scanSync_searched updater.received.length updater.received updater.writer.pending
  have hreach := hsearched.reaches session logged.board hphase hreceived.symm hsound.pending_lt
  simp only [Updater.waitForSync, hscan, Run.ends_bind, Run.ends_ok]
  by_cases hfound : scan.found
  · rw [if_pos hfound] at hreach ⊢
    rw [← h.bulkLeft hlive] at hreach
    simp only [Run.ends_bind, Run.ends_perform, Run.ends_pure, Logged.board_log]
    exact Stepped.of_copied h hterminal (hsearched.found hfound) hsearched.count_le
      hsearched.received_eq hsearched.pending_eq (by decide) hreach
  · rw [if_neg hfound] at hreach ⊢
    rw [Run.ends_pure]
    by_cases hmoved : scan.moved
    · have hstepped := Stepped.of_copied h hterminal (hsearched.moved_iff.mp hmoved)
        hsearched.count_le hsearched.received_eq hsearched.pending_eq (by decide) hreach
      rw [hmoved]
      rwa [← hphase, ← h.phase, ← h.bulkLeft hlive] at hstepped
    · have hzero : count = 0 := by
        have hnone := mt hsearched.moved_iff.mpr hmoved
        omega
      obtain ⟨hsame, hkept, hgate⟩ := hsearched.still hzero
      rw [Bool.not_eq_true] at hmoved
      rw [hmoved, hsame, hkept]
      refine ⟨rfl, rfl, ?_⟩
      have hshort : session.received.length < syncWord.length := by
        rw [← hreceived, Ring.length_toList]
        omega
      rw [hphase, Target.token?, Target.syncToken?, if_pos hshort]

omit [Flash σ] [TickCounter σ] in
theorem useType1_ends (opcode : Opcode) (register words : UInt16) (payload : List UInt8)
    (logged : Logged σ μ) :
    Run.Ends (Updater.useType1 opcode register words payload) logged fun last after =>
      after.board = logged.board ∧
        (last = true ↔ (PacketHeader.Type1 opcode register words).EndsStream payload) := by
  simp only [Updater.useType1, PacketHeader.EndsStream, PacketHeader.Type1.injEq]
  by_cases hcommand : register = commandRegister ∧ words = 1
  · simp [hcommand]
  · have hnever : ¬ ((opcode = .Write ∧ register = commandRegister ∧ words = 1) ∧
        (frontWord? payload).getD 0 &&& 0x1f = desyncCommand) := fun h => hcommand h.1.2
    rw [if_neg hcommand]
    split
    · simp [hnever]
    · simp [hnever]

theorem readType1_ends (h : Follows target updater session) (hsound : Sound target session)
    (hphase : session.phase = .Packets) {opcode : Opcode} {register words : UInt16}
    (htoken : target.token? session.phase session.bulkLeft session.received =
      target.type1Token? session.bulkLeft (.Type1 opcode register words) words session.received)
    (logged : Logged σ μ) :
    Run.Ends (updater.readType1 target.page opcode register words) logged fun result after =>
      Stepped target updater session logged.board result after.board := by
  have hterminal : session.phase.isTerminal = false := by rw [hphase]; rfl
  have hlive := (Phase.ne_of_not_terminal hterminal).1
  have hreceived := h.received_eq hterminal
  have hroom := h.lt_free hsound hlive
  rw [Target.type1Token?, ← hreceived, Ring.length_toList] at htoken
  simp only [Updater.readType1, Ring.front_eq_take]
  by_cases hlarge : Settings.streamBuffer - target.page < 4 * (words.toNat + 1)
  · rw [if_pos hlarge, hreceived] at htoken
    simp only [if_pos hlarge, Run.ends_bind, Run.ends_perform, Run.ends_pure, Logged.board_log]
    exact Stepped.of_refuse htoken _
  · rw [if_neg hlarge] at htoken
    rw [if_neg hlarge]
    by_cases hshort : updater.received.length < 4 * (words.toNat + 1)
    · rw [if_pos hshort, hreceived] at htoken
      rw [if_pos (Or.inl hshort), Run.ends_pure]
      exact ⟨rfl, rfl, htoken⟩
    · have hfree : 4 * (words.toNat + 1) ≤ updater.writer.pending.free := by omega
      have hcount : 4 * (words.toNat + 1) ≤ updater.received.length := Nat.le_of_not_lt hshort
      rw [if_neg hshort] at htoken
      rw [if_neg (not_or.mpr ⟨hshort, by omega⟩), Run.ends_bind]
      apply (useType1_ends opcode register words _ logged).mono
      intro last after hends
      obtain ⟨hboard, hlast⟩ := hends
      simp only [moveBytes_eq_ok hcount hfree, Run.ends_bind, Run.ends_ok]
      simp only [← hlast] at htoken
      rw [hreceived] at htoken
      by_cases hdone : last = true
      · rw [if_pos hdone] at htoken
        have hreach := reaches_of_token htoken logged.board
        rw [← h.bulkLeft hlive] at hreach
        simp only [if_pos hdone, Run.ends_bind, Run.ends_perform, Run.ends_pure,
          Logged.board_log, hboard]
        exact Stepped.of_copied h hterminal (by omega) hcount (Ring.toList_popFront _ _)
          (toList_pushBytes_take hfree) (by decide) hreach
      · rw [if_neg hdone] at htoken
        have hreach := reaches_of_token htoken logged.board
        rw [← h.bulkLeft hlive] at hreach
        rw [if_neg hdone, Run.ends_pure, hboard]
        have hstepped := Stepped.of_copied h hterminal (by omega) hcount (Ring.toList_popFront _ _)
          (toList_pushBytes_take hfree) (by decide) hreach
        rwa [← hphase, ← h.phase] at hstepped

theorem readType2_ends (h : Follows target updater session) (hsound : Sound target session)
    (hphase : session.phase = .Packets) {opcode : Opcode} {words : UInt32}
    (hcount : 4 ≤ updater.received.length)
    (htoken : target.token? session.phase session.bulkLeft session.received =
      some (.Copy 4 (if 0 < words then .Bulk else .Packets) words))
    (logged : Logged σ μ) :
    Run.Ends (updater.readType2 opcode words) logged fun result after =>
      Stepped target updater session logged.board result after.board := by
  have hbuffer : Settings.streamBuffer = 4096 := rfl
  have hpage : target.page ≤ 512 := target.page_le
  have hterminal : session.phase.isTerminal = false := by rw [hphase]; rfl
  have hroom := h.lt_free hsound (Phase.ne_of_not_terminal hterminal).1
  have hfree : 4 ≤ updater.writer.pending.free := by omega
  have hreach := reaches_of_token htoken logged.board
  simp only [Updater.readType2, if_neg (Nat.not_lt.mpr hfree), Run.ends_bind, Run.ends_perform,
    moveBytes_eq_ok hcount hfree, Run.ends_ok, Run.ends_pure, Logged.board_log]
  by_cases hwords : 0 < words
  · rw [if_pos hwords] at hreach ⊢
    exact Stepped.of_copied h hterminal (by decide) hcount (Ring.toList_popFront _ _)
      (toList_pushBytes_take hfree) (by decide) hreach
  · rw [if_neg hwords] at hreach ⊢
    have hstepped := Stepped.of_copied h hterminal (by decide) hcount (Ring.toList_popFront _ _)
      (toList_pushBytes_take hfree) (by decide) hreach
    rwa [← hphase, ← h.phase] at hstepped

theorem readPacket_ends (hsuits : target.Suits σ) (h : Follows target updater session)
    (hsound : Sound target session) (hphase : session.phase = .Packets) (logged : Logged σ μ) :
    Run.Ends updater.readPacket logged fun result after =>
      Stepped target updater session logged.board result after.board := by
  have hterminal : session.phase.isTerminal = false := by rw [hphase]; rfl
  have hreceived := h.received_eq hterminal
  have htoken : target.token? session.phase session.bulkLeft session.received =
      target.packetToken? session.bulkLeft session.received := by
    rw [hphase]
    rfl
  simp only [Updater.readPacket, Run.ends_bind, Run.ends_perform,
    pageSize_apply target hsuits logged, Ring.front_eq_take, hreceived]
  rcases hbytes : session.received with _ | ⟨a, _ | ⟨b, _ | ⟨c, _ | ⟨d, rest⟩⟩⟩⟩
  · exact Run.ends_of_eq rfl ⟨rfl, rfl, htoken.trans (by rw [hbytes]; rfl)⟩
  · exact Run.ends_of_eq rfl ⟨rfl, rfl, htoken.trans (by rw [hbytes]; rfl)⟩
  · exact Run.ends_of_eq rfl ⟨rfl, rfl, htoken.trans (by rw [hbytes]; rfl)⟩
  · exact Run.ends_of_eq rfl ⟨rfl, rfl, htoken.trans (by rw [hbytes]; rfl)⟩
  · rw [hbytes] at htoken
    simp only [Target.packetToken?, PacketHeader.ofBytes?, frontWord?, Option.map_some] at htoken
    simp only [List.take_succ_cons, List.take_zero, frontWord?]
    cases hdecode : PacketHeader.decode (beWord a b c d) with
    | Type1 opcode register words =>
        rw [hdecode, ← hbytes] at htoken
        exact readType1_ends h hsound hphase htoken logged
    | Type2 opcode words =>
        rw [hdecode, ← hbytes] at htoken
        have hlength : 4 ≤ updater.received.length := by
          rw [← Ring.length_toList, hreceived, hbytes]
          simp
        exact readType2_ends h hsound hphase hlength htoken logged
    | Unknown kind =>
        rw [hdecode, ← hbytes] at htoken
        simp only [Run.ends_bind, Run.ends_perform, Run.ends_pure, Logged.board_log]
        exact Stepped.of_refuse htoken _

theorem moveBulk_ends (h : Follows target updater session) (hsound : Sound target session)
    (hphase : session.phase = .Bulk) (logged : Logged σ μ) :
    Run.Ends updater.moveBulk logged fun result after =>
      Stepped target updater session logged.board (.ok result) after.board := by
  have hbuffer : Settings.streamBuffer = 4096 := rfl
  have hpage : target.page ≤ 512 := target.page_le
  have hterminal : session.phase.isTerminal = false := by rw [hphase]; rfl
  have hlive := (Phase.ne_of_not_terminal hterminal).1
  have hreceived := h.received_eq hterminal
  have hroom := h.lt_free hsound hlive
  have hbulk := hsound.bulk hphase
  have hpos : session.bulkLeft.toNat ≠ 0 := fun hzero => hbulk (UInt32.toNat_inj.mp hzero)
  simp only [Updater.moveBulk, h.bulkLeft hlive]
  generalize hwords : min (min (updater.received.length / 4) session.bulkLeft.toNat)
    (updater.writer.pending.free / 4) = words
  by_cases hzero : words = 0
  · rw [if_pos hzero, Run.ends_pure]
    refine ⟨rfl, rfl, ?_⟩
    have hshort : session.received.length < 4 := by
      rw [← hreceived, Ring.length_toList]
      omega
    rw [hphase, Target.token?, Target.bulkToken?, if_pos (Or.inl hshort)]
  · have hcount : words * 4 ≤ updater.received.length := by omega
    have hfree : words * 4 ≤ updater.writer.pending.free := by omega
    have hleft : words ≤ session.bulkLeft.toNat := by omega
    have hword := toNat_toUInt32 (Nat.lt_of_le_of_lt hleft session.bulkLeft.toNat_lt_size)
    have hsub := Word.sub_eq_ok (a := session.bulkLeft) (b := words.toUInt32) (by omega)
    have hreach := reaches_of_words words logged.board hphase hbulk hleft
      (by rw [← hreceived, Ring.length_toList]; omega) hsound.pending_lt
    rw [Nat.mul_comm] at hreach
    have hpop := Ring.toList_popFront updater.received (words * 4)
    simp only [if_neg hzero, moveBytes_eq_ok hcount hfree, Run.ends_bind, Run.ends_ok,
      Updater.withBuffers, h.bulkLeft hlive, hsub]
    by_cases hlast : session.bulkLeft - words.toUInt32 = 0
    · rw [if_pos hlast] at hreach
      simp only [if_pos hlast, Run.ends_bind, Run.ends_perform, Run.ends_pure, Logged.board_log]
      exact Stepped.of_copied h hterminal (by omega) hcount hpop (toList_pushBytes_take hfree)
        (by decide) hreach
    · rw [if_neg hlast] at hreach
      rw [if_neg hlast, Run.ends_pure]
      have hstepped := Stepped.of_copied h hterminal (by omega) hcount hpop (toList_pushBytes_take hfree)
        (by decide) hreach
      rwa [← hphase, ← h.phase] at hstepped

-- Every step deals with tokens of the session.
theorem step_ends (hsuits : target.Suits σ) (h : Follows target updater session)
    (hsound : Sound target session) (hphase : session.phase.isTerminal = false)
    (logged : Logged σ μ) :
    Run.Ends updater.step logged fun result after =>
      Stepped target updater session logged.board result after.board := by
  rw [Updater.step, h.phase]
  cases hnow : session.phase with
  | Magic => exact readMagic_ends h hsound hnow logged
  | Records => exact readRecord_ends h hsound hnow logged
  | SyncWait =>
      simp only [Run.ends_bind, Run.ends_pure]
      exact waitForSync_ends h hsound hnow logged
  | Packets => exact readPacket_ends hsuits h hsound hnow logged
  | Bulk =>
      simp only [Run.ends_bind, Run.ends_pure]
      exact moveBulk_ends h hsound hnow logged
  | Done => rw [hnow] at hphase; cases hphase
  | Failed => rw [hnow] at hphase; cases hphase

end

end BoardControl.Bitstream
