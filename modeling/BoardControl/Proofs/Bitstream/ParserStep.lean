import BoardControl.Proofs.Bitstream.Simulation

namespace BoardControl.Bitstream

open Session

-- What one step of an updater has to do with the tokens of its session. A refused
-- step fails the session. A step without progress finds no complete token. Progress
-- is one token or several of them, whose full pages are still to be programmed.
def Stepped {σ : Type} [Flash σ] [TickCounter σ] (target : Target) (updater : Updater)
    (session : Session) (board : σ) (result : Except UpdateError (Bool × Updater)) (after : σ) :
    Prop :=
  match result with
  | .error failure => Reaches target (session, board) (failed failure session.cursor, after)
  | .ok (false, next) =>
      next = updater ∧ after = board ∧
        target.token? session.phase session.bulkLeft session.received = none
  | .ok (true, next) =>
      next.received.length < updater.received.length ∧ ∃ loaded,
        Follows target next loaded ∧ loaded.phase ≠ .Failed ∧
          Reaches target (session, board) (loaded.flush target after)

section

variable {σ : Type} [Flash σ] [TickCounter σ] {target : Target} {updater : Updater}
  {session : Session}

theorem Stepped.of_refuse {failure : UpdateError}
    (htoken : target.token? session.phase session.bulkLeft session.received =
      some (.Refuse failure)) (board : σ) :
    Stepped target updater session board (.error failure) board :=
  reaches_of_token htoken board

-- A part of the header is dropped from the receive buffer.
theorem Stepped.of_skip {count : Nat} (h : Follows target updater session)
    (hphase : session.phase.isTerminal = false) (hsound : Sound target session)
    (hcount : 0 < count)
    (htoken : target.token? session.phase session.bulkLeft session.received =
      some (.Skip count)) (board : σ) :
    Stepped target updater session board
      (.ok (true, { updater with received := updater.received.popFront count, phase := .Records }))
      board := by
  have hlive := (Phase.ne_of_not_terminal hphase).1
  have hreceived := h.received_eq hphase
  have hlength := Target.token?_length_le htoken
  rw [← hreceived, Ring.length_toList, Token.length] at hlength
  refine ⟨?_, session.skipped count .Records, ?_, by simp [skipped], ?_⟩
  · simp only [Ring.length_popFront]
    omega
  · refine Follows.of_buffers h.partition h.device rfl h.lastError h.cursor (h.bulkLeft hlive)
      (h.pending hlive) ?_
    simp only [Ring.toList_popFront, hreceived, skipped]
  · rw [flush_of_short (session.skipped count .Records) hsound.pending_lt]
    exact reaches_of_token htoken board

-- A session without a token stays where it is, and a step that follows it does
-- nothing.
theorem Stepped.eq_of_none {board after : σ}
    {result : Except UpdateError (Bool × Updater)} (hfollows : Follows target updater session)
    (hphase : session.phase.isTerminal = false) (hnone : advance? target (session, board) = none)
    (h : Stepped target updater session board result after) :
    result = .ok (false, updater) ∧ after = board := by
  cases result with
  | error failure =>
      have hsame : session = failed failure session.cursor :=
        congrArg Prod.fst (Reaches.eq_of_none h hnone)
      rw [hsame] at hphase
      cases hphase
  | ok answer =>
      obtain ⟨progress, next⟩ := answer
      cases progress with
      | false =>
          obtain ⟨rfl, rfl, _⟩ := h
          exact ⟨rfl, rfl⟩
      | true =>
          obtain ⟨hshorter, loaded, hloaded, _, hreach⟩ := h
          have hsame : session = (loaded.flush target after).1 :=
            congrArg Prod.fst (Reaches.eq_of_none hreach hnone)
          rw [flush] at hsame
          rcases hflush : target.flush loaded.pending loaded.cursor after with
            ⟨⟨failure | rest, cursor⟩, left⟩
          · rw [hflush] at hsame
            rw [hsame] at hphase
            cases hphase
          · rw [hflush] at hsame
            -- Only bytes that wait were programmed, so as many are received as before.
            have hgoes : loaded.phase.isTerminal = false := by
              rw [hsame] at hphase
              exact hphase
            have hreceived : session.received = loaded.received := by
              rw [hsame]
              rfl
            rw [← hfollows.received_eq hphase, ← hloaded.received_eq hgoes] at hreceived
            have hlength := congrArg List.length hreceived
            rw [Ring.length_toList, Ring.length_toList] at hlength
            omega

end

section

variable {σ μ : Type} [Flash σ] [TickCounter σ] [Logger μ] {target : Target} {updater : Updater}
  {session : Session}

theorem readMagic_ends (h : Follows target updater session) (hsound : Sound target session)
    (hphase : session.phase = .Magic) (logged : Logged σ μ) :
    Run.Ends updater.readMagic logged fun result after =>
      Stepped target updater session logged.board result after.board := by
  have hreceived := h.received_eq (by rw [hphase]; rfl)
  have htoken : target.token? session.phase session.bulkLeft session.received =
      Target.magicToken? session.received := by
    rw [hphase]
    rfl
  rw [Target.magicToken?, ← hreceived, Ring.length_toList] at htoken
  simp only [Updater.readMagic, Ring.front_eq_take]
  by_cases hshort : updater.received.length < fileMagic.length
  · rw [if_pos hshort] at htoken
    rw [if_pos hshort, Run.ends_pure]
    exact ⟨rfl, rfl, by rwa [← hreceived]⟩
  · rw [if_neg hshort] at htoken
    rw [if_neg hshort]
    by_cases hmagic : updater.received.toList.take fileMagic.length = fileMagic
    · rw [if_pos hmagic] at htoken
      rw [if_pos hmagic, Run.ends_pure]
      rw [hreceived] at htoken
      exact Stepped.of_skip h (by rw [hphase]; rfl) hsound (by decide) htoken _
    · rw [if_neg hmagic] at htoken
      rw [hreceived] at htoken
      simp only [if_neg hmagic, Run.ends_bind, Run.ends_perform, Run.ends_pure, Logged.board_log]
      exact Stepped.of_refuse htoken _

-- Bytes are code points of their own letters.
theorem ofNat_byte_eq_iff (kind : UInt8) (letter : Char) :
    Char.ofNat kind.toNat = letter ↔ kind.toNat = letter.toNat := by
  have hkind : (Char.ofNat kind.toNat).toNat = kind.toNat := by
    have hbyte := kind.toNat_lt
    have hvalid : kind.toNat.isValidChar := Or.inl (by omega)
    rw [Char.ofNat, dif_pos hvalid]
    rfl
  constructor
  · rintro rfl
    exact hkind.symm
  · intro h
    rw [h, Char.ofNat_toNat]

theorem eq_deviceRecord_iff (kind : UInt8) : kind = deviceRecord ↔ Char.ofNat kind.toNat = 'b' := by
  rw [ofNat_byte_eq_iff, ← UInt8.toNat_inj]
  rfl

omit [Flash σ] [TickCounter σ] in
theorem useRecord_ends (updater : Updater) (kind : UInt8) (text : String)
    (logged : Logged σ μ) :
    Run.Ends (updater.useRecord kind text) logged fun result after =>
      after.board = logged.board ∧ result =
        if kind = deviceRecord ∧ text ≠ updater.device then .error .WrongDevice else .ok () := by
  simp only [Updater.useRecord, eq_deviceRecord_iff]
  split
  · rename_i hletter
    simp [hletter]
  · rename_i hletter
    by_cases htext : text = updater.device
    · simp [htext]
    · simp [htext, hletter]
  · rename_i hletter
    simp [hletter]
  · rename_i hletter
    simp [hletter]
  · rename_i hletter _ _
    have hother : Char.ofNat kind.toNat ≠ 'b' := hletter
    simp [hother]

theorem readLength_ends (h : Follows target updater session) (hsound : Sound target session)
    (hphase : session.phase = .Records) {kind : UInt8} {rest : List UInt8}
    (hbytes : session.received = kind :: rest) (hkind : kind = bitstreamRecord)
    (logged : Logged σ μ) :
    Run.Ends updater.readLength logged fun result after =>
      Stepped target updater session logged.board result after.board := by
  have hreceived := h.received_eq (by rw [hphase]; rfl)
  have htoken : target.token? session.phase session.bulkLeft session.received =
      target.lengthToken? (kind :: rest) := by
    simp only [hphase, hbytes, Target.token?, Target.recordToken?, if_pos hkind]
  simp only [Updater.readLength, Ring.front_eq_take, hreceived, hbytes]
  rcases rest with _ | ⟨a, _ | ⟨b, _ | ⟨c, _ | ⟨d, rest⟩⟩⟩⟩
  · exact Run.ends_of_eq rfl ⟨rfl, rfl, htoken⟩
  · exact Run.ends_of_eq rfl ⟨rfl, rfl, htoken⟩
  · exact Run.ends_of_eq rfl ⟨rfl, rfl, htoken⟩
  · exact Run.ends_of_eq rfl ⟨rfl, rfl, htoken⟩
  · simp only [Target.lengthToken?] at htoken
    simp only [List.take_succ_cons, List.take_zero, Run.ends_bind, Run.ends_perform, h.partition]
    by_cases hlarge : target.partition.size < beWord a b c d
    · rw [if_pos hlarge] at htoken
      simp only [if_pos hlarge, Run.ends_bind, Run.ends_perform, Run.ends_pure,
        Logged.board_log]
      exact Stepped.of_refuse htoken _
    · rw [if_neg hlarge] at htoken
      simp only [if_neg hlarge, Run.ends_bind]
      apply (target.partition.erase_ends target.fits _).mono
      rintro result after ⟨hboard, rfl⟩
      rw [Logged.board_log] at hboard ⊢
      have hreach := reaches_of_token htoken logged.board
      simp only [take, ← hboard] at hreach
      cases hprepared : (target.partition.prepare logged.board).1 with
      | some failure =>
          rw [hprepared] at hreach
          exact Run.ends_of_eq rfl hreach
      | none =>
          rw [hprepared] at hreach
          have hlength : updater.received.length = rest.length + 5 := by
            rw [← Ring.length_toList, hreceived, hbytes]
            rfl
          refine Run.ends_of_eq rfl ⟨?_, session.skipped 5 .SyncWait, ?_,
            by simp [skipped], ?_⟩
          · simp only [Ring.length_popFront]
            omega
          · have hlive : session.phase ≠ .Failed := by simp [hphase]
            refine Follows.of_buffers h.partition h.device rfl h.lastError h.cursor
              (h.bulkLeft hlive) (h.pending hlive) ?_
            simp only [Ring.toList_popFront, hreceived, skipped]
          · rw [flush_of_short (session.skipped 5 .SyncWait) hsound.pending_lt]
            exact hreach

theorem readText_ends (h : Follows target updater session) (hsound : Sound target session)
    (hphase : session.phase = .Records) {kind : UInt8} {rest : List UInt8}
    (hbytes : session.received = kind :: rest) (hkind : kind ≠ bitstreamRecord)
    (logged : Logged σ μ) :
    Run.Ends updater.readText logged fun result after =>
      Stepped target updater session logged.board result after.board := by
  have hreceived := h.received_eq (by rw [hphase]; rfl)
  have htoken : target.token? session.phase session.bulkLeft session.received =
      target.textToken? (kind :: rest) := by
    simp only [hphase, hbytes, Target.token?, Target.recordToken?, if_neg hkind]
  simp only [Updater.readText, Ring.front_eq_take, hreceived, hbytes]
  rcases rest with _ | ⟨high, _ | ⟨low, rest⟩⟩
  · exact Run.ends_of_eq rfl ⟨rfl, rfl, htoken⟩
  · exact Run.ends_of_eq rfl ⟨rfl, rfl, htoken⟩
  · have hlength : updater.received.length = rest.length + 3 := by
      rw [← Ring.length_toList, hreceived, hbytes]
      rfl
    simp only [Target.textToken?] at htoken
    simp only [List.take_succ_cons, List.take_zero]
    by_cases hlarge : Settings.streamBuffer < 3 + (256 * high.toNat + low.toNat)
    · rw [if_pos hlarge] at htoken
      simp only [if_pos hlarge, Run.ends_bind, Run.ends_perform, Run.ends_pure,
        Logged.board_log]
      exact Stepped.of_refuse htoken _
    · rw [if_neg hlarge] at htoken
      rw [if_neg hlarge]
      by_cases hshort : rest.length < 256 * high.toNat + low.toNat
      · rw [if_pos hshort] at htoken
        rw [if_pos (by omega), Run.ends_pure]
        exact ⟨rfl, rfl, htoken⟩
      · rw [if_neg hshort] at htoken
        have htake : (kind :: high :: low :: rest).take
            (3 + (256 * high.toNat + low.toNat)) =
              kind :: high :: low :: rest.take (256 * high.toNat + low.toNat) := by
          rw [Nat.add_comm]
          rfl
        rw [if_neg (by omega), htake, Run.ends_bind]
        apply (useRecord_ends updater kind _ logged).mono
        rintro result after ⟨hboard, rfl⟩
        simp only [List.drop_succ_cons, List.drop_zero]
        rw [← h.device, recordText] at htoken
        split at htoken
        · rename_i hwrong
          rw [if_pos hwrong]
          refine Run.ends_of_eq rfl ?_
          rw [hboard]
          exact Stepped.of_refuse htoken _
        · rename_i hright
          rw [if_neg hright]
          refine Run.ends_of_eq rfl ?_
          have hstepped := Stepped.of_skip h (by rw [hphase]; rfl) hsound
            (by omega) htoken logged.board
          rw [hboard]
          rwa [← hphase, ← h.phase] at hstepped

theorem readRecord_ends (h : Follows target updater session) (hsound : Sound target session)
    (hphase : session.phase = .Records) (logged : Logged σ μ) :
    Run.Ends updater.readRecord logged fun result after =>
      Stepped target updater session logged.board result after.board := by
  have hreceived := h.received_eq (by rw [hphase]; rfl)
  simp only [Updater.readRecord, Ring.front_eq_take, hreceived]
  cases hbytes : session.received with
  | nil =>
      refine Run.ends_of_eq rfl ⟨rfl, rfl, ?_⟩
      simp only [hphase, hbytes, Target.token?, Target.recordToken?]
  | cons kind rest =>
      simp only [List.take_succ_cons, List.take_zero]
      by_cases hkind : kind = bitstreamRecord
      · rw [if_pos hkind]
        exact readLength_ends h hsound hphase hbytes hkind logged
      · rw [if_neg hkind]
        exact readText_ends h hsound hphase hbytes hkind logged

end

end BoardControl.Bitstream
