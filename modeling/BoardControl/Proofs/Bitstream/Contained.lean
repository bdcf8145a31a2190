import BoardControl.Proofs.Bitstream.Delivery
import BoardControl.Proofs.Bitstream.FlashPhases

namespace BoardControl.Bitstream

open Session

-- Calls whose bytes fit the buffers that hold them. A blank check reads at most a
-- block of its own size. A page fits the readback buffer, and as many bytes of it
-- are read back as were written.
inductive Sized : List FlashCall → Prop
  | done : Sized []
  | erase {addr : UInt32} {ok : Bool} {rest : List FlashCall} (hrest : Sized rest) :
      Sized (.Erase addr ok :: rest)
  | check {addr : UInt32} {data : List UInt8} {rest : List FlashCall}
      (hlength : data.length ≤ Settings.blankCheckBlock) (hrest : Sized rest) :
      Sized (.Read addr data :: rest)
  | refused {addr : UInt32} {data : List UInt8} {rest : List FlashCall}
      (hlength : data.length ≤ Settings.maxPage) (hrest : Sized rest) :
      Sized (.Write addr data false :: rest)
  | page {addr : UInt32} {data back : List UInt8} {rest : List FlashCall}
      (hlength : data.length ≤ Settings.maxPage) (hback : back.length = data.length)
      (hrest : Sized rest) : Sized (.Write addr data true :: .Read addr back :: rest)

theorem Sized.append {one other : List FlashCall} (hone : Sized one) (hother : Sized other) :
    Sized (one ++ other) := by
  induction hone with
  | done => exact hother
  | erase _ ih => exact .erase ih
  | check hlength _ ih => exact .check hlength ih
  | refused hlength _ ih => exact .refused hlength ih
  | page hlength hback _ ih => exact .page hlength hback ih

-- The calls between two boards are sized, and what went wrong, if anything did, is
-- not that the receive buffer was full.
structure Contained {φ : Type} (board : Watched φ) (failure : Option UpdateError)
    (after : Watched φ) : Prop where
  sized : Made Sized board after
  failure : failure ≠ some .RxOverflow

namespace Contained

variable {φ : Type} {board middle after : Watched φ} {failure : Option UpdateError}

theorem refl (board : Watched φ) (hfailure : failure ≠ some .RxOverflow) :
    Contained board failure board :=
  ⟨.none .done, hfailure⟩

theorem trans (hfirst : Made Sized board middle) (h : Contained middle failure after) :
    Contained board failure after :=
  ⟨hfirst.append h.sized fun _ _ => Sized.append, h.failure⟩

end Contained

section

variable {φ : Type} [Flash φ] {target : Target}

-- The plain actions on the flash.

theorem erase_sized (addr : UInt32) (board : Watched φ) :
    Made Sized board (Flash.erase addr board).2 :=
  ⟨_, rfl, .erase .done⟩

theorem read_sized (addr : UInt32) {count : Nat} (hcount : count ≤ Settings.blankCheckBlock)
    (board : Watched φ) : Made Sized board (Flash.read addr count board).2 :=
  ⟨_, rfl, .check (by rwa [Vector.length_toList]) .done⟩

namespace Partition

theorem wipe_contained (sector : UInt32) (count : Nat) (addr : UInt32) (board : Watched φ) :
    Contained board (wipe sector count addr board).1 (wipe sector count addr board).2 := by
  induction count generalizing addr board with
  | zero => exact .refl board (by rintro ⟨⟩)
  | succ count ih =>
      rw [wipe]
      split
      · exact .trans (erase_sized addr board) (ih _ _)
      · exact ⟨erase_sized addr board, by rintro ⟨⟩⟩

theorem inspect_contained (partition : Partition) (count : Nat) (addr : UInt32)
    (board : Watched φ) :
    Contained board (partition.inspect count addr board).1
      (partition.inspect count addr board).2 := by
  induction count generalizing addr board with
  | zero => exact .refl board (by rintro ⟨⟩)
  | succ count ih =>
      have hread := read_sized addr (Nat.min_le_left Settings.blankCheckBlock
        (partition.stop.toNat - addr.toNat)) board
      simp only [inspect]
      split
      · exact ⟨hread, by rintro ⟨⟩⟩
      · exact .trans hread (ih _ _)

theorem prepare_contained [TickCounter φ] (partition : Partition) (board : Watched φ) :
    Contained board (partition.prepare board).1 (partition.prepare board).2 := by
  simp only [prepare]
  generalize hsector : Flash.sectorSize board = sector
  split
  · exact .refl board (by rintro ⟨⟩)
  · have hwipe := wipe_contained sector (Word.blocks partition.size.toNat sector.toNat)
      partition.offset (TickCounter.count board).2
    generalize wipe sector _ partition.offset (TickCounter.count board).2 = wiped at hwipe ⊢
    have hwiped : Made Sized board wiped.2 := hwipe.sized.congr rfl rfl
    split
    · rename_i failure hfailure
      rw [hfailure] at hwipe
      exact ⟨hwiped, hwipe.failure⟩
    · have hinspect := Contained.trans hwiped (partition.inspect_contained
        (Word.blocks (partition.stop.toNat - partition.offset.toNat) Settings.blankCheckBlock)
        partition.offset wiped.2)
      generalize partition.inspect _ partition.offset wiped.2 = inspected at hinspect ⊢
      split
      · rename_i failure hfailure
        rw [hfailure] at hinspect
        exact hinspect
      · exact ⟨hinspect.sized.congr rfl rfl, by rintro ⟨⟩⟩

theorem program_contained (partition : Partition) (addr : UInt32) {data : List UInt8}
    (hlength : data.length ≤ Settings.maxPage) (board : Watched φ) :
    Contained board (partition.program addr data board).1
      (partition.program addr data board).2 := by
  simp only [program]
  split
  · exact .refl board (by rintro ⟨⟩)
  · have hcalls := Watched.calls_write board addr data
    generalize Flash.write addr data board = written at hcalls ⊢
    obtain ⟨ok, middle⟩ := written
    cases ok with
    | false => exact ⟨⟨_, hcalls, .refused hlength .done⟩, by rintro ⟨⟩⟩
    | true =>
        have hback : (Flash.read addr data.length middle).1.toList.length = data.length :=
          Vector.length_toList ..
        have hread : (Flash.read addr data.length middle).2.calls = board.calls ++
            [.Write addr data true, .Read addr (Flash.read addr data.length middle).1.toList] := by
          rw [Watched.calls_read, hcalls, List.append_assoc]
          rfl
        refine ⟨⟨_, hread, .page hlength hback .done⟩, ?_⟩
        simp only [if_true, mismatch?]
        intro hfull
        obtain ⟨_, _, hmismatch⟩ := Option.map_eq_some_iff.mp hfull
        cases hmismatch

end Partition

-- What went wrong with some pages.
def flushFailure? : Except UpdateError (List UInt8) × UInt32 → Option UpdateError
  | (.error failure, _) => some failure
  | (.ok _, _) => none

theorem programPages_contained (target : Target) (count : Nat) (waiting : List UInt8)
    (cursor : UInt32) (board : Watched φ) :
    Contained board (flushFailure? (target.programPages count waiting cursor board).1)
      (target.programPages count waiting cursor board).2 := by
  induction count generalizing waiting cursor board with
  | zero => exact .refl board (by rintro ⟨⟩)
  | succ count ih =>
      have hlength : (waiting.take target.page).length ≤ Settings.maxPage :=
        Nat.le_trans (List.length_take_le ..) target.page_le
      have hprogram := target.partition.program_contained cursor hlength board
      simp only [Target.programPages]
      split
      · rename_i failure hfailure
        rw [hfailure] at hprogram
        exact hprogram
      · exact .trans hprogram.sized (ih _ _ _)

theorem finish_contained (target : Target) {waiting : List UInt8}
    (hshort : waiting.length < target.page) (cursor : UInt32) (board : Watched φ) :
    Contained board (flushFailure? (target.finish waiting cursor board).1)
      (target.finish waiting cursor board).2 := by
  have hlength : waiting.length ≤ Settings.maxPage :=
    Nat.le_trans (Nat.le_of_lt hshort) target.page_le
  have hprogram := target.partition.program_contained cursor hlength board
  simp only [Target.finish]
  split
  · exact .refl board (by rintro ⟨⟩)
  · split
    · rename_i failure hfailure
      rw [hfailure] at hprogram
      exact hprogram
    · exact ⟨hprogram.sized, by rintro ⟨⟩⟩

namespace Session

variable {session : Session}

theorem lastError_flushed {result : Except UpdateError (List UInt8) × UInt32}
    (hsession : session.lastError ≠ some .RxOverflow)
    (hresult : flushFailure? result ≠ some .RxOverflow) :
    (session.flushed result).lastError ≠ some .RxOverflow := by
  rcases result with ⟨failure | rest, cursor⟩
  · exact hresult
  · exact hsession

-- No token is refused because the receive buffer is full.
theorem refuse_of_token? {phase : Phase} {bulkLeft : UInt32} {bytes : List UInt8}
    {failure : UpdateError} (h : target.token? phase bulkLeft bytes = some (.Refuse failure)) :
    failure ≠ .RxOverflow := by
  rintro rfl
  cases phase with
  | Magic =>
      simp only [Target.token?, Target.magicToken?] at h
      repeat' split at h
      all_goals cases h
  | Records =>
      simp only [Target.token?] at h
      cases bytes with
      | nil => cases h
      | cons kind rest =>
          simp only [Target.recordToken?, Target.lengthToken?, Target.textToken?] at h
          repeat' split at h
          all_goals cases h
  | SyncWait =>
      simp only [Target.token?, Target.syncToken?] at h
      repeat' split at h
      all_goals cases h
  | Packets =>
      simp only [Target.token?, Target.packetToken?] at h
      split at h
      · cases h
      · rename_i header _
        cases header with
        | Type1 opcode register words =>
            simp only [Target.headerToken?, Target.type1Token?] at h
            repeat' split at h
            all_goals cases h
        | Type2 opcode words => cases h
        | Unknown kind => cases h
  | Bulk =>
      simp only [Target.token?, Target.bulkToken?] at h
      split at h <;> cases h
  | Done => cases h
  | Failed => cases h

variable [TickCounter φ]

theorem advance?_contained {now next : Session × Watched φ}
    (hnow : now.1.lastError ≠ some .RxOverflow) (hstep : advance? target now = some next) :
    Contained now.2 next.1.lastError next.2 := by
  obtain ⟨token, htoken, rfl⟩ := Option.map_eq_some_iff.mp hstep
  cases token with
  | Skip count => exact .refl now.2 hnow
  | Prepare =>
      have hprepare := target.partition.prepare_contained now.2
      refine ⟨hprepare.sized, ?_⟩
      simp only [take]
      cases hfailure : (target.partition.prepare now.2).1 with
      | some failure =>
          rw [hfailure] at hprepare
          exact hprepare.failure
      | none => exact hnow
  | Copy count next left =>
      have hflush := programPages_contained target
        ((now.1.copied count next left).pending.length / target.page)
        (now.1.copied count next left).pending now.1.cursor now.2
      exact ⟨hflush.sized, lastError_flushed hnow hflush.failure⟩
  | Refuse failure =>
      refine .refl now.2 ?_
      intro hfull
      exact refuse_of_token? htoken (Option.some.inj hfull)

omit [TickCounter φ] in
theorem close_contained (hsession : session.lastError ≠ some .RxOverflow)
    (hsound : Sound target session) (board : Watched φ) :
    Contained board (session.close target board).1.lastError (session.close target board).2 := by
  have hfinish := finish_contained target hsound.pending_lt session.cursor board
  rw [Session.close]
  split
  · exact .refl board hsession
  · exact ⟨hfinish.sized, lastError_flushed hsession hfinish.failure⟩

end Session

end

end BoardControl.Bitstream
