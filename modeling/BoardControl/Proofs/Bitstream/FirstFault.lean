import BoardControl.Proofs.Bitstream.FlashPhases
import BoardControl.Proofs.Bitstream.ParserLoop

namespace BoardControl.Bitstream

-- Erases of `count` sectors from a place on, up to the first that fails, and the
-- error that it gives.
inductive Wiped (sector : Nat) : (place count : Nat) → List FlashCall → Option UpdateError → Prop
  | done {place : Nat} : Wiped sector place 0 [] none
  | failed {place count : Nat} {addr : UInt32} (haddr : addr.toNat = place) :
      Wiped sector place (count + 1) [.Erase addr false] (some (.EraseFailed addr))
  | next {place count : Nat} {addr : UInt32} {rest : List FlashCall} {failure : Option UpdateError}
      (haddr : addr.toNat = place) (hrest : Wiped sector (place + sector) count rest failure) :
      Wiped sector place (count + 1) (.Erase addr true :: rest) failure

-- Reads of the blocks between two places, up to the first one with a byte in use,
-- and the error that its first such byte gives.
inductive Inspected (stop : Nat) : (place : Nat) → List FlashCall → Option UpdateError → Prop
  | done : Inspected stop stop [] none
  | used {place : Nat} {addr bad : UInt32} {before after : List UInt8} {value : UInt8}
      (haddr : addr.toNat = place)
      (hlength : (before ++ value :: after).length = min 256 (stop - place))
      (hblank : ∀ byte ∈ before, byte = 0xff) (hused : value ≠ 0xff)
      (hbad : bad.toNat = place + before.length) :
      Inspected stop place [.Read addr (before ++ value :: after)]
        (some (.BlankCheckFailed bad value))
  | next {place : Nat} {addr : UInt32} {data : List UInt8} {rest : List FlashCall}
      {failure : Option UpdateError} (haddr : addr.toNat = place) (hinside : place < stop)
      (hlength : data.length = min 256 (stop - place)) (hblank : ∀ byte ∈ data, byte = 0xff)
      (hrest : Inspected stop (place + data.length) rest failure) :
      Inspected stop place (.Read addr data :: rest) failure

-- The sectors that cover a partition are erased first, then every byte of it is
-- read. The first fault is the last call.
inductive Preparation (partition : Partition) (sector : Nat) :
    List FlashCall → Option UpdateError → Prop
  | unerased {erases : List FlashCall} {failure : UpdateError}
      (hwiped : Wiped sector partition.offset.toNat (Word.blocks partition.size.toNat sector) erases
        (some failure)) : Preparation partition sector erases (some failure)
  | erased {erases reads : List FlashCall} {failure : Option UpdateError}
      (hwiped : Wiped sector partition.offset.toNat (Word.blocks partition.size.toNat sector) erases
        none)
      (hinspected : Inspected (partition.offset.toNat + partition.size.toNat)
        partition.offset.toNat reads failure) :
      Preparation partition sector (erases ++ reads) failure

-- Every erase succeeded and every byte that was read is blank.
def FlashCall.IsGood : FlashCall → Prop
  | .Erase _ ok => ok = true
  | .Write _ _ ok => ok = true
  | .Read _ data => ∀ byte ∈ data, byte = 0xff

section

variable {sector place count stop : Nat} {calls : List FlashCall} {failure : Option UpdateError}

theorem Wiped.writes_eq (h : Wiped sector place count calls failure) : writes calls = [] := by
  induction h with
  | done => rfl
  | failed => rfl
  | next _ _ ih => exact ih

theorem Inspected.writes_eq (h : Inspected stop place calls failure) : writes calls = [] := by
  induction h with
  | done => rfl
  | used => rfl
  | next _ _ _ _ _ ih => exact ih

theorem Wiped.good_iff (h : Wiped sector place count calls failure) :
    failure = none ↔ ∀ call ∈ calls, call.IsGood := by
  induction h with
  | done => simp
  | failed => simp [FlashCall.IsGood]
  | next _ _ ih => simp [FlashCall.IsGood, ih]

theorem Inspected.good_iff (h : Inspected stop place calls failure) :
    failure = none ↔ ∀ call ∈ calls, call.IsGood := by
  induction h with
  | done => simp
  | used _ _ _ hused =>
      refine iff_of_false (Option.some_ne_none _) fun hgood => hused ?_
      exact hgood _ List.mem_cons_self _ (List.mem_append_right _ List.mem_cons_self)
  | next _ _ _ hblank _ ih =>
      rw [ih, List.forall_mem_cons]
      exact (and_iff_right hblank).symm

theorem Preparation.writes_eq {partition : Partition}
    (h : Preparation partition sector calls failure) : writes calls = [] := by
  cases h with
  | unerased hwiped => exact hwiped.writes_eq
  | erased hwiped hinspected => rw [writes_append, hwiped.writes_eq, hinspected.writes_eq]; rfl

theorem Preparation.good_iff {partition : Partition}
    (h : Preparation partition sector calls failure) :
    failure = none ↔ ∀ call ∈ calls, call.IsGood := by
  cases h with
  | unerased hwiped => exact hwiped.good_iff
  | erased hwiped hinspected =>
      have hgood := hwiped.good_iff.mp rfl
      rw [hinspected.good_iff, List.forall_mem_append, and_iff_right hgood]

end

-- The first byte in use stands behind blank ones.
theorem firstUsed_split {bytes : List UInt8} {position : Nat} {value : UInt8}
    (h : Partition.firstUsed bytes = some (position, value)) :
    ∃ before after, bytes = before ++ value :: after ∧ before.length = position ∧
      (∀ byte ∈ before, byte = 0xff) ∧ value ≠ 0xff := by
  induction bytes generalizing position with
  | nil => cases h
  | cons byte rest ih =>
      rw [Partition.firstUsed] at h
      split at h
      · rename_i hblank
        obtain ⟨⟨place, found⟩, hrest, heq⟩ := Option.map_eq_some_iff.mp h
        cases heq
        obtain ⟨before, after, rfl, rfl, hbefore, hvalue⟩ := ih hrest
        exact ⟨byte :: before, after, rfl, rfl, List.forall_mem_cons.mpr ⟨hblank, hbefore⟩, hvalue⟩
      · rename_i hused
        cases h
        exact ⟨[], rest, rfl, rfl, by simp, hused⟩

namespace Partition

section

variable {φ : Type} [Flash φ]

-- Only the address of a sector that is still to be erased has to be a word.
theorem wipe_wiped (sector : UInt32) (count : Nat) (place : Nat) (addr : UInt32)
    (haddr : 0 < count → addr.toNat = place)
    (hfits : ∀ index < count, place + index * sector.toNat < UInt32.size) (board : Watched φ) :
    Made (fun calls => Wiped sector.toNat place count calls (wipe sector count addr board).1) board
      (wipe sector count addr board).2 := by
  induction count generalizing place addr board with
  | zero => exact .none .done
  | succ count ih =>
      have haddr := haddr (Nat.succ_pos count)
      have hcall := Watched.calls_erase board addr
      rw [wipe]
      cases herase : (Flash.erase addr board).1 with
      | false =>
          rw [herase] at hcall
          exact ⟨[.Erase addr false], hcall, .failed haddr⟩
      | true =>
          rw [herase] at hcall
          have hnext : 0 < count → (addr + sector).toNat = place + sector.toNat := by
            intro hmore
            have hsecond := hfits 1 (by omega)
            rw [Nat.one_mul] at hsecond
            rw [UInt32.toNat_add, haddr, Nat.mod_eq_of_lt hsecond]
          have hrest : ∀ index < count,
              place + sector.toNat + index * sector.toNat < UInt32.size := by
            intro index hindex
            have hlater := hfits (index + 1) (by omega)
            rw [Nat.succ_mul] at hlater
            omega
          have hmade := ih (place + sector.toNat) (addr + sector) hnext hrest
            (Flash.erase addr board).2
          exact hmade.cons hcall fun _ => .next haddr

theorem inspect_inspected (partition : Partition) (count : Nat) (addr : UInt32)
    (haddr : addr.toNat ≤ partition.stop.toNat)
    (hcount : count = Word.blocks (partition.stop.toNat - addr.toNat) Settings.blankCheckBlock)
    (board : Watched φ) :
    Made (fun calls => Inspected partition.stop.toNat addr.toNat calls
      (partition.inspect count addr board).1) board (partition.inspect count addr board).2 := by
  have hblock : Settings.blankCheckBlock = 256 := rfl
  have hstop := partition.stop.toNat_lt_size
  rw [Word.blocks, hblock] at hcount
  induction count generalizing addr board with
  | zero =>
      have hend : addr.toNat = partition.stop.toNat := by omega
      rw [hend]
      exact .none .done
  | succ count ih =>
      rw [inspect]
      generalize hlength : min Settings.blankCheckBlock (partition.stop.toNat - addr.toNat) = length
      have hcall := Watched.calls_read board addr length
      have hdata : (Flash.read addr length board).1.toList.length = length :=
        Vector.length_toList ..
      generalize (Flash.read addr length board).1.toList = data at hcall hdata
      cases hused : firstUsed data with
      | some used =>
          obtain ⟨position, value⟩ := used
          obtain ⟨before, after, rfl, rfl, hblank, hvalue⟩ := firstUsed_split hused
          have hinside := firstUsed_lt hused
          have hbad : addr.toNat + before.length ≤ partition.stop.toNat := by omega
          refine ⟨_, hcall, .used rfl ?_ hblank hvalue (toNat_add_toUInt32 hbad)⟩
          rw [hdata, ← hlength, hblock]
      | none =>
          have hblank := firstUsed_eq_none_iff.mp hused
          have hend : addr.toNat + length ≤ partition.stop.toNat := by omega
          have hplace : (addr + length.toUInt32).toNat = addr.toNat + data.length := by
            rw [hdata, toNat_add_toUInt32 hend]
          have hmade := ih (addr + length.toUInt32) (by omega) (by omega)
            (Flash.read addr length board).2
          rw [hplace] at hmade
          refine hmade.cons hcall fun rest hrest => ?_
          exact .next rfl (by omega) (by rw [hdata, ← hlength, hblock]) hblank hrest

theorem prepare_prepared [TickCounter φ] (partition : Partition)
    (hfits : partition.offset.toNat + partition.size.toNat < UInt32.size) (board : Watched φ)
    (hsector : Flash.sectorSize board ≠ 0) :
    Made (fun calls => Preparation partition (Flash.sectorSize board).toNat calls
      (partition.prepare board).1) board (partition.prepare board).2 := by
  have hpos : 0 < (Flash.sectorSize board).toNat :=
    Nat.pos_of_ne_zero fun hzero => hsector (UInt32.toNat_inj.mp hzero)
  have hsectors : ∀ index < Word.blocks partition.size.toNat (Flash.sectorSize board).toNat,
      partition.offset.toNat + index * (Flash.sectorSize board).toNat < UInt32.size := by
    intro index hindex
    have hinside := mul_lt_of_lt_blocks hpos hindex
    omega
  have hwipe := wipe_wiped (Flash.sectorSize board) _ partition.offset.toNat partition.offset
    (fun _ => rfl) hsectors (TickCounter.count board).2
  rw [prepare, if_neg hsector]
  generalize wipe (Flash.sectorSize board) _ partition.offset (TickCounter.count board).2 = wiped
    at hwipe ⊢
  obtain ⟨failure, left⟩ := wiped
  have hwiped := hwipe.congr (Watched.calls_count board).symm rfl
  cases failure with
  | some failure => exact hwiped.mono fun _ => .unerased
  | none =>
      have hinspect := partition.inspect_inspected _ partition.offset partition.offset_le_stop rfl
        left
      simp only
      generalize partition.inspect _ partition.offset left = inspected at hinspect ⊢
      rw [stop_eq hfits] at hinspect
      obtain ⟨failure, last⟩ := inspected
      have hmade : Made (fun calls => Preparation partition (Flash.sectorSize board).toNat calls
          failure) board last := hwiped.append hinspect fun _ _ => .erased
      cases failure with
      | some failure => exact hmade
      | none => exact hmade.congr rfl (Watched.calls_count last)

end

end Partition

section

variable {φ μ : Type} [Flash φ] [TickCounter φ] [Logger μ]

-- A complete record of the bitstream, of an image that fits, has the partition made
-- ready, and nothing else.
theorem step_of_length {updater : Updater} {a b c d : UInt8} {rest : List UInt8}
    (hphase : updater.phase = .Records)
    (hrecord : updater.received.toList = bitstreamRecord :: a :: b :: c :: d :: rest)
    (hlength : beWord a b c d ≤ updater.writer.partition.size)
    (hfits : updater.writer.partition.offset.toNat + updater.writer.partition.size.toNat <
      UInt32.size)
    (logged : Logged (Watched φ) μ) :
    Run.Ends updater.step logged fun result after =>
      let prepared := updater.writer.partition.prepare logged.board
      after.board = prepared.2 ∧ result = match prepared.1 with
        | some failure => .error failure
        | none => .ok (true, { updater with
            received := updater.received.popFront 5, phase := .SyncWait }) := by
  have hlarge : ¬ updater.writer.partition.size < beWord a b c d := UInt32.not_lt.mpr hlength
  simp only [Updater.step, hphase, Updater.readRecord, Updater.readLength, Ring.front_eq_take,
    hrecord, List.take_succ_cons, List.take_zero, if_true, Run.ends_bind, Run.ends_perform,
    if_neg hlarge]
  have hready := updater.writer.partition.erase_ends (Nat.le_of_lt hfits)
    (log .Info s!"Bitstream is {beWord a b c d} bytes" logged).2
  refine hready.mono ?_
  intro result after hafter
  rw [Logged.board_log] at hafter
  obtain ⟨hboard, hresult⟩ := hafter
  rw [hresult]
  cases hprepared : (updater.writer.partition.prepare logged.board).1 with
  | some failure => exact Run.ends_of_eq rfl ⟨hboard, rfl⟩
  | none => exact Run.ends_of_eq rfl ⟨hboard, rfl⟩

-- The record of the bitstream has the whole partition erased and read, up to the
-- first fault, and a fault ends the session with nothing written.
theorem first_fault_reported {updater now : Updater} {data : List UInt8}
    {logged middle : Logged (Watched φ) μ} {a b c d : UInt8} {rest : List UInt8}
    (hparses : Updater.Parses updater data logged now middle) (hphase : now.phase = .Records)
    (hrecord : now.received.toList = bitstreamRecord :: a :: b :: c :: d :: rest)
    (hlength : beWord a b c d ≤ now.writer.partition.size)
    (hfits : now.writer.partition.offset.toNat + now.writer.partition.size.toNat < UInt32.size)
    (hsector : Flash.sectorSize middle ≠ 0) :
    ∃ calls failure,
      Preparation now.writer.partition (Flash.sectorSize middle).toNat calls failure ∧
      writes calls = [] ∧ (failure = none ↔ ∀ call ∈ calls, call.IsGood) ∧
      (Run.Ends now.step middle fun result after =>
        after.board.calls = middle.board.calls ++ calls ∧ result = match failure with
          | some failure => .error failure
          | none => .ok (true, { now with
              received := now.received.popFront 5, phase := .SyncWait })) ∧
      ∀ fault, failure = some fault → Run.Ends (updater.receive data) logged fun next after =>
        next.phase = .Failed ∧ next.lastError = some fault ∧
          after.board.calls = middle.board.calls ++ calls := by
  obtain ⟨calls, hcalls, hpreparation⟩ :=
    now.writer.partition.prepare_prepared hfits middle.board hsector
  have hstep := step_of_length hphase hrecord hlength hfits middle
  refine ⟨calls, _, hpreparation, hpreparation.writes_eq, hpreparation.good_iff, ?_, ?_⟩
  · refine hstep.mono fun result after ⟨hboard, hresult⟩ => ⟨?_, hresult⟩
    rw [hboard, hcalls]
  · intro fault hfault
    obtain ⟨result, after, hrun, hboard, hresult⟩ := hstep
    rw [hfault] at hresult
    rw [hresult] at hrun
    refine Run.ends_of_eq (hparses.receive_eq hrun) ⟨rfl, rfl, ?_⟩
    rw [board_fail, hboard, hcalls]

end

-- An updater behind the header, for a partition that is no multiple of a sector or
-- of a block.
def Chip.oddUpdater : Updater :=
  { Updater.start { offset := 0x300, size := 0x1801 } "7a100t" with phase := .Records }

def oddRecord : List UInt8 := [bitstreamRecord, 0, 0, 0x18, 0x01]

theorem first_fault_reported_odd :
    let now := Chip.oddUpdater.taken oddRecord
    let partition := now.writer.partition
    Updater.Parses Chip.oddUpdater oddRecord Chip.board now Chip.board ∧ now.phase = .Records ∧
      now.received.toList = [bitstreamRecord, 0, 0, 0x18, 0x01] ∧
      beWord 0 0 0x18 0x01 ≤ partition.size ∧
      partition.offset.toNat + partition.size.toNat < UInt32.size ∧
      Flash.sectorSize Chip.board ≠ 0 ∧
      ∃ calls failure, Preparation partition (Flash.sectorSize Chip.board).toNat calls failure ∧
        writes calls = [] ∧ (failure = none ↔ ∀ call ∈ calls, call.IsGood) ∧
        (Run.Ends now.step Chip.board fun result after =>
          after.board.calls = Chip.board.board.calls ++ calls ∧ result = match failure with
            | some failure => .error failure
            | none => .ok (true, { now with
                received := now.received.popFront 5, phase := .SyncWait })) ∧
        ∀ fault, failure = some fault →
          Run.Ends (Chip.oddUpdater.receive oddRecord) Chip.board fun next after =>
            next.phase = .Failed ∧ next.lastError = some fault ∧
              after.board.calls = Chip.board.board.calls ++ calls := by
  have hparses : Updater.Parses Chip.oddUpdater oddRecord Chip.board
      (Chip.oddUpdater.taken oddRecord) Chip.board := .now ⟨rfl, by decide⟩ .first
  have hrecord : (Chip.oddUpdater.taken oddRecord).received.toList =
      [bitstreamRecord, 0, 0, 0x18, 0x01] := Ring.toList_pushBytes _ _ (by decide)
  have hlength : beWord 0 0 0x18 0x01 ≤ 0x1801 := by decide
  have hfits : (0x300 : UInt32).toNat + (0x1801 : UInt32).toNat < UInt32.size := by decide
  have hsector : Flash.sectorSize Chip.board ≠ 0 := by decide
  exact ⟨hparses, rfl, hrecord, hlength, hfits, hsector,
    first_fault_reported hparses rfl hrecord hlength hfits hsector⟩

end BoardControl.Bitstream
