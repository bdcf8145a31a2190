import BoardControl.Proofs.Bitstream.Programming

namespace BoardControl.Bitstream

namespace Partition

section

variable {σ : Type} [Flash σ]

-- Erases `count` sectors from an address on, up to the first one that fails.
def wipe (sector : UInt32) : Nat → UInt32 → σ → Option UpdateError × σ
  | 0, _, board => (none, board)
  | count + 1, addr, board =>
      let erased := Flash.erase addr board
      if erased.1 then wipe sector count (addr + sector) erased.2
      else (some (.EraseFailed addr), erased.2)

-- Reads `count` blocks from an address on, up to the first byte in use.
def inspect (partition : Partition) : Nat → UInt32 → σ → Option UpdateError × σ
  | 0, _, board => (none, board)
  | count + 1, addr, board =>
      let length := min Settings.blankCheckBlock (partition.stop.toNat - addr.toNat)
      let block := Flash.read addr length board
      match firstUsed block.1.toList with
      | some (position, value) =>
          (some (.BlankCheckFailed (addr + position.toUInt32) value), block.2)
      | none => partition.inspect count (addr + length.toUInt32) block.2

-- Makes a partition ready for an image: every sector is erased and every byte is
-- looked at. The answer is what went wrong.
def prepare [TickCounter σ] (partition : Partition) (board : σ) : Option UpdateError × σ :=
  let sector := Flash.sectorSize board
  if sector = 0 then (some (.EraseFailed partition.offset), board)
  else
    let wiped := wipe sector (Word.blocks partition.size.toNat sector.toNat) partition.offset
      (TickCounter.count board).2
    match wiped.1 with
    | some failure => (some failure, wiped.2)
    | none =>
        let inspected := partition.inspect
          (Word.blocks (partition.stop.toNat - partition.offset.toNat) Settings.blankCheckBlock)
          partition.offset wiped.2
        match inspected.1 with
        | some failure => (some failure, inspected.2)
        | none => (none, (TickCounter.count inspected.2).2)

end

-- A sector that begins inside the partition has its address in the word range.
theorem mul_lt_of_lt_blocks {index total size : Nat} (hsize : 0 < size)
    (h : index < Word.blocks total size) : index * size < total := by
  have hnext := (Nat.le_div_iff_mul_le hsize).mp (show index + 1 ≤ _ from h)
  rw [Nat.succ_mul] at hnext
  omega

-- The blocks cover everything, and there are no more of them than words.

theorem blocks_lt {total size : Nat} (hsize : 0 < size) (htotal : total < UInt32.size) :
    Word.blocks total size < UInt32.size := by
  have hle : total + size - 1 ≤ size * total + (size - 1) := by
    have := Nat.le_mul_of_pos_left total hsize
    omega
  have hblocks : Word.blocks total size ≤ total := by
    refine Nat.le_trans (Nat.div_le_div_right hle) ?_
    rw [Nat.mul_add_div hsize, Nat.div_eq_of_lt (by omega)]
    exact Nat.le_refl _
  exact Nat.lt_of_le_of_lt hblocks htotal

theorem le_blocks_mul {total size : Nat} (hsize : 0 < size) :
    total ≤ Word.blocks total size * size := by
  have hlast := Nat.lt_mul_div_succ (total + size - 1) hsize
  rw [Word.blocks, Nat.mul_comm]
  rw [Nat.mul_succ] at hlast
  omega

theorem firstUsed_lt {bytes : List UInt8} {position : Nat} {value : UInt8}
    (h : firstUsed bytes = some (position, value)) : position < bytes.length := by
  induction bytes generalizing position with
  | nil => cases h
  | cons byte rest ih =>
      simp only [firstUsed] at h
      split at h
      · obtain ⟨⟨before, _⟩, hrest, heq⟩ := Option.map_eq_some_iff.mp h
        cases heq
        simpa using ih hrest
      · cases h
        simp

theorem firstUsed_eq_none_iff {bytes : List UInt8} :
    firstUsed bytes = none ↔ ∀ byte ∈ bytes, byte = 0xff := by
  induction bytes with
  | nil => simp [firstUsed]
  | cons byte rest ih =>
      by_cases hblank : byte = 0xff
      · simp [firstUsed, hblank, ih]
      · simp [firstUsed, hblank]

section

variable {σ μ : Type} [Flash σ] [Logger μ] (partition : Partition)

theorem eraseSectors_ends {sector : UInt32} (hsector : sector ≠ 0)
    (hfits : partition.offset.toNat + partition.size.toNat ≤ UInt32.size) (count index : Nat)
    (hcount : index + count ≤ Word.blocks partition.size.toNat sector.toNat)
    (logged : Logged σ μ) :
    Run.Ends (partition.eraseSectors sector index count) logged fun result after =>
      let wiped := wipe sector count (partition.offset + index.toUInt32 * sector) logged.board
      after.board = wiped.2 ∧ result = match wiped.1 with
        | some failure => .error failure
        | none => .ok () := by
  induction count generalizing index logged with
  | zero => simp [eraseSectors, wipe]
  | succ count ih =>
      have hpos : 0 < sector.toNat := by
        refine Nat.pos_of_ne_zero fun hzero => hsector ?_
        rw [← UInt32.toNat_inj, hzero]
        rfl
      have hinside := mul_lt_of_lt_blocks hpos
        (show index < Word.blocks partition.size.toNat sector.toNat by omega)
      have hindex : index ≤ index * sector.toNat := Nat.le_mul_of_pos_right index hpos
      have hword := toNat_toUInt32 (show index < UInt32.size by omega)
      have hmul := Word.mul_eq_ok (a := index.toUInt32) (b := sector) (by rw [hword]; omega)
      have hproduct : (index.toUInt32 * sector).toNat = index * sector.toNat := by
        rw [Word.mul_eq_ok_iff.mp hmul, hword]
      have hadd := Word.add_eq_ok (a := partition.offset) (b := index.toUInt32 * sector)
        (by rw [hproduct]; omega)
      simp only [eraseSectors, hmul, hadd, Run.ends_bind, Run.ends_ok, wipe]
      apply Logged.ends_of_log
      intro next hnext
      have hstep : partition.offset + index.toUInt32 * sector + sector =
          partition.offset + (index + 1).toUInt32 * sector := by
        change _ + UInt32.ofNat index * sector + sector = _ + UInt32.ofNat (index + 1) * sector
        rw [UInt32.ofNat_add, UInt32.add_mul, UInt32.add_assoc]
        simp
      simp only [Run.ends_bind, Run.ends_perform, Logged.erase_answer, hnext]
      by_cases herase : (Flash.erase (partition.offset + index.toUInt32 * sector) logged.board).1
      · have hrest := ih (index + 1) (by omega)
          (Flash.erase (partition.offset + index.toUInt32 * sector) next).2
        simp only [herase, if_true, hstep]
        simpa only [Logged.board_erase, hnext] using hrest
      · simp [herase, hnext]

theorem checkBlank_ends (count : Nat) (addr : UInt32)
    (haddr : addr.toNat ≤ partition.stop.toNat) (logged : Logged σ μ) :
    Run.Ends (partition.checkBlank addr count) logged fun result after =>
      let inspected := partition.inspect count addr logged.board
      after.board = inspected.2 ∧ result = match inspected.1 with
        | some failure => .error failure
        | none => .ok () := by
  induction count generalizing addr logged with
  | zero => simp [checkBlank, inspect]
  | succ count ih =>
      have hstop := partition.stop.toNat_lt_size
      simp only [checkBlank, inspect]
      generalize hlength : min Settings.blankCheckBlock (partition.stop.toNat - addr.toNat) =
        length
      apply Logged.ends_of_log
      intro next hnext
      simp only [Run.ends_bind, Run.ends_perform, Logged.read_answer, hnext]
      cases hused : firstUsed (Flash.read addr length logged.board).1.toList with
      | some used =>
          have hposition := firstUsed_lt hused
          rw [Vector.length_toList] at hposition
          have hbad := Word.add_eq_ok (a := addr) (b := used.1.toUInt32) (by
            rw [toNat_toUInt32 (by omega)]
            omega)
          simp [hbad, hnext]
      | none =>
          have hword := toNat_toUInt32 (show length < UInt32.size by omega)
          have hadd := Word.add_eq_ok (a := addr) (b := length.toUInt32) (by omega)
          have hrest := ih (addr + length.toUInt32)
            (by rw [Word.add_eq_ok_iff.mp hadd]; omega) (Flash.read addr length next).2
          simp only [hadd, Run.ends_bind, Run.ends_ok]
          simpa only [Logged.board_read, hnext] using hrest

-- The partition is made ready as the plain action says.
theorem erase_ends [TickCounter σ]
    (hfits : partition.offset.toNat + partition.size.toNat ≤ UInt32.size)
    (logged : Logged σ μ) :
    Run.Ends partition.erase logged fun result after =>
      let prepared := partition.prepare logged.board
      after.board = prepared.2 ∧ result = match prepared.1 with
        | some failure => .error failure
        | none => .ok () := by
  simp only [erase, prepare, Run.ends_bind, Run.ends_get, Logged.sectorSize_eq]
  by_cases hsector : Flash.sectorSize logged.board = 0
  · simp [hsector]
  · simp only [hsector, if_false, Run.ends_bind, Run.ends_perform]
    have hwipe := partition.eraseSectors_ends (σ := σ) (μ := μ) hsector hfits
      (Word.blocks partition.size.toNat (Flash.sectorSize logged.board).toNat) 0 (by omega)
    have hfirst : partition.offset + Nat.toUInt32 0 * Flash.sectorSize logged.board =
        partition.offset := by simp
    rw [hfirst] at hwipe
    apply (hwipe _).mono
    rintro result middle ⟨hboard, rfl⟩
    simp only [Logged.board_log, Logged.board_count] at hboard ⊢
    generalize wipe (Flash.sectorSize logged.board)
      (Word.blocks partition.size.toNat (Flash.sectorSize logged.board).toNat) partition.offset
      (TickCounter.count logged.board).2 = wiped at hboard ⊢
    obtain ⟨_ | failure, left⟩ := wiped
    · simp only at hboard
      simp only [Run.ends_bind]
      apply (partition.checkBlank_ends _ partition.offset partition.offset_le_stop middle).mono
      rintro result last ⟨hlast, rfl⟩
      rw [hboard] at hlast ⊢
      generalize partition.inspect _ partition.offset left = inspected at hlast ⊢
      obtain ⟨_ | failure, left⟩ := inspected
      · simp [hlast]
      · simp [hlast]
    · simp [hboard]

end

end Partition

end BoardControl.Bitstream
