import BoardControl.Proofs.Bitstream.Chip
import BoardControl.Proofs.Bitstream.Preparation

namespace BoardControl.Bitstream

-- Cells below the capacity hold some bytes from an address on, and what they
-- held before everywhere else.
def Stores (capacity : Nat) (before after : Nat → UInt8) (addr : Nat) (data : List UInt8) : Prop :=
  ∀ place < capacity,
    after place = if place < addr then before place else data[place - addr]?.getD (before place)

namespace Stores

variable {capacity addr : Nat} {before middle after : Nat → UInt8} {data other : List UInt8}

theorem nil (capacity : Nat) (before : Nat → UInt8) (addr : Nat) :
    Stores capacity before before addr [] := by
  intro place _
  simp

theorem append (hdata : Stores capacity before middle addr data)
    (hother : Stores capacity middle after (addr + data.length) other) :
    Stores capacity before after addr (data ++ other) := by
  intro place hplace
  rw [hother place hplace, hdata place hplace]
  by_cases hbefore : place < addr
  · rw [if_pos hbefore, if_pos hbefore, if_pos (by omega)]
  · rw [if_neg hbefore, if_neg hbefore]
    by_cases hinside : place < addr + data.length
    · rw [if_pos hinside, List.getElem?_append_left (by omega)]
    · rw [if_neg hinside, List.getElem?_append_right (by omega), Nat.sub_sub]
      rw [List.getElem?_eq_none (show data.length ≤ place - addr by omega), Option.getD_none]

-- Bytes that replace the first of some equal bytes.
theorem overwrite {count : Nat} {value : UInt8}
    (hfill : Stores capacity before middle addr (List.replicate count value))
    (hdata : Stores capacity middle after addr data) (hlength : data.length ≤ count) :
    Stores capacity before after addr (data ++ List.replicate (count - data.length) value) := by
  intro place hplace
  rw [hdata place hplace, hfill place hplace]
  by_cases hbefore : place < addr
  · rw [if_pos hbefore, if_pos hbefore, if_pos hbefore]
  · rw [if_neg hbefore, if_neg hbefore, if_neg hbefore]
    by_cases hinside : place - addr < data.length
    · rw [List.getElem?_append_left hinside, List.getElem?_eq_getElem hinside]
      rfl
    · rw [List.getElem?_append_right (by omega),
        List.getElem?_eq_none (show data.length ≤ place - addr by omega), Option.getD_none,
        List.getElem?_replicate, List.getElem?_replicate]
      by_cases hfilled : place - addr < count
      · rw [if_pos hfilled, if_pos (by omega)]
      · rw [if_neg hfilled, if_neg (by omega)]

-- The bytes can be read back.
theorem map_range (h : Stores capacity before after addr data)
    (hfits : addr + data.length ≤ capacity) :
    (List.range data.length).map (fun place => after (addr + place)) = data := by
  apply List.ext_getElem (by simp)
  intro place hleft hright
  rw [List.getElem_map, List.getElem_range, h _ (by omega), if_neg (by omega),
    Nat.add_sub_cancel_left, List.getElem?_eq_getElem hright]
  rfl

end Stores

-- A flash around a partition that does what it is told: what is erased is blank,
-- what is written is stored, what is read is what is stored, and nothing fails.
-- The sectors are counted from the front of the partition.
structure Faithful (σ : Type) [Flash σ] [TickCounter σ] (target : Target) where
  capacity : Nat
  sector : UInt32
  cell : σ → Nat → UInt8
  sector_pos : 0 < sector.toNat
  fits : target.partition.offset.toNat + target.partition.size.toNat ≤ capacity
  sectorSize_eq : ∀ board : σ, Flash.sectorSize board = sector
  count : ∀ board : σ, cell (TickCounter.count board).2 = cell board
  erase : ∀ (board : σ) (addr : UInt32), target.partition.offset.toNat ≤ addr.toNat →
    addr.toNat < capacity → sector.toNat ∣ addr.toNat - target.partition.offset.toNat →
      (Flash.erase addr board).1 = true ∧ Stores capacity (cell board)
        (cell (Flash.erase addr board).2) addr.toNat (List.replicate sector.toNat 0xff)
  write : ∀ (board : σ) (addr : UInt32) (data : List UInt8), addr.toNat + data.length ≤ capacity →
    (Flash.write addr data board).1 = true ∧ Stores capacity (cell board)
      (cell (Flash.write addr data board).2) addr.toNat data
  read : ∀ (board : σ) (addr : UInt32) (count : Nat), addr.toNat + count ≤ capacity →
    (Flash.read addr count board).1.toList =
        (List.range count).map (fun place => cell board (addr.toNat + place)) ∧
      cell (Flash.read addr count board).2 = cell board

namespace Faithful

section

variable {φ : Type} [Flash φ] [TickCounter φ] {target : Target}

-- Writing the calls down changes nothing.
def watched (flash : Faithful φ target) : Faithful (Watched φ) target :=
  { capacity := flash.capacity
    sector := flash.sector
    cell := fun board => flash.cell board.device
    sector_pos := flash.sector_pos
    fits := flash.fits
    sectorSize_eq := fun board => flash.sectorSize_eq board.device
    count := fun board => flash.count board.device
    erase := fun board => flash.erase board.device
    write := fun board => flash.write board.device
    read := fun board => flash.read board.device }

-- How many bytes are erased for a partition.
def erased (flash : Faithful φ target) : Nat :=
  Word.blocks target.partition.size.toNat flash.sector.toNat * flash.sector.toNat

theorem size_le_erased (flash : Faithful φ target) :
    target.partition.size.toNat ≤ flash.erased :=
  Partition.le_blocks_mul flash.sector_pos

end

section

variable {σ : Type} [Flash σ] [TickCounter σ] {target : Target} (flash : Faithful σ target)

theorem wipe (count index : Nat) (addr : UInt32) (board : σ)
    (hcount : index + count ≤ Word.blocks target.partition.size.toNat flash.sector.toNat)
    (haddr : 0 < count →
      addr.toNat = target.partition.offset.toNat + index * flash.sector.toNat) :
    (Partition.wipe flash.sector count addr board).1 = none ∧
      Stores flash.capacity (flash.cell board)
        (flash.cell (Partition.wipe flash.sector count addr board).2)
        (target.partition.offset.toNat + index * flash.sector.toNat)
        (List.replicate (count * flash.sector.toNat) 0xff) := by
  induction count generalizing index addr board with
  | zero =>
      refine ⟨rfl, ?_⟩
      rw [Nat.zero_mul]
      exact Stores.nil _ _ _
  | succ count ih =>
      have haddr := haddr (Nat.succ_pos count)
      have hfits := flash.fits
      have hinside := Partition.mul_lt_of_lt_blocks flash.sector_pos
        (show index < Word.blocks target.partition.size.toNat flash.sector.toNat by omega)
      obtain ⟨hok, hstores⟩ := flash.erase board addr (by omega) (by omega)
        (by rw [haddr, Nat.add_sub_cancel_left]; exact Nat.dvd_mul_left _ _)
      have hnext : 0 < count → (addr + flash.sector).toNat =
          target.partition.offset.toNat + (index + 1) * flash.sector.toNat := by
        intro hmore
        have hlast := Partition.mul_lt_of_lt_blocks flash.sector_pos
          (show index + 1 < Word.blocks target.partition.size.toNat flash.sector.toNat by omega)
        have hsize : target.partition.offset.toNat + target.partition.size.toNat ≤ 2 ^ 32 :=
          target.fits
        rw [Nat.succ_mul] at hlast ⊢
        rw [UInt32.toNat_add, Nat.mod_eq_of_lt (by omega)]
        omega
      obtain ⟨hrest, hmore⟩ := ih (index + 1) (addr + flash.sector) (Flash.erase addr board).2
        (by omega) hnext
      rw [Partition.wipe]
      simp only [hok, if_true]
      refine ⟨hrest, ?_⟩
      rw [Nat.succ_mul, Nat.add_comm (count * flash.sector.toNat),
        ← List.replicate_append_replicate]
      rw [haddr] at hstores
      refine hstores.append ?_
      rw [List.length_replicate, Nat.add_assoc, ← Nat.succ_mul]
      exact hmore

theorem stop_le : target.partition.stop.toNat ≤ flash.capacity :=
  Nat.le_trans target.partition.stop_le flash.fits

theorem inspect (count : Nat) (addr : UInt32) (board : σ)
    (hoffset : target.partition.offset.toNat ≤ addr.toNat)
    (hend : addr.toNat ≤ target.partition.stop.toNat)
    (hblank : ∀ place, target.partition.offset.toNat ≤ place →
      place < target.partition.stop.toNat → flash.cell board place = 0xff) :
    (target.partition.inspect count addr board).1 = none ∧
      flash.cell (target.partition.inspect count addr board).2 = flash.cell board := by
  induction count generalizing addr board with
  | zero => exact ⟨rfl, rfl⟩
  | succ count ih =>
      have hstop := flash.stop_le
      rw [Partition.inspect]
      generalize hlength : min Settings.blankCheckBlock (target.partition.stop.toNat - addr.toNat) =
        length
      have hnext := toNat_add_toUInt32 (show addr.toNat + length ≤ target.partition.stop.toNat by omega)
      obtain ⟨hread, hcell⟩ := flash.read board addr length (by omega)
      have hnone : Partition.firstUsed (Flash.read addr length board).1.toList = none := by
        rw [hread]
        refine Partition.firstUsed_eq_none_iff.mpr fun byte hbyte => ?_
        obtain ⟨place, hplace, rfl⟩ := List.mem_map.mp hbyte
        have hlt := List.mem_range.mp hplace
        exact hblank _ (by omega) (by omega)
      obtain ⟨hrest, hsame⟩ := ih (addr + length.toUInt32) (Flash.read addr length board).2
        (by omega) (by omega) (by rw [hcell]; exact hblank)
      simp only [hnone]
      exact ⟨hrest, hsame.trans hcell⟩

-- Erasing succeeds, and the blank check finds nothing.
theorem prepare (board : σ) :
    ∃ ready, target.partition.prepare board = (none, ready) ∧
      Stores flash.capacity (flash.cell board) (flash.cell ready) target.partition.offset.toNat
        (List.replicate flash.erased 0xff) := by
  have hsector : ¬ flash.sector = 0 := by
    intro hzero
    have hpos := flash.sector_pos
    rw [hzero] at hpos
    exact absurd hpos (by decide)
  obtain ⟨hwiped, hstores⟩ := flash.wipe
    (Word.blocks target.partition.size.toNat flash.sector.toNat) 0 target.partition.offset
    (TickCounter.count board).2 (by omega) (by omega)
  rw [Nat.zero_mul, Nat.add_zero, flash.count, ← erased] at hstores
  rw [Partition.prepare, flash.sectorSize_eq, if_neg hsector]
  generalize Partition.wipe flash.sector _ target.partition.offset (TickCounter.count board).2 =
    wiped at hwiped hstores ⊢
  have hblank : ∀ place, target.partition.offset.toNat ≤ place →
      place < target.partition.stop.toNat → flash.cell wiped.2 place = 0xff := by
    intro place hoffset hplace
    have hstop := flash.stop_le
    have herased := flash.size_le_erased
    have hsize := target.partition.stop_le
    rw [hstores place (by omega), if_neg (by omega), List.getElem?_replicate]
    rw [if_pos (show place - target.partition.offset.toNat < flash.erased by omega)]
    rfl
  obtain ⟨hinspected, hsame⟩ := flash.inspect
    (Word.blocks (target.partition.stop.toNat - target.partition.offset.toNat)
      Settings.blankCheckBlock) target.partition.offset wiped.2 (Nat.le_refl _)
    target.partition.offset_le_stop hblank
  simp only [hwiped, hinspected]
  refine ⟨_, rfl, ?_⟩
  rw [flash.count, hsame]
  exact hstores

-- What is programmed inside the partition is stored.
theorem program (addr : UInt32) (data : List UInt8) (board : σ)
    (hend : addr.toNat + data.length ≤ target.partition.stop.toNat) :
    ∃ after, target.partition.program addr data board = (none, after) ∧
      Stores flash.capacity (flash.cell board) (flash.cell after) addr.toNat data := by
  have hstop := flash.stop_le
  obtain ⟨hok, hstores⟩ := flash.write board addr data (by omega)
  obtain ⟨hread, hsame⟩ := flash.read (Flash.write addr data board).2 addr data.length (by omega)
  rw [hstores.map_range (by omega)] at hread
  rw [Partition.program, if_neg (Nat.not_lt.mpr hend)]
  have hnone := (prefix_iff_firstDifference (Nat.le_refl data.length)).mp List.prefix_rfl
  simp only [hok, if_true, hread, mismatch?, hnone, Option.map_none]
  refine ⟨_, rfl, ?_⟩
  rw [hsame]
  exact hstores

theorem flush (waiting : List UInt8) (cursor : UInt32) (board : σ)
    (hend : cursor.toNat + waiting.length ≤ target.partition.stop.toNat) :
    ∃ (written rest : List UInt8) (next : UInt32) (after : σ), waiting = written ++ rest ∧
      target.flush waiting cursor board = ((.ok rest, next), after) ∧
      next.toNat = cursor.toNat + written.length ∧
      Stores flash.capacity (flash.cell board) (flash.cell after) cursor.toNat written := by
  induction hlength : waiting.length using Nat.strongRecOn generalizing waiting cursor board with
  | _ length ih =>
      by_cases hshort : waiting.length < target.page
      · exact ⟨[], waiting, cursor, board, rfl, target.flush_of_short cursor board hshort, rfl,
          Stores.nil _ _ _⟩
      · have hfull : target.page ≤ waiting.length := Nat.le_of_not_lt hshort
        have hpos := target.page_pos
        have htake : (waiting.take target.page).length = target.page := by
          rw [List.length_take]
          omega
        have hdrop : (waiting.drop target.page).length = waiting.length - target.page :=
          List.length_drop
        have hnext := toNat_add_toUInt32
          (show cursor.toNat + target.page ≤ target.partition.stop.toNat by omega)
        obtain ⟨middle, hprogram, hfirst⟩ :=
          flash.program cursor (waiting.take target.page) board (by omega)
        obtain ⟨written, rest, next, after, hwaiting, hflush, hcursor, hothers⟩ :=
          ih _ (by omega) (waiting.drop target.page) (cursor + target.page.toUInt32) middle
            (by omega) rfl
        refine ⟨waiting.take target.page ++ written, rest, next, after, ?_, ?_, ?_, ?_⟩
        · rw [List.append_assoc, ← hwaiting, List.take_append_drop]
        · rw [target.flush_of_full cursor board hfull, hprogram]
          exact hflush
        · rw [List.length_append, htake]
          omega
        · rw [hnext] at hothers
          refine hfirst.append ?_
          rw [htake]
          exact hothers

theorem finish (waiting : List UInt8) (cursor : UInt32) (board : σ)
    (hend : cursor.toNat + waiting.length ≤ target.partition.stop.toNat) :
    ∃ (next : UInt32) (after : σ), target.finish waiting cursor board = ((.ok [], next), after) ∧
      next.toNat = cursor.toNat + waiting.length ∧
      Stores flash.capacity (flash.cell board) (flash.cell after) cursor.toNat waiting := by
  rw [Target.finish]
  by_cases hnone : waiting = []
  · rw [if_pos hnone, hnone]
    exact ⟨cursor, board, rfl, rfl, Stores.nil _ _ _⟩
  · obtain ⟨after, hprogram, hstores⟩ := flash.program cursor waiting board hend
    rw [if_neg hnone]
    simp only [hprogram]
    exact ⟨_, after, rfl, toNat_add_toUInt32 hend, hstores⟩

end

end Faithful

-- A flash in memory is faithful to a partition that it has room for.
def Chip.faithful {sector page : UInt32} (hsector : 0 < sector.toNat) (target : Target) :
    Faithful (Chip sector page) target :=
  { capacity := target.partition.offset.toNat + target.partition.size.toNat
    sector := sector
    cell := Chip.cell
    sector_pos := hsector
    fits := Nat.le_refl _
    sectorSize_eq := fun _ => rfl
    count := fun _ => rfl
    erase := fun _ _ _ _ _ => ⟨rfl, fun _ _ => rfl⟩
    write := fun _ _ _ _ => ⟨rfl, fun _ _ => rfl⟩
    read := fun chip addr count _ => ⟨chip.toList_read addr count, rfl⟩ }

end BoardControl.Bitstream
