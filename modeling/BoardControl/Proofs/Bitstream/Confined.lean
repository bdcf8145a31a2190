import BoardControl.Proofs.Bitstream.Quiescence

namespace BoardControl.Bitstream

open Session

-- The cells of a flash by their addresses, with what may change them: erasing at
-- most the sector at an address, and writing at most as many cells as there are
-- bytes. What these become is left open.
structure Cells (φ : Type) [Flash φ] [TickCounter φ] (sector : UInt32) where
  cell : φ → Nat → UInt8
  sectorSize : ∀ device : φ, Flash.sectorSize device = sector
  erase : ∀ (addr : UInt32) (device : φ) (place : Nat),
    place < addr.toNat ∨ addr.toNat + sector.toNat ≤ place →
      cell (Flash.erase addr device).2 place = cell device place
  write : ∀ (addr : UInt32) (data : List UInt8) (device : φ) (place : Nat),
    place < addr.toNat ∨ addr.toNat + data.length ≤ place →
      cell (Flash.write addr data device).2 place = cell device place
  read : ∀ (addr : UInt32) (count : Nat) (device : φ) (place : Nat),
    cell (Flash.read addr count device).2 place = cell device place
  count : ∀ (device : φ) (place : Nat), cell (TickCounter.count device).2 place = cell device place

namespace Partition

-- The first address after the sectors that the partition begins in or covers.
def sectorsEnd (partition : Partition) (sector : UInt32) : Nat :=
  partition.offset.toNat + Word.blocks partition.size.toNat sector.toNat * sector.toNat

-- A call that stays within the sectors of a partition, and within the partition
-- unless it erases.
def Encloses (partition : Partition) (sector : UInt32) : FlashCall → Prop
  | .Erase addr _ => partition.offset.toNat ≤ addr.toNat ∧
      addr.toNat + sector.toNat ≤ partition.sectorsEnd sector
  | .Write addr data _ | .Read addr data => partition.offset.toNat ≤ addr.toNat ∧
      addr.toNat + data.length ≤ partition.offset.toNat + partition.size.toNat

theorem sectorsEnd_of_dvd {partition : Partition} {sector : UInt32} (hsector : 0 < sector)
    (hdivides : sector.toNat ∣ partition.size.toNat) :
    partition.sectorsEnd sector = partition.offset.toNat + partition.size.toNat := by
  obtain ⟨count, hcount⟩ := hdivides
  have hpos : 0 < sector.toNat := UInt32.lt_iff_toNat_lt.mp hsector
  have hblocks : Word.blocks partition.size.toNat sector.toNat = count := by
    rw [Word.blocks, hcount, Nat.add_sub_assoc hpos, Nat.mul_add_div hpos,
      Nat.div_eq_of_lt (Nat.sub_lt hpos Nat.one_pos), Nat.add_zero]
  rw [sectorsEnd, hblocks, hcount, Nat.mul_comm]

end Partition

section

variable {φ : Type} [Flash φ] [TickCounter φ] {sector : UInt32} {cells : Cells φ sector}
  {partition : Partition} {board middle after : Watched φ}

-- Between two boards the calls stay in the partition, and so does what they change.
structure Confined (cells : Cells φ sector) (partition : Partition) (board after : Watched φ) :
    Prop where
  made : Made (∀ call ∈ ·, partition.Encloses sector call) board after
  frame : ∀ place, place < partition.offset.toNat ∨ partition.sectorsEnd sector ≤ place →
    cells.cell after.device place = cells.cell board.device place

namespace Confined

theorem refl (board : Watched φ) : Confined cells partition board board :=
  ⟨.none nofun, fun _ _ => rfl⟩

theorem trans (hfirst : Confined cells partition board middle)
    (hsecond : Confined cells partition middle after) : Confined cells partition board after where
  made := by
    refine hfirst.made.append hsecond.made fun one other hone hother call hmem => ?_
    rcases List.mem_append.mp hmem with hmem | hmem
    · exact hone call hmem
    · exact hother call hmem
  frame place houtside := (hsecond.frame place houtside).trans (hfirst.frame place houtside)

theorem count (board : Watched φ) : Confined cells partition board (TickCounter.count board).2 :=
  ⟨.none nofun, fun place _ => cells.count board.device place⟩

-- One call that stays in the partition.
theorem of_call {call : FlashCall} (hcalls : after.calls = board.calls ++ [call])
    (hcall : partition.Encloses sector call)
    (hframe : ∀ place, place < partition.offset.toNat ∨ partition.sectorsEnd sector ≤ place →
      cells.cell after.device place = cells.cell board.device place) :
    Confined cells partition board after :=
  ⟨⟨[call], hcalls, by simpa using hcall⟩, hframe⟩

theorem erase {addr : UInt32} (hcall : partition.Encloses sector (.Erase addr true))
    (board : Watched φ) : Confined cells partition board (Flash.erase addr board).2 := by
  obtain ⟨hbegin, hend⟩ := hcall
  refine of_call (Watched.calls_erase board addr) ⟨hbegin, hend⟩ fun place houtside => ?_
  exact cells.erase addr board.device place (by omega)

theorem read {addr : UInt32} {count : Nat} (hbegin : partition.offset.toNat ≤ addr.toNat)
    (hend : addr.toNat + count ≤ partition.offset.toNat + partition.size.toNat)
    (board : Watched φ) : Confined cells partition board (Flash.read addr count board).2 := by
  refine of_call (Watched.calls_read board addr count) ⟨hbegin, ?_⟩ fun place _ => ?_
  · rwa [Vector.length_toList]
  · exact cells.read addr count board.device place

theorem write (hsector : 0 < sector) {addr : UInt32} {data : List UInt8}
    (hbegin : partition.offset.toNat ≤ addr.toNat)
    (hend : addr.toNat + data.length ≤ partition.offset.toNat + partition.size.toNat)
    (board : Watched φ) : Confined cells partition board (Flash.write addr data board).2 := by
  have hcover : partition.size.toNat ≤
      Word.blocks partition.size.toNat sector.toNat * sector.toNat :=
    Partition.le_blocks_mul (UInt32.lt_iff_toNat_lt.mp hsector)
  refine of_call (Watched.calls_write board addr data) ⟨hbegin, hend⟩ fun place houtside => ?_
  rw [Partition.sectorsEnd] at houtside
  exact cells.write addr data board.device place (by omega)

end Confined

variable (cells)

namespace Partition

-- The addresses of the sectors do not wrap: each of them begins in the partition.
theorem wipe_confined (hsector : 0 < sector)
    (hfits : partition.offset.toNat + partition.size.toNat ≤ UInt32.size) (count index : Nat)
    (hcount : index + count ≤ Word.blocks partition.size.toNat sector.toNat) (addr : UInt32)
    (haddr : 0 < count → addr.toNat = partition.offset.toNat + index * sector.toNat)
    (board : Watched φ) : Confined cells partition board (wipe sector count addr board).2 := by
  induction count generalizing index addr board with
  | zero => exact .refl board
  | succ count ih =>
      have hpos : 0 < sector.toNat := UInt32.lt_iff_toNat_lt.mp hsector
      have haddr := haddr (Nat.succ_pos _)
      have hlast : (index + 1) * sector.toNat ≤
          Word.blocks partition.size.toNat sector.toNat * sector.toNat :=
        Nat.mul_le_mul_right _ (by omega)
      rw [Nat.succ_mul] at hlast
      have herase : Confined cells partition board (Flash.erase addr board).2 :=
        .erase ⟨by omega, by rw [sectorsEnd]; omega⟩ board
      rw [wipe]
      split
      · refine herase.trans (ih (index + 1) (by omega) (addr + sector) (fun hmore => ?_) _)
        have hinside := mul_lt_of_lt_blocks hpos
          (show index + 1 < Word.blocks partition.size.toNat sector.toNat by omega)
        rw [UInt32.toNat_add, Nat.succ_mul]
        rw [Nat.succ_mul] at hinside
        simp only [UInt32.size] at hfits
        omega
      · exact herase

theorem inspect_confined (partition : Partition) (count : Nat) (addr : UInt32)
    (hbegin : partition.offset.toNat ≤ addr.toNat) (hend : addr.toNat ≤ partition.stop.toNat)
    (board : Watched φ) :
    Confined cells partition board (partition.inspect count addr board).2 := by
  induction count generalizing addr board with
  | zero => exact .refl board
  | succ count ih =>
      have hstop := partition.stop_le
      simp only [inspect]
      generalize hlength : min Settings.blankCheckBlock (partition.stop.toNat - addr.toNat) = length
      have hread : Confined cells partition board (Flash.read addr length board).2 :=
        .read hbegin (by omega) board
      split
      · exact hread
      · have hnext := toNat_add_toUInt32 (show addr.toNat + length ≤ partition.stop.toNat by omega)
        exact hread.trans (ih _ (by omega) (by omega) _)

theorem prepare_confined (hsector : 0 < sector)
    (hfits : partition.offset.toNat + partition.size.toNat ≤ UInt32.size) (board : Watched φ) :
    Confined cells partition board (partition.prepare board).2 := by
  have hsize : Flash.sectorSize board = sector := cells.sectorSize board.device
  simp only [prepare, hsize]
  split
  · exact .refl board
  · have hwipe := Confined.trans (.count board)
      (wipe_confined cells hsector hfits (Word.blocks partition.size.toNat sector.toNat) 0
        (by omega) partition.offset (fun _ => by omega) _)
    generalize wipe sector _ partition.offset (TickCounter.count board).2 = wiped at hwipe ⊢
    split
    · exact hwipe
    · have hinspect := hwipe.trans (inspect_confined cells partition
        (Word.blocks (partition.stop.toNat - partition.offset.toNat) Settings.blankCheckBlock)
        partition.offset (Nat.le_refl _) partition.offset_le_stop wiped.2)
      generalize partition.inspect _ partition.offset wiped.2 = inspected at hinspect ⊢
      split
      · exact hinspect
      · exact hinspect.trans (.count _)

theorem program_confined (hsector : 0 < sector) {addr : UInt32}
    (hbegin : partition.offset.toNat ≤ addr.toNat) (data : List UInt8) (board : Watched φ) :
    Confined cells partition board (partition.program addr data board).2 := by
  have hstop := partition.stop_le
  simp only [program]
  split
  · exact .refl board
  · have hwrite : Confined cells partition board (Flash.write addr data board).2 :=
      .write hsector hbegin (by omega) board
    split
    · exact hwrite.trans (.read hbegin (by omega) _)
    · exact hwrite

end Partition

variable {target : Target} {session : Session}

-- A cursor that is in the partition, or right behind it.
def InReach (partition : Partition) (cursor : UInt32) : Prop :=
  partition.offset.toNat ≤ cursor.toNat ∧ cursor.toNat ≤ partition.stop.toNat

omit [TickCounter φ] in
-- Bytes that were programmed well move the cursor within the partition.
theorem InReach.after_program {cursor : UInt32} {data : List UInt8}
    (h : InReach partition cursor) (hprogram : (partition.program cursor data board).1 = none) :
    InReach partition (cursor + data.length.toUInt32) := by
  have hstop := Partition.le_stop_of_program hprogram
  obtain ⟨hbegin, _⟩ := h
  rw [InReach, toNat_add_toUInt32 hstop]
  exact ⟨by omega, hstop⟩

theorem programPages_confined (hsector : 0 < sector) (count : Nat) (waiting : List UInt8)
    (hcount : count * target.page ≤ waiting.length) {cursor : UInt32}
    (hcursor : InReach target.partition cursor) (board : Watched φ) :
    InReach target.partition (target.programPages count waiting cursor board).1.2 ∧
      Confined cells target.partition board (target.programPages count waiting cursor board).2 := by
  induction count generalizing waiting cursor board with
  | zero => exact ⟨hcursor, .refl board⟩
  | succ count ih =>
      rw [Nat.succ_mul] at hcount
      have htake : (waiting.take target.page).length = target.page := by
        rw [List.length_take]
        omega
      have hprogram := Partition.program_confined cells hsector hcursor.1
        (waiting.take target.page) board
      simp only [Target.programPages]
      split
      · exact ⟨hcursor, hprogram⟩
      · rename_i hnone
        have hnext := hcursor.after_program hnone
        rw [htake] at hnext
        obtain ⟨hlast, hrest⟩ := ih (waiting.drop target.page)
          (by rw [List.length_drop]; omega) hnext _
        exact ⟨hlast, hprogram.trans hrest⟩

theorem finish_confined (hsector : 0 < sector) (waiting : List UInt8) {cursor : UInt32}
    (hcursor : InReach target.partition cursor) (board : Watched φ) :
    InReach target.partition (target.finish waiting cursor board).1.2 ∧
      Confined cells target.partition board (target.finish waiting cursor board).2 := by
  have hprogram := Partition.program_confined cells hsector hcursor.1 waiting board
  simp only [Target.finish]
  split
  · exact ⟨hcursor, .refl board⟩
  · split
    · exact ⟨hcursor, hprogram⟩
    · rename_i hnone
      exact ⟨hcursor.after_program hnone, hprogram⟩

-- A session keeps its cursor in the partition, and its calls.
theorem confined_law (hsector : 0 < sector) :
    SessionLaw target (fun session => InReach target.partition session.cursor)
      (Confined cells target.partition) where
  refl := .refl
  trans := .trans
  start := ⟨Nat.le_refl _, target.partition.offset_le_stop⟩
  append session bytes h := by
    rw [Session.append]
    split
    · exact h
    · exact h
  advance := by
    intro now next _ h hstep
    obtain ⟨token, _, rfl⟩ := Option.map_eq_some_iff.mp hstep
    cases token with
    | Skip count => exact ⟨h, .refl now.2⟩
    | Prepare =>
        refine ⟨?_, Partition.prepare_confined cells hsector target.fits now.2⟩
        simp only [take]
        cases (target.partition.prepare now.2).1 with
        | some failure => exact h
        | none => exact h
    | Copy count next left =>
        obtain ⟨hcursor, hconfined⟩ := programPages_confined cells hsector _
          (now.1.copied count next left).pending (Nat.div_mul_le_self _ target.page) h now.2
        refine ⟨?_, hconfined⟩
        rw [take, Session.flush, cursor_flushed]
        exact hcursor
    | Refuse failure => exact ⟨h, .refl now.2⟩
  close := by
    intro session board _ h
    obtain ⟨hcursor, hconfined⟩ := finish_confined cells hsector session.pending h board
    rw [Session.close]
    split
    · exact ⟨h, .refl board⟩
    · rw [cursor_flushed]
      exact ⟨hcursor, hconfined⟩

theorem Lawful.bytesWritten_le {updater : Updater}
    (h : Lawful target (fun session => InReach target.partition session.cursor) session updater
      board) :
    ∃ written, updater.bytesWritten = .ok written ∧ written ≤ target.partition.size := by
  obtain ⟨hbegin, hend⟩ := h.holds
  have hstop := target.partition.stop_le
  refine ⟨_, h.follows.bytesWritten_eq hbegin, ?_⟩
  rw [UInt32.le_iff_toNat_le, UInt32.toNat_sub_of_le _ _ (UInt32.le_iff_toNat_le.mpr hbegin)]
  omega

-- With pages that cannot be read back the flash is left alone.
theorem barren_law (partition : Partition) (μ : Type) [Logger μ]
    (hbad : ∀ device : φ, (Flash.pageSize device).toNat = 0 ∨
      Settings.maxPage < (Flash.pageSize device).toNat) :
    HostLaw μ (fun updater _ => Barren updater) (Confined cells partition) where
  refl := .refl
  trans := .trans
  serve := by
    intro call updater logged h
    refine (serve_unsupported hbad h call logged).mono ?_
    intro next after hends
    obtain ⟨hnext, hboard⟩ := hends
    rw [hboard]
    exact ⟨hnext, .refl _⟩

end

section

variable {φ μ : Type} [Flash φ] [TickCounter φ] [Logger μ] {sector : UInt32}

-- Whatever the host calls and whatever the flash answers, every call of the flash
-- stays in the partition, and what was written fits it.
theorem serveAll_confined (cells : Cells φ sector) (hsector : 0 < sector) (partition : Partition)
    (device : String) (hfits : partition.offset.toNat + partition.size.toNat ≤ UInt32.size)
    (page : UInt32) (hpage : ∀ device : φ, Flash.pageSize device = page) (calls : List HostCall)
    (logged : Logged (Watched φ) μ) :
    Run.Ends (Updater.serveAll calls (Updater.start partition device)) logged fun updater after =>
      (∃ written, updater.bytesWritten = .ok written ∧ written ≤ partition.size) ∧
        Confined cells partition logged.board after.board := by
  rcases unsupported_or_target partition device hfits page hpage with
    hbad | ⟨target, rfl, rfl, _, hsuits⟩
  · have hbarren := barren_start partition device
    refine ((barren_law cells partition μ hbad).serveAll calls hbarren).mono ?_
    intro updater after hends
    obtain ⟨hbarren, hconfined⟩ := hends
    exact ⟨⟨0, hbarren.bytesWritten_eq, Nat.zero_le _⟩, hconfined⟩
  · have hwatched : target.Suits (Watched φ) := fun board => hsuits board.device
    have hstart : Lawful target (fun session => InReach target.partition session.cursor)
        (Session.start target) (Updater.start target.partition target.device) logged.board :=
      lawful_start ⟨Nat.le_refl _, target.partition.offset_le_stop⟩ logged.board
    refine (((confined_law cells hsector).host hwatched).serveAll calls ⟨_, hstart⟩).mono ?_
    intro updater after hends
    obtain ⟨⟨session, hlast⟩, hconfined⟩ := hends
    exact ⟨hlast.bytesWritten_le, hconfined⟩

-- The cells outside the sectors of the partition are those that they were, and
-- with a partition of whole sectors those outside the partition. Writes and reads
-- stay in the partition itself.
theorem cells_outside_unchanged (cells : Cells φ sector) (hsector : 0 < sector)
    (partition : Partition) (device : String)
    (hfits : partition.offset.toNat + partition.size.toNat ≤ UInt32.size) (page : UInt32)
    (hpage : ∀ device : φ, Flash.pageSize device = page) (calls : List HostCall)
    (logged : Logged (Watched φ) μ) :
    Run.Ends (Updater.serveAll calls (Updater.start partition device)) logged fun updater after =>
      let first := partition.offset.toNat
      let sectors := Word.blocks partition.size.toNat sector.toNat
      (∀ place, place < first ∨ first + sectors * sector.toNat ≤ place →
        cells.cell after.board.device place = cells.cell logged.board.device place) ∧
      Made (∀ call ∈ ·, partition.Encloses sector call) logged.board after.board ∧
      (∃ written, updater.bytesWritten = .ok written ∧ written ≤ partition.size) ∧
      (sector.toNat ∣ partition.size.toNat →
        ∀ place, place < first ∨ first + partition.size.toNat ≤ place →
          cells.cell after.board.device place = cells.cell logged.board.device place) := by
  refine (serveAll_confined cells hsector partition device hfits page hpage calls logged).mono ?_
  intro updater after hends
  obtain ⟨hwritten, hconfined⟩ := hends
  refine ⟨hconfined.frame, hconfined.made, hwritten, ?_⟩
  intro hdivides place houtside
  rw [← Partition.sectorsEnd_of_dvd hsector hdivides] at houtside
  exact hconfined.frame place houtside

end

namespace Chip

variable {sector page : UInt32}

-- Only the cells that the bytes go to are changed.
theorem cell_store (chip : Chip sector page) (addr : Nat) (data : List UInt8) {place : Nat}
    (houtside : place < addr ∨ addr + data.length ≤ place) :
    (chip.store addr data).cell place = chip.cell place := by
  simp only [store]
  split
  · rfl
  · rw [List.getElem?_eq_none (by omega)]
    rfl

theorem cell_erase (chip : Chip sector page) (addr : UInt32) {place : Nat}
    (houtside : place < addr.toNat ∨ addr.toNat + sector.toNat ≤ place) :
    (Flash.erase addr chip).2.cell place = chip.cell place := by
  refine cell_store chip addr.toNat (List.replicate sector.toNat 0xff) ?_
  rwa [List.length_replicate]

theorem sectorSize_chip (chip : Chip sector page) : Flash.sectorSize chip = sector := rfl

def cells (sector page : UInt32) : Cells (Chip sector page) sector where
  cell := Chip.cell
  sectorSize := sectorSize_chip
  erase addr chip _ houtside := chip.cell_erase addr houtside
  write _ _ chip _ houtside := cell_store chip _ _ houtside
  read _ _ _ _ := rfl
  count _ _ := rfl

-- A partition of one sector and a half.
def ragged : Partition := { offset := 0x2000, size := 0x1800 }

end Chip

-- The host breaks off after the header of a file, when two sectors were erased.
theorem cells_outside_unchanged_ragged :
    Run.Ends (Updater.serveAll [.Open, .Data fileMagic, .Data [0x65, 0, 0, 0x18, 0], .Close, .Open]
        (Updater.start Chip.ragged "7a100t")) Chip.board fun _ after =>
      ∀ place, place < 0x2000 ∨ 0x4000 ≤ place → after.board.device.cell place = 0 := by
  refine (cells_outside_unchanged (Chip.cells 0x1000 256) (by decide) Chip.ragged "7a100t"
    (by decide) 256 (fun _ => rfl) _ Chip.board).mono ?_
  intro updater after hends
  obtain ⟨hframe, _⟩ := hends
  exact hframe

end BoardControl.Bitstream
