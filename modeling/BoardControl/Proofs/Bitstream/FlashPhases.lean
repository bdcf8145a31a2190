import BoardControl.Proofs.Bitstream.Calls
import BoardControl.Proofs.Bitstream.Preparation

namespace BoardControl.Bitstream

-- The flash is used in two phases, and the calls show which. First each sector
-- of the partition is erased and each byte of it is read, then pages are written
-- and read back.

-- Calls that erase `count` sectors in order, from an address on.
inductive Erased (sector : Nat) : (place count : Nat) → List FlashCall → Prop
  | done {place : Nat} : Erased sector place 0 []
  | next {place count : Nat} {addr : UInt32} {rest : List FlashCall} (haddr : addr.toNat = place)
      (hrest : Erased sector (place + sector) count rest) :
      Erased sector place (count + 1) (.Erase addr true :: rest)

-- Such calls as far as they came. The first erase that fails is the last one.
inductive Erasing (sector : Nat) : (place count : Nat) → List FlashCall → Prop
  | stopped {place count : Nat} : Erasing sector place count []
  | failed {place count : Nat} {addr : UInt32} (haddr : addr.toNat = place) :
      Erasing sector place (count + 1) [.Erase addr false]
  | next {place count : Nat} {addr : UInt32} {rest : List FlashCall} (haddr : addr.toNat = place)
      (hrest : Erasing sector (place + sector) count rest) :
      Erasing sector place (count + 1) (.Erase addr true :: rest)

-- Calls that read every byte between two addresses, in order, and find each one
-- blank.
inductive Blank : (place stop : Nat) → List FlashCall → Prop
  | done {stop : Nat} : Blank stop stop []
  | next {place stop : Nat} {addr : UInt32} {data : List UInt8} {rest : List FlashCall}
      (haddr : addr.toNat = place) (hblank : ∀ byte ∈ data, byte = 0xff)
      (hrest : Blank (place + data.length) stop rest) :
      Blank place stop (.Read addr data :: rest)

-- Such calls as far as they came. The first read that finds a used byte is the
-- last one.
inductive Checking : (place stop : Nat) → List FlashCall → Prop
  | stopped {place stop : Nat} : Checking place stop []
  | used {place stop : Nat} {addr : UInt32} {data : List UInt8} (haddr : addr.toNat = place)
      (hinside : place + data.length ≤ stop) (hused : ¬ ∀ byte ∈ data, byte = 0xff) :
      Checking place stop [.Read addr data]
  | next {place stop : Nat} {addr : UInt32} {data : List UInt8} {rest : List FlashCall}
      (haddr : addr.toNat = place) (hblank : ∀ byte ∈ data, byte = 0xff)
      (hrest : Checking (place + data.length) stop rest) :
      Checking place stop (.Read addr data :: rest)

-- Pages that were written, each one read back as it was written.
inductive Written : List FlashCall → Prop
  | done : Written []
  | next {addr : UInt32} {data back : List UInt8} {rest : List FlashCall} (hsame : data <+: back)
      (hrest : Written rest) : Written (.Write addr data true :: .Read addr back :: rest)

-- Such pages as far as they came. The first write that fails and the first page
-- that is read back otherwise is the last one.
inductive Writing : List FlashCall → Prop
  | stopped : Writing []
  | failed {addr : UInt32} {data : List UInt8} : Writing [.Write addr data false]
  | differs {addr : UInt32} {data back : List UInt8} (hdiffers : ¬ data <+: back) :
      Writing [.Write addr data true, .Read addr back]
  | next {addr : UInt32} {data back : List UInt8} {rest : List FlashCall} (hsame : data <+: back)
      (hrest : Writing rest) : Writing (.Write addr data true :: .Read addr back :: rest)

namespace Partition

-- The first address that is not looked at. The whole partition is, unless it reaches
-- the end of the address space.
def checkedUpTo (partition : Partition) : Nat :=
  min (partition.offset.toNat + partition.size.toNat) (UInt32.size - 1)

-- Every sector was erased, and then every byte was found blank. Sectors of no size
-- cover nothing.
def Prepared (partition : Partition) (sector : UInt32) (calls : List FlashCall) : Prop :=
  sector ≠ 0 ∧ ∃ erases reads, calls = erases ++ reads ∧
    Erased sector.toNat partition.offset.toNat
      (Word.blocks partition.size.toNat sector.toNat) erases ∧
    Blank partition.offset.toNat partition.checkedUpTo reads

-- The preparation as far as it came.
def Preparing (partition : Partition) (sector : UInt32) (calls : List FlashCall) : Prop :=
  Erasing sector.toNat partition.offset.toNat
      (Word.blocks partition.size.toNat sector.toNat) calls ∨
    ∃ erases reads, calls = erases ++ reads ∧
      Erased sector.toNat partition.offset.toNat
        (Word.blocks partition.size.toNat sector.toNat) erases ∧
      Checking partition.offset.toNat partition.checkedUpTo reads

end Partition

theorem Erased.erasing {sector place count : Nat} {calls : List FlashCall}
    (h : Erased sector place count calls) : Erasing sector place count calls := by
  induction h with
  | done => exact .stopped
  | next haddr _ ih => exact .next haddr ih

theorem Blank.checking {place stop : Nat} {calls : List FlashCall} (h : Blank place stop calls) :
    Checking place stop calls := by
  induction h with
  | done => exact .stopped
  | next haddr hblank _ ih => exact .next haddr hblank ih

theorem Written.writing {calls : List FlashCall} (h : Written calls) : Writing calls := by
  induction h with
  | done => exact .stopped
  | next hsame _ ih => exact .next hsame ih

theorem Written.append {one other : List FlashCall} (hone : Written one) (hother : Written other) :
    Written (one ++ other) := by
  induction hone with
  | done => exact hother
  | next hsame _ ih => exact .next hsame ih

theorem Written.append_writing {one other : List FlashCall} (hone : Written one)
    (hother : Writing other) : Writing (one ++ other) := by
  induction hone with
  | done => exact hother
  | next hsame _ ih => exact .next hsame ih

-- Nothing is written while the partition is prepared.

theorem Erasing.writes_eq {sector place count : Nat} {calls : List FlashCall}
    (h : Erasing sector place count calls) : writes calls = [] := by
  induction h with
  | stopped => rfl
  | failed => rfl
  | next _ _ ih => exact ih

theorem Checking.writes_eq {place stop : Nat} {calls : List FlashCall}
    (h : Checking place stop calls) : writes calls = [] := by
  induction h with
  | stopped => rfl
  | used => rfl
  | next _ _ _ ih => exact ih

theorem Partition.Prepared.preparing {partition : Partition} {sector : UInt32}
    {calls : List FlashCall} (h : partition.Prepared sector calls) :
    partition.Preparing sector calls := by
  obtain ⟨_, erases, reads, hcalls, herased, hblank⟩ := h
  exact .inr ⟨erases, reads, hcalls, herased, hblank.checking⟩

theorem Partition.Preparing.writes_eq {partition : Partition} {sector : UInt32}
    {calls : List FlashCall} (h : partition.Preparing sector calls) : writes calls = [] := by
  rcases h with herasing | ⟨erases, reads, rfl, herased, hchecking⟩
  · exact herasing.writes_eq
  · rw [writes_append, herased.erasing.writes_eq, hchecking.writes_eq]
    rfl

-- The calls between two boards, the later one with the longer list, are of a
-- kind.
def Made {φ : Type} (kind : List FlashCall → Prop) (board after : Watched φ) : Prop :=
  ∃ calls, after.calls = board.calls ++ calls ∧ kind calls

namespace Made

variable {φ : Type} {kind weaker : List FlashCall → Prop} {board middle after : Watched φ}

theorem none (h : kind []) : Made kind board board :=
  ⟨[], (List.append_nil _).symm, h⟩

theorem mono (h : Made kind board after) (himp : ∀ calls, kind calls → weaker calls) :
    Made weaker board after := by
  obtain ⟨calls, hcalls, hkind⟩ := h
  exact ⟨calls, hcalls, himp calls hkind⟩

-- Only the calls of a board count, not its device.
theorem congr {last : Watched φ} (h : Made kind middle after) (hboard : board.calls = middle.calls)
    (hlast : last.calls = after.calls) : Made kind board last := by
  obtain ⟨calls, hcalls, hkind⟩ := h
  exact ⟨calls, by rw [hlast, hboard, hcalls], hkind⟩

-- The first call comes before the others.
theorem cons {call : FlashCall} (h : Made kind middle after)
    (hcall : middle.calls = board.calls ++ [call])
    (hcons : ∀ rest, kind rest → weaker (call :: rest)) : Made weaker board after := by
  obtain ⟨rest, hrest, hkind⟩ := h
  exact ⟨call :: rest, by rw [hrest, hcall, List.append_assoc]; rfl, hcons rest hkind⟩

-- Calls that were made before and after a board are put together.
theorem append {first second : List FlashCall → Prop} (hfirst : Made first board middle)
    (hsecond : Made second middle after)
    (happend : ∀ one other, first one → second other → kind (one ++ other)) :
    Made kind board after := by
  obtain ⟨one, hone, hfirst⟩ := hfirst
  obtain ⟨other, hother, hsecond⟩ := hsecond
  exact ⟨one ++ other, by rw [hother, hone, List.append_assoc], happend one other hfirst hsecond⟩

end Made

section

variable {φ μ : Type} [Flash φ] [Logger μ]

namespace Partition

variable (partition : Partition)

theorem eraseSectors_leaves (sector : UInt32) (count index : Nat)
    (hcount : index + count < UInt32.size) (logged : Logged (Watched φ) μ) :
    Run.Leaves (partition.eraseSectors sector index count) logged
      (fun result after =>
        let place := partition.offset.toNat + index * sector.toNat
        match result with
        | .ok () => Made (Erased sector.toNat place count) logged.board after.board
        | .error _ => Made (Erasing sector.toNat place count) logged.board after.board)
      (fun after => Made (Erasing sector.toNat (partition.offset.toNat + index * sector.toNat) count)
        logged.board after.board) := by
  induction count generalizing index logged with
  | zero => exact Made.none .done
  | succ count ih =>
      have hindex := toNat_toUInt32 (show index < UInt32.size by omega)
      simp only [eraseSectors, Run.leaves_bind, Run.leaves_lift]
      refine ⟨?_, fun _ _ => .none .stopped⟩
      intro product hproduct
      refine ⟨?_, fun _ _ => .none .stopped⟩
      intro addr haddr
      rw [Word.mul_eq_ok_iff, hindex] at hproduct
      rw [Word.add_eq_ok_iff, hproduct] at haddr
      apply Logged.leaves_of_log
      intro next hnext
      simp only [Run.leaves_bind, Run.leaves_perform, Logged.erase_answer, hnext]
      have hplace : partition.offset.toNat + index * sector.toNat + sector.toNat =
          partition.offset.toNat + (index + 1) * sector.toNat := by
        rw [Nat.succ_mul, Nat.add_assoc]
      have hcall : (Flash.erase addr next).2.board.calls =
          logged.board.calls ++ [.Erase addr (Flash.erase addr logged.board).1] := by
        rw [Logged.board_erase, hnext]
        rfl
      by_cases herase : (Flash.erase addr logged.board).1
      · rw [if_pos herase]
        rw [herase] at hcall
        refine Run.Leaves.mono (ih (index + 1) (by omega) _) ?_ ?_
        · intro result after hrest
          cases result with
          | ok _ => exact hrest.cons hcall fun _ hrest => .next haddr (hplace ▸ hrest)
          | error _ => exact hrest.cons hcall fun _ hrest => .next haddr (hplace ▸ hrest)
        · intro after hrest
          exact hrest.cons hcall fun _ hrest => .next haddr (hplace ▸ hrest)
      · rw [Bool.not_eq_true] at herase
        rw [herase] at hcall
        simp only [herase, Bool.false_eq_true, if_false, Run.leaves_bind, Run.leaves_perform,
          Run.leaves_pure, Logged.board_log]
        exact ⟨_, hcall, .failed haddr⟩

-- The blocks reach the end of what is checked.
theorem checkBlank_leaves (count : Nat) (addr : UInt32) (haddr : addr.toNat ≤ partition.stop.toNat)
    (hcount : partition.stop.toNat ≤ addr.toNat + count * Settings.blankCheckBlock)
    (logged : Logged (Watched φ) μ) :
    Run.Leaves (partition.checkBlank addr count) logged
      (fun result after =>
        match result with
        | .ok () => Made (Blank addr.toNat partition.stop.toNat) logged.board after.board
        | .error _ => Made (Checking addr.toNat partition.stop.toNat) logged.board after.board)
      (fun after => Made (Checking addr.toNat partition.stop.toNat) logged.board after.board) := by
  induction count generalizing addr logged with
  | zero =>
      have hend : addr.toNat = partition.stop.toNat := by omega
      refine Made.none ?_
      rw [hend]
      exact .done
  | succ count ih =>
      have hstop := partition.stop.toNat_lt_size
      rw [Nat.succ_mul] at hcount
      simp only [checkBlank]
      generalize hlength : min Settings.blankCheckBlock (partition.stop.toNat - addr.toNat) = length
      apply Logged.leaves_of_log
      intro next hnext
      simp only [Run.leaves_bind, Run.leaves_perform, Logged.read_answer, hnext]
      have hcall : (Flash.read addr length next).2.board.calls = logged.board.calls ++
          [.Read addr (Flash.read addr length logged.board).1.toList] := by
        rw [Logged.board_read, hnext]
        rfl
      have hread : (Flash.read addr length logged.board).1.toList.length = length :=
        Vector.length_toList ..
      generalize (Flash.read addr length logged.board).1.toList = block at hcall hread ⊢
      cases hused : firstUsed block with
      | some used =>
          have hsome : ¬ ∀ byte ∈ block, byte = 0xff := by
            intro hblank
            rw [firstUsed_eq_none_iff.mpr hblank] at hused
            cases hused
          have hchecking : Checking addr.toNat partition.stop.toNat [.Read addr block] :=
            .used rfl (by omega) hsome
          simp only [Run.leaves_bind, Run.leaves_lift, Run.leaves_perform, Run.leaves_pure,
            Logged.board_log]
          exact ⟨fun _ _ => ⟨_, hcall, hchecking⟩, fun _ _ => ⟨_, hcall, hchecking⟩⟩
      | none =>
          have hblank := firstUsed_eq_none_iff.mp hused
          simp only [Run.leaves_bind, Run.leaves_lift]
          refine ⟨?_, fun _ _ => ⟨_, hcall, .next rfl hblank .stopped⟩⟩
          intro after hafter
          rw [Word.add_eq_ok_iff, toNat_toUInt32 (by omega)] at hafter
          have hplace : after.toNat = addr.toNat + block.length := by rw [hafter, hread]
          refine Run.Leaves.mono (ih after (by omega) (by omega) _) ?_ ?_
          · intro result last hrest
            cases result with
            | ok _ => exact hrest.cons hcall fun _ hrest => .next rfl hblank (hplace ▸ hrest)
            | error _ => exact hrest.cons hcall fun _ hrest => .next rfl hblank (hplace ▸ hrest)
          · intro last hrest
            exact hrest.cons hcall fun _ hrest => .next rfl hblank (hplace ▸ hrest)

theorem stop_eq_checkedUpTo : partition.stop.toNat = partition.checkedUpTo :=
  Word.toNat_addSaturating ..

-- Either the partition is prepared or the preparation has failed.
theorem erase_leaves [TickCounter φ] (logged : Logged (Watched φ) μ) :
    Run.Leaves partition.erase logged
      (fun result after =>
        let sector := Flash.sectorSize logged.board
        match result with
        | .ok () => Made (partition.Prepared sector) logged.board after.board
        | .error _ => Made (partition.Preparing sector) logged.board after.board)
      (fun after =>
        Made (partition.Preparing (Flash.sectorSize logged.board)) logged.board after.board) := by
  simp only [erase, Run.leaves_bind, Run.leaves_get, Logged.sectorSize_eq]
  generalize hsector : Flash.sectorSize logged.board = sector
  by_cases hzero : sector = 0
  · simp only [if_pos hzero, Run.leaves_bind, Run.leaves_perform, Run.leaves_pure,
      Logged.board_log]
    exact .none (.inl .stopped)
  · have hpos : 0 < sector.toNat := Nat.pos_of_ne_zero (hzero <| UInt32.toNat_inj.mp ·)
    have hsectors := blocks_lt hpos partition.size.toNat_lt_size
    simp only [if_neg hzero, Run.leaves_bind, Run.leaves_perform]
    refine Run.Leaves.mono (partition.eraseSectors_leaves sector _ 0 (by omega) _) ?_ ?_
    · intro result middle herase
      simp only [Logged.board_log, Logged.board_count, Nat.zero_mul, Nat.add_zero] at herase
      cases result with
      | error _ => exact (herase.congr rfl rfl).mono fun _ => .inl
      | ok _ =>
          have hcovers : partition.stop.toNat - partition.offset.toNat ≤ _ :=
            le_blocks_mul (show 0 < Settings.blankCheckBlock by decide)
          simp only [Run.leaves_bind]
          refine Run.Leaves.mono (partition.checkBlank_leaves _ partition.offset
            partition.offset_le_stop (by omega) middle) ?_ ?_
          · intro result last hcheck
            rw [stop_eq_checkedUpTo] at hcheck
            cases result with
            | error _ =>
                refine (herase.append hcheck ?_).congr rfl rfl
                intro erases reads herased hchecking
                exact .inr ⟨erases, reads, rfl, herased, hchecking⟩
            | ok _ =>
                simp only [Run.leaves_bind, Run.leaves_perform, Run.leaves_pure, Logged.board_log]
                refine (herase.append hcheck ?_).congr rfl rfl
                intro erases reads herased hblank
                exact ⟨hzero, erases, reads, rfl, herased, hblank⟩
          · intro last hcheck
            rw [stop_eq_checkedUpTo] at hcheck
            refine (herase.append hcheck ?_).congr rfl rfl
            intro erases reads herased hchecking
            exact .inr ⟨erases, reads, rfl, herased, hchecking⟩
    · intro middle herase
      simp only [Logged.board_log, Logged.board_count, Nat.zero_mul, Nat.add_zero] at herase
      exact (herase.congr rfl rfl).mono fun _ => .inl

end Partition

namespace PageWriter

theorem board_pageSize (logged : Logged (Watched φ) μ) :
    (pageSize logged).2.board = logged.board := by
  simp only [pageSize, Action.bind_apply]
  split
  · exact Logged.board_log ..
  · rfl

theorem programBlock_leaves (writer : PageWriter) (length : Nat) (logged : Logged (Watched φ) μ) :
    Run.Leaves (writer.programBlock length) logged
      (fun result after =>
        match result with
        | .ok next =>
            next.partition = writer.partition ∧ Made Written logged.board after.board
        | .error _ => Made Writing logged.board after.board)
      (fun after => Made Writing logged.board after.board) := by
  have hfront := writer.pending.length_front length
  simp only [programBlock]
  generalize writer.pending.front length = data at hfront ⊢
  split
  · simp only [Run.leaves_bind, Run.leaves_perform, Run.leaves_pure, Logged.board_log]
    exact .none .stopped
  · apply Logged.leaves_of_log
    intro next hnext
    simp only [Run.leaves_bind, Run.leaves_perform, Logged.write_answer, hnext]
    have hwritten : (Flash.write writer.cursor data next).2.board.calls = logged.board.calls ++
        [.Write writer.cursor data (Flash.write writer.cursor data logged.board).1] := by
      rw [Logged.board_write, hnext]
      rfl
    by_cases hwrite : (Flash.write writer.cursor data logged.board).1
    · rw [hwrite] at hwritten
      simp only [hwrite, if_true, Run.leaves_bind, Run.leaves_perform]
      generalize (Flash.write writer.cursor data next).2 = middle at hwritten ⊢
      have hread : (Flash.read writer.cursor length middle).2.board.calls = logged.board.calls ++
          [.Write writer.cursor data true,
            .Read writer.cursor (Flash.read writer.cursor length middle).1.toList] := by
        rw [Logged.board_read, Watched.calls_read, hwritten, List.append_assoc]
        rfl
      have hlength : (Flash.read writer.cursor length middle).1.toList.length = length :=
        Vector.length_toList ..
      generalize (Flash.read writer.cursor length middle).1.toList = back at hread hlength ⊢
      have hbegins := prefix_iff_firstDifference (show data.length ≤ back.length by omega)
      cases hdifference : firstDifference data back with
      | some difference =>
          have hdiffers : ¬ data <+: back := by
            rw [hbegins, hdifference]
            exact Option.some_ne_none difference
          simp only [Run.leaves_bind, Run.leaves_lift, Run.leaves_perform, Run.leaves_pure,
            Logged.board_log]
          exact ⟨fun _ _ => ⟨_, hread, .differs hdiffers⟩, fun _ _ => ⟨_, hread, .differs hdiffers⟩⟩
      | none =>
          have hsame := hbegins.mpr hdifference
          simp only [Run.leaves_bind, Run.leaves_lift, Run.leaves_pure]
          exact ⟨fun _ _ => ⟨trivial, _, hread, .next hsame .done⟩,
            fun _ _ => ⟨_, hread, .next hsame .stopped⟩⟩
    · rw [Bool.not_eq_true] at hwrite
      rw [hwrite] at hwritten
      simp only [hwrite, Bool.false_eq_true, if_false, Run.leaves_bind, Run.leaves_perform,
        Run.leaves_pure, Logged.board_log]
      exact ⟨_, hwritten, .failed⟩

-- What any number of pages does to a writer and to the flash.
def Wrote (writer : PageWriter) (board : Watched φ) (result : PageWriter × Option UpdateError)
    (after : Watched φ) : Prop :=
  result.1.partition = writer.partition ∧
    match result.2 with
    | none => Made Written board after
    | some _ => Made Writing board after

omit [Flash φ] in
-- Pages come after other pages.
theorem Wrote.after {writer next : PageWriter} {board middle after : Watched φ}
    {result : PageWriter × Option UpdateError} (hfirst : Made Written board middle)
    (hpartition : next.partition = writer.partition) (h : next.Wrote middle result after) :
    writer.Wrote board result after := by
  obtain ⟨hsame, hrest⟩ := h
  refine ⟨hsame.trans hpartition, ?_⟩
  cases hfailure : result.2 with
  | none =>
      rw [hfailure] at hrest
      exact hfirst.append hrest fun _ _ => Written.append
  | some _ =>
      rw [hfailure] at hrest
      exact hfirst.append hrest fun _ _ => Written.append_writing

theorem programPages_leaves (page count : Nat) (writer : PageWriter)
    (logged : Logged (Watched φ) μ) :
    Run.Leaves (programPages page count writer) logged
      (fun result after => writer.Wrote logged.board result after.board)
      (fun after => Made Writing logged.board after.board) := by
  induction count generalizing writer logged with
  | zero => exact ⟨rfl, .none .done⟩
  | succ count ih =>
      simp only [programPages, Run.leaves_bind]
      refine Run.Leaves.mono (writer.programBlock_leaves page logged) ?_ fun _ => id
      intro result middle hblock
      cases result with
      | error _ => exact ⟨rfl, hblock⟩
      | ok next =>
          obtain ⟨hpartition, hmade⟩ := hblock
          refine Run.Leaves.mono (ih next middle) ?_ ?_
          · intro result after hrest
            exact hrest.after hmade hpartition
          · intro after hrest
            exact hmade.append hrest fun _ _ => Written.append_writing

theorem flushPages_leaves (writer : PageWriter) (logged : Logged (Watched φ) μ) :
    Run.Leaves writer.flushPages logged
      (fun result after => writer.Wrote logged.board result after.board)
      (fun after => Made Writing logged.board after.board) := by
  simp only [flushPages, Run.leaves_bind, Run.leaves_perform]
  cases (pageSize logged).1 with
  | error _ =>
      simp only [Run.leaves_pure, board_pageSize]
      exact ⟨rfl, .none .stopped⟩
  | ok page =>
      have hpages := programPages_leaves page (writer.pending.length / page) writer
        (pageSize logged).2
      rwa [board_pageSize] at hpages

theorem flushAll_leaves (writer : PageWriter) (logged : Logged (Watched φ) μ) :
    Run.Leaves writer.flushAll logged
      (fun result after => writer.Wrote logged.board result after.board)
      (fun after => Made Writing logged.board after.board) := by
  simp only [flushAll, Run.leaves_bind]
  refine Run.Leaves.mono (writer.flushPages_leaves logged) ?_ fun _ => id
  intro result middle hpages
  obtain ⟨next, failure⟩ := result
  cases failure with
  | some _ => exact hpages
  | none =>
      obtain ⟨hpartition, hmade⟩ := hpages
      simp only
      split
      · simp only [Run.leaves_bind]
        refine Run.Leaves.mono (next.programBlock_leaves _ middle) ?_ ?_
        · intro result after hblock
          cases result with
          | error _ =>
              exact ⟨hpartition, hmade.append hblock fun _ _ => Written.append_writing⟩
          | ok last =>
              obtain ⟨hlast, hwritten⟩ := hblock
              exact ⟨hlast.trans hpartition, hmade.append hwritten fun _ _ => Written.append⟩
        · intro after hrest
          exact hmade.append hrest fun _ _ => Written.append_writing
      · exact ⟨hpartition, hmade⟩

-- With nothing waiting no page is written, and only the page size is asked for.

theorem flushPages_leaves_of_empty {writer : PageWriter} (hempty : writer.pending.length = 0)
    (logged : Logged (Watched φ) μ) :
    Run.Leaves writer.flushPages logged
      (fun result after => result.1 = writer ∧ after.board = logged.board) fun _ => False := by
  simp only [flushPages, Run.leaves_bind, Run.leaves_perform, hempty, Nat.zero_div]
  cases (pageSize logged).1 with
  | error _ => exact ⟨rfl, board_pageSize logged⟩
  | ok page => exact ⟨rfl, board_pageSize logged⟩

theorem flushAll_leaves_of_empty {writer : PageWriter} (hempty : writer.pending.length = 0)
    (logged : Logged (Watched φ) μ) :
    Run.Leaves writer.flushAll logged
      (fun result after => result.1 = writer ∧ after.board = logged.board) fun _ => False := by
  simp only [flushAll, Run.leaves_bind]
  refine Run.Leaves.mono (flushPages_leaves_of_empty hempty logged) ?_ fun _ => id
  intro result middle hpages
  obtain ⟨next, failure⟩ := result
  obtain ⟨hnext, hboard⟩ := hpages
  obtain rfl : next = writer := hnext
  cases failure with
  | some _ => exact ⟨rfl, hboard⟩
  | none =>
      simp only [hempty, Nat.lt_irrefl, if_false]
      exact ⟨rfl, hboard⟩

end PageWriter

end

end BoardControl.Bitstream
