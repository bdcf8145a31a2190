import BoardControl.Proofs.Bitstream.Acceptance
import BoardControl.Proofs.Bitstream.Gates
import BoardControl.Proofs.Bitstream.Ledger

namespace BoardControl.Bitstream

open Session

namespace Partition

-- How many bytes of a partition are checked and can be programmed. These are all of
-- them, but for the byte at the highest address: no address comes after it.
def usable (partition : Partition) : Nat :=
  if partition.offset.toNat + partition.size.toNat < UInt32.size then partition.size.toNat
  else partition.size.toNat - 1

section

variable {partition : Partition}

theorem checkedUpTo_eq_usable
    (hfits : partition.offset.toNat + partition.size.toNat ≤ UInt32.size) :
    partition.checkedUpTo = partition.offset.toNat + partition.usable := by
  have hoffset := partition.offset.toNat_lt_size
  rw [checkedUpTo, usable]
  by_cases hinside : partition.offset.toNat + partition.size.toNat < UInt32.size
  · rw [if_pos hinside]
    omega
  · rw [if_neg hinside]
    omega

theorem stop_eq_usable (hfits : partition.offset.toNat + partition.size.toNat ≤ UInt32.size) :
    partition.stop.toNat = partition.offset.toNat + partition.usable :=
  partition.stop_eq_checkedUpTo.trans (checkedUpTo_eq_usable hfits)

theorem program_of_over {σ : Type} [Flash σ] {addr : UInt32} {data : List UInt8} (board : σ)
    (hover : partition.stop.toNat < addr.toNat + data.length) :
    partition.program addr data board = (some (.WriteOutOfBounds addr), board) :=
  if_pos hover

-- A partition that was made ready was erased and checked.
theorem prepared_of_prepare {φ : Type} [Flash φ] [TickCounter φ] {board ready : Watched φ}
    (hfits : partition.offset.toNat + partition.size.toNat ≤ UInt32.size)
    (hready : partition.prepare board = (none, ready)) :
    Made (partition.Prepared (Flash.sectorSize board)) board ready := by
  let logged : Logged (Watched φ) Unit := ⟨board, ()⟩
  obtain ⟨result, after, hrun, hboard, hresult⟩ := partition.erase_ends hfits logged
  have hmade := (partition.erase_leaves logged).of_eq_ok hrun
  rw [hready] at hboard hresult
  rw [hresult, hboard] at hmade
  exact hmade

end

end Partition

-- Pages up to the first one that went wrong, if one did.
def Pages (result : Except UpdateError (List UInt8)) (calls : List FlashCall) : Prop :=
  match result with
  | .ok _ => Written calls
  | .error _ => Writing calls

section

variable {partition : Partition} {addr : UInt32} {data : List UInt8} {calls : List FlashCall}

theorem Page.written (h : Page partition addr data calls none) : Written calls := by
  cases h with
  | verified => exact .next List.prefix_rfl .done

theorem Page.writing {failure : UpdateError} (h : Page partition addr data calls (some failure)) :
    Writing calls := by
  cases h with
  | outside => exact .stopped
  | unwritten => exact .failed
  | differs _ hdata _ hne =>
      refine .differs fun hsame => hne ?_
      rw [hdata, List.prefix_append_right_inj, List.cons_prefix_cons] at hsame
      exact hsame.1

theorem Written.pages {result : Except UpdateError (List UInt8)} {one other : List FlashCall}
    (hone : Written one) (hother : Pages result other) : Pages result (one ++ other) := by
  cases result with
  | ok _ => exact hone.append hother
  | error _ => exact hone.append_writing hother

theorem Pages.writing {result : Except UpdateError (List UInt8)} (h : Pages result calls) :
    Writing calls := by
  cases result with
  | ok _ => exact Written.writing h
  | error _ => exact h

end

section

variable {φ : Type} [Flash φ] (target : Target)

theorem Target.flush_pages (waiting : List UInt8) (cursor : UInt32) (board : Watched φ) :
    Made (Pages (target.flush waiting cursor board).1.1) board
      (target.flush waiting cursor board).2 := by
  induction hlength : waiting.length using Nat.strongRecOn generalizing waiting cursor board with
  | _ length ih =>
      by_cases hshort : waiting.length < target.page
      · rw [target.flush_of_short cursor board hshort]
        exact .none .done
      · have hfull : target.page ≤ waiting.length := Nat.le_of_not_lt hshort
        have hpos := target.page_pos
        have hpage := target.partition.program_page cursor (waiting.take target.page) board
        rw [target.flush_of_full cursor board hfull]
        simp only
        cases hprogram : (target.partition.program cursor (waiting.take target.page) board).1 with
        | some failure =>
            rw [hprogram] at hpage
            exact hpage.mono fun _ => Page.writing
        | none =>
            rw [hprogram] at hpage
            have hrest := ih _ (by rw [List.length_drop]; omega) (waiting.drop target.page)
              (cursor + target.page.toUInt32)
              (target.partition.program cursor (waiting.take target.page) board).2 rfl
            exact hpage.append hrest fun _ _ hfirst => hfirst.written.pages

theorem Target.finish_pages (waiting : List UInt8) (cursor : UInt32) (board : Watched φ) :
    Made (Pages (target.finish waiting cursor board).1.1) board
      (target.finish waiting cursor board).2 := by
  rw [Target.finish]
  by_cases hnone : waiting = []
  · rw [if_pos hnone]
    exact .none .done
  · rw [if_neg hnone]
    have hpage := target.partition.program_page cursor waiting board
    simp only
    cases hprogram : (target.partition.program cursor waiting board).1 with
    | some failure =>
        rw [hprogram] at hpage
        exact hpage.mono fun _ => Page.writing
    | none =>
        rw [hprogram] at hpage
        exact hpage.mono fun _ => Page.written

-- Closing a session writes pages behind those that were written before.
theorem close_writing [TickCounter φ] (session : Session) (board : Watched φ) :
    let flushed := session.flush target board
    Made Writing board (flushed.1.close target flushed.2).2 := by
  have hflush := target.flush_pages session.pending session.cursor board
  rcases hresult : target.flush session.pending session.cursor board with
    ⟨⟨failure | rest, next⟩, after⟩
  · rw [hresult] at hflush
    simp only [Session.flush, hresult, flushed, failed, Session.close, if_true]
    exact hflush.mono fun _ => Pages.writing
  · rw [hresult] at hflush
    simp only [Session.flush, hresult, flushed, Session.close]
    by_cases hfailed : session.phase = .Failed
    · rw [if_pos hfailed]
      exact hflush.mono fun _ => Pages.writing
    · rw [if_neg hfailed]
      exact hflush.append (target.finish_pages rest next after) fun _ _ hwritten hpages =>
        (Written.pages hwritten hpages).writing

end

section

variable {σ : Type} [Flash σ] [TickCounter σ] {target : Target} (flash : Faithful σ target)

-- Bytes that go beyond the partition: the pages that fit are programmed, and the next
-- one is refused, when it is full or when the session is closed.
theorem Faithful.flush_over (pages : Nat) (waiting : List UInt8) (cursor : UInt32) (board : σ)
    (hpages : (target.partition.stop.toNat - cursor.toNat) / target.page = pages)
    (hcursor : cursor.toNat ≤ target.partition.stop.toNat)
    (hover : target.partition.stop.toNat < cursor.toNat + waiting.length) :
    ∃ (bad : UInt32) (after : σ), bad.toNat = cursor.toNat + pages * target.page ∧
      Stores flash.capacity (flash.cell board) (flash.cell after) cursor.toNat
        (waiting.take (pages * target.page)) ∧
      (target.flush waiting cursor board = ((.error (.WriteOutOfBounds bad), bad), after) ∨
        ∃ rest, target.flush waiting cursor board = ((.ok rest, bad), after) ∧
          target.finish rest bad after = ((.error (.WriteOutOfBounds bad), bad), after)) := by
  have hpos := target.page_pos
  induction pages generalizing waiting cursor board with
  | zero =>
      have hroom := Nat.lt_of_div_eq_zero hpos hpages
      rw [Nat.zero_mul, List.take_zero]
      refine ⟨cursor, board, rfl, Stores.nil _ _ _, ?_⟩
      by_cases hshort : waiting.length < target.page
      · refine .inr ⟨waiting, target.flush_of_short cursor board hshort, ?_⟩
        have hsome : waiting ≠ [] := by
          intro hnone
          rw [hnone, List.length_nil] at hover
          omega
        rw [Target.finish, if_neg hsome, Partition.program_of_over board hover]
      · have hfull : target.page ≤ waiting.length := Nat.le_of_not_lt hshort
        refine .inl ?_
        rw [target.flush_of_full cursor board hfull, Partition.program_of_over board (by
          rw [List.length_take]
          omega)]
  | succ pages ih =>
      have hroom : target.page ≤ target.partition.stop.toNat - cursor.toNat := by
        refine Nat.le_of_not_lt fun hlt => ?_
        rw [Nat.div_eq_of_lt hlt] at hpages
        cases hpages
      have hfull : target.page ≤ waiting.length := by omega
      have htake : (waiting.take target.page).length = target.page := by
        rw [List.length_take]
        omega
      have hnext := toNat_add_toUInt32
        (show cursor.toNat + target.page ≤ target.partition.stop.toNat by omega)
      have hleft : (target.partition.stop.toNat - (cursor + target.page.toUInt32).toNat) /
          target.page = pages := by
        rw [Nat.div_eq_sub_div hpos hroom] at hpages
        rw [hnext, ← Nat.sub_sub]
        exact Nat.succ.inj hpages
      obtain ⟨middle, hprogram, hfirst⟩ :=
        flash.program cursor (waiting.take target.page) board (by omega)
      obtain ⟨bad, after, hbad, hstores, hends⟩ := ih (waiting.drop target.page)
        (cursor + target.page.toUInt32) middle hleft (by omega)
        (by rw [List.length_drop]; omega)
      rw [hnext] at hbad hstores
      refine ⟨bad, after, ?_, ?_, ?_⟩
      · rw [hbad, Nat.succ_mul]
        omega
      · rw [Nat.succ_mul, Nat.add_comm (pages * target.page), List.take_add]
        refine hfirst.append ?_
        rw [htake]
        exact hstores
      · rw [target.flush_of_full cursor board hfull, hprogram]
        exact hends

-- A body that is too long for the partition fails the session with the page that does
-- not fit.
theorem closed_of_long_file (file : File target) (bulkLeft : UInt32) (more : List UInt8)
    {board ready : σ} (hready : Stores flash.capacity (flash.cell board) (flash.cell ready)
      target.partition.offset.toNat (List.replicate flash.erased 0xff))
    (hover : target.partition.stop.toNat <
      target.partition.offset.toNat + file.body.length) {kept : Nat}
    (hkept : kept = (target.partition.stop.toNat - target.partition.offset.toNat) /
      target.page * target.page) :
    let flushed := (file.read bulkLeft more).flush target ready
    let ended := flushed.1.close target flushed.2
    ∃ bad : UInt32, bad.toNat = target.partition.offset.toNat + kept ∧
      ended.1 = failed (.WriteOutOfBounds bad) bad ∧
        Stores flash.capacity (flash.cell board) (flash.cell ended.2)
          target.partition.offset.toNat
          (file.body.take kept ++ List.replicate (flash.erased - kept) 0xff) := by
  obtain ⟨bad, after, hbad, hstores, hends⟩ := flash.flush_over _ file.body
    target.partition.offset ready rfl target.partition.offset_le_stop hover
  have hroom := Nat.div_mul_le_self
    (target.partition.stop.toNat - target.partition.offset.toNat) target.page
  rw [← hkept] at hbad hstores hroom
  have hlength : (file.body.take kept).length = kept := by
    rw [List.length_take]
    omega
  have hclose : let flushed := (file.read bulkLeft more).flush target ready
      flushed.1.close target flushed.2 = (failed (.WriteOutOfBounds bad) bad, after) := by
    obtain hflush | ⟨rest, hflush, hfinish⟩ := hends
    · simp [Session.flush, File.read, hflush, Session.close, flushed, failed]
    · simp [Session.flush, File.read, hflush, Session.close, flushed, hfinish]
  simp only at hclose ⊢
  rw [hclose]
  have hstored := hready.overwrite hstores (by
    have herased := flash.size_le_erased
    have hstop := target.partition.stop_le
    rw [hlength]
    omega)
  rw [hlength] at hstored
  exact ⟨bad, hbad, rfl, hstored⟩

end

section

variable {φ μ : Type} [Flash φ] [TickCounter φ] [Logger μ] {target : Target}

-- What becomes of a file. After the preparation its pages are written up to the end of
-- what is usable, and the page that goes beyond it is refused.
structure Faithful.Outcome (flash : Faithful φ target) (file : File target)
    (board after : Watched φ) (closed : Updater) : Prop where
  made : Made (target.partition.Programming flash.sector) board after
  fits (hfits : file.body.length ≤ target.partition.usable) :
    flash.Ended board.device after.device closed none file.body
  exceeds (hover : target.partition.usable < file.body.length) :
    ∃ bad : UInt32,
      bad.toNat = target.partition.offset.toNat +
        target.partition.usable / target.page * target.page ∧
      flash.Ended board.device after.device closed (some (.WriteOutOfBounds bad))
        (file.body.take (target.partition.usable / target.page * target.page))

section

variable {flash : Faithful φ target} {file : File target} {board after : Watched φ}
  {closed : Updater}

theorem Faithful.Outcome.done_iff (h : flash.Outcome file board after closed) :
    closed.phase = .Done ↔ file.body.length ≤ target.partition.usable := by
  constructor
  · intro hdone
    refine Nat.le_of_not_lt fun hover => ?_
    obtain ⟨bad, -, hended⟩ := h.exceeds hover
    rw [hended.phase_eq] at hdone
    cases hdone
  · intro hfits
    exact (h.fits hfits).phase_eq

theorem Faithful.Outcome.out_of_bounds_iff (h : flash.Outcome file board after closed) :
    (∃ bad, closed.lastError = some (.WriteOutOfBounds bad)) ↔
      target.partition.usable < file.body.length := by
  constructor
  · intro hfailed
    obtain ⟨bad, hbad⟩ := hfailed
    refine Nat.lt_of_not_le fun hfits => ?_
    rw [(h.fits hfits).error_eq] at hbad
    cases hbad
  · intro hover
    obtain ⟨bad, -, hended⟩ := h.exceeds hover
    exact ⟨bad, hended.error_eq⟩

end

theorem session_of_file (flash : Faithful φ target) (hsuits : target.Suits φ) {updater : Updater}
    (hpartition : updater.writer.partition = target.partition)
    (hdevice : updater.device = target.device) {chunks : List (List UInt8)} (file : File target)
    (hfile : file.bytes <+: chunks.flatten) (logged : Logged (Watched φ) μ) :
    Run.Ends (updater.session chunks true) logged fun closed after =>
      flash.Outcome file logged.board after.board closed := by
  have hwatched : target.Suits (Watched φ) := fun board => hsuits board.device
  have hstop := Partition.stop_eq_usable target.fits
  obtain ⟨closed, after, hrun, last, left, hsettles, hfollows, hboard, hwritten⟩ :=
    session_ends hwatched hpartition hdevice chunks true logged
  rw [if_pos rfl] at hfollows hboard hwritten
  obtain ⟨more, hmore⟩ := id hfile
  rw [← hmore] at hsettles
  obtain ⟨ready, hready, hstores⟩ := flash.watched.prepare logged.board
  obtain ⟨bulkLeft, hread⟩ := settled_of_prepared file hready hsettles
  refine Run.ends_of_eq hrun ⟨?_, fun hfits => ?_, fun hover => ?_⟩
  · have hprepared := Partition.prepared_of_prepare target.fits hready
    have hpages := close_writing target (file.read bulkLeft more) ready
    have hsector : Flash.sectorSize logged.board = flash.sector :=
      flash.sectorSize_eq logged.board.device
    rw [hsector] at hprepared
    simp only [hread] at hpages
    rw [hboard]
    exact hprepared.append hpages fun preparation pages hbefore hbehind =>
      ⟨preparation, pages, rfl, hbefore, hbehind⟩
  · exact (session_of_fitting_file flash hsuits hpartition hdevice file hfile (by omega)
      logged).of_eq_ok hrun
  · have hroom : target.partition.stop.toNat - target.partition.offset.toNat =
        target.partition.usable := by omega
    have hclosed := closed_of_long_file flash.watched file bulkLeft more hstores (by omega) rfl
    simp only [hread, hroom] at hclosed
    obtain ⟨bad, hbad, hfailed, hstored⟩ := hclosed
    have hlength : (file.body.take (target.partition.usable / target.page * target.page)).length =
        target.partition.usable / target.page * target.page := by
      have hle := Nat.div_mul_le_self target.partition.usable target.page
      rw [List.length_take]
      omega
    rw [hfailed] at hfollows hwritten
    refine ⟨bad, hbad, hfollows.phase, hfollows.lastError, ⟨_, hwritten, ?_⟩, ?_⟩
    · rw [hlength]
      exact toNat_sub_offset hbad
    · rw [hboard, hlength]
      exact hstored

-- All bytes of a partition are erased, and the usable ones are checked and can be
-- programmed. These are all of them, but for the last one of a partition that ends with
-- the address space. A session fails with a page out of bounds if the body is longer,
-- and only then.
theorem usable_bytes_checked_and_programmed (flash : Faithful φ target)
    (hsuits : target.Suits φ) (updater : Updater)
    (hpartition : updater.writer.partition = target.partition)
    (hdevice : updater.device = target.device) (chunks : List (List UInt8)) (file : File target)
    (hfile : file.bytes <+: chunks.flatten) (logged : Logged (Watched φ) μ) :
    target.partition.checkedUpTo = target.partition.offset.toNat + target.partition.usable ∧
    Run.Ends (updater.session chunks true) logged fun closed after =>
      flash.Outcome file logged.board after.board closed ∧
      (closed.phase = .Done ↔ file.body.length ≤ target.partition.usable) ∧
      ((∃ bad, closed.lastError = some (.WriteOutOfBounds bad)) ↔
        target.partition.usable < file.body.length) := by
  refine ⟨Partition.checkedUpTo_eq_usable target.fits, ?_⟩
  refine (session_of_file flash hsuits hpartition hdevice file hfile logged).mono ?_
  intro closed after houtcome
  exact ⟨houtcome, houtcome.done_iff, houtcome.out_of_bounds_iff⟩

end

namespace Chip

-- The last twelve bytes of the address space.
def topTarget : Target :=
  { target with
    partition := { offset := 0xfffffff4, size := 12 }
    fits := by decide }

-- The shortest file fills them.
def topFile : File topTarget :=
  { announcement :=
      { heading :=
          { records := shortest.announcement.heading.records
            suits := shortest.announcement.heading.suits }
        a := 0, b := 0, c := 0, d := 12, length_le := by decide }
    front :=
      { preamble := shortest.front.preamble
        packets := shortest.front.packets
        first_sync := shortest.front.first_sync
        goes_on := shortest.front.goes_on }
    last := shortest.last
    last_ends := shortest.last_ends }

def topUpdater : Updater := Updater.start topTarget.partition topTarget.device

def topFlash : Faithful (Chip 4 256) topTarget := faithful (by decide) topTarget

def topBoard : Logged (Watched (Chip 4 256)) Unit := ⟨⟨zeroed, []⟩, ()⟩

theorem topTarget_suits : topTarget.Suits (Chip 4 256) := fun _ => rfl

theorem topFile_prefix : topFile.bytes <+: [topFile.bytes].flatten := by
  rw [List.flatten_singleton]

end Chip

theorem usable_bytes_checked_and_programmed_top :
    (Chip.topTarget.Suits (Chip 4 256) ∧
      Chip.topUpdater.writer.partition = Chip.topTarget.partition ∧
      Chip.topUpdater.device = Chip.topTarget.device ∧
      Chip.topFile.bytes <+: [Chip.topFile.bytes].flatten) ∧
    Chip.topTarget.partition.checkedUpTo = 0xfffffff4 + 11 ∧
    Run.Ends (Chip.topUpdater.session [Chip.topFile.bytes] true) Chip.topBoard
      fun closed after =>
        Chip.topFlash.Outcome Chip.topFile Chip.topBoard.board after.board closed ∧
        (closed.phase = .Done ↔ 12 ≤ 11) ∧
        ((∃ bad, closed.lastError = some (.WriteOutOfBounds bad)) ↔ 11 < 12) :=
  ⟨⟨Chip.topTarget_suits, rfl, rfl, Chip.topFile_prefix⟩,
    usable_bytes_checked_and_programmed Chip.topFlash Chip.topTarget_suits Chip.topUpdater rfl rfl
      [Chip.topFile.bytes] Chip.topFile Chip.topFile_prefix Chip.topBoard⟩

-- A body as long as the partition is refused.
theorem full_top_partition_refused :
    Chip.topFile.body.length = Chip.topTarget.partition.size.toNat ∧
    Run.Ends (Chip.topUpdater.session [Chip.topFile.bytes] true) Chip.topBoard
      fun closed _ => closed.phase = .Failed ∧
        closed.lastError = some (.WriteOutOfBounds 0xfffffff4) := by
  refine ⟨rfl, ?_⟩
  refine (session_of_file Chip.topFlash Chip.topTarget_suits rfl rfl Chip.topFile
    Chip.topFile_prefix Chip.topBoard).mono ?_
  intro closed after houtcome
  obtain ⟨bad, hbad, hended⟩ := houtcome.exceeds (by decide)
  obtain rfl : bad = 0xfffffff4 := UInt32.toNat_inj.mp hbad
  exact ⟨hended.phase_eq, hended.error_eq⟩

end BoardControl.Bitstream
