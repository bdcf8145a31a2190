import BoardControl.Proofs.Bitstream.Token
import BoardControl.Proofs.Bitstream.Watched
import BoardControl.Ring.Content

namespace BoardControl.Bitstream

theorem toNat_toUInt32 {number : Nat} (h : number < UInt32.size) :
    number.toUInt32.toNat = number := by
  simp only [Nat.toUInt32, UInt32.toNat_ofNat']
  exact Nat.mod_eq_of_lt h

-- An address moves on by a length without leaving the address space if it stays
-- at or below another address.
theorem toNat_add_toUInt32 {addr stop : UInt32} {length : Nat}
    (h : addr.toNat + length ≤ stop.toNat) :
    (addr + length.toUInt32).toNat = addr.toNat + length := by
  have hstop : stop.toNat < 2 ^ 32 := stop.toNat_lt_size
  rw [UInt32.toNat_add, toNat_toUInt32 (show length < 2 ^ 32 by omega), Nat.mod_eq_of_lt (by omega)]

-- The end of a partition in the address space.

theorem Partition.stop_le (partition : Partition) :
    partition.stop.toNat ≤ partition.offset.toNat + partition.size.toNat := by
  rw [stop, Word.toNat_addSaturating]
  omega

theorem Partition.offset_le_stop (partition : Partition) :
    partition.offset.toNat ≤ partition.stop.toNat := by
  have hword := partition.offset.toNat_lt_size
  rw [stop, Word.toNat_addSaturating]
  omega

theorem Partition.stop_eq {partition : Partition}
    (h : partition.offset.toNat + partition.size.toNat < UInt32.size) :
    partition.stop.toNat = partition.offset.toNat + partition.size.toNat := by
  rw [stop, Word.toNat_addSaturating]
  omega

-- The failure that a readback shows, if it differs from what was written.
def mismatch? (addr : UInt32) (written readback : List UInt8) : Option UpdateError :=
  (PageWriter.firstDifference written readback).map fun (position, expected, actual) =>
    .ReadbackMismatch (addr + position.toUInt32) expected actual

section

variable {σ : Type} [Flash σ]

-- Programs bytes at an address and reads them back. The answer is what went
-- wrong.
def Partition.program (partition : Partition) (addr : UInt32) (data : List UInt8) (board : σ) :
    Option UpdateError × σ :=
  if partition.stop.toNat < addr.toNat + data.length then (some (.WriteOutOfBounds addr), board)
  else
    let written := Flash.write addr data board
    if written.1 then
      let readback := Flash.read addr data.length written.2
      (mismatch? addr data readback.1.toList, readback.2)
    else
      (some (.WriteFailed addr data.length.toUInt32), written.2)

-- Programs `count` pages from the front of the waiting bytes. The result is what
-- still waits or what went wrong, with the address of the next page.
def Target.programPages (target : Target) :
    Nat → List UInt8 → UInt32 → σ → (Except UpdateError (List UInt8) × UInt32) × σ
  | 0, waiting, cursor, board => ((.ok waiting, cursor), board)
  | count + 1, waiting, cursor, board =>
      let programmed := target.partition.program cursor (waiting.take target.page) board
      match programmed.1 with
      | some failure => ((.error failure, cursor), programmed.2)
      | none => target.programPages count (waiting.drop target.page)
          (cursor + target.page.toUInt32) programmed.2

-- Programs every full page.
def Target.flush (target : Target) (waiting : List UInt8) (cursor : UInt32) (board : σ) :
    (Except UpdateError (List UInt8) × UInt32) × σ :=
  target.programPages (waiting.length / target.page) waiting cursor board

-- Programs all that waits as one page, if anything does.
def Target.finish (target : Target) (waiting : List UInt8) (cursor : UInt32) (board : σ) :
    (Except UpdateError (List UInt8) × UInt32) × σ :=
  if waiting = [] then ((.ok [], cursor), board)
  else
    let programmed := target.partition.program cursor waiting board
    match programmed.1 with
    | some failure => ((.error failure, cursor), programmed.2)
    | none => ((.ok [], cursor + waiting.length.toUInt32), programmed.2)

-- What was programmed well lies inside the partition.
theorem Partition.le_stop_of_program {partition : Partition} {addr : UInt32} {data : List UInt8}
    {board : σ} (h : (partition.program addr data board).1 = none) :
    addr.toNat + data.length ≤ partition.stop.toNat := by
  unfold program at h
  split at h
  · cases h
  · omega

-- The flash always reports the page size that the target is meant for.
def Target.Suits (target : Target) (σ : Type) [Flash σ] : Prop :=
  ∀ board : σ, (Flash.pageSize board).toNat = target.page

theorem Target.flush_of_short (target : Target) {waiting : List UInt8} (cursor : UInt32)
    (board : σ) (h : waiting.length < target.page) :
    target.flush waiting cursor board = ((.ok waiting, cursor), board) := by
  rw [flush, Nat.div_eq_of_lt h]
  rfl

-- A full page in front is programmed first.
theorem Target.flush_of_full (target : Target) {waiting : List UInt8} (cursor : UInt32)
    (board : σ) (h : target.page ≤ waiting.length) :
    target.flush waiting cursor board =
      let programmed := target.partition.program cursor (waiting.take target.page) board
      match programmed.1 with
      | some failure => ((.error failure, cursor), programmed.2)
      | none => target.flush (waiting.drop target.page) (cursor + target.page.toUInt32)
          programmed.2 := by
  have hcount : waiting.length / target.page =
      (waiting.drop target.page).length / target.page + 1 := by
    rw [List.length_drop, Nat.div_eq_sub_div target.page_pos h]
  rw [flush, hcount]
  rfl

-- Less than a page waits when everything went well.
theorem Target.length_lt_of_flush (target : Target) {waiting rest : List UInt8}
    {cursor next : UInt32} {board after : σ}
    (h : target.flush waiting cursor board = ((.ok rest, next), after)) :
    rest.length < target.page := by
  induction hlength : waiting.length using Nat.strongRecOn generalizing waiting cursor board with
  | _ length ih =>
      by_cases hshort : waiting.length < target.page
      · rw [target.flush_of_short cursor board hshort] at h
        cases h
        exact hshort
      · have hfull : target.page ≤ waiting.length := Nat.le_of_not_lt hshort
        have hpage := target.page_pos
        rw [target.flush_of_full cursor board hfull] at h
        simp only at h
        split at h
        · cases h
        · exact ih _ (by simp only [List.length_drop]; omega) h rfl

-- The cursor never turns back, and it moves by as many bytes as were programmed.
theorem Target.cursor_of_flush (target : Target) {waiting : List UInt8} {cursor next : UInt32}
    {result : Except UpdateError (List UInt8)} {board after : σ}
    (h : target.flush waiting cursor board = ((result, next), after)) :
    cursor.toNat ≤ next.toNat ∧ ∀ rest, result = .ok rest →
      next.toNat + rest.length = cursor.toNat + waiting.length := by
  induction hlength : waiting.length using Nat.strongRecOn generalizing waiting cursor board with
  | _ length ih =>
      by_cases hshort : waiting.length < target.page
      · rw [target.flush_of_short cursor board hshort] at h
        cases h
        refine ⟨Nat.le_refl _, ?_⟩
        rintro _ ⟨⟩
        rw [hlength]
      · have hfull : target.page ≤ waiting.length := Nat.le_of_not_lt hshort
        have hpos := target.page_pos
        rw [target.flush_of_full cursor board hfull] at h
        simp only at h
        split at h
        · cases h
          exact ⟨Nat.le_refl _, fun _ hok => by cases hok⟩
        · rename_i hprogram
          have hstop := Partition.le_stop_of_program hprogram
          rw [List.length_take, Nat.min_eq_left hfull] at hstop
          have hcursor := toNat_add_toUInt32 hstop
          obtain ⟨hle, hrest⟩ := ih _ (by simp only [List.length_drop]; omega) h rfl
          rw [List.length_drop] at hrest
          refine ⟨by omega, fun rest hok => ?_⟩
          have hlength := hrest rest hok
          omega

-- What was programmed well ends inside the partition.

theorem Target.le_stop_of_flush (target : Target) {waiting rest : List UInt8}
    {cursor next : UInt32} {board after : σ}
    (h : target.flush waiting cursor board = ((.ok rest, next), after))
    (hcursor : cursor.toNat ≤ target.partition.stop.toNat) :
    next.toNat ≤ target.partition.stop.toNat := by
  induction hlength : waiting.length using Nat.strongRecOn generalizing waiting cursor board with
  | _ length ih =>
      by_cases hshort : waiting.length < target.page
      · rw [target.flush_of_short cursor board hshort] at h
        cases h
        exact hcursor
      · have hfull : target.page ≤ waiting.length := Nat.le_of_not_lt hshort
        have hpos := target.page_pos
        rw [target.flush_of_full cursor board hfull] at h
        simp only at h
        split at h
        · cases h
        · rename_i hprogram
          have hstop := Partition.le_stop_of_program hprogram
          rw [List.length_take, Nat.min_eq_left hfull] at hstop
          refine ih _ (by simp only [List.length_drop]; omega) h ?_ rfl
          rw [toNat_add_toUInt32 hstop]
          exact hstop

theorem Target.le_stop_of_finish (target : Target) {waiting rest : List UInt8}
    {cursor next : UInt32} {board after : σ}
    (h : target.finish waiting cursor board = ((.ok rest, next), after))
    (hcursor : cursor.toNat ≤ target.partition.stop.toNat) :
    next.toNat ≤ target.partition.stop.toNat := by
  rw [finish] at h
  split at h
  · cases h
    exact hcursor
  · simp only at h
    split at h
    · cases h
    · rename_i hprogram
      have hstop := Partition.le_stop_of_program hprogram
      cases h
      rw [toNat_add_toUInt32 hstop]
      exact hstop

-- Bytes that come later can be programmed later: the pages are cut at the same
-- places.
theorem Target.flush_append (target : Target) (waiting more : List UInt8) (cursor : UInt32)
    (board : σ) :
    target.flush (waiting ++ more) cursor board =
      let flushed := target.flush waiting cursor board
      match flushed.1.1 with
      | .error _ => flushed
      | .ok rest => target.flush (rest ++ more) flushed.1.2 flushed.2 := by
  induction hlength : waiting.length using Nat.strongRecOn generalizing waiting cursor board with
  | _ length ih =>
      by_cases hshort : waiting.length < target.page
      · rw [target.flush_of_short cursor board hshort]
      · have hfull : target.page ≤ waiting.length := Nat.le_of_not_lt hshort
        have hpage := target.page_pos
        rw [target.flush_of_full cursor board hfull,
          target.flush_of_full cursor board (by simp only [List.length_append]; omega),
          List.take_append_of_le_length hfull, List.drop_append_of_le_length hfull]
        simp only
        split
        · rfl
        · exact ih _ (by simp only [List.length_drop]; omega) _ _ _ rfl

theorem Target.cursor_of_finish (target : Target) {waiting : List UInt8} {cursor next : UInt32}
    {result : Except UpdateError (List UInt8)} {board after : σ}
    (h : target.finish waiting cursor board = ((result, next), after)) :
    cursor.toNat ≤ next.toNat ∧ ∀ rest, result = .ok rest →
      rest = [] ∧ next.toNat = cursor.toNat + waiting.length := by
  rw [finish] at h
  split at h
  · rename_i hnone
    cases h
    refine ⟨Nat.le_refl _, ?_⟩
    rintro _ ⟨⟩
    exact ⟨rfl, by rw [hnone]; rfl⟩
  · simp only at h
    split at h
    · cases h
      exact ⟨Nat.le_refl _, fun _ hok => by cases hok⟩
    · rename_i hprogram
      have hcursor := toNat_add_toUInt32 (Partition.le_stop_of_program hprogram)
      cases h
      refine ⟨by omega, ?_⟩
      rintro _ ⟨⟩
      exact ⟨rfl, hcursor⟩

end

theorem firstDifference_lt {written readback : List UInt8} {position : Nat} {expected actual : UInt8}
    (h : PageWriter.firstDifference written readback = some (position, expected, actual)) :
    position < written.length := by
  induction written generalizing readback position with
  | nil => cases h
  | cons byte rest ih =>
      cases readback with
      | nil => cases h
      | cons other others =>
          simp only [PageWriter.firstDifference] at h
          split at h
          · obtain ⟨⟨before, _⟩, hrest, heq⟩ := Option.map_eq_some_iff.mp h
            cases heq
            simpa using ih hrest
          · cases h
            simp

-- What was read back begins with what was written, unless there is a difference.
theorem prefix_iff_firstDifference {data back : List UInt8} (hlength : data.length ≤ back.length) :
    data <+: back ↔ PageWriter.firstDifference data back = none := by
  induction data generalizing back with
  | nil => simp [PageWriter.firstDifference]
  | cons expected rest ih =>
      cases back with
      | nil => cases hlength
      | cons actual others =>
          have hrest := ih (Nat.le_of_succ_le_succ hlength)
          by_cases hsame : expected = actual
          · simp [PageWriter.firstDifference, hsame, List.cons_prefix_cons, hrest]
          · simp [PageWriter.firstDifference, hsame, List.cons_prefix_cons]

section

variable {σ μ : Type} [Flash σ] [Logger μ]

-- One block is programmed as the plain action says. The waiting bytes and the
-- cursor move only when nothing went wrong.
theorem programBlock_ends (writer : PageWriter) {length : Nat}
    (hlength : length ≤ writer.pending.length) (logged : Logged σ μ) :
    Run.Ends (writer.programBlock length) logged fun result after =>
      let programmed := writer.partition.program writer.cursor
        (writer.pending.toList.take length) logged.board
      after.board = programmed.2 ∧ result = match programmed.1 with
        | some failure => .error failure
        | none => .ok { writer with
            pending := writer.pending.popFront length
            cursor := writer.cursor + length.toUInt32 } := by
  have htake : (writer.pending.toList.take length).length = length := by
    simp only [List.length_take, Ring.length_toList]
    omega
  simp only [PageWriter.programBlock, Ring.front_eq_take]
  generalize writer.pending.toList.take length = data at htake
  subst htake
  by_cases hbound : writer.partition.stop.toNat < writer.cursor.toNat + data.length
  · simp [Partition.program, hbound]
  · have hsize := writer.partition.stop.toNat_lt_size
    have hword := toNat_toUInt32 (show data.length < UInt32.size by omega)
    simp only [Partition.program, hbound, if_false]
    apply Logged.ends_of_log
    intro next hnext
    simp only [Run.ends_bind, Run.ends_perform, Logged.write_answer, hnext]
    by_cases hwrite : (Flash.write writer.cursor data logged.board).1
    · simp only [hwrite, if_true, Run.ends_bind, Run.ends_perform, Logged.read_answer,
        Logged.board_write, hnext, mismatch?]
      split
      · rename_i position expected actual hdiffer
        have hposition := firstDifference_lt hdiffer
        have hbad := Word.add_eq_ok (a := writer.cursor) (b := position.toUInt32) (by
          rw [toNat_toUInt32 (by omega)]
          omega)
        simp [hbad, hdiffer, hnext]
      · rename_i hsame
        have hcursor := Word.add_eq_ok (a := writer.cursor) (b := data.length.toUInt32) (by omega)
        simp [hcursor, hsame, hnext]
    · simp [hwrite, hnext]

-- A page writer after some pages, beside what the plain action says.
def PageWriter.Shows (writer : PageWriter) (failure : Option UpdateError)
    (flushed : Except UpdateError (List UInt8) × UInt32) : Prop :=
  writer.cursor = flushed.2 ∧ match flushed.1 with
    | .error reason => failure = some reason
    | .ok waiting => failure = none ∧ writer.pending.toList = waiting

theorem programPages_ends (target : Target) (count : Nat) (writer : PageWriter)
    (hpartition : writer.partition = target.partition)
    (hcount : count * target.page ≤ writer.pending.length) (logged : Logged σ μ) :
    Run.Ends (PageWriter.programPages target.page count writer) logged fun result after =>
      let flushed := target.programPages count writer.pending.toList writer.cursor logged.board
      after.board = flushed.2 ∧ result.1.partition = target.partition ∧
        result.1.Shows result.2 flushed.1 := by
  induction count generalizing writer logged with
  | zero => simp [PageWriter.programPages, Target.programPages, PageWriter.Shows, hpartition]
  | succ count ih =>
      rw [Nat.succ_mul] at hcount
      simp only [PageWriter.programPages, Target.programPages, Run.ends_bind]
      apply (programBlock_ends writer (by omega) logged).mono
      rintro result middle ⟨hboard, rfl⟩
      rw [hpartition] at hboard ⊢
      cases hprogram : (target.partition.program writer.cursor
          (writer.pending.toList.take target.page) logged.board).1 with
      | some failure => simp [PageWriter.Shows, hpartition, hboard]
      | none =>
          have hrest := ih { writer with
            pending := writer.pending.popFront target.page
            cursor := writer.cursor + target.page.toUInt32 } hpartition
            (by simp only [Ring.length_popFront]; omega) middle
          simpa only [Ring.toList_popFront, hboard, hpartition] using hrest

theorem pageSize_apply (target : Target) (hsuits : target.Suits σ) (logged : Logged σ μ) :
    PageWriter.pageSize logged = (.ok target.page, logged) := by
  have hpage : (Flash.pageSize logged).toNat = target.page := hsuits logged.board
  have hpos := target.page_pos
  have hle := target.page_le
  have hgood : ¬ (target.page = 0 ∨ Settings.maxPage < target.page) := by omega
  simp only [PageWriter.pageSize, bind, StateT.bind, get, getThe, MonadStateOf.get, StateT.get,
    pure, hpage, hgood, if_false]
  rfl

-- Every full page is programmed as the plain action says.
theorem flushPages_ends (target : Target) (hsuits : target.Suits σ) (writer : PageWriter)
    (hpartition : writer.partition = target.partition) (logged : Logged σ μ) :
    Run.Ends writer.flushPages logged fun result after =>
      let flushed := target.flush writer.pending.toList writer.cursor logged.board
      after.board = flushed.2 ∧ result.1.partition = target.partition ∧
        result.1.Shows result.2 flushed.1 := by
  simp only [PageWriter.flushPages, Run.ends_bind, Run.ends_perform,
    pageSize_apply target hsuits logged]
  have hpages := programPages_ends target (writer.pending.length / target.page) writer hpartition
    (Nat.div_mul_le_self _ _) logged
  simpa only [Target.flush, Ring.length_toList] using hpages

-- Less than a page waits, so the last write is the only one.
theorem flushAll_ends (target : Target) (hsuits : target.Suits σ) (writer : PageWriter)
    (hpartition : writer.partition = target.partition)
    (hshort : writer.pending.toList.length < target.page) (logged : Logged σ μ) :
    Run.Ends writer.flushAll logged fun result after =>
      let finished := target.finish writer.pending.toList writer.cursor logged.board
      after.board = finished.2 ∧ result.1.partition = target.partition ∧
        result.1.Shows result.2 finished.1 := by
  simp only [PageWriter.flushAll, Run.ends_bind]
  apply (flushPages_ends target hsuits writer hpartition logged).mono
  intro result middle hends
  obtain ⟨next, failure⟩ := result
  obtain ⟨hboard, hnext, hcursor, hshows⟩ := hends
  rw [target.flush_of_short _ _ hshort] at hboard hcursor hshows
  obtain ⟨rfl, hpending⟩ := hshows
  simp only at hboard hnext hcursor hpending ⊢
  rw [← hcursor, ← hpending, ← hboard]
  by_cases hnone : next.pending.length = 0
  · have hempty : next.pending.toList = [] := by
      rw [← List.length_eq_zero_iff, Ring.length_toList, hnone]
    simp [Target.finish, PageWriter.Shows, hnone, hempty, hnext]
  · have hsome : next.pending.toList ≠ [] := by
      intro hempty
      rw [← Ring.length_toList, hempty] at hnone
      exact hnone rfl
    have hlength := Nat.le_of_eq next.pending.length_toList
    have hall := List.take_of_length_le hlength
    have hdrop := List.drop_of_length_le hlength
    simp only [Nat.pos_of_ne_zero hnone, if_true, Run.ends_bind, Target.finish, hsome, if_false]
    apply (programBlock_ends next (Nat.le_refl _) middle).mono
    rintro result after ⟨hlast, rfl⟩
    rw [hall, hnext] at hlast ⊢
    cases hprogram : (target.partition.program next.cursor next.pending.toList middle.board).1 with
    | some failure => simp [PageWriter.Shows, hnext, hlast]
    | none => simp [PageWriter.Shows, hlast, Ring.toList_popFront, hdrop, Ring.length_toList]

end

end BoardControl.Bitstream
