import BoardControl.Proofs.Bitstream.FlashPhases

namespace BoardControl.Bitstream

-- The calls that program some bytes of a partition at an address and read them back, and
-- the error that they lead to. Bytes that go beyond the partition are not written at all.
inductive Page (partition : Partition) (addr : UInt32) (data : List UInt8) :
    List FlashCall → Option UpdateError → Prop
  | outside (hbeyond : partition.stop.toNat < addr.toNat + data.length) :
      Page partition addr data [] (some (.WriteOutOfBounds addr))
  | unwritten {length : UInt32} (hinside : addr.toNat + data.length ≤ partition.stop.toNat)
      (hlength : length.toNat = data.length) :
      Page partition addr data [.Write addr data false] (some (.WriteFailed addr length))
  | differs {same rest others : List UInt8} {expected actual : UInt8} {bad : UInt32}
      (hinside : addr.toNat + data.length ≤ partition.stop.toNat)
      (hdata : data = same ++ expected :: rest) (hlength : others.length = rest.length)
      (hne : expected ≠ actual) (hbad : bad.toNat = addr.toNat + same.length) :
      Page partition addr data [.Write addr data true, .Read addr (same ++ actual :: others)]
        (some (.ReadbackMismatch bad expected actual))
  | verified (hinside : addr.toNat + data.length ≤ partition.stop.toNat) :
      Page partition addr data [.Write addr data true, .Read addr data] none

-- The books of a session: how many bytes count as written, the bytes that wait, the
-- calls that were made, and the error of the page that went wrong, if one did. Bytes
-- stop waiting and begin to count at once, with the page that was verified. A page
-- that went wrong changes neither, and it is the last one.
inductive Ledger (partition : Partition) :
    (written : Nat) → (pending : List UInt8) → List FlashCall → Option UpdateError → Prop
  | opened : Ledger partition 0 [] [] none
  | prepared {written : Nat} {pending : List UInt8} {calls more : List FlashCall}
      (hledger : Ledger partition written pending calls none) (hmore : writes more = []) :
      Ledger partition written pending (calls ++ more) none
  | arrived {written : Nat} {pending bytes : List UInt8} {calls : List FlashCall}
      (hledger : Ledger partition written pending calls none) :
      Ledger partition written (pending ++ bytes) calls none
  | verified {written : Nat} {data rest : List UInt8} {calls page : List FlashCall} {addr : UInt32}
      (hledger : Ledger partition written (data ++ rest) calls none)
      (haddr : addr.toNat = partition.offset.toNat + written)
      (hpage : Page partition addr data page none) :
      Ledger partition (written + data.length) rest (calls ++ page) none
  | broken {written : Nat} {data rest : List UInt8} {calls page : List FlashCall} {addr : UInt32}
      {failure : UpdateError} (hledger : Ledger partition written (data ++ rest) calls none)
      (haddr : addr.toNat = partition.offset.toNat + written)
      (hpage : Page partition addr data page (some failure)) :
      Ledger partition written (data ++ rest) (calls ++ page) (some failure)

-- Every write begins a page, and calls come after that page only if it was verified.
-- Otherwise its error is the one that the calls lead to.
def Answered (partition : Partition) (calls : List FlashCall) (failure : Option UpdateError) :
    Prop :=
  ∀ before addr data ok rest, calls = before ++ .Write addr data ok :: rest →
    ∃ back more outcome, rest = back ++ more ∧
      Page partition addr data (.Write addr data ok :: back) outcome ∧
        (outcome = none ∨ more = [] ∧ outcome = failure)

section

variable {partition : Partition} {calls more : List FlashCall} {failure : Option UpdateError}

theorem answered_of_unwritten (h : writes calls = []) : Answered partition calls failure := by
  rintro before addr data ok rest rfl
  rw [writes_append] at h
  cases (List.append_eq_nil_iff.mp h).2

theorem Page.answered {addr : UInt32} {data : List UInt8}
    (h : Page partition addr data calls failure) : Answered partition calls failure := by
  intro before place bytes ok rest hcalls
  -- A page has no write but its first call.
  have hfirst : ∀ okay back, calls = .Write addr data okay :: back → writes back = [] →
      Page partition place bytes (.Write place bytes ok :: rest) failure := by
    rintro okay back rfl hback
    cases before with
    | nil =>
        cases hcalls
        exact h
    | cons first before =>
        rw [List.cons_append] at hcalls
        obtain ⟨-, rfl⟩ := List.cons.inj hcalls
        rw [writes_append] at hback
        cases (List.append_eq_nil_iff.mp hback).2
  refine ⟨rest, [], failure, (List.append_nil rest).symm, ?_, .inr ⟨rfl, rfl⟩⟩
  cases h with
  | outside => cases before <;> cases hcalls
  | unwritten => exact hfirst _ _ rfl rfl
  | differs => exact hfirst _ _ rfl rfl
  | verified => exact hfirst _ _ rfl rfl

theorem Answered.append (h : Answered partition calls none)
    (hmore : Answered partition more failure) :
    Answered partition (calls ++ more) failure := by
  intro before addr data ok rest hcalls
  rcases List.append_eq_append_iff.mp hcalls with ⟨later, rfl, hlater⟩ | ⟨tail, hearlier, htail⟩
  · exact hmore later addr data ok rest hlater
  · cases tail with
    | nil => exact hmore [] addr data ok rest htail.symm
    | cons first tail =>
        obtain ⟨rfl, rfl⟩ := List.cons.inj htail
        obtain ⟨back, others, outcome, rfl, hpage, houtcome⟩ := h before addr data ok tail hearlier
        refine ⟨back, others ++ more, outcome, List.append_assoc .., hpage, .inl ?_⟩
        rcases houtcome with hnone | ⟨-, hnone⟩
        · exact hnone
        · exact hnone

theorem Ledger.answered {written : Nat} {pending : List UInt8}
    (h : Ledger partition written pending calls failure) : Answered partition calls failure := by
  induction h with
  | opened => exact answered_of_unwritten rfl
  | prepared _ hmore ih => exact ih.append (answered_of_unwritten hmore)
  | arrived _ ih => exact ih
  | verified _ _ hpage ih => exact ih.append hpage.answered
  | broken _ _ hpage ih => exact ih.append hpage.answered

end

-- The first difference stands behind bytes that are the same.
theorem firstDifference_split {data back : List UInt8} {position : Nat} {expected actual : UInt8}
    (h : PageWriter.firstDifference data back = some (position, expected, actual)) :
    ∃ same rest others, data = same ++ expected :: rest ∧ back = same ++ actual :: others ∧
      same.length = position ∧ expected ≠ actual := by
  induction data generalizing back position with
  | nil => cases h
  | cons byte data ih =>
      cases back with
      | nil => cases h
      | cons other back =>
          rw [PageWriter.firstDifference] at h
          split at h
          · rename_i hsame
            obtain ⟨⟨place, bytes⟩, hrest, heq⟩ := Option.map_eq_some_iff.mp h
            cases heq
            obtain ⟨same, rest, others, rfl, rfl, rfl, hne⟩ := ih hrest
            exact ⟨byte :: same, rest, others, rfl, by rw [hsame]; rfl, rfl, hne⟩
          · rename_i hne
            cases h
            exact ⟨[], data, back, rfl, rfl, rfl, hne⟩

section

variable {φ μ : Type} [Flash φ] [Logger μ]

theorem Partition.program_page (partition : Partition) (addr : UInt32) (data : List UInt8)
    (board : Watched φ) :
    Made (fun calls => Page partition addr data calls (partition.program addr data board).1) board
      (partition.program addr data board).2 := by
  by_cases hbound : partition.stop.toNat < addr.toNat + data.length
  · rw [program, if_pos hbound]
    exact .none (.outside hbound)
  · have hinside : addr.toNat + data.length ≤ partition.stop.toNat := Nat.le_of_not_lt hbound
    have hcall := Watched.calls_write board addr data
    rw [program, if_neg hbound]
    generalize Flash.write addr data board = wrote at hcall ⊢
    obtain ⟨ok, middle⟩ := wrote
    cases ok with
    | false =>
        have hstop := partition.stop.toNat_lt_size
        exact ⟨_, hcall, .unwritten hinside (toNat_toUInt32 (by omega))⟩
    | true =>
        simp only [if_true, mismatch?]
        have hread : (Flash.read addr data.length middle).2.calls = board.calls ++
            [.Write addr data true, .Read addr (Flash.read addr data.length middle).1.toList] := by
          rw [Watched.calls_read, hcall, List.append_assoc]
          rfl
        have hlength : (Flash.read addr data.length middle).1.toList.length = data.length :=
          Vector.length_toList ..
        generalize (Flash.read addr data.length middle).1.toList = back at hread hlength ⊢
        refine ⟨_, hread, ?_⟩
        cases hdifference : PageWriter.firstDifference data back with
        | some difference =>
            obtain ⟨position, expected, actual⟩ := difference
            obtain ⟨same, rest, others, hdata, rfl, rfl, hne⟩ := firstDifference_split hdifference
            have hposition := firstDifference_lt hdifference
            have hbad : addr.toNat + same.length ≤ partition.stop.toNat := by omega
            refine .differs hinside hdata ?_ hne (toNat_add_toUInt32 hbad)
            rw [hdata, List.length_append, List.length_append] at hlength
            simpa using hlength
        | none =>
            have hsame := (prefix_iff_firstDifference (Nat.le_of_eq hlength.symm)).mpr hdifference
            rw [← hsame.eq_of_length hlength.symm]
            exact .verified hinside

namespace PageWriter

-- What the programming of some waiting bytes does to a writer: the bytes leave the
-- queue and the cursor moves on by as many, or the page went wrong.
def Programs (writer : PageWriter) (data : List UInt8) (result : Except UpdateError PageWriter)
    (calls : List FlashCall) : Prop :=
  match result with
  | .ok next =>
      Page writer.partition writer.cursor data calls none ∧ next.partition = writer.partition ∧
        next.cursor.toNat = writer.cursor.toNat + data.length ∧
          writer.pending.toList = data ++ next.pending.toList
  | .error failure => Page writer.partition writer.cursor data calls (some failure)

theorem programBlock_programs (writer : PageWriter) {length : Nat}
    (hlength : length ≤ writer.pending.length) (logged : Logged (Watched φ) μ) :
    Run.Ends (writer.programBlock length) logged fun result after =>
      Made (writer.Programs (writer.pending.toList.take length) result) logged.board
        after.board := by
  have htake : (writer.pending.toList.take length).length = length := by
    rw [List.length_take, Ring.length_toList]
    omega
  refine (programBlock_ends writer hlength logged).mono ?_
  rintro result after ⟨hboard, rfl⟩
  have hpage := writer.partition.program_page writer.cursor (writer.pending.toList.take length)
    logged.board
  rw [hboard]
  cases hprogram : (writer.partition.program writer.cursor (writer.pending.toList.take length)
      logged.board).1 with
  | some failure =>
      rw [hprogram] at hpage
      exact hpage
  | none =>
      rw [hprogram] at hpage
      have hstop := Partition.le_stop_of_program hprogram
      refine hpage.mono fun calls hcalls => ⟨hcalls, rfl, ?_, ?_⟩
      · rw [htake] at hstop ⊢
        exact toNat_add_toUInt32 hstop
      · rw [Ring.toList_popFront, List.take_append_drop]

end PageWriter

-- The writer stands where the books of the session say. A page that went wrong is what
-- the session fails with.
structure Balance (partition : Partition) (begun : Watched φ) (failure : Option UpdateError)
    (writer : PageWriter) (board : Watched φ) : Prop where
  aims : writer.partition = partition
  made : Made (fun calls => ∃ written fault,
    writer.cursor.toNat = partition.offset.toNat + written ∧
      Ledger partition written writer.pending.toList calls fault ∧
        (fault = none ∨ fault = failure)) begun board

namespace Balance

variable {partition : Partition} {begun board after : Watched φ} {writer next : PageWriter}
  {failure : Option UpdateError} {logged : Logged (Watched φ) μ}

omit [Flash φ] in
theorem opened (hpartition : writer.partition = partition)
    (hcursor : writer.cursor = partition.offset) (hpending : writer.pending.toList = [])
    (begun : Watched φ) : Balance partition begun none writer begun := by
  refine ⟨hpartition, .none ⟨0, none, by rw [hcursor]; rfl, ?_, .inl rfl⟩⟩
  rw [hpending]
  exact .opened

omit [Flash φ] in
theorem failed (h : Balance partition begun none writer board) (failure : Option UpdateError) :
    Balance partition begun failure writer board := by
  refine ⟨h.aims, h.made.mono ?_⟩
  rintro calls ⟨written, fault, hcursor, hledger, hfault⟩
  exact ⟨written, fault, hcursor, hledger, .inl (hfault.elim id id)⟩

omit [Flash φ] in
theorem prepared (h : Balance partition begun none writer board)
    (hmade : Made (fun calls => writes calls = []) board after) :
    Balance partition begun none writer after := by
  refine ⟨h.aims, h.made.append hmade ?_⟩
  rintro calls more ⟨written, fault, hcursor, hledger, hfault⟩ hmore
  obtain rfl : fault = none := hfault.elim id id
  exact ⟨written, none, hcursor, hledger.prepared hmore, hfault⟩

omit [Flash φ] in
theorem arrived {bytes : List UInt8} (h : Balance partition begun none writer board)
    (haims : next.partition = writer.partition) (hcursor : next.cursor = writer.cursor)
    (hpending : next.pending.toList = writer.pending.toList ++ bytes) :
    Balance partition begun none next board := by
  refine ⟨haims.trans h.aims, h.made.mono ?_⟩
  rintro calls ⟨written, fault, hplace, hledger, hfault⟩
  obtain rfl : fault = none := hfault.elim id id
  exact ⟨written, none, by rw [hcursor, hplace], by rw [hpending]; exact hledger.arrived, hfault⟩

omit [Flash φ] in
theorem verified {data : List UInt8} (h : Balance partition begun none writer board)
    (hmade : Made (writer.Programs data (.ok next)) board after) :
    Balance partition begun none next after := by
  have haims : next.partition = writer.partition := by
    obtain ⟨_, _, _, haims, _⟩ := hmade
    exact haims
  refine ⟨haims.trans h.aims, h.made.append hmade ?_⟩
  rintro calls page ⟨written, fault, hplace, hledger, hfault⟩ ⟨hpage, -, hcursor, hpending⟩
  obtain rfl : fault = none := hfault.elim id id
  rw [h.aims] at hpage
  rw [hpending] at hledger
  refine ⟨written + data.length, none, ?_, hledger.verified hplace hpage, hfault⟩
  rw [hcursor, hplace, Nat.add_assoc]

omit [Flash φ] in
theorem broken {length : Nat} {reason : UpdateError}
    (h : Balance partition begun none writer board)
    (hmade : Made (writer.Programs (writer.pending.toList.take length) (.error reason)) board
      after) : Balance partition begun (some reason) writer after := by
  refine ⟨h.aims, h.made.append hmade ?_⟩
  rintro calls page ⟨written, fault, hplace, hledger, hfault⟩ hpage
  obtain rfl : fault = none := hfault.elim id id
  rw [PageWriter.Programs, h.aims] at hpage
  rw [← List.take_append_drop length writer.pending.toList] at hledger
  have hbroken := hledger.broken hplace hpage
  rw [List.take_append_drop] at hbroken
  exact ⟨written, some reason, hplace, hbroken, .inr rfl⟩

theorem programPages {page count : Nat} (h : Balance partition begun none writer logged.board)
    (hcount : count * page ≤ writer.pending.length) :
    Run.Ends (PageWriter.programPages page count writer) logged fun result after =>
      Balance partition begun result.2 result.1 after.board := by
  induction count generalizing writer logged with
  | zero => exact Run.ends_of_eq rfl h
  | succ count ih =>
      rw [Nat.succ_mul] at hcount
      have hpage : page ≤ writer.pending.length := by omega
      simp only [PageWriter.programPages, Run.ends_bind]
      refine (writer.programBlock_programs hpage logged).mono ?_
      intro result middle hmade
      cases result with
      | error reason => exact Run.ends_of_eq rfl (h.broken hmade)
      | ok next =>
          have hrest : count * page ≤ next.pending.length := by
            obtain ⟨_, _, _, _, _, hpending⟩ := hmade
            have hlength := congrArg List.length hpending
            rw [List.length_append, List.length_take, Ring.length_toList,
              Ring.length_toList] at hlength
            omega
          exact ih (h.verified hmade) hrest

theorem flushPages (h : Balance partition begun none writer logged.board) :
    Run.Ends writer.flushPages logged fun result after =>
      Balance partition begun result.2 result.1 after.board := by
  simp only [PageWriter.flushPages, Run.ends_bind, Run.ends_perform]
  rw [← PageWriter.board_pageSize] at h
  cases (PageWriter.pageSize logged).1 with
  | error failure => exact Run.ends_of_eq rfl (h.failed (some failure))
  | ok page => exact h.programPages (Nat.div_mul_le_self ..)

theorem flushAll (h : Balance partition begun none writer logged.board) :
    Run.Ends writer.flushAll logged fun result after =>
      Balance partition begun result.2 result.1 after.board := by
  simp only [PageWriter.flushAll, Run.ends_bind]
  refine h.flushPages.mono ?_
  intro result middle hpages
  obtain ⟨next, failure⟩ := result
  cases failure with
  | some failure => exact Run.ends_of_eq rfl hpages
  | none =>
      simp only
      split
      · simp only [Run.ends_bind]
        refine (next.programBlock_programs (Nat.le_refl _) middle).mono ?_
        intro result after hmade
        cases result with
        | error reason => exact Run.ends_of_eq rfl (hpages.broken hmade)
        | ok last => exact Run.ends_of_eq rfl (hpages.verified hmade)
      · exact Run.ends_of_eq rfl hpages

end Balance

end

end BoardControl.Bitstream
