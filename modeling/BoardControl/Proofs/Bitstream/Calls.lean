import BoardControl.Proofs.Bitstream.Session

namespace BoardControl.Bitstream

-- The writes among some flash calls, and the bytes that they wrote.

def FlashCall.write? : FlashCall → Option (UInt32 × List UInt8)
  | .Write addr data _ => some (addr, data)
  | .Erase _ _ | .Read _ _ => none

def writes (calls : List FlashCall) : List (UInt32 × List UInt8) :=
  calls.filterMap FlashCall.write?

def writtenBytes (calls : List FlashCall) : List UInt8 := (writes calls).flatMap Prod.snd

-- Full pages, one right after the other.
def Consecutive (page : Nat) : Nat → List (UInt32 × List UInt8) → Prop
  | _, [] => True
  | place, (addr, data) :: rest =>
      addr.toNat = place ∧ data.length = page ∧ Consecutive page (place + page) rest

@[simp] theorem writes_append (one other : List FlashCall) :
    writes (one ++ other) = writes one ++ writes other :=
  List.filterMap_append

@[simp] theorem writtenBytes_append (one other : List FlashCall) :
    writtenBytes (one ++ other) = writtenBytes one ++ writtenBytes other := by
  rw [writtenBytes, writes_append, List.flatMap_append]
  rfl

theorem Consecutive.append {page place : Nat} {one other : List (UInt32 × List UInt8)}
    (hone : Consecutive page place one)
    (hother : Consecutive page (place + (one.flatMap Prod.snd).length) other) :
    Consecutive page place (one ++ other) := by
  induction one generalizing place with
  | nil => simpa using hother
  | cons first rest ih =>
      obtain ⟨haddr, hlength, hrest⟩ := hone
      refine ⟨haddr, hlength, ih hrest ?_⟩
      rw [List.flatMap_cons, List.length_append, hlength, ← Nat.add_assoc] at hother
      exact hother

section

variable {φ : Type} [Flash φ] {target : Target}

-- Bytes that were programmed well were written once, and the calls show it.
theorem program_calls {partition : Partition} {addr : UInt32} {data : List UInt8}
    {board after : Watched φ} (h : partition.program addr data board = (none, after)) :
    ∃ calls, after.calls = board.calls ++ calls ∧ writes calls = [(addr, data)] := by
  rw [Partition.program] at h
  split at h
  · cases h
  · simp only at h
    split at h
    · rename_i hwrite
      obtain ⟨_, rfl⟩ := Prod.mk.inj h
      generalize hwritten : Flash.write addr data board = written at hwrite ⊢
      have hcalls : written.2.calls = board.calls ++ [.Write addr data true] := by
        rw [← hwritten, Watched.calls_write, hwritten, hwrite]
      refine ⟨[.Write addr data true, .Read addr (Flash.read addr data.length written.2).1.toList],
        ?_, rfl⟩
      rw [Watched.calls_read, hcalls, List.append_assoc]
      rfl
    · cases h

theorem flush_calls {waiting rest : List UInt8} {cursor next : UInt32} {board after : Watched φ}
    (h : target.flush waiting cursor board = ((.ok rest, next), after)) :
    ∃ calls, after.calls = board.calls ++ calls ∧
      Consecutive target.page cursor.toNat (writes calls) ∧
        writtenBytes calls ++ rest = waiting := by
  induction hlength : waiting.length using Nat.strongRecOn generalizing waiting cursor board with
  | _ length ih =>
      by_cases hshort : waiting.length < target.page
      · rw [target.flush_of_short cursor board hshort] at h
        cases h
        exact ⟨[], (List.append_nil _).symm, trivial, rfl⟩
      · have hfull : target.page ≤ waiting.length := Nat.le_of_not_lt hshort
        have hpos := target.page_pos
        rw [target.flush_of_full cursor board hfull] at h
        simp only at h
        cases hprogram : target.partition.program cursor (waiting.take target.page) board with
        | mk failure middle =>
            rw [hprogram] at h
            cases failure with
            | some failure => cases h
            | none =>
                have htake : (waiting.take target.page).length = target.page := by
                  rw [List.length_take]
                  omega
                have hstop := Partition.le_stop_of_program (congrArg Prod.fst hprogram)
                rw [htake] at hstop
                obtain ⟨first, hfirst, hwrite⟩ := program_calls hprogram
                obtain ⟨others, hothers, hpages, hbytes⟩ :=
                  ih _ (by rw [List.length_drop]; omega) h rfl
                rw [toNat_add_toUInt32 hstop] at hpages
                refine ⟨first ++ others, ?_, ?_, ?_⟩
                · rw [hothers, hfirst, List.append_assoc]
                · rw [writes_append, hwrite]
                  exact ⟨rfl, htake, hpages⟩
                · have hfirst : writtenBytes first = waiting.take target.page := by
                    rw [writtenBytes, hwrite]
                    exact List.append_nil _
                  rw [writtenBytes_append, hfirst, List.append_assoc, hbytes,
                    List.take_append_drop]

theorem finish_calls {waiting rest : List UInt8} {cursor next : UInt32} {board after : Watched φ}
    (h : target.finish waiting cursor board = ((.ok rest, next), after)) :
    ∃ calls, after.calls = board.calls ++ calls ∧
      writes calls = if waiting = [] then [] else [(cursor, waiting)] := by
  rw [Target.finish] at h
  split at h
  · rename_i hnone
    cases h
    exact ⟨[], (List.append_nil _).symm, by rw [if_pos hnone]; rfl⟩
  · rename_i hsome
    cases hprogram : target.partition.program cursor waiting board with
    | mk failure middle =>
        rw [hprogram] at h
        cases failure with
        | some failure => cases h
        | none =>
            cases h
            rw [if_neg hsome]
            exact program_calls hprogram

-- Making the partition ready writes nothing.

theorem wipe_calls (sector : UInt32) (count : Nat) (addr : UInt32) (board : Watched φ) :
    ∃ calls, (Partition.wipe sector count addr board).2.calls = board.calls ++ calls ∧
      writes calls = [] := by
  induction count generalizing addr board with
  | zero => exact ⟨[], (List.append_nil _).symm, rfl⟩
  | succ count ih =>
      rw [Partition.wipe]
      split
      · obtain ⟨others, hothers, hnone⟩ := ih (addr + sector) (Flash.erase addr board).2
        refine ⟨[.Erase addr (Flash.erase addr board).1] ++ others, ?_, hnone⟩
        rw [hothers, Watched.calls_erase, List.append_assoc]
      · exact ⟨[.Erase addr (Flash.erase addr board).1], rfl, rfl⟩

theorem inspect_calls (partition : Partition) (count : Nat) (addr : UInt32) (board : Watched φ) :
    ∃ calls, (partition.inspect count addr board).2.calls = board.calls ++ calls ∧
      writes calls = [] := by
  induction count generalizing addr board with
  | zero => exact ⟨[], (List.append_nil _).symm, rfl⟩
  | succ count ih =>
      rw [Partition.inspect]
      generalize min Settings.blankCheckBlock (partition.stop.toNat - addr.toNat) = length
      split
      · exact ⟨[.Read addr (Flash.read addr length board).1.toList], rfl, rfl⟩
      · obtain ⟨others, hothers, hnone⟩ := ih (addr + length.toUInt32)
          (Flash.read addr length board).2
        refine ⟨[.Read addr (Flash.read addr length board).1.toList] ++ others, ?_, hnone⟩
        rw [hothers, Watched.calls_read, List.append_assoc]

theorem prepare_calls [TickCounter φ] (partition : Partition) (board : Watched φ) :
    ∃ calls, (partition.prepare board).2.calls = board.calls ++ calls ∧ writes calls = [] := by
  rw [Partition.prepare]
  split
  · exact ⟨[], (List.append_nil _).symm, rfl⟩
  · generalize hsector : Flash.sectorSize board = sector
    obtain ⟨erases, herases, hnone⟩ := wipe_calls sector
      (Word.blocks partition.size.toNat sector.toNat) partition.offset (TickCounter.count board).2
    rw [Watched.calls_count] at herases
    generalize Partition.wipe sector _ partition.offset (TickCounter.count board).2 = wiped
      at herases ⊢
    obtain ⟨_ | failure, left⟩ := wiped
    · obtain ⟨reads, hreads, hnone'⟩ := inspect_calls partition
        (Word.blocks (partition.stop.toNat - partition.offset.toNat) Settings.blankCheckBlock)
        partition.offset left
      refine ⟨erases ++ reads, ?_, by rw [writes_append, hnone, hnone']; rfl⟩
      simp only
      split
      · rw [hreads, herases, List.append_assoc]
      · rw [Watched.calls_count, hreads, herases, List.append_assoc]
    · exact ⟨erases, herases, hnone⟩

end

end BoardControl.Bitstream
