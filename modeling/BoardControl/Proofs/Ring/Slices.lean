import BoardControl.Ring.Content

namespace BoardControl.Ring

variable {capacity other : Nat} {ring after : Ring capacity}

-- The oldest byte lies in the block. The block can then be turned until the queue
-- is one piece of it.
def InBlock (ring : Ring capacity) : Prop := ring.head < capacity

theorem inBlock_empty (hcapacity : 0 < capacity) : (Ring.empty capacity).InBlock := hcapacity

theorem inBlock_reset (hcapacity : 0 < capacity) (ring : Ring capacity) : ring.reset.InBlock :=
  hcapacity

theorem InBlock.aligned (h : ring.InBlock) : ring.aligned.InBlock := by
  unfold Ring.aligned
  split
  · exact Nat.zero_lt_of_lt h
  · exact h

theorem inBlock_pop (hcapacity : 0 < capacity) (ring : Ring capacity) (count : Nat) :
    (ring.pop count).InBlock := by
  simp only [InBlock, pop]
  split
  · exact hcapacity
  · exact Nat.mod_lt _ hcapacity

theorem inBlock_popFront (hcapacity : 0 < capacity) (ring : Ring capacity) (count : Nat) :
    (ring.popFront count).InBlock :=
  inBlock_pop hcapacity ring.aligned count

theorem head_pushBytes (ring : Ring capacity) (data : List UInt8) :
    (ring.pushBytes data).head = ring.head := by
  induction data generalizing ring with
  | nil => rfl
  | cons byte rest ih =>
      rw [pushBytes]
      split
      · exact ih _
      · rfl

theorem InBlock.pushBytes (h : ring.InBlock) (data : List UInt8) :
    (ring.pushBytes data).InBlock := by
  rw [InBlock, head_pushBytes]
  exact h

theorem InBlock.push (h : ring.InBlock) {data : List UInt8} {pushed : Bool}
    (hpush : ring.push data = .ok (pushed, after)) : after.InBlock := by
  unfold Ring.push at hpush
  repeat' split at hpush
  all_goals cases hpush
  · exact h
  · exact h.pushBytes data

theorem InBlock.transfer {target next : Ring other} {count : Nat} {moved : Bool}
    (h : ring.InBlock) (htarget : target.InBlock)
    (htransfer : ring.transfer target count = .ok (moved, after, next)) :
    after.InBlock ∧ next.InBlock := by
  unfold Ring.transfer at htransfer
  split at htransfer
  · cases htransfer
    exact ⟨h, htarget⟩
  · cases hpush : target.push (ring.front count) with
    | error fault =>
        rw [hpush] at htransfer
        cases htransfer
    | ok pushed =>
        rw [hpush] at htransfer
        cases htransfer
        exact ⟨inBlock_popFront (Nat.zero_lt_of_lt h) ring count, htarget.push hpush⟩

-- The operations once more, as they reach into the block: in whole slices, which
-- have to lie inside it, and at places that are remainders by its size. An access
-- that leaves the block stops them.

def remainder (count size : Nat) : Except Fault Nat :=
  if size = 0 then .error .RemainderByZero else .ok (count % size)

def slice (bytes : List UInt8) (start stop : Nat) : Except Fault (List UInt8) :=
  if start ≤ stop ∧ stop ≤ bytes.length then .ok ((bytes.take stop).drop start)
  else .error .OutOfRange

-- Copies bytes over a slice of just their number.
def overwrite (cells : Vector UInt8 capacity) (start stop : Nat) (data : List UInt8) :
    Except Fault (Vector UInt8 capacity) :=
  if start ≤ stop ∧ stop ≤ capacity ∧ data.length = stop - start then
    .ok (Vector.ofFn fun place =>
      if start ≤ place.val ∧ place.val < stop then data[place.val - start]?.getD 0
      else cells[place.val])
  else .error .OutOfRange

-- Copies bytes into the block from a place on. What does not fit before the end
-- goes to the first cells.
def copyRound (cells : Vector UInt8 capacity) (start : Nat) (data : List UInt8) :
    Except Fault (Vector UInt8 capacity) := do
  let count := min data.length (capacity - start)
  let cells ← overwrite cells start (start + count) (← slice data 0 count)
  overwrite cells 0 (data.length - count) (← slice data count data.length)

theorem length_add_le {data : List UInt8} (h : ¬ ring.free < data.length) :
    ring.length + data.length ≤ capacity := by
  have hroom := ring.length_add_free
  omega

def pushSliced (ring : Ring capacity) (data : List UInt8) : Except Fault (Bool × Ring capacity) :=
  if h : ring.free < data.length then .ok (false, ring)
  else do
    let start ← remainder (ring.head + ring.length) capacity
    let cells ← copyRound ring.cells start data
    pure (true, { ring with
      cells
      length := ring.length + data.length
      length_le := length_add_le h })

-- A block can be turned by no more cells than it has.
def alignSliced (ring : Ring capacity) : Except Fault (Ring capacity) :=
  if capacity < ring.head + ring.length ∧ capacity < ring.head then .error .OutOfRange
  else .ok ring.aligned

def peekSliced (ring : Ring capacity) : Except Fault (List UInt8 × Ring capacity) := do
  let ring ← ring.alignSliced
  let bytes ← slice ring.cells.toList ring.head (ring.head + ring.length)
  pure (bytes, ring)

theorem length_sub_le (count : Nat) : ring.length - min count ring.length ≤ capacity :=
  Nat.le_trans (Nat.sub_le _ _) ring.length_le

def popSliced (ring : Ring capacity) (count : Nat) : Except Fault (Ring capacity) := do
  let left := ring.length - min count ring.length
  let head ← if left = 0 then pure 0
    else remainder (ring.head + min count ring.length) capacity
  pure { ring with head, length := left, length_le := ring.length_sub_le count }

def transferSliced (ring : Ring capacity) (target : Ring other) (count : Nat) :
    Except Fault (Bool × Ring capacity × Ring other) :=
  if ring.length < count ∨ target.free < count then .ok (false, ring, target)
  else do
    let (bytes, ring) ← ring.peekSliced
    let (pushed, target) ← target.pushSliced (← slice bytes 0 count)
    pure (pushed, ← ring.popSliced count, target)

-- How far a cell lies behind another one, going round at the end of the block.
def steps (capacity start place : Nat) : Nat :=
  if start ≤ place then place - start else place + capacity - start

-- The block with bytes laid into it from a place on.
def laid (cells : Vector UInt8 capacity) (start : Nat) (data : List UInt8) :
    Vector UInt8 capacity :=
  Vector.ofFn fun place => data[steps capacity start place.val]?.getD cells[place.val]

section

variable {start place : Nat}

theorem next_eq (hstart : start < capacity) :
    (start + 1) % capacity = if start + 1 = capacity then 0 else start + 1 := by
  split
  · rename_i hlast
    rw [hlast, Nat.mod_self]
  · exact Nat.mod_eq_of_lt (by omega)

theorem steps_of_ne (hstart : start < capacity) (hplace : place < capacity)
    (hne : start ≠ place) :
    steps capacity start place = steps capacity ((start + 1) % capacity) place + 1 := by
  rw [next_eq hstart, steps, steps]
  repeat' split
  all_goals omega

-- The cell before a place is the last one that is met from there.
theorem steps_next_self (hstart : start < capacity) :
    steps capacity ((start + 1) % capacity) start + 1 = capacity := by
  rw [next_eq hstart, steps]
  repeat' split
  all_goals omega

theorem steps_self : steps capacity start start = 0 := by
  rw [steps, if_pos (Nat.le_refl _), Nat.sub_self]

-- Each byte goes to the cell that lies as far behind the end of the queue.
theorem getElem_pushBytes (ring : Ring capacity) {data : List UInt8} (h : data.length ≤ ring.free)
    (hplace : place < capacity) :
    (ring.pushBytes data).cells[place] =
      data[steps capacity ((ring.head + ring.length) % capacity) place]?.getD
        ring.cells[place] := by
  induction data generalizing ring with
  | nil => rfl
  | cons byte rest ih =>
      have hroom := ring.length_add_free
      rw [List.length_cons] at h
      have hlt : ring.length < capacity := by omega
      have hstart : (ring.head + ring.length) % capacity < capacity := Nat.mod_lt _ (by omega)
      have hnext := ih (ring.pushByte byte hlt) (by simp only [free, pushByte]; omega)
      have hend : ((ring.pushByte byte hlt).head + (ring.pushByte byte hlt).length) % capacity =
          ((ring.head + ring.length) % capacity + 1) % capacity :=
        (Nat.mod_add_mod (ring.head + ring.length) capacity 1).symm
      have hcells : (ring.pushByte byte hlt).cells[place] =
          if (ring.head + ring.length) % capacity = place then byte else ring.cells[place] :=
        Vector.getElem_set hstart hplace
      rw [pushBytes, dif_pos hlt, hnext, hend, hcells]
      generalize (ring.head + ring.length) % capacity = start at hstart ⊢
      by_cases hsame : start = place
      · -- The bytes that are left do not come round to this cell again.
        subst hsame
        have hround := steps_next_self hstart
        rw [List.getElem?_eq_none (by omega), steps_self, if_pos rfl]
        rfl
      · rw [steps_of_ne hstart hplace hsame, List.getElem?_cons_succ, if_neg hsame]

end

theorem cells_pushBytes (ring : Ring capacity) {data : List UInt8} (h : data.length ≤ ring.free) :
    (ring.pushBytes data).cells = laid ring.cells ((ring.head + ring.length) % capacity) data := by
  refine Vector.ext fun place hplace => ?_
  rw [getElem_pushBytes ring h hplace, laid, Vector.getElem_ofFn]

theorem slice_of_le {bytes : List UInt8} {start stop : Nat} (h : start ≤ stop)
    (hstop : stop ≤ bytes.length) : slice bytes start stop = .ok ((bytes.take stop).drop start) :=
  if_pos ⟨h, hstop⟩

theorem overwrite_of_le (cells : Vector UInt8 capacity) {start stop : Nat} {data : List UInt8}
    (h : start ≤ stop) (hstop : stop ≤ capacity) (hdata : data.length = stop - start) :
    overwrite cells start stop data = .ok (Vector.ofFn fun place =>
      if start ≤ place.val ∧ place.val < stop then data[place.val - start]?.getD 0
      else cells[place.val]) :=
  if_pos ⟨h, hstop, hdata⟩

-- Both slices lie in the block, and together they lay each byte into its cell.
theorem copyRound_eq (cells : Vector UInt8 capacity) {start : Nat} {data : List UInt8}
    (hstart : start < capacity) (hdata : data.length ≤ capacity) :
    copyRound cells start data = .ok (laid cells start data) := by
  have hcount : min data.length (capacity - start) ≤ data.length := Nat.min_le_left _ _
  have hbefore : start + min data.length (capacity - start) ≤ capacity := by omega
  have hafter : data.length - min data.length (capacity - start) ≤ start := by omega
  generalize hmin : min data.length (capacity - start) = count at hcount hbefore hafter
  simp only [copyRound, hmin, slice_of_le (Nat.zero_le count) hcount,
    slice_of_le hcount (Nat.le_refl data.length), bind, Except.bind]
  rw [overwrite_of_le cells (Nat.le_add_right start count) hbefore (by simp; omega)]
  simp only
  rw [overwrite_of_le _ (Nat.zero_le _) (by omega) (by simp)]
  refine congrArg Except.ok (Vector.ext fun place hplace => ?_)
  simp only [laid, steps, Vector.getElem_ofFn, Nat.zero_le, true_and, Nat.sub_zero,
    List.take_length, List.drop_zero, List.getElem?_drop]
  by_cases hround : place < data.length - count
  · -- A cell of the second slice, which is met after the end of the block.
    have hbehind : ¬ start ≤ place := by omega
    have hmet : place + capacity - start = count + place := by omega
    rw [if_pos hround, if_neg hbehind, hmet, List.getElem?_eq_getElem (by omega)]
    rfl
  · rw [if_neg hround]
    by_cases hfirst : start ≤ place ∧ place < start + count
    · rw [if_pos hfirst, if_pos hfirst.1, List.getElem?_take_of_lt (by omega),
        List.getElem?_eq_getElem (by omega)]
      rfl
    · have hkept : data.length ≤ if start ≤ place then place - start
          else place + capacity - start := by split <;> omega
      rw [if_neg hfirst, List.getElem?_eq_none hkept]
      rfl

theorem ext_of_cells {left right : Ring capacity} (hcells : left.cells = right.cells)
    (hhead : left.head = right.head) (hlength : left.length = right.length) : left = right := by
  cases left
  cases right
  cases hcells
  cases hhead
  cases hlength
  rfl

theorem pushSliced_eq (ring : Ring capacity) (data : List UInt8) :
    ring.pushSliced data = ring.push data := by
  unfold pushSliced push
  by_cases hfree : ring.free < data.length
  · rw [dif_pos hfree, if_pos hfree]
  · rw [dif_neg hfree, if_neg hfree]
    by_cases hcapacity : capacity = 0
    · rw [remainder, if_pos hcapacity, if_pos hcapacity]
      rfl
    · have hfits := Nat.le_of_not_lt hfree
      have hroom := length_add_le hfree
      have hstart : (ring.head + ring.length) % capacity < capacity :=
        Nat.mod_lt _ (Nat.pos_of_ne_zero hcapacity)
      rw [remainder, if_neg hcapacity, if_neg hcapacity]
      simp only [bind, Except.bind,
        copyRound_eq ring.cells hstart (by omega : data.length ≤ capacity)]
      refine congrArg (fun pushed => Except.ok (true, pushed)) ?_
      exact ext_of_cells (cells_pushBytes ring hfits).symm (head_pushBytes ring data).symm
        (length_pushBytes ring data hfits).symm

theorem InBlock.alignSliced_eq (h : ring.InBlock) : ring.alignSliced = .ok ring.aligned :=
  if_neg fun hout => Nat.lt_asymm h hout.2

-- The piece of the turned block that is shown is the whole queue.
theorem InBlock.peekSliced_eq (h : ring.InBlock) :
    ring.peekSliced = .ok (ring.toList, ring.aligned) := by
  have hpiece := ring.head_aligned_le
  have hshown : (ring.aligned.cells.toList.take (ring.aligned.head + ring.aligned.length)).drop
      ring.aligned.head = ring.toList := by
    refine List.ext_getElem? fun position => ?_
    rw [List.getElem?_drop, List.getElem?_take, length_aligned, getElem?_toList]
    by_cases hlt : position < ring.length
    · rw [if_pos (Nat.add_lt_add_left hlt _), if_pos hlt, Vector.getElem?_toList,
        getElem?_aligned ring hlt, byteAt]
      have hcell : (ring.head + position) % capacity < capacity :=
        Nat.mod_lt _ (Nat.zero_lt_of_lt h)
      rw [Vector.getElem?_eq_getElem hcell]
      rfl
    · rw [if_neg (fun hin => hlt (Nat.lt_of_add_lt_add_left hin)), if_neg hlt]
  simp only [peekSliced, h.alignSliced_eq, bind, Except.bind]
  rw [slice_of_le (Nat.le_add_right _ _) (by
    rw [Vector.length_toList, length_aligned]
    exact hpiece), hshown]
  rfl

theorem popSliced_eq (ring : Ring capacity) (count : Nat) :
    ring.popSliced count = .ok (ring.pop count) := by
  unfold popSliced pop
  by_cases hempty : ring.length - min count ring.length = 0
  · simp only [hempty, if_true, pure, Except.pure, bind, Except.bind]
  · have hcapacity : capacity ≠ 0 := by
      have := ring.length_le
      omega
    simp only [remainder, hempty, hcapacity, if_false, pure, Except.pure, bind, Except.bind]

theorem InBlock.transferSliced_eq (h : ring.InBlock) (target : Ring other) (count : Nat) :
    ring.transferSliced target count = ring.transfer target count := by
  unfold transferSliced Ring.transfer
  split
  · rfl
  · rename_i hmoves
    have hcount : count ≤ ring.toList.length := by
      rw [length_toList]
      omega
    simp only [h.peekSliced_eq, slice_of_le (Nat.zero_le count) hcount, pushSliced_eq, popSliced_eq,
      bind, Except.bind]
    rw [List.drop_zero, front_eq_take]
    cases target.push (ring.toList.take count) with
    | error fault => rfl
    | ok pushed => rfl

end BoardControl.Ring
