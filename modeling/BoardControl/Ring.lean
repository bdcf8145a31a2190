import BoardControl.Run

namespace BoardControl

-- A byte queue over a fixed block of cells. The queue holds the `length` cells
-- from `head` on, going round at the end of the block. What the other cells
-- hold is never seen.
structure Ring (capacity : Nat) where
  cells : Vector UInt8 capacity
  head : Nat
  length : Nat
  length_le : length ≤ capacity

namespace Ring

variable {capacity other : Nat}

def empty (capacity : Nat) : Ring capacity :=
  { cells := Vector.replicate capacity 0, head := 0, length := 0, length_le := Nat.zero_le _ }

def isEmpty (ring : Ring capacity) : Bool := ring.length == 0

def free (ring : Ring capacity) : Nat := capacity - ring.length

-- The byte at a position counted from the oldest one.
def byteAt (ring : Ring capacity) (position : Nat) : UInt8 :=
  ring.cells[(ring.head + position) % capacity]?.getD 0

-- The same queue in one piece: if it goes round the end, the whole block is
-- turned until the oldest byte is in the first cell.
def aligned (ring : Ring capacity) : Ring capacity :=
  if capacity < ring.head + ring.length then
    { ring with
      cells := Vector.ofFn fun place =>
        ring.cells.get ⟨(place.val + ring.head) % capacity, Nat.mod_lt _ place.pos⟩
      head := 0 }
  else ring

-- The oldest bytes, at most `count` of them, as a reader sees them in one piece.
-- A look that drops nothing leaves the queue where it lies.
def front (ring : Ring capacity) (count : Nat) : List UInt8 :=
  let piece := ring.aligned
  (List.range (min count ring.length)).map fun position =>
    piece.cells[piece.head + position]?.getD 0

-- Every byte, oldest first.
def toList (ring : Ring capacity) : List UInt8 := ring.front ring.length

def pushByte (ring : Ring capacity) (byte : UInt8) (h : ring.length < capacity) :
    Ring capacity :=
  { ring with
    cells := ring.cells.set ((ring.head + ring.length) % capacity) byte
      (Nat.mod_lt _ (Nat.zero_lt_of_lt h))
    length := ring.length + 1
    length_le := h }

-- Bytes that do not fit are left out.
def pushBytes (ring : Ring capacity) : List UInt8 → Ring capacity
  | [] => ring
  | byte :: rest =>
      if h : ring.length < capacity then (ring.pushByte byte h).pushBytes rest else ring

-- Appends all the bytes, or none if they do not fit. The place to write to is
-- a remainder by the capacity, which must not be zero.
def push (ring : Ring capacity) (data : List UInt8) : Except Fault (Bool × Ring capacity) :=
  if ring.free < data.length then .ok (false, ring)
  else if capacity = 0 then .error .RemainderByZero
  else .ok (true, ring.pushBytes data)

-- Drops the oldest bytes, at most `count` of them. An empty queue starts again
-- at the first cell.
def pop (ring : Ring capacity) (count : Nat) : Ring capacity :=
  let count := min count ring.length
  let length := ring.length - count
  { ring with
    head := if length = 0 then 0 else (ring.head + count) % capacity
    length := length
    length_le := Nat.le_trans (Nat.sub_le _ _) ring.length_le }

-- Drops the oldest bytes once they were read in one piece.
def popFront (ring : Ring capacity) (count : Nat) : Ring capacity := ring.aligned.pop count

-- Moves the oldest bytes to the end of another queue, unless there are too few
-- of them or they do not fit.
def transfer (ring : Ring capacity) (target : Ring other) (count : Nat) :
    Except Fault (Bool × Ring capacity × Ring other) :=
  if ring.length < count ∨ target.free < count then .ok (false, ring, target)
  else
    match target.push (ring.front count) with
    | .error fault => .error fault
    | .ok (pushed, target) => .ok (pushed, ring.popFront count, target)

-- Drops everything and keeps the cells as they are.
def reset (ring : Ring capacity) : Ring capacity :=
  { ring with head := 0, length := 0, length_le := Nat.zero_le _ }

theorem length_front (ring : Ring capacity) (count : Nat) :
    (ring.front count).length = min count ring.length := by
  simp [front]

theorem length_toList (ring : Ring capacity) : ring.toList.length = ring.length := by
  simp [toList, length_front]

theorem length_add_free (ring : Ring capacity) : ring.length + ring.free = capacity :=
  Nat.add_sub_cancel' ring.length_le

theorem length_pushBytes (ring : Ring capacity) (data : List UInt8)
    (h : data.length ≤ ring.free) : (ring.pushBytes data).length = ring.length + data.length := by
  induction data generalizing ring with
  | nil => rfl
  | cons byte rest ih =>
      have hfree : rest.length + 1 ≤ capacity - ring.length := h
      have hlt : ring.length < capacity := by omega
      rw [pushBytes, dif_pos hlt, ih _ (by simp only [free, pushByte]; omega)]
      simp only [pushByte, List.length_cons]
      omega

theorem length_pop (ring : Ring capacity) (count : Nat) :
    (ring.pop count).length = ring.length - count := by
  simp only [pop]
  omega

end Ring

end BoardControl
