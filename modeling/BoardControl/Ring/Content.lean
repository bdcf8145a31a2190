import BoardControl.Ring

namespace BoardControl.Ring

-- What each operation does to the bytes of a queue, oldest first. A queue is
-- its list of bytes; where they lie in the block makes no difference.

variable {capacity other : Nat}

-- Two positions that are less than a block apart lie in different cells.
theorem cell_ne (start : Nat) {near far : Nat} (hlt : near < far) (hfar : far < capacity) :
    (start + near) % capacity ≠ (start + far) % capacity := by
  intro h
  have hzero : (start + far - (start + near)) % capacity = 0 :=
    Nat.sub_mod_eq_zero_of_mod_eq h.symm
  rw [Nat.add_sub_add_left, Nat.mod_eq_of_lt (by omega)] at hzero
  omega

theorem length_aligned (ring : Ring capacity) : ring.aligned.length = ring.length := by
  unfold aligned
  split <;> rfl

theorem head_aligned_le (ring : Ring capacity) : ring.aligned.head + ring.length ≤ capacity := by
  unfold aligned
  split
  · rw [Nat.zero_add]
    exact ring.length_le
  · omega

-- Turning the block takes every byte to its place, and the cells that do not
-- belong to the queue with them.
theorem getElem?_aligned (ring : Ring capacity) {position : Nat} (h : position < ring.length) :
    ring.aligned.cells[ring.aligned.head + position]? =
      ring.cells[(ring.head + position) % capacity]? := by
  have hlt : position < capacity := Nat.lt_of_lt_of_le h ring.length_le
  unfold aligned
  split
  · have hcell : (position + ring.head) % capacity < capacity := Nat.mod_lt _ (by omega)
    rw [Nat.zero_add, Nat.add_comm ring.head, Vector.getElem?_eq_getElem hlt,
      Vector.getElem?_eq_getElem hcell, Vector.getElem_ofFn]
    rfl
  · rw [Nat.mod_eq_of_lt (by omega)]

theorem front_eq_map (ring : Ring capacity) (count : Nat) :
    ring.front count = (List.range (min count ring.length)).map ring.byteAt := by
  apply List.map_congr_left
  intro position hposition
  have hlt : position < ring.length := by
    have := List.mem_range.mp hposition
    omega
  rw [getElem?_aligned ring hlt, byteAt]

theorem front_eq_take (ring : Ring capacity) (count : Nat) :
    ring.front count = ring.toList.take count := by
  simp only [toList, front_eq_map, Nat.min_self, ← List.map_take, List.take_range]

theorem toList_empty : (Ring.empty capacity).toList = [] := rfl

theorem toList_reset (ring : Ring capacity) : ring.reset.toList = [] := rfl

theorem getElem?_toList (ring : Ring capacity) (position : Nat) :
    ring.toList[position]? =
      if position < ring.length then some (ring.byteAt position) else none := by
  simp only [toList, front_eq_map, Nat.min_self, List.getElem?_map]
  by_cases h : position < ring.length
  · simp [h]
  · simp [h]

-- The new byte is the last one and the others stay where they are.
theorem byteAt_pushByte (ring : Ring capacity) (byte : UInt8) (h : ring.length < capacity)
    {position : Nat} (hposition : position ≤ ring.length) :
    (ring.pushByte byte h).byteAt position =
      if position = ring.length then byte else ring.byteAt position := by
  simp only [byteAt, pushByte, Vector.getElem?_set]
  by_cases hlast : position = ring.length
  · subst hlast
    simp
  · have hne := cell_ne ring.head (Nat.lt_of_le_of_ne hposition hlast) h
    simp [hlast, Ne.symm hne]

theorem toList_pushByte (ring : Ring capacity) (byte : UInt8) (h : ring.length < capacity) :
    (ring.pushByte byte h).toList = ring.toList ++ [byte] := by
  apply List.ext_getElem?
  intro position
  have hlength : (ring.pushByte byte h).length = ring.length + 1 := rfl
  rw [getElem?_toList, hlength, List.getElem?_append, getElem?_toList, length_toList]
  by_cases hlt : position < ring.length
  · simp [byteAt_pushByte ring byte h (Nat.le_of_lt hlt), hlt, Nat.ne_of_lt hlt,
      Nat.lt_succ_of_lt hlt]
  · by_cases hlast : position = ring.length
    · subst hlast
      simp [byteAt_pushByte ring byte h (Nat.le_refl _)]
    · have hgap : position - ring.length ≠ 0 := by omega
      simp [hlt, show ¬ position < ring.length + 1 by omega, hgap]

theorem toList_pushBytes (ring : Ring capacity) (data : List UInt8)
    (h : data.length ≤ ring.free) : (ring.pushBytes data).toList = ring.toList ++ data := by
  induction data generalizing ring with
  | nil => simp [pushBytes]
  | cons byte rest ih =>
      have hfree : rest.length + 1 ≤ capacity - ring.length := h
      have hlt : ring.length < capacity := by omega
      rw [pushBytes, dif_pos hlt, ih _ (by simp only [free, pushByte]; omega), toList_pushByte]
      simp

theorem byteAt_pop (ring : Ring capacity) (count : Nat) {position : Nat}
    (h : position < ring.length - count) :
    (ring.pop count).byteAt position = ring.byteAt (count + position) := by
  have hmin : min count ring.length = count := by omega
  have hleft : ring.length - count ≠ 0 := by omega
  simp only [byteAt, pop, hmin, hleft, if_false, Nat.mod_add_mod, Nat.add_assoc]

theorem toList_pop (ring : Ring capacity) (count : Nat) :
    (ring.pop count).toList = ring.toList.drop count := by
  apply List.ext_getElem?
  intro position
  rw [getElem?_toList, length_pop, List.getElem?_drop, getElem?_toList]
  by_cases h : position < ring.length - count
  · simp [byteAt_pop ring count h, h, show count + position < ring.length by omega]
  · simp [h, show ¬ count + position < ring.length by omega]

theorem toList_aligned (ring : Ring capacity) : ring.aligned.toList = ring.toList := by
  simp only [toList, front_eq_map, Nat.min_self, length_aligned]
  apply List.map_congr_left
  intro position hposition
  have hlt : position < ring.length := List.mem_range.mp hposition
  have hpiece := ring.head_aligned_le
  rw [byteAt, byteAt, Nat.mod_eq_of_lt (by omega), getElem?_aligned ring hlt]

theorem length_popFront (ring : Ring capacity) (count : Nat) :
    (ring.popFront count).length = ring.length - count := by
  rw [popFront, length_pop, length_aligned]

theorem toList_popFront (ring : Ring capacity) (count : Nat) :
    (ring.popFront count).toList = ring.toList.drop count := by
  rw [popFront, toList_pop, toList_aligned]

-- Bytes go in together, and only if all of them fit.
theorem push_eq_ok_true_iff (ring after : Ring capacity) (data : List UInt8) :
    ring.push data = .ok (true, after) ↔
      data.length ≤ ring.free ∧ 0 < capacity ∧ after = ring.pushBytes data := by
  unfold push
  by_cases hfree : ring.free < data.length
  · simp [hfree, Nat.not_le.mpr hfree]
  · by_cases hcapacity : capacity = 0
    · simp [hfree, hcapacity]
    · simp only [hfree, hcapacity, if_false, Except.ok.injEq, Prod.mk.injEq, true_and]
      constructor
      · intro h
        exact ⟨Nat.le_of_not_lt hfree, Nat.pos_of_ne_zero hcapacity, h.symm⟩
      · intro h
        exact h.2.2.symm

-- Bytes that are there and fit go from the front of one queue to the end of the
-- other.
theorem transfer_of_fits (ring : Ring capacity) (target : Ring other) (count : Nat)
    (hcount : count ≤ ring.length) (hfree : count ≤ target.free) (hother : 0 < other) :
    ring.transfer target count =
      .ok (true, ring.popFront count, target.pushBytes (ring.toList.take count)) := by
  have hdata : (ring.front count).length ≤ target.free := by
    rw [length_front]
    omega
  have hpush := (push_eq_ok_true_iff target _ (ring.front count)).mpr ⟨hdata, hother, rfl⟩
  simp only [transfer, Nat.not_lt.mpr hcount, Nat.not_lt.mpr hfree, or_self, if_false, hpush]
  rw [front_eq_take]

end BoardControl.Ring
