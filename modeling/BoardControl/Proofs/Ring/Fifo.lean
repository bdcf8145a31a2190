import BoardControl.Proofs.Ring.Slices

namespace BoardControl.Ring

-- What may be asked of a queue that lies beside another one, and what it answers.
inductive Request where
  | Push (data : List UInt8)
  | Peek
  | Pop (count : Nat)
  | Transfer (count : Nat)
  | Reset
deriving DecidableEq, Repr

inductive Reply where
  | Done
  | Accepted (yes : Bool)
  | Shown (bytes : List UInt8)
deriving DecidableEq, Repr

inductive Side where
  | Left
  | Right
deriving DecidableEq, Repr

-- How the operations of a queue are carried out.
structure Access where
  push : {capacity : Nat} → Ring capacity → List UInt8 → Except Fault (Bool × Ring capacity)
  peek : {capacity : Nat} → Ring capacity → Except Fault (List UInt8 × Ring capacity)
  pop : {capacity : Nat} → Ring capacity → Nat → Except Fault (Ring capacity)
  transfer : {capacity other : Nat} → Ring capacity → Ring other → Nat →
    Except Fault (Bool × Ring capacity × Ring other)

-- A look at every byte turns the block if the queue goes round its end.
def whole : Access where
  push := push
  peek ring := .ok (ring.toList, ring.aligned)
  pop ring count := .ok (ring.pop count)
  transfer := transfer

def sliced : Access where
  push := pushSliced
  peek := peekSliced
  pop := popSliced
  transfer := transferSliced

structure Pair (capacity other : Nat) where
  left : Ring capacity
  right : Ring other

section

variable {capacity other : Nat}

def Pair.empty (capacity other : Nat) : Pair capacity other := ⟨.empty capacity, .empty other⟩

def Access.serve (access : Access) (ring : Ring capacity) (target : Ring other) :
    Request → Except Fault (Reply × Ring capacity × Ring other)
  | .Push data => do
      let (accepted, ring) ← access.push ring data
      pure (.Accepted accepted, ring, target)
  | .Peek => do
      let (bytes, ring) ← access.peek ring
      pure (.Shown bytes, ring, target)
  | .Pop count => do pure (.Done, ← access.pop ring count, target)
  | .Transfer count => do
      let (accepted, ring, target) ← access.transfer ring target count
      pure (.Accepted accepted, ring, target)
  | .Reset => pure (.Done, ring.reset, target)

def Access.serveSide (access : Access) (pair : Pair capacity other) (request : Request) :
    Side → Except Fault (Reply × Pair capacity other)
  | .Left => do
      let (reply, left, right) ← access.serve pair.left pair.right request
      pure (reply, { left, right })
  | .Right => do
      let (reply, right, left) ← access.serve pair.right pair.left request
      pure (reply, { left, right })

def Access.serveAll (access : Access) (pair : Pair capacity other) :
    List (Side × Request) → Except Fault (List Reply × Pair capacity other)
  | [] => pure ([], pair)
  | (side, request) :: rest => do
      let (reply, pair) ← access.serveSide pair request side
      let (replies, pair) ← access.serveAll pair rest
      pure (reply :: replies, pair)

end

-- The same of two bounded lists of bytes, oldest first.

structure Queues where
  left : List UInt8 := []
  right : List UInt8 := []
deriving DecidableEq, Repr

def serveQueue (capacity other : Nat) (queue target : List UInt8) :
    Request → Reply × List UInt8 × List UInt8
  | .Push data =>
      if queue.length + data.length ≤ capacity then (.Accepted true, queue ++ data, target)
      else (.Accepted false, queue, target)
  | .Peek => (.Shown queue, queue, target)
  | .Pop count => (.Done, queue.drop (min count queue.length), target)
  | .Transfer count =>
      if count ≤ queue.length ∧ target.length + count ≤ other then
        (.Accepted true, queue.drop count, target ++ queue.take count)
      else (.Accepted false, queue, target)
  | .Reset => (.Done, [], target)

def Queues.serve (capacity other : Nat) (queues : Queues) (request : Request) :
    Side → Reply × Queues
  | .Left =>
      let (reply, left, right) := serveQueue capacity other queues.left queues.right request
      (reply, { left, right })
  | .Right =>
      let (reply, right, left) := serveQueue other capacity queues.right queues.left request
      (reply, { left, right })

def Queues.serveAll (capacity other : Nat) (queues : Queues) :
    List (Side × Request) → List Reply × Queues
  | [] => ([], queues)
  | (side, request) :: rest =>
      let (reply, queues) := queues.serve capacity other request side
      let (replies, queues) := queues.serveAll capacity other rest
      (reply :: replies, queues)

-- A queue of bytes and the ring that holds them.
structure Holds {capacity : Nat} (ring : Ring capacity) (queue : List UInt8) : Prop where
  bytes : ring.toList = queue
  inBlock : ring.head < capacity
  length_eq : ring.length = queue.length
  fits : queue.length ≤ capacity
  room : ring.length + ring.free = capacity

section

variable {capacity other : Nat} {ring : Ring capacity} {target : Ring other}
  {queue waiting data : List UInt8} {count : Nat}

theorem InBlock.holds (h : ring.InBlock) (hbytes : ring.toList = queue) : ring.Holds queue where
  bytes := hbytes
  inBlock := h
  length_eq := by rw [← hbytes, length_toList]
  fits := by
    rw [← hbytes, length_toList]
    exact ring.length_le
  room := ring.length_add_free

namespace Holds

variable (h : ring.Holds queue)
include h

theorem aligned : ring.aligned.Holds queue :=
  (InBlock.aligned h.inBlock).holds ((toList_aligned ring).trans h.bytes)

theorem pushBytes (hfits : queue.length + data.length ≤ capacity) :
    (ring.pushBytes data).Holds (queue ++ data) := by
  have hlength := h.length_eq
  have hroom := h.room
  refine (InBlock.pushBytes h.inBlock data).holds ?_
  rw [toList_pushBytes ring data (by omega), h.bytes]

theorem pop (count : Nat) : (ring.pop count).Holds (queue.drop (min count queue.length)) := by
  refine (inBlock_pop (Nat.zero_lt_of_lt h.inBlock) ring count).holds ?_
  rw [toList_pop, h.bytes]
  exact List.drop_eq_drop_min

theorem popFront (count : Nat) : (ring.popFront count).Holds (queue.drop count) := by
  refine (inBlock_popFront (Nat.zero_lt_of_lt h.inBlock) ring count).holds ?_
  rw [toList_popFront, h.bytes]

theorem reset : ring.reset.Holds [] :=
  (inBlock_reset (Nat.zero_lt_of_lt h.inBlock) ring).holds (toList_reset ring)

theorem push_of_fits (hfits : queue.length + data.length ≤ capacity) :
    ring.push data = .ok (true, ring.pushBytes data) := by
  have hlength := h.length_eq
  have hroom := h.room
  exact (push_eq_ok_true_iff ring _ data).mpr ⟨by omega, Nat.zero_lt_of_lt h.inBlock, rfl⟩

theorem push_of_full (hfull : ¬ queue.length + data.length ≤ capacity) :
    ring.push data = .ok (false, ring) := by
  have hlength := h.length_eq
  have hroom := h.room
  exact if_pos (by omega)

theorem transfer_of_fits (htarget : target.Holds waiting)
    (hfits : count ≤ queue.length ∧ waiting.length + count ≤ other) :
    ring.transfer target count =
      .ok (true, ring.popFront count, target.pushBytes (queue.take count)) := by
  have hlength := h.length_eq
  have hwaiting := htarget.length_eq
  have hroom := htarget.room
  rw [← h.bytes]
  exact Ring.transfer_of_fits ring target count (by omega) (by omega)
    (Nat.zero_lt_of_lt htarget.inBlock)

theorem transfer_of_short (htarget : target.Holds waiting)
    (hshort : ¬ (count ≤ queue.length ∧ waiting.length + count ≤ other)) :
    ring.transfer target count = .ok (false, ring, target) := by
  have hlength := h.length_eq
  have hwaiting := htarget.length_eq
  have hroom := htarget.room
  exact if_pos (by omega)

-- One request is served as the two lists say.
theorem serve (htarget : target.Holds waiting) (request : Request) :
    ∃ after next, whole.serve ring target request =
        .ok ((serveQueue capacity other queue waiting request).1, after, next) ∧
      after.Holds (serveQueue capacity other queue waiting request).2.1 ∧
      next.Holds (serveQueue capacity other queue waiting request).2.2 := by
  cases request with
  | Push data =>
      by_cases hfits : queue.length + data.length ≤ capacity
      · rw [serveQueue, if_pos hfits]
        refine ⟨ring.pushBytes data, target, ?_, h.pushBytes hfits, htarget⟩
        simp only [Access.serve, whole, h.push_of_fits hfits]
        rfl
      · rw [serveQueue, if_neg hfits]
        refine ⟨ring, target, ?_, h, htarget⟩
        simp only [Access.serve, whole, h.push_of_full hfits]
        rfl
  | Peek =>
      refine ⟨ring.aligned, target, ?_, h.aligned, htarget⟩
      rw [serveQueue, ← h.bytes]
      rfl
  | Pop count => exact ⟨ring.pop count, target, rfl, h.pop count, htarget⟩
  | Transfer count =>
      by_cases hfits : count ≤ queue.length ∧ waiting.length + count ≤ other
      · rw [serveQueue, if_pos hfits]
        refine ⟨ring.popFront count, target.pushBytes (queue.take count), ?_, h.popFront count, ?_⟩
        · simp only [Access.serve, whole, h.transfer_of_fits htarget hfits]
          rfl
        · exact htarget.pushBytes (by rw [List.length_take]; omega)
      · rw [serveQueue, if_neg hfits]
        refine ⟨ring, target, ?_, h, htarget⟩
        simp only [Access.serve, whole, h.transfer_of_short htarget hfits]
        rfl
  | Reset => exact ⟨ring.reset, target, rfl, h.reset, htarget⟩

end Holds

-- While a queue lies in its block, no access to the block fails.
theorem sliced_serve (h : ring.InBlock) (target : Ring other) (request : Request) :
    sliced.serve ring target request = whole.serve ring target request := by
  cases request with
  | Push data => simp only [Access.serve, sliced, whole, pushSliced_eq]
  | Peek => simp only [Access.serve, sliced, whole, h.peekSliced_eq]
  | Pop count => simp only [Access.serve, sliced, whole, popSliced_eq]
  | Transfer count => simp only [Access.serve, sliced, whole, h.transferSliced_eq]
  | Reset => rfl

end

section

variable {capacity other : Nat} {pair : Pair capacity other} {queues : Queues}

structure Pair.Holds (pair : Pair capacity other) (queues : Queues) : Prop where
  left : pair.left.Holds queues.left
  right : pair.right.Holds queues.right

theorem Pair.holds_empty (hcapacity : 0 < capacity) (hother : 0 < other) :
    (Pair.empty capacity other).Holds {} where
  left := (inBlock_empty hcapacity).holds toList_empty
  right := (inBlock_empty hother).holds toList_empty

theorem Pair.Holds.serveSide (h : pair.Holds queues) (request : Request) (side : Side) :
    ∃ after, whole.serveSide pair request side =
        .ok ((queues.serve capacity other request side).1, after) ∧
      sliced.serveSide pair request side = whole.serveSide pair request side ∧
      after.Holds (queues.serve capacity other request side).2 := by
  cases side with
  | Left =>
      obtain ⟨left, right, hserve, hleft, hright⟩ := h.left.serve h.right request
      have hsliced := sliced_serve h.left.inBlock pair.right request
      refine ⟨⟨left, right⟩, ?_, ?_, hleft, hright⟩
      · simp only [Access.serveSide, hserve]
        rfl
      · simp only [Access.serveSide, hsliced]
  | Right =>
      obtain ⟨right, left, hserve, hright, hleft⟩ := h.right.serve h.left request
      have hsliced := sliced_serve h.right.inBlock pair.left request
      refine ⟨⟨left, right⟩, ?_, ?_, hleft, hright⟩
      · simp only [Access.serveSide, hserve]
        rfl
      · simp only [Access.serveSide, hsliced]

theorem Pair.Holds.serveAll (h : pair.Holds queues) (requests : List (Side × Request)) :
    ∃ after, whole.serveAll pair requests =
        .ok ((queues.serveAll capacity other requests).1, after) ∧
      sliced.serveAll pair requests = whole.serveAll pair requests ∧
      after.Holds (queues.serveAll capacity other requests).2 := by
  induction requests generalizing pair queues with
  | nil => exact ⟨pair, rfl, rfl, h⟩
  | cons next rest ih =>
      obtain ⟨side, request⟩ := next
      obtain ⟨middle, hserve, hsliced, hmiddle⟩ := h.serveSide request side
      obtain ⟨after, hrest, hslicedRest, hafter⟩ := ih hmiddle
      refine ⟨after, ?_, ?_, hafter⟩
      · simp only [Access.serveAll, hserve, hrest, bind, Except.bind]
        rfl
      · simp only [Access.serveAll, hsliced, hserve, hslicedRest, bind, Except.bind]

-- Whatever is asked of two queues in whichever order, each of them is a list of bytes
-- of at most its capacity: every answer is that of the lists, every access lies in
-- its block, and a refused request leaves both queues as they are.
theorem pair_is_bounded_fifo (hcapacity : 0 < capacity) (hother : 0 < other)
    (requests : List (Side × Request)) :
    let served := Queues.serveAll capacity other {} requests
    ∃ after, sliced.serveAll (Pair.empty capacity other) requests = .ok (served.1, after) ∧
      whole.serveAll (Pair.empty capacity other) requests = .ok (served.1, after) ∧
      after.left.Holds served.2.left ∧ after.right.Holds served.2.right := by
  intro served
  obtain ⟨after, hwhole, hsliced, hafter⟩ :=
    (Pair.holds_empty hcapacity hother).serveAll requests
  exact ⟨after, hsliced.trans hwhole, hwhole, hafter.left, hafter.right⟩

end

-- Six bytes, of which one stays, five more that go round the end of the block, and two
-- transfers of which the second has no room.
def goingRound : List (Side × Request) :=
  [(.Left, .Push [0, 1, 2, 3, 4, 5]), (.Left, .Pop 5), (.Left, .Push [6, 7, 8, 9, 10]),
    (.Left, .Peek), (.Left, .Transfer 3), (.Left, .Transfer 2), (.Right, .Push [11]),
    (.Right, .Transfer 4), (.Right, .Push [12]), (.Left, .Peek)]

theorem pair_is_bounded_fifo_going_round :
    0 < 8 ∧ 0 < 4 ∧
    ∃ after : Pair 8 4, sliced.serveAll (Pair.empty 8 4) goingRound =
        .ok ([.Accepted true, .Done, .Accepted true, .Shown [5, 6, 7, 8, 9, 10], .Accepted true,
          .Accepted false, .Accepted true, .Accepted true, .Accepted true,
          .Shown [8, 9, 10, 5, 6, 7, 11]], after) ∧
      after.left.Holds [8, 9, 10, 5, 6, 7, 11] ∧ after.right.Holds [12] := by
  obtain ⟨after, hsliced, _, hleft, hright⟩ :=
    @pair_is_bounded_fifo 8 4 (by decide) (by decide) goingRound
  exact ⟨by decide, by decide, after, hsliced, hleft, hright⟩

end BoardControl.Ring
