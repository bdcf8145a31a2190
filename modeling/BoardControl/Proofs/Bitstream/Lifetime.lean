import BoardControl.Proofs.Bitstream.Guarded
import BoardControl.Proofs.Bitstream.WholeFile

namespace BoardControl.Bitstream

-- What the host does with an updater.
inductive HostCall where
  | Open
  | Data (bytes : List UInt8)
  | Close
deriving DecidableEq, Repr

def HostCall.bytes : HostCall → List UInt8
  | .Data bytes => bytes
  | .Open | .Close => []

namespace Updater

variable {σ : Type} [TickCounter σ] [Logger σ] [Flash σ]

def serve (updater : Updater) : HostCall → Run σ Updater
  | .Open => perform updater.opened
  | .Data bytes => updater.receive bytes
  | .Close => updater.closed

def serveAll : List HostCall → Updater → Run σ Updater
  | [], updater => pure updater
  | call :: rest, updater => do serveAll rest (← updater.serve call)

theorem feed_closed (updater : Updater) (chunks : List (List UInt8)) :
    (updater.feed chunks >>= closed : Run σ Updater) =
      serveAll (chunks.map .Data ++ [.Close]) updater := by
  induction chunks generalizing updater with
  | nil => simp [feed, serveAll, serve]
  | cons chunk chunks ih =>
      rw [feed, List.foldlM_cons, bind_assoc, List.map_cons, List.cons_append, serveAll, serve]
      exact bind_congr fun next => ih next

-- A whole session is what the host does with an updater when it opens it, sends the
-- pieces of a file and closes it.
theorem session_eq_serveAll (updater : Updater) (chunks : List (List UInt8)) :
    (updater.session chunks true : Run σ Updater) =
      serveAll (.Open :: (chunks.map .Data ++ [.Close])) updater := by
  simp only [session, if_true, serveAll, serve, feed_closed]

-- An updater that has seen nothing yet of a file for a device.
structure Fresh (updater : Updater) (partition : Partition) (device : String) : Prop where
  partition : updater.writer.partition = partition
  device : updater.device = device
  phase : updater.phase = .Magic
  pending : updater.writer.pending.length = 0
  received : updater.received.toList = []

omit [TickCounter σ] [Flash σ] in
theorem opened_fresh {updater : Updater} {partition : Partition} {device : String}
    (hpartition : updater.writer.partition = partition) (hdevice : updater.device = device)
    (board : σ) : (updater.opened board).1.Fresh partition device :=
  ⟨hpartition, hdevice, rfl, rfl, Ring.toList_reset _⟩

theorem start_fresh (partition : Partition) (device : String) :
    (start partition device).Fresh partition device :=
  ⟨rfl, rfl, rfl, rfl, Ring.toList_empty⟩

end Updater

open Updater

-- The updater takes the shortest file after it was opened.
theorem Chip.serveAll_shortest :
    ∃ (closed : Updater) (after : Logged (Watched (Chip 0x1000 256)) Unit),
      serveAll [.Data shortest.bytes, .Close] (updater.opened board).1 board =
        .ok closed after ∧ closed.phase = .Done ∧ closed.bytesWritten = .ok 12 := by
  have hopened : updater.serve .Open board = .ok (updater.opened board).1 board := rfl
  have hwhole : [shortest.bytes].flatten = shortest.bytes := List.flatten_singleton
  obtain ⟨closed, after, hrun, hends⟩ := session_shortest hwhole
  rw [session_eq_serveAll, serveAll, Run.bind_ok hopened] at hrun
  exact ⟨closed, after, hrun, hends⟩

section

variable {φ μ : Type} [Flash φ] [TickCounter φ] [Logger μ] {gate : Gate φ}
  {partition : Partition} {device : String} {delivered : List UInt8} {updater : Updater}
  {logged : Logged (Watched φ) μ}

omit [TickCounter φ] in
-- A session begins with nothing done.
theorem Updater.Fresh.guards (h : updater.Fresh partition device) (board : Watched φ) :
    (Gate.mk partition device board).Guards [] updater board :=
  .live ⟨⟨h.partition, h.device⟩, .magic h.phase ⟨rfl, h.pending, h.received.symm⟩⟩

namespace Gate

theorem serve_leaves {call : HostCall} (hcall : call ≠ .Open)
    (h : gate.Guards delivered updater logged.board) :
    Run.Leaves (updater.serve call) logged
      (fun next after => gate.Guards (delivered ++ call.bytes) next after.board)
      (fun after => gate.Behind (delivered ++ call.bytes) after.board) := by
  cases call with
  | Open => exact absurd rfl hcall
  | Data bytes => exact receive_leaves h bytes
  | Close =>
      rw [HostCall.bytes, List.append_nil]
      exact closed_leaves h

theorem serveAll_leaves {session : List HostCall} (hsession : .Open ∉ session)
    (h : gate.Guards delivered updater logged.board) :
    Run.Leaves (serveAll session updater) logged
      (fun next after => gate.Guards (delivered ++ session.flatMap HostCall.bytes) next after.board)
      (fun after => gate.Behind (delivered ++ session.flatMap HostCall.bytes) after.board) := by
  induction session generalizing delivered updater logged with
  | nil =>
      rw [List.flatMap_nil, List.append_nil]
      exact h
  | cons call rest ih =>
      have hcall := List.ne_of_not_mem_cons hsession
      have hrest := List.not_mem_of_not_mem_cons hsession
      rw [List.flatMap_cons, ← List.append_assoc]
      simp only [serveAll, Run.leaves_bind]
      refine Run.Leaves.mono (serve_leaves hcall.symm h) ?_ ?_
      · intro next middle hnext
        exact ih hrest hnext
      · intro after hbehind
        exact hbehind.append _

-- Whatever an updater goes through, it stays with its partition and its device.
theorem serveAll_aims (calls : List HostCall) (h : gate.Guards delivered updater logged.board) :
    Run.Leaves (serveAll calls updater) logged
      (fun next _ => next.writer.partition = gate.partition ∧ next.device = gate.device)
      fun _ => True := by
  induction calls generalizing gate delivered updater logged with
  | nil => exact ⟨h.aims.partition, h.aims.device⟩
  | cons call rest ih =>
      simp only [serveAll, Run.leaves_bind]
      by_cases hcall : call = .Open
      · have hfresh := opened_fresh h.aims.partition h.aims.device logged
        have hrest := ih (hfresh.guards (updater.opened logged).2.board)
        simp only [hcall, serve, Run.leaves_perform]
        exact hrest
      · refine Run.Leaves.mono (serve_leaves hcall h) ?_ fun _ _ => trivial
        intro next middle hnext
        exact ih hnext

end Gate

omit [Flash φ] [TickCounter φ] [Logger μ] in
theorem serveAll_append {σ : Type} [TickCounter σ] [Logger σ] [Flash σ]
    (one other : List HostCall) (updater : Updater) :
    (serveAll (one ++ other) updater : Run σ Updater) =
      serveAll one updater >>= serveAll other := by
  induction one generalizing updater with
  | nil => rw [List.nil_append, serveAll, pure_bind]
  | cons call rest ih =>
      rw [List.cons_append, serveAll, serveAll, bind_assoc]
      exact bind_congr fun next => ih next

-- A session begins where the updater is built or opened.
theorem fresh_of_earlier {earlier : List HostCall} {begun : Logged (Watched φ) μ}
    (hearlier : serveAll earlier (start partition device) logged = .ok updater begun)
    (hbegins : earlier = [] ∨ ∃ before, earlier = before ++ [.Open]) :
    updater.Fresh partition device := by
  rcases hbegins with rfl | ⟨before, rfl⟩
  · cases hearlier
    exact start_fresh partition device
  · have hends : Run.Leaves (serveAll (before ++ [.Open]) (start partition device)) logged
        (fun next _ => next.Fresh partition device) fun _ => True := by
      rw [serveAll_append, Run.leaves_bind]
      refine Run.Leaves.mono
        (Gate.serveAll_aims before ((start_fresh partition device).guards logged.board)) ?_
        fun _ => id
      intro middle left haims
      exact opened_fresh haims.1 haims.2 left
    exact hends.of_eq_ok hearlier

-- What the calls of a session are, by the bytes that it was given.
structure Guarded (partition : Partition) (sector : UInt32) (device : String)
    (delivered : List UInt8) (calls : List FlashCall) : Prop where
  -- The flash is left alone until the file is admitted.
  admitted : calls ≠ [] → partition.Admits device delivered
  -- Before a write every sector was erased and every byte was found blank.
  prepared : ∀ before addr data ok after, calls = before ++ .Write addr data ok :: after →
    ∃ preparation pages, before = preparation ++ pages ∧ partition.Prepared sector preparation
  -- The preparation is made once, and after it there are only pages.
  once : partition.Preparing sector calls ∨ partition.Programming sector calls

omit [Flash φ] [TickCounter φ] [Logger μ] in
theorem prepared_of_write {sector : UInt32} {preparation pages before after : List FlashCall}
    {addr : UInt32} {data : List UInt8} {ok : Bool}
    (hprepared : partition.Prepared sector preparation)
    (hcalls : preparation ++ pages = before ++ .Write addr data ok :: after) :
    ∃ earlier, before = preparation ++ earlier := by
  have hnone := hprepared.preparing.writes_eq
  rcases List.append_eq_append_iff.mp hcalls with ⟨earlier, hbefore, _⟩ | ⟨later, hlater, hrest⟩
  · exact ⟨earlier, hbefore⟩
  · cases later with
    | nil => exact ⟨[], by rw [hlater]; simp⟩
    | cons first later =>
        obtain ⟨rfl, _⟩ := List.cons.inj hrest
        rw [hlater, writes_append] at hnone
        cases (List.append_eq_nil_iff.mp hnone).2

omit [TickCounter φ] in
theorem Gate.Behind.guarded {board : Watched φ} (h : gate.Behind delivered board) :
    ∃ calls, board.calls = gate.begun.calls ++ calls ∧
      Guarded gate.partition gate.sector gate.device delivered calls := by
  rcases h with hsame | ⟨hadmits, calls, hcalls, hkind⟩
  · refine ⟨[], by rw [hsame, List.append_nil], absurd rfl, ?_, .inl (.inl .stopped)⟩
    intro before addr data ok after hwrite
    cases before <;> cases hwrite
  · refine ⟨calls, hcalls, fun _ => hadmits, ?_, hkind⟩
    rintro before addr data ok after rfl
    rcases hkind with hpreparing | ⟨preparation, pages, hsplit, hprepared, _⟩
    · have hnone := hpreparing.writes_eq
      rw [writes_append] at hnone
      cases (List.append_eq_nil_iff.mp hnone).2
    · obtain ⟨earlier, hbefore⟩ := prepared_of_write hprepared hsplit.symm
      exact ⟨preparation, earlier, hbefore, hprepared⟩

omit [Flash φ] [TickCounter φ] [Logger μ] in
-- A finished updater ignores every byte.
theorem receive_of_terminal {σ : Type} [TickCounter σ] [Logger σ] [Flash σ] {updater : Updater}
    (hphase : updater.phase.isTerminal) (data : List UInt8) (board : σ) :
    updater.receive data board = .ok updater board := by
  rw [Updater.receive, dif_pos (by rw [hphase, Bool.or_true])]
  rfl

-- A failed session stays as it is and leaves the flash alone.

theorem serve_of_failed {call : HostCall} (hcall : call ≠ .Open)
    (hphase : updater.phase = .Failed) (logged : Logged (Watched φ) μ) :
    ∃ after, updater.serve call logged = .ok updater after ∧ after.board = logged.board := by
  cases call with
  | Open => exact absurd rfl hcall
  | Data bytes => exact ⟨logged, receive_of_terminal (by rw [hphase]; rfl) bytes logged, rfl⟩
  | Close =>
      refine ⟨(log .Warn "Bitstream session closed after failure" logged).2, ?_,
        Logged.board_log ..⟩
      rw [serve, Updater.closed, if_pos hphase]
      rfl

theorem serveAll_of_failed {later : List HostCall} (hlater : .Open ∉ later)
    (hphase : updater.phase = .Failed) (logged : Logged (Watched φ) μ) :
    ∃ after, serveAll later updater logged = .ok updater after ∧ after.board = logged.board := by
  induction later generalizing logged with
  | nil => exact ⟨logged, rfl, rfl⟩
  | cons call rest ih =>
      obtain ⟨middle, hmiddle, hboard⟩ :=
        serve_of_failed (List.ne_of_not_mem_cons hlater).symm hphase logged
      obtain ⟨after, hafter, hlast⟩ := ih (List.not_mem_of_not_mem_cons hlater) middle
      exact ⟨after, (Run.bind_ok hmiddle).trans hafter, hlast.trans hboard⟩

-- The flash is touched only behind the gates, whatever the flash answers, whatever
-- the host sends and however an earlier session ended. A session fails for good,
-- and one that is done takes no more bytes.
theorem flash_behind_gates (partition : Partition) (device : String)
    (earlier session : List HostCall) (logged begun : Logged (Watched φ) μ) (updater : Updater)
    (hearlier : serveAll earlier (start partition device) logged = .ok updater begun)
    (hbegins : earlier = [] ∨ ∃ before, earlier = before ++ [.Open]) (hsession : .Open ∉ session) :
    (∃ calls,
      (Run.final (serveAll session updater) begun).board.calls = begun.board.calls ++ calls ∧
        Guarded partition (Flash.sectorSize begun.board) device
          (session.flatMap HostCall.bytes) calls) ∧
      ∀ stopped left, serveAll session updater begun = .ok stopped left →
        (stopped.phase = .Failed → ∀ later, .Open ∉ later →
          ∃ after, serveAll later stopped left = .ok stopped after ∧ after.board = left.board) ∧
        (stopped.phase = .Done → ∀ data, stopped.receive data left = .ok stopped left) := by
  have hfresh := fresh_of_earlier hearlier hbegins
  have hguards := hfresh.guards begun.board
  refine ⟨?_, ?_⟩
  · have hleaves := Gate.serveAll_leaves hsession hguards
    exact (hleaves.mono (fun _ _ => Gate.Guards.behind) fun _ => id).final.guarded
  · intro stopped left _
    refine ⟨?_, ?_⟩
    · intro hfailed later hlater
      exact serveAll_of_failed hlater hfailed left
    · intro hdone data
      exact receive_of_terminal (by rw [hdone]; rfl) data left

end

-- The updater is closed and opened, and is given a whole file.
theorem flash_behind_gates_reopened :
    serveAll [.Close, .Open] Chip.updater Chip.board =
      .ok (Chip.updater.opened Chip.board).1 Chip.board ∧
    ∃ (stopped : Updater) (left : Logged (Watched (Chip 0x1000 256)) Unit),
      serveAll [.Data Chip.shortest.bytes, .Close] (Chip.updater.opened Chip.board).1 Chip.board =
        .ok stopped left ∧
      stopped.phase = .Done ∧ stopped.bytesWritten = .ok 12 ∧
      (∃ calls, left.board.calls = Chip.board.board.calls ++ calls ∧
        Guarded Chip.target.partition (Flash.sectorSize Chip.board.board) Chip.target.device
          Chip.shortest.bytes calls) ∧
      ∀ data, stopped.receive data left = .ok stopped left := by
  have hearlier : serveAll [.Close, .Open] Chip.updater Chip.board =
      .ok (Chip.updater.opened Chip.board).1 Chip.board := rfl
  obtain ⟨hcalls, hstops⟩ := flash_behind_gates Chip.target.partition Chip.target.device
    [.Close, .Open] [.Data Chip.shortest.bytes, .Close] Chip.board Chip.board _ hearlier
    (.inr ⟨[.Close], rfl⟩) (by decide)
  obtain ⟨stopped, left, hrun, hdone, hwritten⟩ := Chip.serveAll_shortest
  have hfinal : Run.final (serveAll [.Data Chip.shortest.bytes, .Close]
      (Chip.updater.opened Chip.board).1) Chip.board = left := by
    rw [Run.final, hrun]
  rw [hfinal] at hcalls
  exact ⟨hearlier, stopped, left, hrun, hdone, hwritten, hcalls,
    (hstops stopped left hrun).2 hdone⟩

end BoardControl.Bitstream
