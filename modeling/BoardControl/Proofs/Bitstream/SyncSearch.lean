import BoardControl.Proofs.Bitstream.Chip
import BoardControl.Proofs.Bitstream.Format
import BoardControl.Proofs.Bitstream.Simulation
import Mathlib.Data.List.Infix

namespace BoardControl.Bitstream

-- The position of the first sync word, by one scan from the front.
def syncPosition? : List UInt8 → Option Nat
  | [] => none
  | byte :: rest =>
      if (byte :: rest).take syncWord.length = syncWord then some 0
      else (syncPosition? rest).map (· + 1)

-- Where one search through some bytes stops if there is room for `free` of them:
-- right behind the first sync word, or at the first place that leaves too few bytes
-- or too little room for a sync word.
inductive SearchStops (bytes : List UInt8) (free : Nat) : (found : Bool) → (count : Nat) → Prop
  | found {position : Nat} (hfirst : syncPosition? bytes = some position)
      (hroom : position + 4 ≤ free) : SearchStops bytes free true (position + 4)
  | waits {count : Nat} (hnone : NoSyncBefore count bytes)
      (hroom : ∀ earlier < count, earlier + 4 ≤ bytes.length ∧ earlier + 4 ≤ free)
      (hshort : bytes.length < count + 4 ∨ free < count + 4) : SearchStops bytes free false count

section

variable {bytes more : List UInt8} {position count free : Nat} {found : Bool}

theorem noSyncBefore_zero : NoSyncBefore 0 bytes := fun _ hplace => absurd hplace (Nat.not_lt_zero _)

theorem noSyncBefore_cons {byte : UInt8} :
    NoSyncBefore (count + 1) (byte :: bytes) ↔
      ¬ syncWord <+: byte :: bytes ∧ NoSyncBefore count bytes := by
  constructor
  · intro hnone
    exact ⟨hnone 0 (Nat.succ_pos count), fun place hplace =>
      hnone (place + 1) (Nat.succ_lt_succ hplace)⟩
  · intro hnone place hplace
    cases place with
    | zero => exact hnone.1
    | succ place => exact hnone.2 place (Nat.lt_of_succ_lt_succ hplace)

theorem syncPosition?_eq_some_iff :
    syncPosition? bytes = some position ↔
      syncWord <+: bytes.drop position ∧ NoSyncBefore position bytes := by
  induction bytes generalizing position with
  | nil => simp [syncPosition?, syncWord]
  | cons byte rest ih =>
      rw [syncPosition?]
      by_cases hfront : (byte :: rest).take syncWord.length = syncWord
      · have hsync : syncWord <+: byte :: rest := by rwa [List.prefix_iff_eq_take, eq_comm]
        rw [if_pos hfront]
        cases position with
        | zero => exact iff_of_true rfl ⟨hsync, noSyncBefore_zero⟩
        | succ position =>
            exact iff_of_false (by simp) fun hlater => hlater.2 0 (Nat.succ_pos _) hsync
      · have hother : ¬ syncWord <+: byte :: rest := (not_prefix_sync_iff _).mpr hfront
        rw [if_neg hfront]
        cases position with
        | zero => exact iff_of_false (by simp) fun hfirst => hother hfirst.1
        | succ position =>
            rw [List.drop_succ_cons, noSyncBefore_cons, and_iff_right hother, ← ih]
            simp

-- A search that finds nothing has looked everywhere.
theorem syncPosition?_eq_none_iff :
    syncPosition? bytes = none ↔ ∀ place, ¬ syncWord <+: bytes.drop place := by
  induction bytes with
  | nil => simp [syncPosition?, syncWord]
  | cons byte rest ih =>
      rw [syncPosition?]
      by_cases hfront : (byte :: rest).take syncWord.length = syncWord
      · rw [if_pos hfront]
        refine iff_of_false (by simp) fun hnone => hnone 0 ?_
        rwa [List.drop_zero, List.prefix_iff_eq_take, eq_comm]
      · rw [if_neg hfront, Option.map_eq_none_iff, ih]
        constructor
        · intro hnone place
          cases place with
          | zero => exact (not_prefix_sync_iff _).mpr hfront
          | succ place => exact hnone place
        · intro hnone place
          exact hnone (place + 1)

-- A sync word takes four bytes.
theorem add_four_le_of_sync (h : syncWord <+: bytes.drop position) :
    position + 4 ≤ bytes.length := by
  have hfour : syncWord.length = 4 := rfl
  have hlength := h.length_le
  rw [List.length_drop] at hlength
  omega

-- Bytes that come later do not move the first sync word.
theorem syncPosition?_append (h : syncPosition? bytes = some position) :
    syncPosition? (bytes ++ more) = some position := by
  obtain ⟨hsync, hnone⟩ := syncPosition?_eq_some_iff.mp h
  have hinside := add_four_le_of_sync hsync
  refine syncPosition?_eq_some_iff.mpr ⟨?_, ?_⟩
  · rw [List.drop_append_of_le_length (by omega)]
    exact hsync.trans (List.prefix_append _ _)
  · intro place hplace hbefore
    rw [List.drop_append_of_le_length (by omega)] at hbefore
    refine hnone place hplace (List.prefix_of_prefix_length_le hbefore (List.prefix_append _ _) ?_)
    have hfour : syncWord.length = 4 := rfl
    rw [List.length_drop]
    omega

-- Places with four bytes behind them keep what they hold when more bytes come.
theorem NoSyncBefore.append (h : NoSyncBefore count bytes)
    (hinside : ∀ place < count, place + 4 ≤ bytes.length) : NoSyncBefore count (bytes ++ more) := by
  intro place hplace hsync
  have hfour := hinside place hplace
  rw [List.drop_append_of_le_length (by omega)] at hsync
  refine h place hplace (List.prefix_of_prefix_length_le hsync (List.prefix_append _ _) ?_)
  have hword : syncWord.length = 4 := rfl
  rw [List.length_drop]
  omega

-- What is searched in two parts is searched in one.
theorem NoSyncBefore.add (h : NoSyncBefore count bytes)
    (hbehind : NoSyncBefore position (bytes.drop count)) :
    NoSyncBefore (count + position) bytes := by
  intro place hplace hsync
  by_cases hfront : place < count
  · exact h place hfront hsync
  · obtain ⟨behind, rfl⟩ := Nat.exists_eq_add_of_le (Nat.not_lt.mp hfront)
    refine hbehind behind (Nat.lt_of_add_lt_add_left hplace) ?_
    rwa [List.drop_drop]

theorem syncPosition?_of_drop (h : NoSyncBefore count bytes)
    (hfirst : syncPosition? (bytes.drop count) = some position) :
    syncPosition? bytes = some (count + position) := by
  obtain ⟨hsync, hnone⟩ := syncPosition?_eq_some_iff.mp hfirst
  rw [List.drop_drop] at hsync
  exact syncPosition?_eq_some_iff.mpr ⟨hsync, h.add hnone⟩

-- Three bytes that are left over hold no sync word.
theorem syncPosition?_eq_none_of_short (h : NoSyncBefore count bytes)
    (hshort : bytes.length < count + 4) : syncPosition? bytes = none := by
  refine syncPosition?_eq_none_iff.mpr fun place hsync => h place ?_ hsync
  have hinside := add_four_le_of_sync hsync
  omega

-- A search that does not stop at the front goes on behind the first byte.
theorem SearchStops.next (h : SearchStops (bytes.drop 1) (free - 1) found count)
    (hfront : ¬ syncWord <+: bytes) (hbytes : 4 ≤ bytes.length) (hfree : 4 ≤ free) :
    SearchStops bytes free found (1 + count) := by
  obtain _ | ⟨byte, rest⟩ := bytes
  · cases hbytes
  rw [List.drop_one, List.tail_cons] at h
  rw [Nat.add_comm]
  rw [List.length_cons] at hbytes
  cases h with
  | found hfirst hroom =>
      obtain ⟨hsync, hnone⟩ := syncPosition?_eq_some_iff.mp hfirst
      rw [Nat.add_right_comm]
      exact .found (syncPosition?_eq_some_iff.mpr
        ⟨by rwa [List.drop_succ_cons], noSyncBefore_cons.mpr ⟨hfront, hnone⟩⟩) (by omega)
  | waits hnone hroom hshort =>
      refine .waits (noSyncBefore_cons.mpr ⟨hfront, hnone⟩) (fun earlier hearlier => ?_) ?_
      · rw [List.length_cons]
        cases earlier with
        | zero => omega
        | succ earlier =>
            have hplace := hroom earlier (Nat.lt_of_succ_lt_succ hearlier)
            omega
      · rw [List.length_cons]
        omega

theorem SearchStops.count_le (h : SearchStops bytes free found count) : count ≤ bytes.length := by
  cases h with
  | found hfirst => exact add_four_le_of_sync (syncPosition?_eq_some_iff.mp hfirst).1
  | waits hnone hroom hshort =>
      cases count with
      | zero => exact Nat.zero_le _
      | succ last =>
          have hlast := (hroom last (Nat.lt_succ_self last)).1
          omega

end

-- One search moves bytes as they are and stops as it should. It answers whether it
-- moved any.
theorem scanSync_stops (fuel : Nat) (received pending : Ring Settings.streamBuffer)
    (hfuel : received.length ≤ fuel) :
    ∃ scan count, Updater.scanSync fuel received pending = .ok scan ∧
      SearchStops received.toList pending.free scan.found count ∧
      scan.received.toList = received.toList.drop count ∧
      scan.pending.toList = pending.toList ++ received.toList.take count ∧
      (scan.moved = true ↔ 0 < count) := by
  have hwaits {received pending : Ring Settings.streamBuffer}
      (hshort : received.length < 4 ∨ pending.free < 4) :
      SearchStops received.toList pending.free false 0 := by
    refine .waits noSyncBefore_zero nofun ?_
    rw [Ring.length_toList]
    omega
  induction fuel generalizing received pending with
  | zero => exact ⟨_, 0, rfl, hwaits (by omega), by simp, by simp, by simp⟩
  | succ fuel ih =>
      have hround := scanSync_round fuel received pending
      generalize Updater.scanSync (fuel + 1) received pending = result at hround ⊢
      cases hround with
      | waits hshort => exact ⟨_, 0, rfl, hwaits hshort, by simp, by simp, by simp⟩
      | found hlength hroom hsync =>
          have hfirst : syncPosition? received.toList = some 0 := by
            refine syncPosition?_eq_some_iff.mpr ⟨?_, noSyncBefore_zero⟩
            rwa [List.drop_zero, List.prefix_iff_eq_take, eq_comm]
          exact ⟨_, 4, rfl, .found hfirst (by omega), Ring.toList_popFront _ _,
            toList_pushBytes_take hroom, by simp⟩
      | goesOn hlength hroom hother =>
          have hone : 1 ≤ pending.free := by omega
          have hlist := received.length_toList
          obtain ⟨scan, count, hscan, hstops, hreceived, hpending, hmoved⟩ :=
            ih (received.popFront 1) (pending.pushBytes (received.toList.take 1))
              (by rw [Ring.length_popFront]; omega)
          have hleft : (pending.pushBytes (received.toList.take 1)).free = pending.free - 1 := by
            have htake : (received.toList.take 1).length = 1 := by
              rw [List.length_take]
              omega
            rw [Ring.free, Ring.length_pushBytes _ _ (by omega), htake, Ring.free]
            omega
          rw [Ring.toList_popFront, hleft] at hstops
          refine ⟨{ scan with moved := true }, 1 + count, by rw [hscan]; rfl,
            hstops.next ((not_prefix_sync_iff _).mpr hother) (by omega) hroom, ?_, ?_,
            iff_of_true rfl (by omega)⟩
          · simp only [hreceived, Ring.toList_popFront, List.drop_drop]
          · simp only [hpending, toList_pushBytes_take hone, Ring.toList_popFront,
              List.append_assoc, List.take_add]

-- What one call of the search does to an updater.
structure SyncCall (updater : Updater) (progress : Bool) (next : Updater) (found : Bool)
    (count : Nat) : Prop where
  stops : SearchStops updater.received.toList updater.writer.pending.free found count
  received_eq : next.received.toList = updater.received.toList.drop count
  pending_eq : next.writer.pending.toList =
    updater.writer.pending.toList ++ updater.received.toList.take count
  progress_iff : progress = true ↔ 0 < count
  next_eq : next = { updater.withBuffers next.received next.writer.pending with
    phase := if found then .Packets else updater.phase }

-- What was moved takes its room from the bytes that wait to be written.
theorem SyncCall.free_eq {updater next : Updater} {progress found : Bool} {count : Nat}
    (h : SyncCall updater progress next found count) :
    next.writer.pending.free = updater.writer.pending.free - count := by
  have hlength := congrArg List.length h.pending_eq
  rw [List.length_append, List.length_take, Nat.min_eq_left h.stops.count_le,
    Ring.length_toList, Ring.length_toList] at hlength
  rw [Ring.free, Ring.free]
  omega

section

variable {σ : Type} [Logger σ]

theorem waitForSync_call (updater : Updater) (board : σ) :
    Run.Ends updater.waitForSync board fun result _ =>
      ∃ found count, SyncCall updater result.1 result.2 found count := by
  obtain ⟨scan, count, hscan, hstops, hreceived, hpending, hmoved⟩ :=
    scanSync_stops updater.received.length updater.received updater.writer.pending (Nat.le_refl _)
  simp only [Updater.waitForSync, hscan, Run.ends_bind, Run.ends_ok]
  cases hfound : scan.found with
  | true =>
      rw [hfound] at hstops
      have hpos : 0 < count := by
        cases hstops with
        | found => exact Nat.succ_pos _
      simp only [if_true, Run.ends_bind, Run.ends_perform, Run.ends_pure]
      exact ⟨true, count, hstops, hreceived, hpending, by simp [hpos], rfl⟩
  | false =>
      rw [hfound] at hstops
      simp only [Bool.false_eq_true, if_false, Run.ends_pure]
      exact ⟨false, count, hstops, hreceived, hpending, hmoved, rfl⟩

end

-- A search that goes on for several calls. Between them its buffers are filled and
-- drained. The bytes of the stream so far and the bytes that were drained are kept.
structure SyncHunt where
  updater : Updater
  stream : List UInt8
  drained : List UInt8

namespace SyncHunt

inductive Event where
  | Receive (data : List UInt8)
  | Drain (count : Nat)
  | Search

def start (updater : Updater) : SyncHunt :=
  { updater, stream := updater.received.toList, drained := [] }

section

variable {σ : Type} [Logger σ]

-- Bytes that do not fit the receive buffer do not belong to the stream, and nothing
-- is searched once the sync word was found.
def obey (hunt : SyncHunt) : Event → Run σ SyncHunt
  | .Receive data => do
      let (taken, received) ← hunt.updater.received.push data
      if taken then
        pure { hunt with
          updater := { hunt.updater with received }
          stream := hunt.stream ++ data }
      else pure hunt
  | .Drain count =>
      let pending := hunt.updater.writer.pending
      pure { hunt with
        updater := hunt.updater.withBuffers hunt.updater.received (pending.popFront count)
        drained := hunt.drained ++ pending.toList.take count }
  | .Search => do
      if hunt.updater.phase = .SyncWait then
        let (_, next) ← hunt.updater.waitForSync
        pure { hunt with updater := next }
      else pure hunt

def obeyAll (hunt : SyncHunt) : List Event → Run σ SyncHunt
  | [] => pure hunt
  | event :: rest => do (← hunt.obey event).obeyAll rest

end

-- The stream is what was moved and what is still received; what was moved waits
-- behind the bytes that waited at the start, as far as it was not drained. No sync
-- word begins in what was moved, or it ends with the first one of the stream.
structure Tracks (hunt : SyncHunt) (waiting moved : List UInt8) : Prop where
  stream_eq : hunt.stream = moved ++ hunt.updater.received.toList
  pending_eq : waiting ++ moved = hunt.drained ++ hunt.updater.writer.pending.toList
  searched :
    (hunt.updater.phase = .SyncWait ∧ NoSyncBefore moved.length hunt.stream ∧
      ∀ place < moved.length, place + 4 ≤ hunt.stream.length) ∨
    (hunt.updater.phase = .Packets ∧
      ∃ position, syncPosition? hunt.stream = some position ∧ moved.length = position + 4)

-- Right after a search that goes on, the stream so far holds no sync word, or there is
-- no room to move one.
def Exhausted (hunt : SyncHunt) : Prop :=
  hunt.updater.phase = .SyncWait →
    syncPosition? hunt.stream = none ∨ hunt.updater.writer.pending.free < syncWord.length

section

variable {σ : Type} [Logger σ] {waiting moved : List UInt8} {hunt : SyncHunt}

theorem tracks_start (updater : Updater) (hphase : updater.phase = .SyncWait) :
    (start updater).Tracks updater.writer.pending.toList [] where
  stream_eq := rfl
  pending_eq := List.append_nil _
  searched := .inl ⟨hphase, noSyncBefore_zero, nofun⟩

theorem Tracks.receive (h : hunt.Tracks waiting moved) (data : List UInt8) (board : σ) :
    Run.Ends (hunt.obey (.Receive data)) board fun next _ => next.Tracks waiting moved := by
  rw [obey]
  by_cases hfree : hunt.updater.received.free < data.length
  · have hpush : hunt.updater.received.push data = .ok (false, hunt.updater.received) := by
      rw [Ring.push, if_pos hfree]
    simp only [hpush, Run.ends_bind, Run.ends_ok, Bool.false_eq_true, if_false, Run.ends_pure]
    exact h
  · have hfits : data.length ≤ hunt.updater.received.free := Nat.not_lt.mp hfree
    have hpush := (Ring.push_eq_ok_true_iff hunt.updater.received _ data).mpr
      ⟨hfits, by decide, rfl⟩
    simp only [hpush, Run.ends_bind, Run.ends_ok, if_true, Run.ends_pure]
    refine ⟨?_, h.pending_eq, ?_⟩
    · simp only [h.stream_eq, Ring.toList_pushBytes _ _ hfits, List.append_assoc]
    · obtain ⟨hphase, hnone, hinside⟩ | ⟨hphase, position, hfirst, hlength⟩ := h.searched
      · refine .inl ⟨hphase, hnone.append hinside, fun place hplace => ?_⟩
        rw [List.length_append]
        exact Nat.le_add_right_of_le (hinside place hplace)
      · exact .inr ⟨hphase, position, syncPosition?_append hfirst, hlength⟩

theorem Tracks.drain (h : hunt.Tracks waiting moved) (count : Nat) (board : σ) :
    Run.Ends (hunt.obey (.Drain count)) board fun next _ => next.Tracks waiting moved := by
  simp only [obey, Run.ends_pure]
  refine ⟨h.stream_eq, ?_, h.searched⟩
  simp only [Updater.withBuffers, Ring.toList_popFront, List.append_assoc, List.take_append_drop]
  exact h.pending_eq

theorem Tracks.unsearched (h : hunt.Tracks waiting moved)
    (hphase : hunt.updater.phase = .SyncWait) :
    NoSyncBefore moved.length hunt.stream ∧
      ∀ place < moved.length, place + 4 ≤ hunt.stream.length := by
  obtain ⟨-, hsearched⟩ | ⟨hpackets, -⟩ := h.searched
  · exact hsearched
  · rw [hphase] at hpackets
    cases hpackets

-- The search goes on where it stopped: what it moves comes behind what was moved.
theorem Tracks.found_or_moved (h : hunt.Tracks waiting moved)
    (hphase : hunt.updater.phase = .SyncWait) {progress found : Bool} {next : Updater}
    {count : Nat} (hcall : SyncCall hunt.updater progress next found count) :
    Tracks { hunt with updater := next } waiting
        (moved ++ hunt.updater.received.toList.take count) ∧
      Exhausted { hunt with updater := next } := by
  obtain ⟨hnone, hinside⟩ := h.unsearched hphase
  have hleft : hunt.stream.drop moved.length = hunt.updater.received.toList := by
    rw [h.stream_eq, List.drop_left]
  have hlength : hunt.stream.length =
      moved.length + hunt.updater.received.toList.length := by
    rw [h.stream_eq, List.length_append]
  have hmoved : (moved ++ hunt.updater.received.toList.take count).length =
      moved.length + count := by
    rw [List.length_append, List.length_take, Nat.min_eq_left hcall.stops.count_le]
  have hstream : hunt.stream = moved ++ hunt.updater.received.toList.take count ++
      next.received.toList := by
    rw [hcall.received_eq, List.append_assoc, List.take_append_drop]
    exact h.stream_eq
  have hpending : waiting ++ (moved ++ hunt.updater.received.toList.take count) =
      hunt.drained ++ next.writer.pending.toList := by
    rw [hcall.pending_eq, ← List.append_assoc, h.pending_eq, List.append_assoc]
  have hphase_eq := congrArg Updater.phase hcall.next_eq
  cases hcall.stops with
  | @found position hfirst hroom =>
      have hstart : syncPosition? hunt.stream = some (moved.length + position) :=
        syncPosition?_of_drop hnone (by rwa [hleft])
      refine ⟨⟨hstream, hpending, .inr ⟨hphase_eq, _, hstart, hmoved⟩⟩, fun hwait => ?_⟩
      rw [hphase_eq] at hwait
      cases hwait
  | waits hsearched hroom hshort =>
      have hall : NoSyncBefore (moved.length + count) hunt.stream :=
        hnone.add (by rwa [hleft])
      have hroom_all : ∀ place < moved.length + count, place + 4 ≤ hunt.stream.length := by
        intro place hplace
        by_cases hfront : place < moved.length
        · exact hinside place hfront
        · have hlater := hroom (place - moved.length) (by omega)
          omega
      rw [← hmoved] at hall hroom_all
      refine ⟨⟨hstream, hpending, .inl ⟨hphase_eq.trans hphase, hall, hroom_all⟩⟩, fun _ => ?_⟩
      obtain hbytes | hfree := hshort
      · exact .inl (syncPosition?_eq_none_of_short hall (by rw [hmoved, hlength]; omega))
      · refine .inr ?_
        have hfour : syncWord.length = 4 := rfl
        have hless := hcall.free_eq
        change next.writer.pending.free < syncWord.length
        omega

theorem Tracks.search (h : hunt.Tracks waiting moved) (board : σ) :
    Run.Ends (hunt.obey .Search) board fun next _ =>
      (∃ moved, next.Tracks waiting moved) ∧ Exhausted next := by
  rw [obey]
  by_cases hphase : hunt.updater.phase = .SyncWait
  · rw [if_pos hphase, Run.ends_bind]
    refine (waitForSync_call hunt.updater board).mono fun result after hends => ?_
    obtain ⟨found, count, hcall⟩ := hends
    obtain ⟨htracks, hexhausted⟩ := h.found_or_moved hphase hcall
    simp only [Run.ends_pure]
    exact ⟨⟨_, htracks⟩, hexhausted⟩
  · rw [if_neg hphase, Run.ends_pure]
    exact ⟨⟨moved, h⟩, fun hwait => absurd hwait hphase⟩

theorem Tracks.obey (h : hunt.Tracks waiting moved) (event : Event) (board : σ) :
    Run.Ends (hunt.obey event) board fun next _ => ∃ moved, next.Tracks waiting moved := by
  cases event with
  | Receive data => exact (h.receive data board).mono fun _ _ hnext => ⟨moved, hnext⟩
  | Drain count => exact (h.drain count board).mono fun _ _ hnext => ⟨moved, hnext⟩
  | Search => exact (h.search board).mono fun _ _ hnext => hnext.1

theorem Tracks.obeyAll (h : hunt.Tracks waiting moved) (events : List Event) (board : σ) :
    Run.Ends (hunt.obeyAll (events ++ [.Search])) board fun next _ =>
      (∃ moved, next.Tracks waiting moved) ∧ Exhausted next := by
  induction events generalizing hunt moved board with
  | nil =>
      simp only [List.nil_append, SyncHunt.obeyAll, Run.ends_bind, Run.ends_pure]
      exact h.search board
  | cons event rest ih =>
      simp only [List.cons_append, SyncHunt.obeyAll, Run.ends_bind]
      refine (h.obey event board).mono fun next after hnext => ?_
      obtain ⟨moved, hnext⟩ := hnext
      exact ih hnext after

end

end SyncHunt

-- One call moves bytes from the front of the receive buffer to the end of those that
-- wait, up to the first sync word or until a buffer runs out. Calls with input and
-- draining between them find the place that one scan over the whole stream finds.
theorem sync_search_finds_first {σ : Type} [Logger σ] (updater : Updater)
    (hphase : updater.phase = .SyncWait) (board : σ) :
    (Run.Ends updater.waitForSync board fun result _ =>
      ∃ found count, SyncCall updater result.1 result.2 found count) ∧
    ∀ events, Run.Ends ((SyncHunt.start updater).obeyAll (events ++ [.Search])) board
      fun hunt _ => (∃ moved, hunt.Tracks updater.writer.pending.toList moved) ∧ hunt.Exhausted :=
  ⟨waitForSync_call updater board, fun events =>
    (SyncHunt.tracks_start updater hphase).obeyAll events board⟩

-- The first byte repeats the front of the sync word, and its last byte comes later.
def splitSync : Updater :=
  { Chip.updater with
    phase := .SyncWait
    received := (Ring.empty _).pushBytes [0xaa, 0xaa, 0x99, 0x55] }

theorem sync_search_finds_first_split :
    splitSync.phase = .SyncWait ∧
    (Run.Ends splitSync.waitForSync () fun result _ =>
      ∃ found count, SyncCall splitSync result.1 result.2 found count) ∧
    ∀ events, Run.Ends ((SyncHunt.start splitSync).obeyAll (events ++ [.Search])) ()
      fun hunt _ =>
        (∃ moved, hunt.Tracks splitSync.writer.pending.toList moved) ∧ hunt.Exhausted :=
  ⟨rfl, sync_search_finds_first splitSync rfl ()⟩

example : syncPosition? ([0xaa, 0xaa, 0x99, 0x55] ++ [0x66]) = some 1 := by decide

end BoardControl.Bitstream
