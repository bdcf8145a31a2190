import BoardControl.Proofs.Bitstream.Calls
import BoardControl.Proofs.Bitstream.Lifetime
import BoardControl.Proofs.Bitstream.Reading

namespace BoardControl.Bitstream

open Session Updater

-- The magic, some records and the record that announces the bitstream came.
def Announces (records : List HeaderRecord) (delivered : List UInt8) : Prop :=
  ∃ a b c d, headingBytes records ++ [bitstreamRecord, a, b, c, d] <+: delivered

-- A record says that the bitstream is for a device.
def HeaderRecord.Names (entry : HeaderRecord) (device : String) : Prop :=
  entry.kind = deviceRecord ∧ recordText entry.payload = device

-- A record carries its own length, so it ends where it ends.
theorem HeaderRecord.bytes_append_inj {one other : HeaderRecord} {rest more : List UInt8}
    (h : one.bytes ++ rest = other.bytes ++ more) : one = other ∧ rest = more := by
  obtain ⟨kind, high, low, payload, _, hlength, _⟩ := one
  obtain ⟨kind', high', low', payload', _, hlength', _⟩ := other
  simp only [bytes, List.cons_append, List.cons.injEq] at h
  obtain ⟨rfl, rfl, rfl, hpayload⟩ := h
  obtain ⟨rfl, rfl⟩ := List.append_inj hpayload (hlength.trans hlength'.symm)
  exact ⟨rfl, rfl⟩

theorem records_unique {one other : List HeaderRecord} {rest more : List UInt8}
    (h : one.flatMap HeaderRecord.bytes ++ bitstreamRecord :: rest =
      other.flatMap HeaderRecord.bytes ++ bitstreamRecord :: more) : one = other := by
  induction one generalizing other with
  | nil =>
      cases other with
      | nil => rfl
      | cons entry others => exact absurd (List.cons.inj h).1.symm entry.kind_ne
  | cons first firsts ih =>
      cases other with
      | nil => exact absurd (List.cons.inj h).1 first.kind_ne
      | cons entry others =>
          simp only [List.flatMap_cons, List.append_assoc] at h
          obtain ⟨rfl, hrest⟩ := HeaderRecord.bytes_append_inj h
          rw [ih hrest]

-- There is only one way to read what was delivered.
theorem Announces.unique {one other : List HeaderRecord} {delivered : List UInt8}
    (hone : Announces one delivered) (hother : Announces other delivered) : one = other := by
  obtain ⟨a, b, c, d, rest, rfl⟩ := hone
  obtain ⟨a', b', c', d', more, hsame⟩ := hother
  simp only [headingBytes, List.append_assoc] at hsame
  exact (records_unique (List.append_cancel_left hsame)).symm

section

variable {φ μ : Type} [Flash φ] [TickCounter φ] [Logger μ] {target : Target}

omit [TickCounter φ] in
theorem wipe_erases (sector : UInt32) (count : Nat) (addr : UInt32) (board : Watched φ) :
    ∃ ok rest, (Partition.wipe sector (count + 1) addr board).2.calls =
      board.calls ++ .Erase addr ok :: rest := by
  rw [Partition.wipe]
  split
  · obtain ⟨rest, hrest, _⟩ := wipe_calls sector count (addr + sector) (Flash.erase addr board).2
    refine ⟨(Flash.erase addr board).1, rest, ?_⟩
    rw [hrest, Watched.calls_erase, List.append_assoc]
    rfl
  · exact ⟨_, [], Watched.calls_erase board addr⟩

-- Making a partition ready begins with an erase of its first sector.
theorem prepare_erases {partition : Partition} (board : Watched φ)
    (hsector : Flash.sectorSize board ≠ 0) (hsize : partition.size ≠ 0) :
    ∃ ok rest, (partition.prepare board).2.calls =
      board.calls ++ .Erase partition.offset ok :: rest := by
  have hpos : 0 < (Flash.sectorSize board).toNat :=
    Nat.pos_of_ne_zero fun hzero => hsector (UInt32.toNat_inj.mp hzero)
  have hcover : partition.size.toNat ≤
      Word.blocks partition.size.toNat (Flash.sectorSize board).toNat *
        (Flash.sectorSize board).toNat := Partition.le_blocks_mul hpos
  have hsome : partition.size.toNat ≠ 0 := fun hzero => hsize (UInt32.toNat_inj.mp hzero)
  simp only [Partition.prepare, if_neg hsector]
  generalize Flash.sectorSize board = sector at hcover ⊢
  cases hblocks : Word.blocks partition.size.toNat sector.toNat with
  | zero =>
      rw [hblocks] at hcover
      omega
  | succ count =>
      obtain ⟨ok, rest, hwiped⟩ :=
        wipe_erases sector count partition.offset (TickCounter.count board).2
      rw [Watched.calls_count] at hwiped
      generalize Partition.wipe sector (count + 1) partition.offset (TickCounter.count board).2 =
        wiped at hwiped ⊢
      split
      · exact ⟨ok, rest, hwiped⟩
      · obtain ⟨reads, hreads, _⟩ := inspect_calls partition
          (Word.blocks (partition.stop.toNat - partition.offset.toNat) Settings.blankCheckBlock)
          partition.offset wiped.2
        refine ⟨ok, rest ++ reads, ?_⟩
        split
        · rw [hreads, hwiped, List.append_assoc]
          rfl
        · rw [Watched.calls_count, hreads, hwiped, List.append_assoc]
          rfl

-- With the announcement a session comes to where the partition was made ready, and
-- it needs more bytes to go on.
theorem settles_announcement {σ : Type} [Flash σ] [TickCounter σ]
    (announcement : Announcement target) (board : σ) :
    ∃ last, Settles target ((Session.start target).append announcement.bytes, board)
      (last, (target.partition.prepare board).2) := by
  have hreceived : ((Session.start target).append announcement.bytes).received =
      announcement.bytes ++ [] := (List.append_nil _).symm
  refine ⟨_, reaches_prepared announcement board rfl hreceived, ?_⟩
  cases (target.partition.prepare board).1 with
  | some failure => rfl
  | none => rfl

-- A file that fits the partition and names no other device has it erased, whether
-- it names the right one or none at all.
theorem announced_erases (hsuits : target.Suits φ) (announcement : Announcement target)
    (hsize : target.partition.size ≠ 0) (logged : Logged (Watched φ) μ)
    (hsector : Flash.sectorSize logged.board ≠ 0) :
    Run.Ends ((Updater.start target.partition target.device).session [announcement.bytes] false)
      logged fun _ after =>
        ∃ ok rest, after.board.calls =
          logged.board.calls ++ .Erase target.partition.offset ok :: rest := by
  have hwatched : target.Suits (Watched φ) := fun board => hsuits board.device
  have hpartition : (Updater.start target.partition target.device).writer.partition =
      target.partition := rfl
  obtain ⟨updater, after, hrun, last, left, hsettles, _, hboard, _⟩ :=
    session_ends hwatched hpartition rfl [announcement.bytes] false logged
  obtain ⟨ended, hended⟩ := settles_announcement announcement logged.board
  rw [List.flatten_singleton] at hsettles
  obtain ⟨-, rfl⟩ := Prod.mk.inj (hsettles.unique hended)
  refine Run.ends_of_eq hrun ?_
  rw [hboard]
  exact prepare_erases logged.board hsector hsize

end

-- A record with the right device, whose kind has become that of a build date.
def HeaderRecord.misnamed : HeaderRecord :=
  { kind := 0x63, high := 0, low := 7, payload := [0x37, 0x61, 0x31, 0x30, 0x30, 0x74, 0]
    kind_ne := by decide, length_eq := rfl, length_le := by decide }

theorem HeaderRecord.misnamed_suits (device : String) :
    ∀ entry ∈ [misnamed], entry.Suits device := by
  intro entry hentry hkind
  rw [List.mem_singleton.mp hentry] at hkind
  cases hkind

-- A file with that record and no other.
def Chip.unnamed : Announcement Chip.target :=
  { heading := { records := [.misnamed], suits := HeaderRecord.misnamed_suits _ }
    a := 0, b := 0, c := 0, d := 16, length_le := by decide }

-- It has the partition erased, although no record of it names a device.
theorem erased_without_device_record :
    (∃ (updater : Updater) (after : Logged (Watched (Chip 0x1000 256)) Unit) (ok : Bool),
      Chip.updater.session [Chip.unnamed.bytes] false Chip.board = .ok updater after ∧
        .Erase 0 ok ∈ after.board.calls) ∧
    ¬ ∃ records, Announces records Chip.unnamed.bytes ∧
      ∃ entry ∈ records, entry.Names Chip.target.device := by
  refine ⟨?_, ?_⟩
  · obtain ⟨updater, after, hrun, ok, rest, hcalls⟩ :=
      announced_erases (fun _ => rfl) Chip.unnamed (by decide) Chip.board (by decide)
    refine ⟨updater, after, ok, hrun, ?_⟩
    rw [hcalls]
    exact List.mem_append_right _ List.mem_cons_self
  · rintro ⟨records, hannounces, entry, hentry, hkind, _⟩
    have hknown : Announces Chip.unnamed.heading.records Chip.unnamed.bytes :=
      ⟨0, 0, 0, 16, List.prefix_refl _⟩
    rw [hannounces.unique hknown, Chip.unnamed, List.mem_singleton] at hentry
    rw [hentry] at hkind
    cases hkind

section

variable {φ μ : Type} [Flash φ] [TickCounter φ] [Logger μ]

-- The partition is erased only after the records of the file were read. None of
-- them names another device, and one names the right one if any names a device.
theorem erased_if_named_or_unnamed (partition : Partition) (device : String)
    (earlier session : List HostCall) (logged begun : Logged (Watched φ) μ) (updater : Updater)
    (hearlier : serveAll earlier (start partition device) logged = .ok updater begun)
    (hbegins : earlier = [] ∨ ∃ before, earlier = before ++ [.Open]) (hsession : .Open ∉ session) :
    ∃ calls,
      (Run.final (serveAll session updater) begun).board.calls = begun.board.calls ++ calls ∧
      ∀ addr ok, .Erase addr ok ∈ calls →
        ∃ records, Announces records (session.flatMap HostCall.bytes) ∧
          (∀ entry ∈ records, entry.kind = deviceRecord → entry.Names device) ∧
          ((∃ entry ∈ records, entry.Names device) ∨
            ∀ entry ∈ records, entry.kind ≠ deviceRecord) := by
  have hguards := (fresh_of_earlier hearlier hbegins).guards begun.board
  have hleaves := Gate.serveAll_leaves hsession hguards
  obtain ⟨calls, hcalls, hguarded⟩ :=
    (hleaves.mono (fun _ _ => Gate.Guards.behind) fun _ => id).final.guarded
  refine ⟨calls, hcalls, ?_⟩
  intro addr ok hmem
  obtain ⟨records, a, b, c, d, hsuits, _, hbegins⟩ := hguarded.admitted (List.ne_nil_of_mem hmem)
  refine ⟨records, ⟨a, b, c, d, hbegins⟩,
    fun entry hentry hkind => ⟨hkind, hsuits entry hentry hkind⟩, ?_⟩
  by_cases hnamed : ∃ entry ∈ records, entry.kind = deviceRecord
  · obtain ⟨entry, hentry, hkind⟩ := hnamed
    exact .inl ⟨entry, hentry, hkind, hsuits entry hentry hkind⟩
  · exact .inr fun entry hentry hkind => hnamed ⟨entry, hentry, hkind⟩

end

-- The updater is opened again, and the same file has the partition erased behind
-- the records that were read.
theorem erased_if_named_or_unnamed_reopened :
    serveAll [.Close, .Open] Chip.updater Chip.board =
      .ok (Chip.updater.opened Chip.board).1 Chip.board ∧
    ∃ calls, (Run.final (serveAll [.Data Chip.unnamed.bytes, .Close]
        (Chip.updater.opened Chip.board).1) Chip.board).board.calls =
          Chip.board.board.calls ++ calls ∧
      ∀ addr ok, .Erase addr ok ∈ calls →
        ∃ records, Announces records
            ([HostCall.Data Chip.unnamed.bytes, .Close].flatMap HostCall.bytes) ∧
          (∀ entry ∈ records, entry.kind = deviceRecord → entry.Names Chip.target.device) ∧
          ((∃ entry ∈ records, entry.Names Chip.target.device) ∨
            ∀ entry ∈ records, entry.kind ≠ deviceRecord) := by
  have hearlier : serveAll [.Close, .Open] Chip.updater Chip.board =
      .ok (Chip.updater.opened Chip.board).1 Chip.board := rfl
  exact ⟨hearlier, erased_if_named_or_unnamed Chip.target.partition Chip.target.device
    [.Close, .Open] [.Data Chip.unnamed.bytes, .Close] Chip.board Chip.board _ hearlier
    (.inr ⟨[.Close], rfl⟩) (by decide)⟩

end BoardControl.Bitstream
