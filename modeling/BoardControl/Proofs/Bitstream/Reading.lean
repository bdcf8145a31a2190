import BoardControl.Proofs.Bitstream.BodyStep
import BoardControl.Proofs.Bitstream.Format

namespace BoardControl.Bitstream

open Session

-- Some bytes of the body at the front of a session are copied, whatever follows
-- them, and lead from one phase to another.
def Copies (target : Target) (σ : Type) [Flash σ] [TickCounter σ] (phase : Phase)
    (bulkLeft : UInt32) (bytes : List UInt8) (next : Phase) (left : UInt32) : Prop :=
  ∀ (session : Session) (board : σ) (more : List UInt8), session.phase = phase →
    session.bulkLeft = bulkLeft → session.received = bytes ++ more →
      session.pending.length < target.page →
        Reaches target (session, board)
          ((session.copied bytes.length next left).flush target board)

section

variable {σ : Type} [Flash σ] [TickCounter σ] {target : Target} {phase middle next : Phase}
  {bulkLeft leftMiddle left : UInt32} {bytes other : List UInt8}

theorem Copies.nil : Copies target σ phase bulkLeft [] phase bulkLeft := by
  intro session board more hphase hbulk _ hshort
  have hsame : session.copied 0 phase bulkLeft = session := by
    simp [copied, ← hphase, ← hbulk]
  rw [List.length_nil, hsame, flush_of_short _ hshort]
  exact Relation.ReflTransGen.refl

theorem Copies.append (hbytes : Copies target σ phase bulkLeft bytes middle leftMiddle)
    (hmiddle : middle ≠ .Failed) (hother : Copies target σ middle leftMiddle other next left) :
    Copies target σ phase bulkLeft (bytes ++ other) next left := by
  intro session board more hphase hbulk hreceived hshort
  rw [List.append_assoc] at hreceived
  rw [List.length_append]
  refine reaches_of_copies hmiddle (hbytes session board _ hphase hbulk hreceived hshort) ?_
  intro now after hnow hleft hrest hpending
  rw [hreceived, List.drop_left] at hrest
  exact hother now after more hnow hleft hrest hpending

-- A token that does not depend on what follows it.
theorem Copies.of_token (hbytes : ∀ more, target.token? phase bulkLeft (bytes ++ more) =
    some (.Copy bytes.length next left)) : Copies target σ phase bulkLeft bytes next left := by
  intro session board more hphase hbulk hreceived _
  have htoken : target.token? session.phase session.bulkLeft session.received =
      some (.Copy bytes.length next left) := by
    rw [hphase, hbulk, hreceived, hbytes more]
  exact reaches_of_token htoken board

-- The search for the sync word goes on up to the first one.
theorem copies_preamble {preamble : List UInt8}
    (hfirst : NoSyncBefore preamble.length (preamble ++ syncWord)) :
    Copies target σ .SyncWait bulkLeft (preamble ++ syncWord) .Packets bulkLeft := by
  have hsync : syncWord.length = 4 := rfl
  induction preamble with
  | nil =>
      refine Copies.of_token fun more => ?_
      rw [List.nil_append, Target.token?, Target.syncToken?, List.take_left,
        if_neg (by rw [List.length_append]; omega), if_pos rfl]
  | cons byte preamble ih =>
      intro session board more hphase hbulk hreceived hshort
      have hnone : NoSyncBefore preamble.length (preamble ++ syncWord) :=
        fun position hposition => hfirst (position + 1) (Nat.succ_lt_succ hposition)
      have hother : (byte :: (preamble ++ syncWord) ++ more).take syncWord.length ≠ syncWord := by
        rw [List.take_append_of_le_length
          (by simp only [List.length_cons, List.length_append]; omega)]
        exact (not_prefix_sync_iff _).mp (hfirst 0 (Nat.succ_pos _))
      have htoken : target.token? session.phase session.bulkLeft session.received =
          some (.Copy 1 .SyncWait session.bulkLeft) := by
        rw [hphase, hreceived, Target.token?, Target.syncToken?, List.cons_append,
          if_neg (by simp only [List.length_cons, List.length_append]; omega), if_neg hother]
      rw [List.cons_append, List.length_cons, Nat.add_comm]
      refine reaches_of_copies (by decide) (reaches_of_token htoken board) ?_
      intro now after hnow hleft hrest hpending
      rw [hreceived] at hrest
      exact ih hnone now after more hnow (by rw [hleft, hbulk]) hrest hpending

-- The payload of a packet of type 2 is copied as it is.
theorem copies_payload {words : UInt32} (hwords : words ≠ 0) {payload : List UInt8}
    (hlength : payload.length = 4 * words.toNat) :
    Copies target σ .Bulk words payload .Packets 0 := by
  intro session board more hphase hbulk hreceived hshort
  have hword : words.toNat.toUInt32 = words := UInt32.toNat_inj.mp (toNat_toUInt32 words.toNat_lt)
  have hreach := reaches_of_words words.toNat board hphase (by rwa [hbulk])
    (Nat.le_of_eq (by rw [hbulk]))
    (by rw [hreceived, List.length_append, hlength]; exact Nat.le_add_right _ _) hshort
  rw [hbulk, hword, UInt32.sub_self, if_pos rfl, ← hlength] at hreach
  exact hreach

-- A packet leads on, or to the end.
theorem copies_packet (packet : Packet target.page) (bulkLeft : UInt32) :
    ∃ left, (packet.EndsStream → Copies target σ .Packets bulkLeft packet.bytes .Done left) ∧
      (¬ packet.EndsStream → Copies target σ .Packets bulkLeft packet.bytes .Packets left) := by
  obtain ⟨header, bytes, hheader, hspans⟩ := packet
  have hmore (more : List UInt8) := ofBytes?_append more hheader
  cases header with
  | Type1 opcode register words =>
      obtain ⟨hlength, hfits⟩ := hspans
      have htoken (more : List UInt8) : target.token? .Packets bulkLeft (bytes ++ more) =
          if (PacketHeader.Type1 opcode register words).EndsStream (bytes.drop 4) then
            some (.Copy bytes.length .Done bulkLeft)
          else some (.Copy bytes.length .Packets bulkLeft) := by
        simp only [Target.token?, Target.packetToken?, hmore more, Target.headerToken?,
          Target.type1Token?, ← hlength, List.take_left]
        rw [if_neg (Nat.not_lt.mpr hfits), if_neg (by simp)]
      refine ⟨bulkLeft, fun hends => Copies.of_token fun more => ?_,
        fun hgoes => Copies.of_token fun more => ?_⟩
      · exact (htoken more).trans (if_pos hends)
      · exact (htoken more).trans (if_neg hgoes)
  | Type2 opcode words =>
      refine ⟨0, fun hends => absurd hends (Packet.ofType2_goes_on hheader hspans), fun _ => ?_⟩
      have hlength : bytes.length = 4 * (words.toNat + 1) := hspans
      have hfour : (bytes.take 4).length = 4 := by
        rw [List.length_take]
        omega
      have htoken (more : List UInt8) :
          target.token? .Packets bulkLeft (bytes.take 4 ++ more) =
            some (.Copy (bytes.take 4).length (if 0 < words then .Bulk else .Packets) words) := by
        have hword : PacketHeader.ofBytes? (bytes.take 4 ++ more) = some (.Type2 opcode words) := by
          refine ofBytes?_append more ?_
          rw [ofBytes?_take (Nat.le_refl 4), hheader]
        simp only [Target.token?, Target.packetToken?, hword, Target.headerToken?, hfour]
      by_cases hzero : words = 0
      · have hall : bytes.take 4 = bytes := by
          rw [hzero] at hlength
          exact List.take_of_length_le (Nat.le_of_eq hlength)
        rw [hall, hzero] at htoken
        exact Copies.of_token htoken
      · rw [if_pos (UInt32.pos_iff_ne_zero.mpr hzero)] at htoken
        have hrest : (bytes.drop 4).length = 4 * words.toNat := by
          rw [List.length_drop]
          omega
        have hpayload : Copies target σ .Bulk words (bytes.drop 4) .Packets 0 :=
          copies_payload hzero hrest
        have hcopies := (Copies.of_token htoken).append (by decide) hpayload
        rwa [List.take_append_drop] at hcopies
  | Unknown kind => exact False.elim hspans

theorem copies_packets (packets : List (Packet target.page)) (bulkLeft : UInt32)
    (hgoes : ∀ packet ∈ packets, ¬ packet.EndsStream) :
    ∃ left, Copies target σ .Packets bulkLeft (packets.flatMap Packet.bytes) .Packets left := by
  induction packets generalizing bulkLeft with
  | nil => exact ⟨bulkLeft, Copies.nil⟩
  | cons packet packets ih =>
      obtain ⟨middle, _, hpacket⟩ := copies_packet (σ := σ) packet bulkLeft
      obtain ⟨left, hpackets⟩ := ih middle fun other hother =>
        hgoes other (List.mem_cons_of_mem _ hother)
      refine ⟨left, ?_⟩
      rw [List.flatMap_cons]
      exact (hpacket (hgoes packet List.mem_cons_self)).append (by decide) hpackets

theorem copies_front (front : Front target) (bulkLeft : UInt32) :
    ∃ left, Copies target σ .SyncWait bulkLeft front.bytes .Packets left := by
  obtain ⟨left, hpackets⟩ := copies_packets (σ := σ) front.packets bulkLeft front.goes_on
  exact ⟨left, (copies_preamble front.first_sync).append (by decide) hpackets⟩

theorem copies_body (file : File target) (bulkLeft : UInt32) :
    ∃ left, Copies target σ .SyncWait bulkLeft file.body .Done left := by
  obtain ⟨middle, hfront⟩ := copies_front (σ := σ) file.front bulkLeft
  obtain ⟨left, hlast, _⟩ := copies_packet (σ := σ) file.last middle
  exact ⟨left, hfront.append (by decide) (hlast file.last_ends)⟩

theorem token?_of_record (entry : HeaderRecord) (hsuits : entry.Suits target.device)
    (bulkLeft : UInt32) (more : List UInt8) :
    target.token? .Records bulkLeft (entry.bytes ++ more) = some (.Skip entry.bytes.length) := by
  have hbuffer : Settings.streamBuffer = 4096 := rfl
  have hlargest : entry.payload.length ≤ 4093 := entry.length_le
  have hlength := entry.length_eq
  have hsize : entry.bytes.length = 3 + entry.payload.length := by
    rw [Nat.add_comm]
    rfl
  simp only [HeaderRecord.bytes, List.cons_append, Target.token?, Target.recordToken?,
    if_neg entry.kind_ne, Target.textToken?, ← hlength, List.take_left]
  have hright : ¬ (entry.kind = deviceRecord ∧ recordText entry.payload ≠ target.device) :=
    fun h => h.2 (hsuits h.1)
  rw [if_neg (by omega), if_neg (by rw [List.length_append]; omega), if_neg hright]
  exact congrArg (fun count => some (Token.Skip count)) hsize.symm

-- The records are skipped one by one.
theorem reaches_records (records : List HeaderRecord)
    (hsuits : ∀ entry ∈ records, entry.Suits target.device) {session : Session} (board : σ)
    {more : List UInt8} (hphase : session.phase = .Records)
    (hreceived : session.received = records.flatMap HeaderRecord.bytes ++ more) :
    Reaches target (session, board) ({ session with received := more }, board) := by
  induction records generalizing session with
  | nil =>
      have hsame : { session with received := more } = session := by
        rw [List.flatMap_nil, List.nil_append] at hreceived
        rw [← hreceived]
      rw [hsame]
      exact Relation.ReflTransGen.refl
  | cons entry records ih =>
      rw [List.flatMap_cons, List.append_assoc] at hreceived
      have htoken : target.token? session.phase session.bulkLeft session.received =
          some (.Skip entry.bytes.length) := by
        rw [hphase, hreceived]
        exact token?_of_record entry (hsuits entry List.mem_cons_self) _ _
      refine (reaches_of_token htoken board).trans ?_
      refine (ih (fun other hother => hsuits other (List.mem_cons_of_mem _ hother)) rfl ?_).trans ?_
      · simp only [skipped, hreceived, List.drop_left]
      · simp only [skipped, ← hphase]
        exact Relation.ReflTransGen.refl

theorem reaches_heading (heading : Heading target) {session : Session} (board : σ)
    {more : List UInt8} (hphase : session.phase = .Magic)
    (hreceived : session.received = heading.bytes ++ more) :
    Reaches target (session, board)
      ({ session with phase := .Records, received := more }, board) := by
  rw [Heading.bytes, List.append_assoc] at hreceived
  have htoken : target.token? session.phase session.bulkLeft session.received =
      some (.Skip fileMagic.length) := by
    rw [hphase, hreceived, Target.token?, Target.magicToken?, List.take_left,
      if_neg (by rw [List.length_append]; omega), if_pos rfl]
  refine (reaches_of_token htoken board).trans ?_
  refine reaches_records heading.records heading.suits board rfl ?_
  simp only [skipped, hreceived, List.drop_left]

-- With the announcement the partition is made ready, or is not.
theorem reaches_prepared (announcement : Announcement target) {session : Session} (board : σ)
    {more : List UInt8} (hphase : session.phase = .Magic)
    (hreceived : session.received = announcement.bytes ++ more) :
    Reaches target (session, board)
      (prepared { session with
          phase := .Records
          received := [bitstreamRecord, announcement.a, announcement.b, announcement.c,
            announcement.d] ++ more }
        (target.partition.prepare board).1, (target.partition.prepare board).2) := by
  rw [Announcement.bytes, List.append_assoc] at hreceived
  let announced : Session := { session with
    phase := .Records
    received := [bitstreamRecord, announcement.a, announcement.b, announcement.c,
      announcement.d] ++ more }
  have htoken : target.token? announced.phase announced.bulkLeft announced.received =
      some .Prepare := by
    simp only [announced, List.cons_append, Target.token?, Target.recordToken?, if_true,
      Target.lengthToken?]
    rw [if_neg (UInt32.not_lt.mpr announcement.length_le)]
  refine (reaches_heading announcement.heading board hphase hreceived).trans ?_
  exact reaches_of_token htoken board

theorem reaches_announcement (announcement : Announcement target) (session : Session)
    {board ready : σ} {more : List UInt8} (hphase : session.phase = .Magic)
    (hreceived : session.received = announcement.bytes ++ more)
    (hready : target.partition.prepare board = (none, ready)) :
    Reaches target (session, board)
      ({ session with phase := .SyncWait, received := more }, ready) := by
  have hreach := reaches_prepared announcement board hphase hreceived
  rw [hready] at hreach
  exact hreach

-- Bytes of the body behind an announcement are copied if the partition can be made
-- ready, and wait to be programmed.
theorem reaches_copied (announcement : Announcement target) {board ready : σ}
    (hready : target.partition.prepare board = (none, ready))
    (hcopies : Copies target σ .SyncWait 0 bytes next left) (more : List UInt8) :
    Reaches target ((start target).append (announcement.bytes ++ (bytes ++ more)), board)
      (flush target
        { phase := next, lastError := none, bulkLeft := left, received := more, pending := bytes,
          cursor := target.partition.offset } ready) := by
  refine (reaches_announcement announcement _ rfl rfl hready).trans ?_
  have hreach := hcopies { (start target).append (announcement.bytes ++ (bytes ++ more)) with
    phase := .SyncWait, received := bytes ++ more } ready more rfl rfl rfl target.page_pos
  simp only [copied, List.drop_left, List.take_left] at hreach
  exact hreach

-- A file is read to its end.
theorem reaches_file (file : File target) {board ready : σ} (more : List UInt8)
    (hready : target.partition.prepare board = (none, ready)) :
    ∃ left, Reaches target ((start target).append (file.bytes ++ more), board)
      (flush target
        { phase := .Done, lastError := none, bulkLeft := left, received := more,
          pending := file.body, cursor := target.partition.offset } ready) := by
  obtain ⟨left, hbody⟩ := copies_body (σ := σ) file 0
  refine ⟨left, ?_⟩
  rw [File.bytes, List.append_assoc]
  exact reaches_copied file.announcement hready hbody more

-- A file that breaks off before its last packet leaves a session that waits for the
-- packet, if what it copied is less than a page.
theorem settles_front (file : File target) {board ready : σ}
    (hready : target.partition.prepare board = (none, ready))
    (hshort : file.front.bytes.length < target.page) :
    ∃ left, Settles target
      ((start target).append (file.announcement.bytes ++ file.front.bytes), board)
      ({ phase := .Packets, lastError := none, bulkLeft := left, received := [],
         pending := file.front.bytes, cursor := target.partition.offset }, ready) := by
  obtain ⟨left, hfront⟩ := copies_front (σ := σ) file.front 0
  have hreach := reaches_copied file.announcement hready hfront []
  rw [List.append_nil, flush_of_short _ hshort] at hreach
  exact ⟨left, hreach, rfl⟩

end

end BoardControl.Bitstream
