import BoardControl.Proofs.Bitstream.Format
import Mathlib.Data.List.Infix

namespace BoardControl.Bitstream

-- What the bytes that were dealt with are by the phase: the header, the bytes of
-- the body, and what the rest says about them. In a bulk payload the words that
-- are still to come count.
def Parsed (target : Target) (phase : Phase) (bulkLeft : UInt32) (header body rest : List UInt8) :
    Prop :=
  match phase with
  | .Magic => header = [] ∧ body = []
  | .Records => body = [] ∧ ∃ heading : Heading target, header = heading.bytes
  | .SyncWait =>
      (∃ announcement : Announcement target, header = announcement.bytes) ∧
        NoSyncBefore body.length (body ++ rest)
  | .Packets =>
      (∃ announcement : Announcement target, header = announcement.bytes) ∧
        ∃ front : Front target, body = front.bytes
  | .Bulk =>
      (∃ announcement : Announcement target, header = announcement.bytes) ∧
        ∃ (front : Front target) (part : List UInt8) (opcode : Opcode) (words : UInt32),
          body = front.bytes ++ part ∧ PacketHeader.ofBytes? part = some (.Type2 opcode words) ∧
            part.length + 4 * bulkLeft.toNat = 4 * (words.toNat + 1)
  | .Done =>
      (∃ announcement : Announcement target, header = announcement.bytes) ∧
        ∃ (front : Front target) (last : Packet target.page),
          last.EndsStream ∧ body = front.bytes ++ last.bytes
  | .Failed => True

-- A sync word that is in no part of some bytes is in no part of what they begin
-- with.
theorem NoSyncBefore.of_prefix {count : Nat} {bytes longer : List UInt8} (hbegins : bytes <+: longer)
    (h : NoSyncBefore count longer) : NoSyncBefore count bytes :=
  fun position hposition hsync => h position hposition (hsync.trans (hbegins.drop position))

-- One more packet that goes on.
def Front.snoc {target : Target} (front : Front target) (packet : Packet target.page)
    (hgoes : ¬ packet.EndsStream) : Front target :=
  { front with
    packets := front.packets ++ [packet]
    goes_on := by
      intro other hother
      rcases List.mem_append.mp hother with hold | hnew
      · exact front.goes_on other hold
      · rw [List.mem_singleton.mp hnew]
        exact hgoes }

theorem Front.bytes_snoc {target : Target} (front : Front target) (packet : Packet target.page)
    (hgoes : ¬ packet.EndsStream) : (front.snoc packet hgoes).bytes = front.bytes ++ packet.bytes := by
  simp [Front.bytes, Front.snoc]

def Heading.snoc {target : Target} (heading : Heading target) (entry : HeaderRecord)
    (hsuits : entry.Suits target.device) : Heading target :=
  { records := heading.records ++ [entry]
    suits := by
      intro other hother
      rcases List.mem_append.mp hother with hold | hnew
      · exact heading.suits other hold
      · rw [List.mem_singleton.mp hnew]
        exact hsuits }

theorem Heading.bytes_snoc {target : Target} (heading : Heading target) (entry : HeaderRecord)
    (hsuits : entry.Suits target.device) :
    (heading.snoc entry hsuits).bytes = heading.bytes ++ entry.bytes := by
  simp [Heading.bytes, Heading.snoc]

namespace Target

variable {target : Target} {bulkLeft left : UInt32} {bytes : List UInt8} {count : Nat}
  {next : Phase}

-- What a token says about the bytes that it takes.

theorem take_of_magicToken? (h : magicToken? bytes = some (.Skip count)) :
    bytes.take count = fileMagic := by
  unfold magicToken? at h
  split at h
  · cases h
  · split at h
    · cases h
      assumption
    · cases h

theorem record_of_recordToken? (h : target.recordToken? bytes = some (.Skip count)) :
    ∃ entry : HeaderRecord, entry.Suits target.device ∧ bytes.take count = entry.bytes := by
  have hbuffer : Settings.streamBuffer = 4096 := rfl
  rcases bytes with _ | ⟨kind, rest⟩
  · cases h
  · simp only [recordToken?] at h
    split at h
    · rcases rest with _ | ⟨a, _ | ⟨b, _ | ⟨c, _ | ⟨d, rest⟩⟩⟩⟩
      any_goals cases h
      simp only [lengthToken?] at h
      split at h <;> cases h
    · rename_i hkind
      rcases rest with _ | ⟨high, _ | ⟨low, rest⟩⟩
      any_goals cases h
      simp only [textToken?] at h
      split at h
      · cases h
      · rename_i hfits
        split at h
        · cases h
        · rename_i hlength
          split at h
          · cases h
          · rename_i hsuits
            cases h
            have htake : (rest.take (256 * high.toNat + low.toNat)).length =
                256 * high.toNat + low.toNat := by
              rw [List.length_take]
              omega
            refine ⟨⟨kind, high, low, rest.take (256 * high.toNat + low.toNat), hkind, htake, ?_⟩,
              ?_, ?_⟩
            · rw [htake, maxRecordText]
              omega
            · intro hdevice
              exact Decidable.not_not.mp fun hwrong => hsuits ⟨hdevice, hwrong⟩
            · rw [Nat.add_comm]
              rfl

theorem length_of_recordToken? (h : target.recordToken? bytes = some .Prepare) :
    ∃ a b c d, beWord a b c d ≤ target.partition.size ∧
      bytes.take 5 = [bitstreamRecord, a, b, c, d] := by
  rcases bytes with _ | ⟨kind, rest⟩
  · cases h
  · simp only [recordToken?] at h
    split at h
    · rename_i hkind
      rcases rest with _ | ⟨a, _ | ⟨b, _ | ⟨c, _ | ⟨d, rest⟩⟩⟩⟩
      any_goals cases h
      simp only [lengthToken?] at h
      split at h
      · cases h
      · rename_i hfits
        exact ⟨a, b, c, d, UInt32.not_lt.mp hfits, by rw [hkind]; rfl⟩
    · rcases rest with _ | ⟨high, _ | ⟨low, rest⟩⟩
      any_goals cases h
      simp only [textToken?] at h
      repeat' split at h
      all_goals cases h

theorem packet_of_packetToken? (h : target.packetToken? bulkLeft bytes = some (.Copy count next left)) :
    (∃ packet : Packet target.page, bytes.take count = packet.bytes ∧
      (next = .Done ∧ packet.EndsStream ∨ next = .Packets ∧ ¬ packet.EndsStream)) ∨
    ∃ opcode, next = .Bulk ∧ count = 4 ∧
      PacketHeader.ofBytes? (bytes.take 4) = some (.Type2 opcode left) := by
  rw [packetToken?] at h
  cases hheader : PacketHeader.ofBytes? bytes with
  | none => simp [hheader] at h
  | some header =>
      have hfour := length_of_ofBytes? hheader
      rw [hheader] at h
      cases header with
      | Type1 opcode register words =>
          simp only [headerToken?, type1Token?] at h
          split at h
          · cases h
          · rename_i hfits
            split at h
            · cases h
            · rename_i hlength
              have htake : (bytes.take (4 * (words.toNat + 1))).length = 4 * (words.toNat + 1) := by
                rw [List.length_take]
                omega
              have hword : PacketHeader.ofBytes? (bytes.take (4 * (words.toNat + 1))) =
                  some (.Type1 opcode register words) := by
                rw [ofBytes?_take (by omega), hheader]
              refine Or.inl ⟨⟨_, _, hword, ⟨htake, by omega⟩⟩, ?_⟩
              split at h
              · rename_i hends
                cases h
                exact ⟨rfl, Or.inl ⟨rfl, hends⟩⟩
              · rename_i hgoes
                cases h
                exact ⟨rfl, Or.inr ⟨rfl, hgoes⟩⟩
      | Type2 opcode words =>
          have hword : PacketHeader.ofBytes? (bytes.take 4) = some (.Type2 opcode words) := by
            rw [ofBytes?_take (by omega), hheader]
          simp only [headerToken?, Option.some.injEq, Token.Copy.injEq] at h
          obtain ⟨rfl, rfl, rfl⟩ := h
          by_cases hwords : 0 < words
          · rw [if_pos hwords]
            exact Or.inr ⟨opcode, rfl, rfl, hword⟩
          · have hzero : words.toNat = 0 := by
              rw [UInt32.lt_iff_toNat_lt] at hwords
              exact Nat.le_zero.mp (Nat.le_of_not_lt hwords)
            have hspans : (bytes.take 4).length = 4 * (words.toNat + 1) := by
              rw [List.length_take, hzero]
              omega
            rw [if_neg hwords]
            exact Or.inl ⟨Packet.ofType2 target.page hword hspans, rfl,
              Or.inr ⟨rfl, Packet.ofType2_goes_on hword hspans⟩⟩
      | Unknown kind => cases h

theorem copy_of_bulkToken? (h : bulkToken? bulkLeft bytes = some (.Copy count next left)) :
    count = 4 ∧ next = (if bulkLeft = 1 then .Packets else .Bulk) ∧ left = bulkLeft - 1 ∧
      4 ≤ bytes.length ∧ bulkLeft ≠ 0 := by
  unfold bulkToken? at h
  split at h
  · cases h
  · rename_i hshort
    obtain ⟨hlength, hbulk⟩ := not_or.mp hshort
    simp only [Option.some.injEq, Token.Copy.injEq] at h
    exact ⟨h.1.symm, h.2.1.symm, h.2.2.symm, Nat.le_of_not_lt hlength, hbulk⟩

end Target

namespace Parsed

variable {target : Target} {phase next : Phase} {bulkLeft left : UInt32}
  {header body rest : List UInt8} {count : Nat}

theorem start (rest : List UInt8) : Parsed target .Magic 0 [] [] rest := ⟨rfl, rfl⟩

theorem body_eq_nil (h : Parsed target phase bulkLeft header body rest)
    (hphase : phase = .Magic ∨ phase = .Records) : body = [] := by
  rcases hphase with rfl | rfl
  · exact h.2
  · exact h.1

-- A part of the header was dropped.
theorem skipped (h : Parsed target phase bulkLeft header body rest)
    (htoken : target.token? phase bulkLeft rest = some (.Skip count)) :
    Parsed target .Records left (header ++ rest.take count) body (rest.drop count) := by
  rcases Target.token?_belongs htoken with rfl | rfl
  · obtain ⟨rfl, rfl⟩ := h
    refine ⟨rfl, ⟨[], by simp⟩, ?_⟩
    rw [Target.take_of_magicToken? htoken]
    rfl
  · obtain ⟨rfl, heading, rfl⟩ := h
    obtain ⟨entry, hsuits, htake⟩ := Target.record_of_recordToken? htoken
    exact ⟨rfl, heading.snoc entry hsuits, by rw [heading.bytes_snoc, htake]⟩

-- The bitstream was announced.
theorem prepared (h : Parsed target phase bulkLeft header body rest)
    (htoken : target.token? phase bulkLeft rest = some .Prepare) :
    Parsed target .SyncWait left (header ++ rest.take 5) body (rest.drop 5) := by
  obtain rfl : phase = .Records := Target.token?_belongs htoken
  obtain ⟨rfl, heading, rfl⟩ := h
  obtain ⟨a, b, c, d, hlength, htake⟩ := Target.length_of_recordToken? htoken
  exact ⟨⟨⟨heading, a, b, c, d, hlength⟩, by rw [htake]; rfl⟩, nofun⟩

-- The search goes on by one byte, or the sync word was found.
theorem copied_sync (h : Parsed target .SyncWait bulkLeft header body rest)
    (htoken : target.token? .SyncWait bulkLeft rest = some (.Copy count next left)) :
    Parsed target next left header (body ++ rest.take count) (rest.drop count) := by
  obtain ⟨hheader, hnone⟩ := h
  simp only [Target.token?, Target.syncToken?] at htoken
  split at htoken
  · cases htoken
  · split at htoken
    · rename_i hfound
      cases htoken
      have hbegins : body ++ syncWord <+: body ++ rest := by
        rw [List.prefix_append_right_inj, List.prefix_iff_eq_take]
        exact hfound.symm
      refine ⟨hheader, ⟨body, [], hnone.of_prefix hbegins, by simp⟩, ?_⟩
      simp [Front.bytes, hfound]
    · rename_i hother
      cases htoken
      have hfour : syncWord.length = 4 := rfl
      refine ⟨hheader, ?_⟩
      rw [List.append_assoc, List.take_append_drop, List.length_append, List.length_take]
      intro position hposition
      by_cases hold : position < body.length
      · exact hnone position hold
      · have hlast : position = body.length := by omega
        rw [hlast, List.drop_left, not_prefix_sync_iff]
        exact hother

-- A packet has its payload in the same token, except for a type 2 packet.
theorem copied_packet (h : Parsed target .Packets bulkLeft header body rest)
    (htoken : target.token? .Packets bulkLeft rest = some (.Copy count next left)) :
    Parsed target next left header (body ++ rest.take count) (rest.drop count) := by
  obtain ⟨hheader, front, rfl⟩ := h
  rcases Target.packet_of_packetToken? htoken with
    ⟨packet, htake, ⟨rfl, hends⟩ | ⟨rfl, hgoes⟩⟩ | ⟨opcode, rfl, rfl, hword⟩
  · exact ⟨hheader, front, packet, hends, by rw [htake]⟩
  · exact ⟨hheader, front.snoc packet hgoes, by rw [front.bytes_snoc, htake]⟩
  · refine ⟨hheader, front, rest.take 4, opcode, left, rfl, hword, ?_⟩
    have hlength := length_of_ofBytes? hword
    rw [List.length_take] at hlength ⊢
    omega

-- A word of a type 2 packet, which may be its last one.
theorem copied_bulk (h : Parsed target .Bulk bulkLeft header body rest)
    (htoken : target.token? .Bulk bulkLeft rest = some (.Copy count next left)) :
    Parsed target next left header (body ++ rest.take count) (rest.drop count) := by
  obtain ⟨hheader, front, part, opcode, words, rfl, hword, hwords⟩ := h
  obtain ⟨rfl, rfl, rfl, hlength, hbulk⟩ := Target.copy_of_bulkToken? htoken
  have hmore := ofBytes?_append (rest.take 4) hword
  have htake : (part ++ rest.take 4).length = part.length + 4 := by
    rw [List.length_append, List.length_take]
    omega
  have hpos : bulkLeft.toNat ≠ 0 := fun hzero => hbulk (UInt32.toNat_inj.mp hzero)
  have hone : (1 : UInt32).toNat = 1 := rfl
  have hleft : (bulkLeft - 1).toNat = bulkLeft.toNat - 1 := by
    rw [UInt32.toNat_sub_of_le _ _ (UInt32.le_iff_toNat_le.mpr (by omega)), hone]
  rw [List.append_assoc]
  by_cases hlast : bulkLeft = 1
  · have hspans : (part ++ rest.take 4).length = 4 * (words.toNat + 1) := by
      rw [hlast, hone] at hwords
      omega
    rw [if_pos hlast]
    exact ⟨hheader, front.snoc _ (Packet.ofType2_goes_on hmore hspans),
      (front.bytes_snoc _ (Packet.ofType2_goes_on hmore hspans)).symm⟩
  · rw [if_neg hlast]
    refine ⟨hheader, front, _, opcode, words, rfl, hmore, ?_⟩
    rw [htake, hleft]
    omega

-- Bytes of the body were copied.
theorem copied (h : Parsed target phase bulkLeft header body rest)
    (htoken : target.token? phase bulkLeft rest = some (.Copy count next left)) :
    Parsed target next left header (body ++ rest.take count) (rest.drop count) := by
  rcases Target.token?_belongs htoken with rfl | rfl | rfl
  · exact h.copied_sync htoken
  · exact h.copied_packet htoken
  · exact h.copied_bulk htoken

end Parsed

end BoardControl.Bitstream
