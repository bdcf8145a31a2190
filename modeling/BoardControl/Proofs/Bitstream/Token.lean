import BoardControl.Bitstream.Updater

namespace BoardControl.Bitstream

-- Where an image goes and what it must be for. The partition lies in the address
-- space, and a page can be read back.
structure Target where
  partition : Partition
  device : String
  page : Nat
  page_pos : 0 < page
  page_le : page ≤ Settings.maxPage
  fits : partition.offset.toNat + partition.size.toNat ≤ UInt32.size

-- The kind of the header record that names the device, the letter b.
def deviceRecord : UInt8 := 0x62

-- The text of a header record.
def recordText (payload : List UInt8) : String := Text.shown (Text.untilNul payload)

-- The packet that ends the bitstream writes one word to the command register,
-- and only the low five bits of that word count.
def PacketHeader.EndsStream (header : PacketHeader) (payload : List UInt8) : Prop :=
  header = .Type1 .Write commandRegister 1 ∧
    (frontWord? payload).getD 0 &&& 0x1f = desyncCommand

instance (header : PacketHeader) (payload : List UInt8) :
    Decidable (header.EndsStream payload) :=
  inferInstanceAs (Decidable (_ ∧ _))

-- The smallest piece of the file that can be dealt with. Bytes of the header are
-- skipped, the length record prepares the partition, and bytes of the body are
-- copied. `bulkLeft` counts the words of a bulk payload that are still to come.
inductive Token where
  | Skip (count : Nat)
  | Prepare
  | Copy (count : Nat) (next : Phase) (bulkLeft : UInt32)
  | Refuse (failure : UpdateError)
deriving DecidableEq

namespace Token

-- The bytes that a token takes from the front of the file.
def length : Token → Nat
  | .Skip count | .Copy count _ _ => count
  | .Prepare => 5
  | .Refuse _ => 0

-- The phases that a token belongs to.
def Belongs (phase : Phase) : Token → Prop
  | .Skip _ => phase = .Magic ∨ phase = .Records
  | .Prepare => phase = .Records
  | .Copy _ _ _ => phase = .SyncWait ∨ phase = .Packets ∨ phase = .Bulk
  | .Refuse _ => True

end Token

namespace Target

variable (target : Target)

-- The first token of some bytes by the phase of the parser, or none if the token
-- is not complete.

def magicToken? (bytes : List UInt8) : Option Token :=
  if bytes.length < fileMagic.length then none
  else if bytes.take fileMagic.length = fileMagic then some (.Skip fileMagic.length)
  else some (.Refuse .BadMagic)

def lengthToken? : List UInt8 → Option Token
  | _ :: a :: b :: c :: d :: _ =>
      if target.partition.size < beWord a b c d then some (.Refuse .ImageTooLarge)
      else some .Prepare
  | _ => none

def textToken? : List UInt8 → Option Token
  | kind :: high :: low :: rest =>
      let length := 256 * high.toNat + low.toNat
      if Settings.streamBuffer < 3 + length then some (.Refuse .PacketTooLarge)
      else if rest.length < length then none
      else if kind = deviceRecord ∧ recordText (rest.take length) ≠ target.device then
        some (.Refuse .WrongDevice)
      else some (.Skip (3 + length))
  | _ => none

def recordToken? : List UInt8 → Option Token
  | [] => none
  | kind :: rest =>
      if kind = bitstreamRecord then target.lengthToken? (kind :: rest)
      else target.textToken? (kind :: rest)

def syncToken? (bulkLeft : UInt32) (bytes : List UInt8) : Option Token :=
  if bytes.length < syncWord.length then none
  else if bytes.take syncWord.length = syncWord then
    some (.Copy syncWord.length .Packets bulkLeft)
  else some (.Copy 1 .SyncWait bulkLeft)

def type1Token? (bulkLeft : UInt32) (header : PacketHeader) (words : UInt16)
    (bytes : List UInt8) : Option Token :=
  let size := 4 * (words.toNat + 1)
  if Settings.streamBuffer - target.page < size then some (.Refuse .PacketTooLarge)
  else if bytes.length < size then none
  else if header.EndsStream ((bytes.take size).drop 4) then some (.Copy size .Done bulkLeft)
  else some (.Copy size .Packets bulkLeft)

def headerToken? (bulkLeft : UInt32) (bytes : List UInt8) : PacketHeader → Option Token
  | .Type1 opcode register words =>
      target.type1Token? bulkLeft (.Type1 opcode register words) words bytes
  | .Type2 _ words => some (.Copy 4 (if 0 < words then .Bulk else .Packets) words)
  | .Unknown kind => some (.Refuse (.InvalidPacketType kind))

def packetToken? (bulkLeft : UInt32) (bytes : List UInt8) : Option Token :=
  match PacketHeader.ofBytes? bytes with
  | none => none
  | some header => target.headerToken? bulkLeft bytes header

def bulkToken? (bulkLeft : UInt32) (bytes : List UInt8) : Option Token :=
  if bytes.length < 4 ∨ bulkLeft = 0 then none
  else some (.Copy 4 (if bulkLeft = 1 then .Packets else .Bulk) (bulkLeft - 1))

def token? (phase : Phase) (bulkLeft : UInt32) (bytes : List UInt8) : Option Token :=
  match phase with
  | .Magic => magicToken? bytes
  | .Records => target.recordToken? bytes
  | .SyncWait => syncToken? bulkLeft bytes
  | .Packets => target.packetToken? bulkLeft bytes
  | .Bulk => bulkToken? bulkLeft bytes
  | .Done | .Failed => none

end Target

theorem ofBytes?_append {bytes : List UInt8} {header : PacketHeader} (more : List UInt8)
    (h : PacketHeader.ofBytes? bytes = some header) :
    PacketHeader.ofBytes? (bytes ++ more) = some header := by
  match bytes, h with
  | _ :: _ :: _ :: _ :: _, h => exact h

-- A header word takes four bytes.
theorem length_of_ofBytes? {bytes : List UInt8} {header : PacketHeader}
    (h : PacketHeader.ofBytes? bytes = some header) : 4 ≤ bytes.length := by
  match bytes, h with
  | _ :: _ :: _ :: _ :: _, _ => simp

theorem length_of_ofBytes?_eq_none {bytes : List UInt8} (h : PacketHeader.ofBytes? bytes = none) :
    bytes.length < 4 := by
  match bytes, h with
  | [], _ | [_], _ | [_, _], _ | [_, _, _], _ => all_goals simp

namespace Target

variable {target : Target} {bulkLeft : UInt32} {bytes : List UInt8} {token : Token}

-- A complete token stays the first token when more bytes arrive.

theorem magicToken?_append (more : List UInt8) (h : magicToken? bytes = some token) :
    magicToken? (bytes ++ more) = some token := by
  unfold magicToken? at h ⊢
  by_cases hlength : bytes.length < fileMagic.length
  · simp [hlength] at h
  · have hle : fileMagic.length ≤ bytes.length := Nat.le_of_not_lt hlength
    rw [if_neg hlength] at h
    rw [if_neg (by simp only [List.length_append]; omega), List.take_append_of_le_length hle]
    exact h

theorem lengthToken?_append (more : List UInt8) (h : target.lengthToken? bytes = some token) :
    target.lengthToken? (bytes ++ more) = some token := by
  match bytes, h with
  | _ :: _ :: _ :: _ :: _ :: _, h => exact h

theorem textToken?_append (more : List UInt8) (h : target.textToken? bytes = some token) :
    target.textToken? (bytes ++ more) = some token := by
  match bytes, h with
  | kind :: high :: low :: rest, h =>
      simp only [textToken?, List.cons_append] at h ⊢
      by_cases hlarge : Settings.streamBuffer < 3 + (256 * high.toNat + low.toNat)
      · rw [if_pos hlarge] at h ⊢
        exact h
      · by_cases hlength : rest.length < 256 * high.toNat + low.toNat
        · simp [hlarge, hlength] at h
        · rw [if_neg hlarge, if_neg hlength] at h
          rw [if_neg hlarge, if_neg (by simp only [List.length_append]; omega),
            List.take_append_of_le_length (Nat.le_of_not_lt hlength)]
          exact h

theorem recordToken?_append (more : List UInt8) (h : target.recordToken? bytes = some token) :
    target.recordToken? (bytes ++ more) = some token := by
  match bytes, h with
  | kind :: rest, h =>
      simp only [recordToken?] at h
      rw [List.cons_append, recordToken?, ← List.cons_append]
      by_cases hkind : kind = bitstreamRecord
      · rw [if_pos hkind] at h ⊢
        exact lengthToken?_append more h
      · rw [if_neg hkind] at h ⊢
        exact textToken?_append more h

theorem syncToken?_append (more : List UInt8) (h : syncToken? bulkLeft bytes = some token) :
    syncToken? bulkLeft (bytes ++ more) = some token := by
  unfold syncToken? at h ⊢
  by_cases hlength : bytes.length < syncWord.length
  · simp [hlength] at h
  · have hle : syncWord.length ≤ bytes.length := Nat.le_of_not_lt hlength
    rw [if_neg hlength] at h
    rw [if_neg (by simp only [List.length_append]; omega), List.take_append_of_le_length hle]
    exact h

theorem type1Token?_append {header : PacketHeader} {words : UInt16} (more : List UInt8)
    (h : target.type1Token? bulkLeft header words bytes = some token) :
    target.type1Token? bulkLeft header words (bytes ++ more) = some token := by
  simp only [type1Token?] at h ⊢
  by_cases hlarge : Settings.streamBuffer - target.page < 4 * (words.toNat + 1)
  · rw [if_pos hlarge] at h ⊢
    exact h
  · by_cases hlength : bytes.length < 4 * (words.toNat + 1)
    · simp [hlarge, hlength] at h
    · rw [if_neg hlarge, if_neg hlength] at h
      rw [if_neg hlarge, if_neg (by simp only [List.length_append]; omega),
        List.take_append_of_le_length (Nat.le_of_not_lt hlength)]
      exact h

theorem packetToken?_append (more : List UInt8)
    (h : target.packetToken? bulkLeft bytes = some token) :
    target.packetToken? bulkLeft (bytes ++ more) = some token := by
  unfold packetToken? at h ⊢
  cases hheader : PacketHeader.ofBytes? bytes with
  | none => simp [hheader] at h
  | some header =>
      rw [hheader] at h
      rw [ofBytes?_append more hheader]
      cases header with
      | Type1 opcode register words => exact type1Token?_append more h
      | Type2 opcode words => exact h
      | Unknown kind => exact h

theorem bulkToken?_append (more : List UInt8) (h : bulkToken? bulkLeft bytes = some token) :
    bulkToken? bulkLeft (bytes ++ more) = some token := by
  unfold bulkToken? at h ⊢
  by_cases hshort : bytes.length < 4 ∨ bulkLeft = 0
  · simp [hshort] at h
  · rw [if_neg hshort] at h
    obtain ⟨hlength, hbulk⟩ := not_or.mp hshort
    rw [if_neg (by simp only [List.length_append, hbulk, or_false]; omega)]
    exact h

theorem token?_append {phase : Phase} (more : List UInt8)
    (h : target.token? phase bulkLeft bytes = some token) :
    target.token? phase bulkLeft (bytes ++ more) = some token := by
  cases phase with
  | Magic => exact magicToken?_append more h
  | Records => exact recordToken?_append more h
  | SyncWait => exact syncToken?_append more h
  | Packets => exact packetToken?_append more h
  | Bulk => exact bulkToken?_append more h
  | Done => cases h
  | Failed => cases h

-- A token lies within the bytes that it was read from.

theorem magicToken?_length_le (h : magicToken? bytes = some token) :
    token.length ≤ bytes.length := by
  unfold magicToken? at h
  split at h
  · cases h
  · split at h <;> cases h <;> simp only [Token.length] <;> omega

theorem recordToken?_length_le (h : target.recordToken? bytes = some token) :
    token.length ≤ bytes.length := by
  match bytes, h with
  | kind :: rest, h =>
      simp only [recordToken?] at h
      split at h
      · match rest, h with
        | _ :: _ :: _ :: _ :: _, h =>
            simp only [lengthToken?] at h
            split at h <;> cases h <;> simp [Token.length]
      · match rest, h with
        | high :: low :: rest, h =>
            simp only [textToken?] at h
            repeat' split at h
            all_goals cases h
            all_goals simp only [Token.length, List.length_cons]; omega

theorem syncToken?_length_le (h : syncToken? bulkLeft bytes = some token) :
    token.length ≤ bytes.length := by
  unfold syncToken? at h
  have hsync : syncWord.length = 4 := rfl
  split at h
  · cases h
  · split at h <;> cases h <;> simp only [Token.length] <;> omega

theorem packetToken?_length_le (h : target.packetToken? bulkLeft bytes = some token) :
    token.length ≤ bytes.length := by
  unfold packetToken? at h
  cases hheader : PacketHeader.ofBytes? bytes with
  | none => simp [hheader] at h
  | some header =>
      have hlength := length_of_ofBytes? hheader
      rw [hheader] at h
      cases header with
      | Type1 opcode register words =>
          simp only [headerToken?, type1Token?] at h
          repeat' split at h
          all_goals cases h
          all_goals simp only [Token.length]; omega
      | Type2 opcode words =>
          cases h
          exact hlength
      | Unknown kind =>
          cases h
          exact Nat.zero_le _

theorem bulkToken?_length_le (h : bulkToken? bulkLeft bytes = some token) :
    token.length ≤ bytes.length := by
  unfold bulkToken? at h
  split at h
  · cases h
  · cases h
    simp only [Token.length]
    omega

theorem token?_length_le {phase : Phase} (h : target.token? phase bulkLeft bytes = some token) :
    token.length ≤ bytes.length := by
  cases phase with
  | Magic => exact magicToken?_length_le h
  | Records => exact recordToken?_length_le h
  | SyncWait => exact syncToken?_length_le h
  | Packets => exact packetToken?_length_le h
  | Bulk => exact bulkToken?_length_le h
  | Done => cases h
  | Failed => cases h

-- Each kind of token belongs to some phases only.

theorem magicToken?_belongs (h : magicToken? bytes = some token) : token.Belongs .Magic := by
  unfold magicToken? at h
  repeat' split at h
  all_goals cases h
  all_goals simp [Token.Belongs]

theorem recordToken?_belongs (h : target.recordToken? bytes = some token) :
    token.Belongs .Records := by
  match bytes, h with
  | kind :: rest, h =>
      simp only [recordToken?] at h
      split at h
      · match rest, h with
        | _ :: _ :: _ :: _ :: _, h =>
            simp only [lengthToken?] at h
            split at h <;> cases h <;> simp [Token.Belongs]
      · match rest, h with
        | _ :: _ :: rest, h =>
            simp only [textToken?] at h
            repeat' split at h
            all_goals cases h
            all_goals simp [Token.Belongs]

theorem syncToken?_belongs (h : syncToken? bulkLeft bytes = some token) :
    token.Belongs .SyncWait := by
  unfold syncToken? at h
  repeat' split at h
  all_goals cases h
  all_goals simp [Token.Belongs]

theorem packetToken?_belongs (h : target.packetToken? bulkLeft bytes = some token) :
    token.Belongs .Packets := by
  unfold packetToken? at h
  split at h
  · cases h
  · rename_i header _
    cases header with
    | Type1 opcode register words =>
        simp only [headerToken?, type1Token?] at h
        repeat' split at h
        all_goals cases h
        all_goals simp [Token.Belongs]
    | Type2 opcode words =>
        cases h
        simp [Token.Belongs]
    | Unknown kind =>
        cases h
        simp [Token.Belongs]

theorem bulkToken?_belongs (h : bulkToken? bulkLeft bytes = some token) : token.Belongs .Bulk := by
  unfold bulkToken? at h
  split at h
  · cases h
  · cases h
    simp [Token.Belongs]

theorem token?_belongs {phase : Phase} (h : target.token? phase bulkLeft bytes = some token) :
    token.Belongs phase := by
  cases phase with
  | Magic => exact magicToken?_belongs h
  | Records => exact recordToken?_belongs h
  | SyncWait => exact syncToken?_belongs h
  | Packets => exact packetToken?_belongs h
  | Bulk => exact bulkToken?_belongs h
  | Done => cases h
  | Failed => cases h

-- Copied bytes never lead to a failure, and a bulk payload that begins is not
-- empty.
theorem copy_of_token? {phase next : Phase} {count : Nat} {left : UInt32}
    (h : target.token? phase bulkLeft bytes = some (.Copy count next left)) :
    0 < count ∧ next ≠ .Failed ∧ (next = .Bulk → left ≠ 0) := by
  rcases token?_belongs h with rfl | rfl | rfl
  · simp only [token?, syncToken?] at h
    repeat' split at h
    all_goals cases h
    all_goals simp [syncWord]
  · simp only [token?, packetToken?] at h
    split at h
    · cases h
    · rename_i header _
      cases header with
      | Type1 opcode register words =>
          simp only [headerToken?, type1Token?] at h
          repeat' split at h
          all_goals cases h
          all_goals simp
      | Type2 opcode words =>
          cases h
          split
          · rename_i hwords
            exact ⟨by decide, by decide, fun _ hzero => by simp [hzero] at hwords⟩
          · exact ⟨by decide, by decide, fun hbulk => by cases hbulk⟩
      | Unknown kind => cases h
  · simp only [token?, bulkToken?] at h
    split at h
    · cases h
    · cases h
      split
      · exact ⟨by decide, by decide, fun hbulk => by cases hbulk⟩
      · rename_i hone
        refine ⟨by decide, by decide, fun _ hzero => hone ?_⟩
        rw [← UInt32.sub_add_cancel bulkLeft 1, hzero]
        rfl

-- Bytes that hold no complete token leave room in a receive buffer, whatever
-- phase waits for the rest.

theorem lengthToken?_eq_none (h : target.lengthToken? bytes = none) : bytes.length < 5 := by
  match bytes, h with
  | [], _ | [_], _ | [_, _], _ | [_, _, _], _ | [_, _, _, _], _ => all_goals simp
  | _ :: _ :: _ :: _ :: _ :: _, h =>
      simp only [lengthToken?] at h
      split at h <;> cases h

theorem textToken?_eq_none (h : target.textToken? bytes = none) :
    bytes.length < Settings.streamBuffer := by
  have hbuffer : Settings.streamBuffer = 4096 := rfl
  match bytes, h with
  | [], _ | [_], _ | [_, _], _ => all_goals simp [hbuffer]
  | high :: low :: _ :: rest, h =>
      simp only [textToken?] at h
      repeat' split at h
      all_goals cases h
      simp only [List.length_cons]
      omega

theorem recordToken?_eq_none (h : target.recordToken? bytes = none) :
    bytes.length < Settings.streamBuffer := by
  have hbuffer : Settings.streamBuffer = 4096 := rfl
  match bytes, h with
  | [], _ => simp [hbuffer]
  | kind :: rest, h =>
      simp only [recordToken?] at h
      split at h
      · have hlength := lengthToken?_eq_none h
        omega
      · exact textToken?_eq_none h

theorem packetToken?_eq_none (h : target.packetToken? bulkLeft bytes = none) :
    bytes.length < Settings.streamBuffer := by
  have hbuffer : Settings.streamBuffer = 4096 := rfl
  unfold packetToken? at h
  cases hheader : PacketHeader.ofBytes? bytes with
  | none =>
      have hlength := length_of_ofBytes?_eq_none hheader
      omega
  | some header =>
      rw [hheader] at h
      cases header with
      | Type1 opcode register words =>
          simp only [headerToken?, type1Token?] at h
          repeat' split at h
          all_goals cases h
          omega
      | Type2 opcode words => cases h
      | Unknown kind => cases h

theorem length_lt_of_token?_eq_none {phase : Phase} (hphase : phase.isTerminal = false)
    (hbulk : phase = .Bulk → bulkLeft ≠ 0) (h : target.token? phase bulkLeft bytes = none) :
    bytes.length < Settings.streamBuffer := by
  have hbuffer : Settings.streamBuffer = 4096 := rfl
  cases phase with
  | Magic =>
      have hmagic : fileMagic.length = 13 := rfl
      simp only [token?, magicToken?] at h
      repeat' split at h
      all_goals cases h
      omega
  | Records => exact recordToken?_eq_none h
  | SyncWait =>
      have hsync : syncWord.length = 4 := rfl
      simp only [token?, syncToken?] at h
      repeat' split at h
      all_goals cases h
      omega
  | Packets => exact packetToken?_eq_none h
  | Bulk =>
      simp only [token?, bulkToken?, hbulk rfl, or_false] at h
      split at h
      · omega
      · cases h
  | Done => cases hphase
  | Failed => cases hphase

end Target

end BoardControl.Bitstream
