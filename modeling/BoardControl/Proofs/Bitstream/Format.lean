import BoardControl.Proofs.Bitstream.Token

namespace BoardControl.Bitstream

-- The largest text of a header record that fits the receive buffer beside the
-- kind and the length.
def maxRecordText : Nat := 4093

-- A header record in front of the bitstream: a kind, a length of two bytes and
-- as many bytes of text.
structure HeaderRecord where
  kind : UInt8
  high : UInt8
  low : UInt8
  payload : List UInt8
  kind_ne : kind ≠ bitstreamRecord
  length_eq : payload.length = 256 * high.toNat + low.toNat
  length_le : payload.length ≤ maxRecordText

def HeaderRecord.bytes (entry : HeaderRecord) : List UInt8 :=
  entry.kind :: entry.high :: entry.low :: entry.payload

-- The record that names the device names the right one.
def HeaderRecord.Suits (entry : HeaderRecord) (device : String) : Prop :=
  entry.kind = deviceRecord → recordText entry.payload = device

-- How long a packet is by its header. One of type 1 has to fit the write buffer
-- beside a page.
def PacketHeader.Spans (page : Nat) : PacketHeader → Nat → Prop
  | .Type1 _ _ words, length =>
      length = 4 * (words.toNat + 1) ∧ length ≤ Settings.streamBuffer - page
  | .Type2 _ words, length => length = 4 * (words.toNat + 1)
  | .Unknown _, _ => False

-- A header word with all its payload words.
structure Packet (page : Nat) where
  header : PacketHeader
  bytes : List UInt8
  header_eq : PacketHeader.ofBytes? bytes = some header
  spans : header.Spans page bytes.length

def Packet.EndsStream {page : Nat} (packet : Packet page) : Prop :=
  packet.header.EndsStream (packet.bytes.drop 4)

-- A packet of type 2 is never the last one.

def Packet.ofType2 (page : Nat) {opcode : Opcode} {words : UInt32} {bytes : List UInt8}
    (hheader : PacketHeader.ofBytes? bytes = some (.Type2 opcode words))
    (hlength : bytes.length = 4 * (words.toNat + 1)) : Packet page :=
  { header := .Type2 opcode words, bytes, header_eq := hheader, spans := hlength }

theorem Packet.ofType2_goes_on {page : Nat} {opcode : Opcode} {words : UInt32}
    {bytes : List UInt8} (hheader : PacketHeader.ofBytes? bytes = some (.Type2 opcode words))
    (hlength : bytes.length = 4 * (words.toNat + 1)) :
    ¬ (Packet.ofType2 page hheader hlength).EndsStream := by
  intro hstops
  obtain ⟨hends, _⟩ := hstops
  cases hends

-- The magic and the records that were read before the bitstream.
structure Heading (target : Target) where
  records : List HeaderRecord
  suits : ∀ entry ∈ records, entry.Suits target.device

def Heading.bytes {target : Target} (heading : Heading target) : List UInt8 :=
  fileMagic ++ heading.records.flatMap HeaderRecord.bytes

-- The heading with the record that announces the bitstream and its length.
structure Announcement (target : Target) where
  heading : Heading target
  a : UInt8
  b : UInt8
  c : UInt8
  d : UInt8
  length_le : beWord a b c d ≤ target.partition.size

def Announcement.bytes {target : Target} (announcement : Announcement target) : List UInt8 :=
  announcement.heading.bytes ++
    [bitstreamRecord, announcement.a, announcement.b, announcement.c, announcement.d]

-- The sync word starts at none of the first positions of some bytes.
def NoSyncBefore (count : Nat) (bytes : List UInt8) : Prop :=
  ∀ position < count, ¬ syncWord <+: bytes.drop position

-- The body up to a packet: what comes before the first sync word, the sync word,
-- and packets that go on.
structure Front (target : Target) where
  preamble : List UInt8
  packets : List (Packet target.page)
  first_sync : NoSyncBefore preamble.length (preamble ++ syncWord)
  goes_on : ∀ packet ∈ packets, ¬ packet.EndsStream

def Front.bytes {target : Target} (front : Front target) : List UInt8 :=
  front.preamble ++ syncWord ++ front.packets.flatMap Packet.bytes

-- A bitstream file. Its last packet is the first one that ends the stream.
structure File (target : Target) where
  announcement : Announcement target
  front : Front target
  last : Packet target.page
  last_ends : last.EndsStream

def File.body {target : Target} (file : File target) : List UInt8 :=
  file.front.bytes ++ file.last.bytes

def File.bytes {target : Target} (file : File target) : List UInt8 :=
  file.announcement.bytes ++ file.body

theorem not_prefix_sync_iff (bytes : List UInt8) :
    ¬ syncWord <+: bytes ↔ bytes.take syncWord.length ≠ syncWord := by
  rw [List.prefix_iff_eq_take, ne_comm]

-- The first four bytes are enough to read a header.
theorem ofBytes?_take {bytes : List UInt8} {count : Nat} (hcount : 4 ≤ count) :
    PacketHeader.ofBytes? (bytes.take count) = PacketHeader.ofBytes? bytes := by
  obtain ⟨rest, rfl⟩ := Nat.exists_eq_add_of_le hcount
  match bytes with
  | [] | [_] | [_, _] | [_, _, _] =>
      all_goals
        rw [List.take_of_length_le (by simp only [List.length_cons, List.length_nil]; omega)]
  | _ :: _ :: _ :: _ :: _ => simp [PacketHeader.ofBytes?, frontWord?, Nat.add_comm 4 rest]

end BoardControl.Bitstream
