import BoardControl.Word

namespace BoardControl.Bitstream

-- After the sync word a bitstream is a series of big-endian header words, each
-- followed by the payload words that it announces.
--
--   type 1:  3 bits 001, 2 bits opcode, 14 bits register, 2 bits unused, 11 bits word count
--   type 2:  3 bits 010, 2 bits opcode, 27 bits word count

def syncWord : List UInt8 := [0xaa, 0x99, 0x55, 0x66]

def fileMagic : List UInt8 :=
  [0x00, 0x09, 0x0f, 0xf0, 0x0f, 0xf0, 0x0f, 0xf0, 0x0f, 0xf0, 0x00, 0x00, 0x01]

-- The kind of the header record in front of the raw bitstream, the letter e.
def bitstreamRecord : UInt8 := 0x65

def commandRegister : UInt16 := 0x04

def desyncCommand : UInt32 := 0x0d

inductive Opcode where
  | Nop
  | Read
  | Write
  | Reserved
deriving DecidableEq, Repr

namespace Opcode

def ofBits (bits : UInt32) : Opcode :=
  match (bits &&& 3).toNat with
  | 0 => .Nop
  | 1 => .Read
  | 2 => .Write
  | _ => .Reserved

def bits : Opcode → UInt32
  | .Nop => 0
  | .Read => 1
  | .Write => 2
  | .Reserved => 3

def name : Opcode → String
  | .Nop => "nop"
  | .Read => "read"
  | .Write => "write"
  | .Reserved => "reserved"

theorem ofBits_bits (opcode : Opcode) : ofBits opcode.bits = opcode := by
  cases opcode <;> rfl

end Opcode

inductive PacketHeader where
  | Type1 (opcode : Opcode) (register : UInt16) (words : UInt16)
  | Type2 (opcode : Opcode) (words : UInt32)
  | Unknown (kind : UInt8)
deriving DecidableEq, Repr

namespace PacketHeader

def decode (word : UInt32) : PacketHeader :=
  let opcode := Opcode.ofBits (word >>> 27)
  match (word >>> 29).toNat with
  | 1 => .Type1 opcode ((word >>> 13) &&& 0x3fff).toUInt16 (word &&& 0x7ff).toUInt16
  | 2 => .Type2 opcode (word &&& 0x07ffffff)
  | other => .Unknown (UInt8.ofNat other)

-- Fields that are too wide are cut to their bits.
def encode : PacketHeader → UInt32
  | .Type1 opcode register words =>
      ((1 : UInt32) <<< 29) ||| (opcode.bits <<< 27) ||| ((register.toUInt32 &&& 0x3fff) <<< 13) |||
        (words.toUInt32 &&& 0x7ff)
  | .Type2 opcode words => ((2 : UInt32) <<< 29) ||| (opcode.bits <<< 27) ||| (words &&& 0x07ffffff)
  | .Unknown kind => (kind.toUInt32 &&& 7) <<< 29

end PacketHeader

def beWord (a b c d : UInt8) : UInt32 :=
  (a.toUInt32 <<< 24) ||| (b.toUInt32 <<< 16) ||| (c.toUInt32 <<< 8) ||| d.toUInt32

-- The big-endian word at the front, if there are four bytes.
def frontWord? : List UInt8 → Option UInt32
  | a :: b :: c :: d :: _ => some (beWord a b c d)
  | _ => none

def wordAt? (bytes : List UInt8) (index : Nat) : Option UInt32 :=
  frontWord? (bytes.drop (4 * index))

-- The word at a 64-bit index. The byte positions of its first byte and of the
-- byte after it must fit 64 bits.
def readWord (bytes : List UInt8) (index : UInt64) : Except Fault (Option UInt32) := do
  let start ← Word.mulLong index 4
  let _ ← Word.addLong start 4
  pure (wordAt? bytes index.toNat)

def PacketHeader.ofBytes? (bytes : List UInt8) : Option PacketHeader :=
  (frontWord? bytes).map PacketHeader.decode

end BoardControl.Bitstream
