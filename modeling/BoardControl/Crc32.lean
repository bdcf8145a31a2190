namespace BoardControl.Crc32

-- The 32-bit checksum with the reflected polynomial 0xedb88320, all ones at the
-- start and inverted at the end.

def shiftBit (register : UInt32) : UInt32 :=
  if register &&& 1 = 0 then register >>> 1 else (register >>> 1) ^^^ 0xedb88320

def shiftByte (register : UInt32) (byte : UInt8) : UInt32 :=
  Nat.repeat shiftBit 8 (register ^^^ byte.toUInt32)

def start : UInt32 := 0xffffffff

def finish (register : UInt32) : UInt32 := register ^^^ 0xffffffff

def ofBytes (bytes : List UInt8) : UInt32 := finish (bytes.foldl shiftByte start)

end BoardControl.Crc32
