import BoardControl.Hex

namespace BoardControl.Bitstream

-- Why an update is abandoned.
inductive UpdateError where
  | BadMagic
  | WrongDevice
  | ImageTooLarge
  | EraseFailed (addr : UInt32)
  | BlankCheckFailed (addr : UInt32) (value : UInt8)
  | WriteFailed (addr : UInt32) (length : UInt32)
  | ReadbackMismatch (addr : UInt32) (expected actual : UInt8)
  | ReadbackBlockTooLarge
  | InvalidPacketType (kind : UInt8)
  | PacketTooLarge
  | WriteOutOfBounds (addr : UInt32)
  | RxOverflow
deriving DecidableEq, Repr

namespace UpdateError

def message : UpdateError → String
  | .BadMagic => "bad bitstream magic"
  | .WrongDevice => "bitstream is for the wrong device"
  | .ImageTooLarge => "bitstream does not fit in the image partition"
  | .EraseFailed addr => s!"erase failed at {Hex.prefixed addr.toNat}"
  | .BlankCheckFailed addr value =>
      s!"blank check failed at {Hex.prefixed addr.toNat} (read {Hex.prefixed value.toNat})"
  | .WriteFailed addr length => s!"write of {length} bytes failed at {Hex.prefixed addr.toNat}"
  | .ReadbackMismatch addr expected actual =>
      s!"readback mismatch at {Hex.prefixed addr.toNat} " ++
        s!"(wrote {Hex.prefixed expected.toNat}, read {Hex.prefixed actual.toNat})"
  | .ReadbackBlockTooLarge => "flash write block size is unsupported"
  | .InvalidPacketType kind => s!"invalid packet type {kind}"
  | .PacketTooLarge => "packet too large"
  | .WriteOutOfBounds addr => s!"write out of bounds at {Hex.prefixed addr.toNat}"
  | .RxOverflow => "receive buffer overflow"

end UpdateError

end BoardControl.Bitstream
