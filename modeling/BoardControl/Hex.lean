namespace BoardControl.Hex

-- Lower-case hexadecimal. `prefixed` shows a number after `0x` with no
-- leading zeros, so zero is `0x0`. `bytes` shows each byte with two digits.

def digit (value : Nat) : Char :=
  if value < 10 then Char.ofNat (48 + value) else Char.ofNat (87 + value)

def digits (value : Nat) : List Char :=
  if _h : value < 16 then [digit value]
  else digits (value / 16) ++ [digit (value % 16)]
termination_by value
decreasing_by omega

def prefixed (value : Nat) : String := "0x" ++ String.ofList (digits value)

def byteDigits (byte : UInt8) : List Char :=
  [digit (byte.toNat / 16), digit (byte.toNat % 16)]

def bytes (data : List UInt8) : String := String.ofList (data.flatMap byteDigits)

-- The value of one digit; upper case is read as well.
def digitValue? (c : Char) : Option Nat :=
  if '0' ≤ c ∧ c ≤ '9' then some (c.toNat - 48)
  else if 'a' ≤ c ∧ c ≤ 'f' then some (c.toNat - 87)
  else if 'A' ≤ c ∧ c ≤ 'F' then some (c.toNat - 55)
  else none

-- The bytes written by pairs of digits. An odd digit or another character
-- makes the text unreadable.
def bytesOfChars? : List Char → Option (List UInt8)
  | [] => some []
  | [_] => none
  | high :: low :: rest => do
      let high ← digitValue? high
      let low ← digitValue? low
      let rest ← bytesOfChars? rest
      pure (UInt8.ofNat (16 * high + low) :: rest)

def bytes? (text : String) : Option (List UInt8) := bytesOfChars? text.toList

end BoardControl.Hex
