import BoardControl.Bitstream.Packet
import Mathlib

namespace BoardControl.Bitstream

-- Shifts and masks of words by their numbers. The fields of a word are cut out
-- by quotients and remainders, and they are put together by sums.

theorem toNat_and_low (word : UInt32) {mask : UInt32} (width : Nat)
    (hmask : mask.toNat = 2 ^ width - 1) : (word &&& mask).toNat = word.toNat % 2 ^ width := by
  rw [UInt32.toNat_and, hmask, Nat.and_two_pow_sub_one_eq_mod]

theorem toNat_shiftRight_by (word : UInt32) {places : UInt32} (count : Nat)
    (hplaces : places.toNat = count) (hcount : count < 32) :
    (word >>> places).toNat = word.toNat / 2 ^ count := by
  rw [UInt32.toNat_shiftRight, hplaces, Nat.mod_eq_of_lt hcount, Nat.shiftRight_eq_div_pow]

theorem toNat_shiftLeft_by (word : UInt32) {places : UInt32} (count : Nat)
    (hplaces : places.toNat = count) (hcount : count < 32)
    (hfits : word.toNat * 2 ^ count < 2 ^ 32) :
    (word <<< places).toNat = word.toNat * 2 ^ count := by
  rw [UInt32.toNat_shiftLeft, hplaces, Nat.mod_eq_of_lt hcount, Nat.shiftLeft_eq,
    Nat.mod_eq_of_lt hfits]

-- Two parts that share no bit.
theorem toNat_or_of_dvd (high low : UInt32) (place : Nat) (hhigh : 2 ^ place ∣ high.toNat)
    (hlow : low.toNat < 2 ^ place) : (high ||| low).toNat = high.toNat + low.toNat := by
  obtain ⟨part, hpart⟩ := hhigh
  rw [UInt32.toNat_or, hpart, Nat.two_pow_add_eq_or_of_lt hlow]

-- A mask of some neighbouring bits keeps them in their place.
theorem and_shiftLeft_mask (number width place : Nat) :
    number &&& (2 ^ width - 1) <<< place = number / 2 ^ place % 2 ^ width * 2 ^ place := by
  rw [← Nat.and_two_pow_sub_one_eq_mod, ← Nat.shiftLeft_eq, ← Nat.shiftRight_eq_div_pow]
  apply Nat.eq_of_testBit_eq
  intro position
  simp only [Nat.testBit_and, Nat.testBit_shiftLeft, Nat.testBit_shiftRight]
  by_cases hplace : place ≤ position
  · simp [hplace, Nat.add_sub_cancel' hplace]
  · simp [hplace]

-- A word with its bits 12 and 11 cleared, and a word with its low 29 bits cleared.

theorem toNat_without_unused (word : UInt32) :
    (word &&& 0xffffe7ff).toNat = word.toNat / 2 ^ 13 * 2 ^ 13 + word.toNat % 2 ^ 11 := by
  have hmask : (0xffffe7ff : UInt32).toNat = (2 ^ 19 - 1) <<< 13 ||| (2 ^ 11 - 1) := rfl
  have hword : word.toNat < 2 ^ 32 := word.toNat_lt_size
  have hlow : word.toNat % 2 ^ 11 < 2 ^ 13 := by omega
  rw [UInt32.toNat_and, hmask, Nat.and_or_distrib_left, and_shiftLeft_mask,
    Nat.and_two_pow_sub_one_eq_mod, Nat.mul_comm _ (2 ^ 13), ← Nat.two_pow_add_eq_or_of_lt hlow]
  omega

theorem toNat_type_only (word : UInt32) :
    (word &&& 0xe0000000).toNat = word.toNat / 2 ^ 29 * 2 ^ 29 := by
  have hmask : (0xe0000000 : UInt32).toNat = (2 ^ 3 - 1) <<< 29 := rfl
  have hword : word.toNat < 2 ^ 32 := word.toNat_lt_size
  rw [UInt32.toNat_and, hmask, and_shiftLeft_mask]
  omega

namespace Opcode

theorem bits_lt (opcode : Opcode) : opcode.bits.toNat < 4 := by
  cases opcode <;> decide

-- An opcode is read from the two lowest bits.
theorem ofBits_eq {bits : UInt32} {opcode : Opcode} (h : bits.toNat % 4 = opcode.bits.toNat) :
    ofBits bits = opcode := by
  have hlow : (bits &&& 3).toNat = opcode.bits.toNat := by
    rw [toNat_and_low _ 2 rfl]
    exact h
  rw [ofBits, hlow]
  cases opcode <;> rfl

theorem toNat_bits_ofBits (bits : UInt32) : (ofBits bits).bits.toNat = bits.toNat % 4 := by
  have hlow : (bits &&& 3).toNat = bits.toNat % 4 := toNat_and_low _ 2 rfl
  have hlt : bits.toNat % 4 < 4 := Nat.mod_lt _ (by decide)
  rw [ofBits, hlow]
  generalize bits.toNat % 4 = number at hlt
  match number, hlt with
  | 0, _ | 1, _ | 2, _ | 3, _ => all_goals rfl

end Opcode

namespace PacketHeader

-- What an encoded header is as a number.

theorem toNat_encode_type1 (opcode : Opcode) (register words : UInt16) :
    (encode (.Type1 opcode register words)).toNat =
      2 ^ 29 + opcode.bits.toNat * 2 ^ 27 + register.toNat % 2 ^ 14 * 2 ^ 13 +
        words.toNat % 2 ^ 11 := by
  have hopcode := opcode.bits_lt
  have htype : ((1 : UInt32) <<< 29).toNat = 2 ^ 29 := rfl
  have hbits : (opcode.bits <<< 27).toNat = opcode.bits.toNat * 2 ^ 27 :=
    toNat_shiftLeft_by _ 27 rfl (by decide) (by omega)
  have hregister : (register.toUInt32 &&& 0x3fff).toNat = register.toNat % 2 ^ 14 :=
    toNat_and_low _ 14 rfl
  have hplaced : ((register.toUInt32 &&& 0x3fff) <<< 13).toNat =
      (register.toUInt32 &&& 0x3fff).toNat * 2 ^ 13 :=
    toNat_shiftLeft_by _ 13 rfl (by decide) (by omega)
  have hwords : (words.toUInt32 &&& 0x7ff).toNat = words.toNat % 2 ^ 11 := toNat_and_low _ 11 rfl
  have hfirst := toNat_or_of_dvd ((1 : UInt32) <<< 29) (opcode.bits <<< 27) 29 (by omega)
    (by omega)
  have hsecond := toNat_or_of_dvd ((1 : UInt32) <<< 29 ||| opcode.bits <<< 27)
    ((register.toUInt32 &&& 0x3fff) <<< 13) 27 (by omega) (by omega)
  have hthird := toNat_or_of_dvd
    ((1 : UInt32) <<< 29 ||| opcode.bits <<< 27 ||| (register.toUInt32 &&& 0x3fff) <<< 13)
    (words.toUInt32 &&& 0x7ff) 13 (by omega) (by omega)
  rw [encode]
  omega

theorem toNat_encode_type2 (opcode : Opcode) (words : UInt32) :
    (encode (.Type2 opcode words)).toNat =
      2 * 2 ^ 29 + opcode.bits.toNat * 2 ^ 27 + words.toNat % 2 ^ 27 := by
  have hopcode := opcode.bits_lt
  have htype : ((2 : UInt32) <<< 29).toNat = 2 * 2 ^ 29 := rfl
  have hbits : (opcode.bits <<< 27).toNat = opcode.bits.toNat * 2 ^ 27 :=
    toNat_shiftLeft_by _ 27 rfl (by decide) (by omega)
  have hwords : (words &&& 0x07ffffff).toNat = words.toNat % 2 ^ 27 := toNat_and_low _ 27 rfl
  have hfirst := toNat_or_of_dvd ((2 : UInt32) <<< 29) (opcode.bits <<< 27) 29 (by omega)
    (by omega)
  have hsecond := toNat_or_of_dvd ((2 : UInt32) <<< 29 ||| opcode.bits <<< 27)
    (words &&& 0x07ffffff) 27 (by omega) (by omega)
  rw [encode]
  omega

theorem toNat_encode_unknown (kind : UInt8) :
    (encode (.Unknown kind)).toNat = kind.toNat % 2 ^ 3 * 2 ^ 29 := by
  have hkind : (kind.toUInt32 &&& 7).toNat = kind.toNat % 2 ^ 3 := toNat_and_low _ 3 rfl
  rw [encode, toNat_shiftLeft_by _ 29 rfl (by decide) (by omega), hkind]

-- The fields of a word, as they are read.

theorem decode_type1 {word : UInt32} (h : word.toNat / 2 ^ 29 = 1) :
    decode word = .Type1 (Opcode.ofBits (word >>> 27)) ((word >>> 13) &&& 0x3fff).toUInt16
      (word &&& 0x7ff).toUInt16 := by
  have htype : (word >>> 29).toNat = 1 := by rw [toNat_shiftRight_by _ 29 rfl (by decide), h]
  simp only [decode, htype]

theorem decode_type2 {word : UInt32} (h : word.toNat / 2 ^ 29 = 2) :
    decode word = .Type2 (Opcode.ofBits (word >>> 27)) (word &&& 0x07ffffff) := by
  have htype : (word >>> 29).toNat = 2 := by rw [toNat_shiftRight_by _ 29 rfl (by decide), h]
  simp only [decode, htype]

theorem decode_unknown {word : UInt32} (hone : word.toNat / 2 ^ 29 ≠ 1)
    (htwo : word.toNat / 2 ^ 29 ≠ 2) :
    decode word = .Unknown (UInt8.ofNat (word.toNat / 2 ^ 29)) := by
  have htype : (word >>> 29).toNat = word.toNat / 2 ^ 29 := toNat_shiftRight_by _ 29 rfl (by decide)
  simp only [decode, htype]

theorem toNat_register (word : UInt32) :
    ((word >>> 13) &&& 0x3fff).toUInt16.toNat = word.toNat / 2 ^ 13 % 2 ^ 14 := by
  have hshift : (word >>> 13).toNat = word.toNat / 2 ^ 13 :=
    toNat_shiftRight_by _ 13 rfl (by decide)
  have hmask : ((word >>> 13) &&& 0x3fff).toNat = (word >>> 13).toNat % 2 ^ 14 :=
    toNat_and_low _ 14 rfl
  rw [UInt32.toNat_toUInt16, hmask, hshift]
  omega

theorem toNat_count (word : UInt32) : (word &&& 0x7ff).toUInt16.toNat = word.toNat % 2 ^ 11 := by
  have hmask : (word &&& 0x7ff).toNat = word.toNat % 2 ^ 11 := toNat_and_low _ 11 rfl
  rw [UInt32.toNat_toUInt16, hmask]
  omega

theorem toNat_opcode (word : UInt32) :
    (Opcode.ofBits (word >>> 27)).bits.toNat = word.toNat / 2 ^ 27 % 4 := by
  rw [Opcode.toNat_bits_ofBits, toNat_shiftRight_by _ 27 rfl (by decide)]

theorem opcode_eq {word : UInt32} (opcode : Opcode)
    (h : word.toNat / 2 ^ 27 % 4 = opcode.bits.toNat) : Opcode.ofBits (word >>> 27) = opcode := by
  apply Opcode.ofBits_eq
  rw [toNat_shiftRight_by _ 27 rfl (by decide), h]

-- Reading back what was encoded. A field that is too wide loses its high bits and
-- touches no other field.

theorem decode_encode_type1 (opcode : Opcode) (register words : UInt16) :
    decode (encode (.Type1 opcode register words)) =
      .Type1 opcode (register % 2 ^ 14) (words % 2 ^ 11) := by
  have hnumber := toNat_encode_type1 opcode register words
  have hopcode := opcode.bits_lt
  rw [decode_type1 (by omega), opcode_eq opcode (by omega)]
  congr 1
  · rw [← UInt16.toNat_inj, toNat_register, UInt16.toNat_mod]
    change _ = register.toNat % 2 ^ 14
    omega
  · rw [← UInt16.toNat_inj, toNat_count, UInt16.toNat_mod]
    change _ = words.toNat % 2 ^ 11
    omega

theorem decode_encode_type2 (opcode : Opcode) (words : UInt32) :
    decode (encode (.Type2 opcode words)) = .Type2 opcode (words % 2 ^ 27) := by
  have hnumber := toNat_encode_type2 opcode words
  have hopcode := opcode.bits_lt
  have hwords : (encode (.Type2 opcode words) &&& 0x07ffffff).toNat =
      (encode (.Type2 opcode words)).toNat % 2 ^ 27 := toNat_and_low _ 27 rfl
  rw [decode_type2 (by omega), opcode_eq opcode (by omega)]
  congr 1
  rw [← UInt32.toNat_inj, hwords, UInt32.toNat_mod]
  change _ = words.toNat % 2 ^ 27
  omega

-- Encoding what was read gives the word back, but for the bits that no field has.
theorem encode_decode (word : UInt32) :
    encode (decode word) =
      if word >>> 29 = 1 then word &&& 0xffffe7ff
      else if word >>> 29 = 2 then word
      else word &&& 0xe0000000 := by
  have htype : (word >>> 29).toNat = word.toNat / 2 ^ 29 := toNat_shiftRight_by _ 29 rfl (by decide)
  have hword : word.toNat < 2 ^ 32 := word.toNat_lt_size
  have hopcode := toNat_opcode word
  have hone : word >>> 29 = 1 ↔ word.toNat / 2 ^ 29 = 1 := by rw [← UInt32.toNat_inj, htype]; rfl
  have htwo : word >>> 29 = 2 ↔ word.toNat / 2 ^ 29 = 2 := by rw [← UInt32.toNat_inj, htype]; rfl
  simp only [hone, htwo]
  rw [← UInt32.toNat_inj]
  split
  · rename_i hkind
    rw [decode_type1 hkind, toNat_encode_type1, toNat_without_unused, hopcode, toNat_register,
      toNat_count]
    omega
  · rename_i hother
    split
    · rename_i hkind
      have hwords : (word &&& 0x07ffffff).toNat = word.toNat % 2 ^ 27 := toNat_and_low _ 27 rfl
      rw [decode_type2 hkind, toNat_encode_type2, hopcode, hwords]
      omega
    · rename_i hneither
      rw [decode_unknown hother hneither, toNat_encode_unknown, toNat_type_only,
        UInt8.toNat_ofNat']
      omega

theorem decode_encode_decode (word : UInt32) : decode (encode (decode word)) = decode word := by
  by_cases hone : word.toNat / 2 ^ 29 = 1
  · rw [decode_type1 hone, decode_encode_type1]
    congr 1
    · rw [← UInt16.toNat_inj, UInt16.toNat_mod, toNat_register]
      exact Nat.mod_mod _ _
    · rw [← UInt16.toNat_inj, UInt16.toNat_mod, toNat_count]
      exact Nat.mod_mod _ _
  · by_cases htwo : word.toNat / 2 ^ 29 = 2
    · rw [decode_type2 htwo, decode_encode_type2]
      congr 1
      rw [← UInt32.toNat_inj, UInt32.toNat_mod, toNat_and_low _ 27 rfl]
      exact Nat.mod_mod _ _
    · have hnumber := toNat_encode_unknown (UInt8.ofNat (word.toNat / 2 ^ 29))
      have hword : word.toNat < 2 ^ 32 := word.toNat_lt_size
      rw [UInt8.toNat_ofNat'] at hnumber
      rw [decode_unknown hone htwo]
      generalize encode (.Unknown (UInt8.ofNat (word.toNat / 2 ^ 29))) = encoded at hnumber
      have hkind : encoded.toNat / 2 ^ 29 = word.toNat / 2 ^ 29 := by omega
      rw [decode_unknown (by omega) (by omega), hkind]

end PacketHeader

-- The bytes of a word, the highest one first.
def wordBytes (word : UInt32) : List UInt8 :=
  [(word >>> 24).toUInt8, (word >>> 16).toUInt8, (word >>> 8).toUInt8, word.toUInt8]

theorem toNat_byte_shiftLeft (byte : UInt8) {places : UInt32} (count : Nat)
    (hplaces : places.toNat = count) (hcount : count ≤ 24) :
    (byte.toUInt32 <<< places).toNat = byte.toNat * 2 ^ count := by
  have hfits : byte.toNat * 2 ^ count < 2 ^ 32 := by
    calc byte.toNat * 2 ^ count < 2 ^ 8 * 2 ^ count :=
          Nat.mul_lt_mul_of_pos_right byte.toNat_lt_size (Nat.two_pow_pos count)
      _ ≤ 2 ^ 8 * 2 ^ 24 := Nat.mul_le_mul_left _ (Nat.pow_le_pow_right (by decide) hcount)
      _ = 2 ^ 32 := rfl
  rw [← UInt8.toNat_toUInt32] at hfits ⊢
  exact toNat_shiftLeft_by _ count hplaces (by omega) hfits

theorem toNat_beWord (a b c d : UInt8) :
    (beWord a b c d).toNat =
      a.toNat * 2 ^ 24 + b.toNat * 2 ^ 16 + c.toNat * 2 ^ 8 + d.toNat := by
  have ha : (a.toUInt32 <<< 24).toNat = a.toNat * 2 ^ 24 :=
    toNat_byte_shiftLeft a 24 rfl (by decide)
  have hb : (b.toUInt32 <<< 16).toNat = b.toNat * 2 ^ 16 :=
    toNat_byte_shiftLeft b 16 rfl (by decide)
  have hc : (c.toUInt32 <<< 8).toNat = c.toNat * 2 ^ 8 :=
    toNat_byte_shiftLeft c 8 rfl (by decide)
  have hd := d.toNat_toUInt32
  have hlowb : b.toNat < 2 ^ 8 := b.toNat_lt_size
  have hlowc : c.toNat < 2 ^ 8 := c.toNat_lt_size
  have hlowd : d.toNat < 2 ^ 8 := d.toNat_lt_size
  have hfirst := toNat_or_of_dvd (a.toUInt32 <<< 24) (b.toUInt32 <<< 16) 24 (by omega) (by omega)
  have hsecond := toNat_or_of_dvd (a.toUInt32 <<< 24 ||| b.toUInt32 <<< 16) (c.toUInt32 <<< 8) 16
    (by omega) (by omega)
  have hthird := toNat_or_of_dvd (a.toUInt32 <<< 24 ||| b.toUInt32 <<< 16 ||| c.toUInt32 <<< 8)
    d.toUInt32 8 (by omega) (by omega)
  rw [beWord]
  omega

theorem beWord_wordBytes (word : UInt32) :
    beWord (word >>> 24).toUInt8 (word >>> 16).toUInt8 (word >>> 8).toUInt8 word.toUInt8 =
      word := by
  have hword : word.toNat < 2 ^ 32 := word.toNat_lt_size
  have ha : (word >>> 24).toNat = word.toNat / 2 ^ 24 := toNat_shiftRight_by _ 24 rfl (by decide)
  have hb : (word >>> 16).toNat = word.toNat / 2 ^ 16 := toNat_shiftRight_by _ 16 rfl (by decide)
  have hc : (word >>> 8).toNat = word.toNat / 2 ^ 8 := toNat_shiftRight_by _ 8 rfl (by decide)
  rw [← UInt32.toNat_inj, toNat_beWord]
  simp only [UInt32.toNat_toUInt8, ha, hb, hc]
  omega

theorem frontWord?_of_short {bytes : List UInt8} (h : bytes.length < 4) :
    frontWord? bytes = none := by
  match bytes, h with
  | [], _ | [_], _ | [_, _], _ | [_, _, _], _ => all_goals rfl

-- The words of a byte string are found at their places, and a rest that is no
-- word is not found.
theorem wordAt?_flatMap (words : List UInt32) {trailing : List UInt8}
    (htrailing : trailing.length < 4) (index : Nat) :
    wordAt? (words.flatMap wordBytes ++ trailing) index = words[index]? := by
  induction words generalizing index with
  | nil =>
      rw [wordAt?, List.flatMap_nil, List.nil_append, List.getElem?_nil]
      exact frontWord?_of_short (by rw [List.length_drop]; omega)
  | cons word rest ih =>
      cases index with
      | zero => exact congrArg some (beWord_wordBytes word)
      | succ index =>
          rw [List.getElem?_cons_succ, ← ih index]
          rfl

-- The positions of a word fit 64 bits unless the word is one of the last two.
theorem readWord_eq_ok (bytes : List UInt8) {index : UInt64} (h : index.toNat + 1 < 2 ^ 62) :
    readWord bytes index = .ok (wordAt? bytes index.toNat) := by
  have hfour : (4 : UInt64).toNat = 4 := rfl
  have hsize : UInt64.size = 2 ^ 64 := rfl
  have hmul : Word.mulLong index 4 = .ok (index * 4) := by
    rw [Word.mulLong, hfour, if_pos (by omega)]
  have hstart : (index * 4).toNat = index.toNat * 4 := by
    rw [UInt64.toNat_mul, hfour, Nat.mod_eq_of_lt (by omega)]
  have hadd : Word.addLong (index * 4) 4 = .ok (index * 4 + 4) := by
    rw [Word.addLong, hstart, hfour, if_pos (by omega)]
  simp only [readWord, hmul, hadd, bind, Except.bind, pure, Except.pure]

-- The format of headers and words is exact on all words and on all fields, also
-- on those that are not canonical.
theorem headers_and_words_round_trip :
    (∀ word, PacketHeader.decode (PacketHeader.encode (PacketHeader.decode word)) =
        PacketHeader.decode word ∧
      PacketHeader.encode (PacketHeader.decode word) =
        if word >>> 29 = 1 then word &&& 0xffffe7ff
        else if word >>> 29 = 2 then word
        else word &&& 0xe0000000) ∧
    (∀ opcode register words, PacketHeader.decode (PacketHeader.encode
      (.Type1 opcode register words)) = .Type1 opcode (register % 2 ^ 14) (words % 2 ^ 11)) ∧
    (∀ opcode words, PacketHeader.decode (PacketHeader.encode (.Type2 opcode words)) =
      .Type2 opcode (words % 2 ^ 27)) ∧
    ∀ (words : List UInt32) (trailing : List UInt8), trailing.length < 4 →
      ∀ index : UInt64, index.toNat + 1 < 2 ^ 62 →
        readWord (words.flatMap wordBytes ++ trailing) index = .ok words[index.toNat]? := by
  refine ⟨fun word => ⟨PacketHeader.decode_encode_decode word, PacketHeader.encode_decode word⟩,
    PacketHeader.decode_encode_type1, PacketHeader.decode_encode_type2, ?_⟩
  intro words trailing htrailing index hindex
  rw [readWord_eq_ok _ hindex, wordAt?_flatMap words htrailing]

-- Two words and three bytes: the last word is found, and nothing behind it.
theorem headers_and_words_round_trip_ragged :
    let bytes := [0xaa995566, 0x30008001].flatMap wordBytes ++ [0x20, 0x00, 0x00]
    [(0x20 : UInt8), 0x00, 0x00].length < 4 ∧ (1 : UInt64).toNat + 1 < 2 ^ 62 ∧
      (0x2000000000000000 : UInt64).toNat + 1 < 2 ^ 62 ∧ readWord bytes 1 = .ok (some 0x30008001) ∧
      readWord bytes 2 = .ok none ∧ readWord bytes 0x2000000000000000 = .ok none := by
  obtain ⟨_, _, _, hwords⟩ := headers_and_words_round_trip
  have hread := hwords [0xaa995566, 0x30008001] [0x20, 0x00, 0x00] (by decide)
  have hfar := hread 0x2000000000000000 (by decide)
  rw [List.getElem?_eq_none (by decide)] at hfar
  exact ⟨by decide, by decide, by decide, hread 1 (by decide), hread 2 (by decide), hfar⟩

end BoardControl.Bitstream
