import BoardControl.Settings
import BoardControl.Text

namespace BoardControl.Boot

-- A board that takes checksums. The boot flow only compares them.
class Checksum (σ : Type) where
  ofImage : List UInt8 → UInt32

-- The version text inside an application image: what stands before the first
-- zero byte of the version field. There is none if the field has no zero byte
-- or the text is not UTF-8.
def versionOf? (image : List UInt8) : Option String :=
  let field := (image.drop Settings.versionOffset).take Settings.versionLength
  if 0 ∈ field then Text.ofUtf8? (Text.untilNul field) else none

-- An erased partition, or one too short to hold a vector table.
def isBlank (image : List UInt8) : Bool :=
  image.length < 4 || image.take 4 == [0xff, 0xff, 0xff, 0xff]

def leBytes (word : UInt32) : List UInt8 :=
  [word.toUInt8, (word >>> 8).toUInt8, (word >>> 16).toUInt8, (word >>> 24).toUInt8]

-- The little-endian word that exactly four bytes hold.
def leWord? : List UInt8 → Option UInt32
  | [a, b, c, d] =>
      some (a.toUInt32 ||| (b.toUInt32 <<< 8) ||| (c.toUInt32 <<< 16) ||| (d.toUInt32 <<< 24))
  | _ => none

-- Each byte of the word comes back at its place.
theorem leWord?_leBytes (word : UInt32) : leWord? (leBytes word) = some word := by
  have h8 : (8 : UInt32).toBitVec % 32 = 8#32 := by decide
  have h16 : (16 : UInt32).toBitVec % 32 = 16#32 := by decide
  have h24 : (24 : UInt32).toBitVec % 32 = 24#32 := by decide
  simp only [leBytes, leWord?, Option.some.injEq]
  apply UInt32.eq_of_toBitVec_eq
  apply BitVec.eq_of_getLsbD_eq
  intro place hplace
  simp only [UInt32.toBitVec_or, UInt32.toBitVec_shiftLeft, UInt32.toBitVec_shiftRight,
    UInt8.toBitVec_toUInt32, UInt32.toBitVec_toUInt8, h8, h16, h24, BitVec.shiftLeft_eq',
    BitVec.ushiftRight_eq', BitVec.getLsbD_or, BitVec.getLsbD_shiftLeft, BitVec.getLsbD_setWidth,
    BitVec.getLsbD_ushiftRight]
  grind

-- Four bytes are those of the word that they hold.
theorem leWord?_eq_some_iff {bytes : List UInt8} {word : UInt32} :
    leWord? bytes = some word ↔ bytes = leBytes word := by
  constructor
  · intro h
    have h8 : (8 : UInt32).toBitVec % 32 = 8#32 := by decide
    have h16 : (16 : UInt32).toBitVec % 32 = 16#32 := by decide
    have h24 : (24 : UInt32).toBitVec % 32 = 24#32 := by decide
    simp only [leWord?] at h
    split at h
    · rw [← Option.some.inj h]
      simp only [leBytes, List.cons.injEq, and_true]
      refine ⟨?_, ?_, ?_, ?_⟩ <;>
      · apply UInt8.eq_of_toBitVec_eq
        apply BitVec.eq_of_getLsbD_eq
        intro place hplace
        simp only [UInt32.toBitVec_or, UInt32.toBitVec_shiftLeft, UInt32.toBitVec_shiftRight,
          UInt8.toBitVec_toUInt32, UInt32.toBitVec_toUInt8, h8, h16, h24, BitVec.shiftLeft_eq',
          BitVec.ushiftRight_eq', BitVec.getLsbD_or, BitVec.getLsbD_shiftLeft,
          BitVec.getLsbD_setWidth, BitVec.getLsbD_ushiftRight]
        grind
    · cases h
  · intro h
    rw [h, leWord?_leBytes]

theorem leWord?_eq_none_iff {bytes : List UInt8} : leWord? bytes = none ↔ bytes.length ≠ 4 := by
  constructor
  · intro h hlength
    match bytes, hlength with
    | [_, _, _, _], _ => cases h
  · intro hlength
    cases h : leWord? bytes with
    | none => rfl
    | some word =>
        rw [leWord?_eq_some_iff.mp h] at hlength
        exact absurd rfl hlength

end BoardControl.Boot
