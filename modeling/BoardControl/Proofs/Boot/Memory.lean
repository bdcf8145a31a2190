import BoardControl.Proofs.Boot.Store
import Mathlib.Data.List.TakeWhile

namespace BoardControl.Boot

-- A version that was read holds no zero byte, so it comes back from the store whole.
theorem untilNul_of_versionOf? {image : List UInt8} {version : String}
    (h : versionOf? image = some version) :
    Text.untilNul (Text.toUtf8 version) = Text.toUtf8 version := by
  simp only [versionOf?] at h
  split at h
  · rw [Text.toUtf8_of_ofUtf8? h]
    exact List.takeWhile_idem
  · cases h

-- An image with nothing in it but its version.
def plainImage (version : List UInt8) : List UInt8 :=
  List.replicate Settings.versionOffset 0 ++ version ++ [0]

theorem versionKey_ne_checksumKey : Settings.versionKey ≠ Settings.checksumKey := by decide

-- The two values on record that the boot flow reads.
structure Memory where
  version : Option (List UInt8)
  checksum : Option (List UInt8)
deriving DecidableEq, Repr

namespace Memory

-- Whether an image has another version than the one on record.
def isNew (memory : Memory) (image : List UInt8) : Bool :=
  match versionOf? image, memory.version with
  | none, _ => false
  | some _, none => true
  | some version, some stored => Text.untilNul stored != Text.toUtf8 version

-- The checksum that an image has to have, or nothing if it is taken as new.
def expects (memory : Memory) (image : List UInt8) : Option UInt32 :=
  if memory.isNew image then none else memory.checksum.bind leWord?

-- What is on record once an image was taken as new, by which of its two values
-- could be stored. An image without a version leaves the one on record.
def remember (memory : Memory) (image : List UInt8) (checksum : UInt32)
    (versionKept checksumKept : Bool) : Memory :=
  { version :=
      if versionKept then ((versionOf? image).map Text.toUtf8).or memory.version
      else memory.version
    checksum := if checksumKept then some (leBytes checksum) else memory.checksum }

section

variable (memory : Memory) (image : List UInt8) (checksum : UInt32)
  (versionKept checksumKept : Bool)

variable {memory image} in
theorem version_of_isNew (h : memory.isNew image = true) :
    ∃ version, versionOf? image = some version := by
  cases hversion : versionOf? image with
  | none => simp [isNew, hversion] at h
  | some version => exact ⟨version, rfl⟩

variable {memory image} in
-- Of an image that is not new nothing is expected only if no checksum is on record.
theorem expects_eq_none_iff : memory.expects image = none ↔
    memory.isNew image = true ∨ memory.checksum.bind leWord? = none := by
  rw [expects]
  cases memory.isNew image <;> simp

-- An image is new again only if its version could not be stored.
theorem isNew_remember : (memory.remember image checksum versionKept checksumKept).isNew image =
    (!versionKept && memory.isNew image) := by
  cases versionKept with
  | false => rfl
  | true =>
      cases hversion : versionOf? image with
      | none => simp [isNew, hversion]
      | some version => simp [isNew, remember, hversion, untilNul_of_versionOf? hversion]

-- A checksum that was stored is read back.
theorem expects_remember : (memory.remember image checksum versionKept checksumKept).expects image =
    if !versionKept && memory.isNew image then none
    else if checksumKept then some checksum else memory.checksum.bind leWord? := by
  rw [expects, isNew_remember]
  cases checksumKept with
  | false => rfl
  | true => simp [remember, leWord?_leBytes]

variable {memory image checksum versionKept checksumKept} in
-- Another checksum is expected of an image that was taken as new only if the
-- version alone could be stored.
theorem expects_remember_other_iff {other : UInt32} (hexpects : memory.expects image = none)
    (hother : other ≠ checksum) :
    (memory.remember image checksum versionKept checksumKept).expects image = some other ↔
      memory.isNew image = true ∧ versionKept = true ∧ checksumKept = false ∧
        memory.checksum.bind leWord? = some other := by
  rw [expects_remember]
  cases hnew : memory.isNew image with
  | false =>
      have hnothing : memory.checksum.bind leWord? = none := by
        simpa [hnew] using expects_eq_none_iff.mp hexpects
      cases checksumKept <;> simp [hnothing, hother.symm]
  | true => cases versionKept <;> cases checksumKept <;> simp [hother.symm]

end

end Memory

def memoryOf {σ : Type} [ValueStore σ] (board : σ) : Memory :=
  { version := ValueStore.find? Settings.versionKey board
    checksum := ValueStore.find? Settings.checksumKey board }

section

variable {σ : Type} [Logger σ] [ValueStore σ] {image : List UInt8}

theorem remember_of_versionless (checksum : UInt32) (board : σ)
    (hversion : versionOf? image = none) : remember image checksum board =
      storeOrLog "CRC" Settings.checksumKey (leBytes checksum) board := by
  simp only [remember, hversion]

theorem remember_of_version {version : String} (checksum : UInt32) (board : σ)
    (hversion : versionOf? image = some version) : remember image checksum board =
      storeOrLog "CRC" Settings.checksumKey (leBytes checksum)
        (storeOrLog "version" Settings.versionKey (Text.toUtf8 version) board).2 := by
  simp only [remember, hversion]
  rfl

variable [TickCounter σ]

theorem Quiet.memoryOf_eq [StillStore σ] {board after : σ} (h : Quiet board after) :
    memoryOf after = memoryOf board := by
  simp only [memoryOf, h.find?_eq]

variable [FaithfulStore σ]

theorem memoryOf_storeOrLog_version (what : String) (value : List UInt8) (board : σ) :
    memoryOf (storeOrLog what Settings.versionKey value board).2 =
      { memoryOf board with
        version := if isKept Settings.versionKey value board then some value
          else (memoryOf board).version } := by
  simp [memoryOf, find?_storeOrLog, versionKey_ne_checksumKey.symm]

theorem memoryOf_storeOrLog_checksum (what : String) (value : List UInt8) (board : σ) :
    memoryOf (storeOrLog what Settings.checksumKey value board).2 =
      { memoryOf board with
        checksum := if isKept Settings.checksumKey value board then some value
          else (memoryOf board).checksum } := by
  simp [memoryOf, find?_storeOrLog, versionKey_ne_checksumKey]

end

end BoardControl.Boot
