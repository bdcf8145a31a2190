import BoardControl.Proofs.Boot.Validation

namespace BoardControl.Boot

open Bench (Board)

section

-- What is handed to the store when an image is taken as new.
def tries (image : List UInt8) (checksum : UInt32) (versionKept checksumKept : Bool) :
    List Attempt :=
  ((versionOf? image).toList.map fun version =>
      ⟨Settings.versionKey, Text.toUtf8 version, versionKept⟩) ++
    [⟨Settings.checksumKey, leBytes checksum, checksumKept⟩]

variable {image : List UInt8} {checksum : UInt32} {versionKept checksumKept kept : Bool}

theorem mem_tries_version_iff {version : String} (hversion : versionOf? image = some version) :
    ⟨Settings.versionKey, Text.toUtf8 version, kept⟩ ∈
      tries image checksum versionKept checksumKept ↔ versionKept = kept := by
  simpa [tries, hversion, versionKey_ne_checksumKey] using eq_comm

theorem mem_tries_checksum_iff :
    ⟨Settings.checksumKey, leBytes checksum, kept⟩ ∈
      tries image checksum versionKept checksumKept ↔ checksumKept = kept := by
  simpa [tries, versionKey_ne_checksumKey] using eq_comm

variable {σ : Type} [ValueStore σ] [Checksum σ]

-- Only half of what there is to remember of an image could be stored, its version
-- but not its checksum, and the checksum of another image stays on record.
structure Torn (image : List UInt8) (attempts : List Attempt) (board : σ) : Prop where
  version : ∃ version, versionOf? image = some version ∧
    ⟨Settings.versionKey, Text.toUtf8 version, true⟩ ∈ attempts
  checksum : ⟨Settings.checksumKey, leBytes (Checksum.ofImage σ image), false⟩ ∈ attempts
  other : ∃ other, (ValueStore.find? Settings.checksumKey board).bind leWord? = some other ∧
    other ≠ Checksum.ofImage σ image

theorem torn_tries_iff {board : σ} (hexpects : (memoryOf board).expects image = none) :
    Torn image (tries image (Checksum.ofImage σ image) versionKept checksumKept) board ↔
      ∃ other, other ≠ Checksum.ofImage σ image ∧
        ((memoryOf board).remember image (Checksum.ofImage σ image) versionKept
          checksumKept).expects image = some other := by
  constructor
  · rintro ⟨⟨version, hversion, hkept⟩, hlost, other, hrecord, hother⟩
    have hnew : (memoryOf board).isNew image = true := by
      refine (Memory.expects_eq_none_iff.mp hexpects).resolve_right ?_
      change (memoryOf board).checksum.bind leWord? = some other at hrecord
      rw [hrecord]
      exact Option.some_ne_none other
    exact ⟨other, hother, (Memory.expects_remember_other_iff hexpects hother).mpr
      ⟨hnew, (mem_tries_version_iff hversion).mp hkept, mem_tries_checksum_iff.mp hlost, hrecord⟩⟩
  · rintro ⟨other, hother, hexpected⟩
    obtain ⟨hnew, hkept, hlost, hrecord⟩ :=
      (Memory.expects_remember_other_iff hexpects hother).mp hexpected
    obtain ⟨version, hversion⟩ := Memory.version_of_isNew hnew
    exact {
      version := ⟨version, hversion, (mem_tries_version_iff hversion).mpr hkept⟩
      checksum := mem_tries_checksum_iff.mpr hlost
      other := ⟨other, hrecord, hother⟩ }

end

section

variable {σ : Type} [Logger σ] [TickCounter σ] [ValueStore σ]

-- The flags of the attempts are those of the values that a faithful store takes over.
theorem remember_spec (image : List UInt8) (checksum : UInt32) (audited : Audited σ) :
    ∃ versionKept checksumKept,
      (remember image checksum audited).2.events =
        audited.events ++ tries image checksum versionKept checksumKept ∧
      ∀ [FaithfulStore σ], memoryOf (remember image checksum audited).2 =
        (memoryOf audited).remember image checksum versionKept checksumKept := by
  cases hversion : versionOf? image with
  | none =>
      -- No version is handed over, so it does not matter whether one is kept.
      refine ⟨true, isKept Settings.checksumKey (leBytes checksum) audited, ?_, ?_⟩
      · rw [remember_of_versionless _ _ hversion, events_storeOrLog]
        simp [tries, hversion]
      · intro _
        rw [remember_of_versionless _ _ hversion, memoryOf_storeOrLog_checksum]
        simp [Memory.remember, hversion]
  | some version =>
      let middle := (storeOrLog "version" Settings.versionKey (Text.toUtf8 version) audited).2
      refine ⟨isKept Settings.versionKey (Text.toUtf8 version) audited,
        isKept Settings.checksumKey (leBytes checksum) middle, ?_, ?_⟩
      · rw [remember_of_version _ _ hversion, events_storeOrLog, events_storeOrLog]
        simp [tries, hversion, middle]
      · intro _
        rw [remember_of_version _ _ hversion, memoryOf_storeOrLog_checksum,
          memoryOf_storeOrLog_version]
        simp [Memory.remember, hversion, middle]

variable [Checksum σ] [FaithfulStore σ]

-- An image that was accepted either has the checksum that is on record, and
-- nothing was stored, or it was taken as new.
theorem Validation.accepted {image : List UInt8} {audited after : Audited σ}
    (h : Validation image audited (true, after)) :
    let checksum := Checksum.ofImage σ image
    (memoryOf audited).expects image = some checksum ∧ memoryOf after = memoryOf audited ∧
        after.events = audited.events ∨
      (memoryOf audited).expects image = none ∧ ∃ versionKept checksumKept,
        memoryOf after = (memoryOf audited).remember image checksum versionKept checksumKept ∧
          after.events = audited.events ++ tries image checksum versionKept checksumKept := by
  cases h with
  | intact _ hexpects hafter => exact .inl ⟨hexpects, hafter.memoryOf_eq, hafter.events_eq⟩
  | @new ready _ hexpects hready =>
      refine .inr ⟨hexpects, ?_⟩
      obtain ⟨versionKept, checksumKept, hattempts, hmemory⟩ :=
        remember_spec image (Checksum.ofImage σ image) ready
      rw [← hready.memoryOf_eq, ← hready.events_eq]
      exact ⟨versionKept, checksumKept, hmemory, hattempts⟩

theorem validate_again_iff (image : List UInt8) (audited : Audited σ)
    (hvalid : (validate image audited).1 = true) :
    (validate image (validate image audited).2).1 = true ↔
      ¬ Torn image (Audited.attempted (validate image) audited) audited.board := by
  have hblank : isBlank image = false := ((validate_spec image audited).valid_iff.mp hvalid).1
  rw [(validate_spec image _).valid_iff, Audited.attempted]
  obtain ⟨hexpects, hmemory, hattempts⟩ |
    ⟨hexpects, versionKept, checksumKept, hmemory, hattempts⟩ :=
      (validation_of_valid hvalid).accepted
  · -- Nothing was stored, and what is on record is what this image has.
    rw [hattempts, List.drop_length]
    have hwhole : ¬ Torn image [] audited.board := by
      intro htorn
      cases htorn.checksum
    refine iff_of_true ⟨hblank, ?_⟩ hwhole
    rw [hmemory, hexpects]
    intro checksum hchecksum
    exact (Option.some.inj hchecksum).symm
  · have hexpects : (memoryOf audited.board).expects image = none := hexpects
    rw [hattempts, List.drop_left, hmemory, torn_tries_iff hexpects]
    constructor
    · rintro ⟨-, hsame⟩ ⟨other, hother, hexpected⟩
      exact hother (hsame other hexpected)
    · intro hwhole
      refine ⟨hblank, fun other hexpected => ?_⟩
      by_contra hother
      exact hwhole ⟨other, hother, hexpected⟩

end

-- The first image of a board that cannot store a checksum.
theorem validate_again_iff_first :
    let image := plainImage [0x76, 0x31]
    let audited : Audited Board := { board := { refusedKeys := [Settings.checksumKey] } }
    (validate image audited).1 = true ∧
      ((validate image (validate image audited).2).1 = true ↔
        ¬ Torn image (Audited.attempted (validate image) audited) audited.board) :=
  have hvalid : (validate (plainImage [0x76, 0x31])
      ({ board := { refusedKeys := [Settings.checksumKey] } } : Audited Board)).1 = true := by
    decide +kernel
  ⟨hvalid, validate_again_iff _ _ hvalid⟩

-- The image v2 follows an image v1 of another checksum, on a board that stores
-- its version but not its checksum.
def tornBoard : Audited Board where
  board := {
    objects := { entries := [(Settings.versionKey, [0x76, 0x31]),
      (Settings.checksumKey, leBytes (Crc32.ofBytes (plainImage [0x76, 0x32]) + 1))] }
    refusedKeys := [Settings.checksumKey] }

-- The intact image v2 was trusted once and is turned down the next time.
theorem trusted_image_rejected :
    let image := plainImage [0x76, 0x32]
    (validate image tornBoard).1 = true ∧
      (validate image (validate image tornBoard).2).1 = false := by
  intro image
  have hvalid : (validate image tornBoard).1 = true := by decide +kernel
  have hkept : (validate image tornBoard).2.events.map (·.kept) = [true, false] := by
    decide +kernel
  have hversion : versionOf? image = some "v2" := by decide +kernel
  refine ⟨hvalid, Bool.eq_false_iff.mpr fun hagain => ?_⟩
  obtain ⟨-, hsame⟩ := (validate_spec image _).valid_iff.mp hagain
  obtain ⟨-, -, hattempts⟩ | ⟨-, versionKept, checksumKept, hmemory, hattempts⟩ :=
    (validation_of_valid hvalid).accepted
  · rw [hattempts] at hkept
    cases hkept
  · have hnothing : tornBoard.events = [] := rfl
    rw [hattempts, hnothing] at hkept
    obtain ⟨rfl, rfl⟩ : versionKept = true ∧ checksumKept = false := by
      simpa [tries, hversion] using hkept
    have hother := hsame (Crc32.ofBytes image + 1) (by
      rw [hmemory, Memory.expects_remember]
      exact leWord?_leBytes _)
    change Crc32.ofBytes image + 1 = Crc32.ofBytes image at hother
    simp at hother

end BoardControl.Boot
