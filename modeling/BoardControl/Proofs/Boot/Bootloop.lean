import BoardControl.Proofs.Boot.Trust

namespace BoardControl.Boot

open Bench (Board)

-- The image was new, and its version could not be stored.
structure Forgotten {σ : Type} [Logger σ] [ValueStore σ] (image : List UInt8)
    (attempts : List Attempt) (board : σ) : Prop where
  new : (isUpdated image board).1 = true
  version : ∃ version, versionOf? image = some version ∧
    ⟨Settings.versionKey, Text.toUtf8 version, false⟩ ∈ attempts

section

variable {σ : Type} [Logger σ] [TickCounter σ] [ValueStore σ] [FaithfulStore σ]

theorem forgotten_tries_iff {image : List UInt8} {checksum : UInt32}
    {versionKept checksumKept : Bool} {board : σ} :
    Forgotten image (tries image checksum versionKept checksumKept) board ↔
      (!versionKept && (memoryOf board).isNew image) = true := by
  rw [← (isUpdated_spec image board).1]
  constructor
  · rintro ⟨hnew, version, hversion, hlost⟩
    simp [hnew, (mem_tries_version_iff hversion).mp hlost]
  · intro hforgotten
    obtain ⟨hlost, hnew⟩ : versionKept = false ∧ (isUpdated image board).1 = true := by
      simpa using hforgotten
    obtain ⟨version, hversion⟩ :=
      Memory.version_of_isNew ((isUpdated_spec image board).1.symm.trans hnew)
    exact ⟨hnew, version, hversion, (mem_tries_version_iff hversion).mpr hlost⟩

variable [Checksum σ]

-- After a crash an image is booted if it is there and new: nothing is expected of
-- a new image.
theorem refused_after_crash_iff {record : BootRecord} (hcrash : record.state = .Crash)
    (image : List UInt8) (board : σ) :
    (afterReset record image board).1.1 = .FirmwareUpdate ↔
      isBlank image = true ∨ (memoryOf board).isNew image = false := by
  have hbooted := (afterReset_spec record image board).booted_iff
  generalize (afterReset record image board).1.1 = decision at hbooted ⊢
  have hrefused : decision = .FirmwareUpdate ↔ ¬ decision = .BootApplication := by
    cases decision <;> simp
  rw [hrefused, hbooted]
  cases hnew : (memoryOf board).isNew image with
  | false => simp [hcrash]
  | true =>
      have hexpects : (memoryOf board).expects image = none :=
        Memory.expects_eq_none_iff.mpr (.inl hnew)
      simp [hcrash, hexpects]

theorem crashed_image_refused_iff (earlier : List Request) (record crashed : BootRecord)
    (image : List UInt8) (start : Audited σ) (hcrashed : crashed.state = .Crash)
    (hbooted : (afterReset record image (serveAll earlier start).2).1.1 = .BootApplication) :
    let before := (serveAll earlier start).2
    let after := (afterReset record image before).2
    (afterReset crashed image after).1.1 = .FirmwareUpdate ↔
      ¬ Forgotten image (Audited.attempted (afterReset record image) before) before.board := by
  have hchoice := afterReset_spec record image (serveAll earlier start).2
  simp only
  rw [Audited.attempted, refused_after_crash_iff hcrashed]
  generalize (serveAll earlier start).2 = before at hbooted hchoice ⊢
  generalize afterReset record image before = chosen at hbooted hchoice ⊢
  obtain ⟨⟨decision, kept⟩, after⟩ := chosen
  cases hchoice with
  | rejected => cases hbooted
  | withheld => cases hbooted
  | booted _ _ hready hvalid hlast =>
      have hthere : isBlank image = false := (hvalid.valid_iff.mp rfl).1
      have haccepted := hvalid.accepted
      rw [hready.memoryOf_eq, hready.events_eq] at haccepted
      rw [hlast.memoryOf_eq, hlast.events_eq, hthere]
      obtain ⟨hexpects, hmemory, hattempts⟩ |
        ⟨-, versionKept, checksumKept, hmemory, hattempts⟩ := haccepted
      · have hold : (memoryOf before).isNew image = false := by
          by_contra hnew
          simp [Memory.expects, hnew] at hexpects
        have hknown : ¬ Forgotten image [] before.board := by
          rintro ⟨-, version, -, hlost⟩
          cases hlost
        rw [hmemory, hattempts, List.drop_length]
        exact iff_of_true (.inr hold) hknown
      · rw [hmemory, hattempts, List.drop_left, forgotten_tries_iff, Memory.isNew_remember,
          Bool.not_eq_true]
        exact or_iff_right Bool.false_ne_true

end

-- The version of the first image is stored, so after its crash it is not new.
theorem crashed_image_refused_iff_stored :
    let image := plainImage [0x76, 0x31]
    let start : Audited Board := { board := {} }
    let before := (serveAll [.IsUpdated image] start).2
    let after := (afterReset {} image before).2
    (BootRecord.crashed .HardFault).state = .Crash ∧
      (afterReset {} image before).1.1 = .BootApplication ∧
      ((afterReset (.crashed .HardFault) image after).1.1 = .FirmwareUpdate ↔
        ¬ Forgotten image (Audited.attempted (afterReset {} image) before) before.board) := by
  intro image start
  have hbooted :
      (afterReset {} image (serveAll [.IsUpdated image] start).2).1.1 = .BootApplication := by
    decide +kernel
  exact ⟨rfl, hbooted, crashed_image_refused_iff _ _ _ image start rfl hbooted⟩

-- A board that can store nothing takes the image that crashed for the first one
-- and boots it again.
theorem crashed_image_booted_again :
    let image := plainImage [0x76, 0x31]
    let board : Board := { refusedKeys := [Settings.versionKey, Settings.checksumKey] }
    let first := afterReset {} image board
    let second := afterReset (.crashed .HardFault) image first.2
    first.1.1 = .BootApplication ∧ second.1.1 = .BootApplication := by
  decide +kernel

end BoardControl.Boot
