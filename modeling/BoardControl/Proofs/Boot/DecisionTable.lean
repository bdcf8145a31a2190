import BoardControl.Proofs.Boot.History
import BoardControl.Proofs.Boot.Trust

namespace BoardControl.Boot

open Bench (Board)

section

variable {σ : Type} [ValueStore σ]

-- The image has a version, and no such version is on record.
def Supersedes (image : List UInt8) (board : σ) : Prop :=
  ∃ version, versionOf? image = some version ∧
    ∀ stored, ValueStore.find? Settings.versionKey board = some stored →
      Text.untilNul stored ≠ Text.toUtf8 version

-- No four bytes are on record as a checksum.
def Unchecked (board : σ) : Prop :=
  ∀ stored, ValueStore.find? Settings.checksumKey board = some stored → stored.length ≠ 4

theorem supersedes_iff {image : List UInt8} {board : σ} :
    Supersedes image board ↔ (memoryOf board).isNew image = true := by
  simp only [Supersedes, Memory.isNew, memoryOf]
  cases versionOf? image with
  | none => simp
  | some version => cases ValueStore.find? Settings.versionKey board <;> simp

theorem unchecked_iff {board : σ} :
    Unchecked board ↔ (memoryOf board).checksum.bind leWord? = none := by
  simp only [Unchecked, memoryOf, Option.bind_eq_none_iff, leWord?_eq_none_iff]

-- Nothing is expected of an image that is new or that there is no checksum for.
theorem expects_eq_none_iff_taken {image : List UInt8} {board : σ} :
    (memoryOf board).expects image = none ↔ Supersedes image board ∨ Unchecked board := by
  rw [Memory.expects_eq_none_iff, supersedes_iff, unchecked_iff]

-- An image that is not new is expected to have the checksum on record, if there is one.
theorem expects_only_iff {image : List UInt8} {board : σ} {checksum : UInt32}
    (hold : ¬ Supersedes image board) :
    (∀ expected, (memoryOf board).expects image = some expected → expected = checksum) ↔
      Unchecked board ∨
        ValueStore.find? Settings.checksumKey board = some (leBytes checksum) := by
  rw [supersedes_iff] at hold
  rw [unchecked_iff, Memory.expects, if_neg hold]
  simp only [memoryOf]
  cases ValueStore.find? Settings.checksumKey board with
  | none => simp
  | some stored =>
      rw [Option.bind_some, Option.some.injEq, ← leWord?_eq_some_iff]
      cases leWord? stored <;> simp

end

theorem BootDecision.eq_of_booted_iff {decision other : BootDecision}
    (h : decision = .BootApplication ↔ other = .BootApplication) : decision = other := by
  cases decision <;> cases other <;> simp_all

section

variable {σ : Type} [ValueStore σ] [Checksum σ]

-- The image is booted: it is there, and either new or, unless it crashed, the one
-- that the checksum on record is of, if there is one.
def Bootable (record : BootRecord) (image : List UInt8) (board : σ) : Prop :=
  record.state ≠ .Dfu ∧ 4 ≤ image.length ∧ image.take 4 ≠ [0xff, 0xff, 0xff, 0xff] ∧
    (Supersedes image board ∨ record.state ≠ .Crash ∧ (Unchecked board ∨
      ValueStore.find? Settings.checksumKey board = some (leBytes (Checksum.ofImage σ image))))

-- What comes of a reset, by what the record, the image and the store hold, and
-- what is handed to the store meanwhile.
structure DecisionTable (record : BootRecord) (image : List UInt8) (board : σ)
    (decision : BootDecision) (left : BootRecord) (attempts : List Attempt) : Prop where
  booted : decision = .BootApplication ↔ Bootable record image board
  recorded : left = if decision = .BootApplication then { record with state := .App } else record
  tried : decision = .BootApplication → Supersedes image board ∨ Unchecked board →
    ∃ versionKept checksumKept,
      attempts = tries image (Checksum.ofImage σ image) versionKept checksumKept
  untouched : ¬ (decision = .BootApplication ∧ (Supersedes image board ∨ Unchecked board)) →
    attempts = []

variable [Logger σ] [TickCounter σ]

theorem afterReset_record (record : BootRecord) (image : List UInt8) (board : σ) :
    (afterReset record image board).1.2 =
      if (afterReset record image board).1.1 = .BootApplication then
        { record with state := .App } else record := by
  rw [afterReset, Action.bind_apply]
  cases (choose record image board).1 <;> rfl

theorem Validation.tried {image : List UInt8} {audited after : Audited σ}
    (h : Validation image audited (true, after)) :
    (memoryOf audited).expects image = none ∧ (∃ versionKept checksumKept,
        after.events = audited.events ++
          tries image (Checksum.ofImage σ image) versionKept checksumKept) ∨
      (memoryOf audited).expects image ≠ none ∧ after.events = audited.events := by
  cases h with
  | intact _ hexpects hafter => exact .inr ⟨by rw [hexpects]; simp, hafter.events_eq⟩
  | @new ready _ hexpects hready =>
      obtain ⟨versionKept, checksumKept, hattempts, -⟩ :=
        remember_spec image (Checksum.ofImage σ image) ready
      rw [hready.events_eq] at hattempts
      exact .inl ⟨hexpects, versionKept, checksumKept, hattempts⟩

variable [StillStore σ]

-- Of a new image no checksum is expected, and no crash counts against it.
theorem Choice.booted_iff_bootable {record : BootRecord} {image : List UInt8} {board : σ}
    {result : BootDecision × σ} (h : Choice record image board result) :
    result.1 = .BootApplication ↔ Bootable record image board := by
  rw [h.booted_iff, isBlank_eq_false_iff, ← supersedes_iff, Bootable]
  by_cases hnew : Supersedes image board
  · have hexpects : (memoryOf board).expects image = none :=
      expects_eq_none_iff_taken.mpr (.inl hnew)
    simp [hnew, hexpects]
  · rw [expects_only_iff hnew]
    simp only [hnew, imp_false, false_or, ne_eq, and_assoc, and_left_comm]

-- Nothing is handed to the store unless the image is booted as a new one.
theorem Choice.tried {record : BootRecord} {image : List UInt8} {audited last : Audited σ}
    {decision : BootDecision} (h : Choice record image audited (decision, last)) :
    decision = .BootApplication ∧ (memoryOf audited).expects image = none ∧
        (∃ versionKept checksumKept, last.events = audited.events ++
          tries image (Checksum.ofImage σ image) versionKept checksumKept) ∨
      ¬ (decision = .BootApplication ∧ (memoryOf audited).expects image = none) ∧
        last.events = audited.events := by
  cases h with
  | booted _ _ hready hvalid hlast =>
      have htried := hvalid.tried
      rw [hready.memoryOf_eq, hready.events_eq] at htried
      rw [hlast.events_eq]
      obtain ⟨hexpects, hattempts⟩ | ⟨hexpects, hattempts⟩ := htried
      · exact .inl ⟨rfl, hexpects, hattempts⟩
      · exact .inr ⟨fun h => hexpects h.2, hattempts⟩
  | rejected hready hvalid =>
      exact .inr ⟨by simp, (hready.trans hvalid.quiet).events_eq⟩
  | withheld _ hafter => exact .inr ⟨by simp, hafter.events_eq⟩

-- The decision is taken on what is on record before anything is stored, so it is
-- the same on every board with these records, whichever writes fail.
theorem reset_by_the_table (record : BootRecord) (image : List UInt8) (audited : Audited σ) :
    let result := (afterReset record image audited).1
    DecisionTable record image audited.board result.1 result.2
        (Audited.attempted (afterReset record image) audited) ∧
      ∀ other : Audited σ, memoryOf other = memoryOf audited →
        (afterReset record image other).1 = result := by
  have hchoice := afterReset_spec record image audited
  refine ⟨{
    booted := hchoice.booted_iff_bootable
    recorded := afterReset_record record image audited
    tried := ?_
    untouched := ?_ }, ?_⟩
  · intro hbooted htaken
    obtain ⟨-, -, versionKept, checksumKept, hattempts⟩ | ⟨hkept, -⟩ := hchoice.tried
    · refine ⟨versionKept, checksumKept, ?_⟩
      rw [Audited.attempted, hattempts, List.drop_left]
    · exact absurd ⟨hbooted, expects_eq_none_iff_taken.mpr htaken⟩ hkept
  · intro hkept
    obtain ⟨hbooted, hexpects, -⟩ | ⟨-, hattempts⟩ := hchoice.tried
    · exact absurd ⟨hbooted, expects_eq_none_iff_taken.mp hexpects⟩ hkept
    · rw [Audited.attempted, hattempts, List.drop_length]
  · intro other hmemory
    have hsame := (afterReset_spec record image other).booted_iff
    rw [hmemory, ← hchoice.booted_iff] at hsame
    have hdecision : (afterReset record image other).1.1 = (afterReset record image audited).1.1 :=
      BootDecision.eq_of_booted_iff hsame
    refine Prod.ext hdecision ?_
    rw [afterReset_record, afterReset_record, hdecision]

end

-- After a crash of an unknown code the image v2 is booted in place of v1, although
-- its version cannot be stored.
theorem reset_by_the_table_unknown_crash :
    let record : BootRecord := ⟨.Crash, 77⟩
    let image := plainImage [0x76, 0x32]
    let audited : Audited Board := { board := {
      objects := { entries := [(Settings.versionKey, [0x76, 0x31, 0])] }
      refusedKeys := [Settings.versionKey] } }
    let result := (afterReset record image audited).1
    result = (.BootApplication, ⟨.App, 77⟩) ∧
      (Audited.attempted (afterReset record image) audited).map (·.kept) = [false, true] ∧
      DecisionTable record image audited.board result.1 result.2
        (Audited.attempted (afterReset record image) audited) ∧
      ∀ other : Audited Board, memoryOf other = memoryOf audited →
        (afterReset record image other).1 = result := by
  intro record image audited result
  have hresult : result = (.BootApplication, ⟨.App, 77⟩) := by decide +kernel
  have hattempts : (Audited.attempted (afterReset record image) audited).map (·.kept) =
      [false, true] := by
    decide +kernel
  exact ⟨hresult, hattempts, reset_by_the_table record image audited⟩

end BoardControl.Boot
