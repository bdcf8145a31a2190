import BoardControl.Boot.Image
import BoardControl.Boot.Record
import BoardControl.Boot.Store
import BoardControl.Hex
import BoardControl.Log
import BoardControl.Ticks

namespace BoardControl.Boot

inductive BootDecision where
  | BootApplication
  | FirmwareUpdate
deriving DecidableEq, Repr

section

variable {σ : Type} [Logger σ] [ValueStore σ]

-- Whether the version of an image differs from the one that was stored last. An
-- image without a version is never new; one with a version is, as long as
-- nothing is stored.
def isUpdated (image : List UInt8) : Action σ Bool := do
  match versionOf? image with
  | none =>
      log .Error ("No version string found in application partition " ++
        s!"(expected a NUL terminated string at {Hex.prefixed Settings.versionOffset})")
      pure false
  | some version =>
      log .Info s!"Found firmware version: {version}"
      match ValueStore.find? Settings.versionKey (← get) with
      | none =>
          log .Info "No previous image version in the object store"
          pure true
      | some stored =>
          let stored := Text.untilNul stored
          log .Info s!"Previous image version: {Text.shown stored}"
          pure (stored != Text.toUtf8 version)

-- Stores a value of an image. One that cannot be stored is only logged.
def storeOrLog (what key : String) (value : List UInt8) : Action σ Unit := do
  if let .error failure ← ValueStore.store key value then
    log .Error s!"Failed to store image {what}: {failure.message}"

-- Stores the version and the checksum of an image that is taken as new.
def remember (image : List UInt8) (checksum : UInt32) : Action σ Unit := do
  if let some version := versionOf? image then
    storeOrLog "version" Settings.versionKey (Text.toUtf8 version)
  storeOrLog "CRC" Settings.checksumKey (leBytes checksum)

-- The checksum that an image has to have, or nothing if it is taken as new.
def expectedChecksum (image : List UInt8) : Action σ (Option UInt32) := do
  if ← isUpdated image then
    pure none
  else
    match (ValueStore.find? Settings.checksumKey (← get)).bind leWord? with
    | some checksum =>
        log .Info s!"Expected image CRC: {Hex.prefixed checksum.toNat}"
        pure (some checksum)
    | none =>
        log .Warn "Image version found in the object store, but not a CRC; can't verify integrity"
        pure none

-- Whether the partition holds an image that may be booted. A new image is
-- trusted and remembered; any other has to match the stored checksum.
def validate [TickCounter σ] [Checksum σ] (image : List UInt8) : Action σ Bool := do
  if isBlank image then
    log .Error "Application partition appears to be blank"
    pure false
  else
    let expected ← expectedChecksum image
    let start ← TickCounter.count
    let checksum := Checksum.ofImage σ image
    let (whole, tenths) := Ticks.milliseconds (Ticks.elapsed start (← TickCounter.count))
    log .Info (s!"CRC of application partition: {Hex.prefixed checksum.toNat} " ++
      s!"(took {whole}.{tenths} ms)")
    match expected with
    | none =>
        log .Info "New image present, updating stored CRC and version"
        remember image checksum
        pure true
    | some expected =>
        if expected = checksum then
          log .Info "CRC verification passed"
          pure true
        else
          log .Error "CRC mismatch, application partition flash corruption?"
          pure false

def bootIfValid [TickCounter σ] [Checksum σ] (image : List UInt8) : Action σ BootDecision := do
  if ← validate image then pure .BootApplication else pure .FirmwareUpdate

-- After a crash only an image with another version is tried.
def bootIfUpdated [TickCounter σ] [Checksum σ] (image : List UInt8) : Action σ BootDecision := do
  if ← isUpdated image then
    log .Info "Application was updated since the crash, attempting to boot new image"
    bootIfValid image
  else
    log .Warn "Still running the same crashing image, staying in firmware update mode"
    pure .FirmwareUpdate

-- What to run, by what the previous run was doing.
def choose [TickCounter σ] [Checksum σ] (record : BootRecord) (image : List UInt8) :
    Action σ BootDecision := do
  match record.state with
  | .Dfu =>
      log .Info "Application requested DFU entry"
      pure .FirmwareUpdate
  | .Crash =>
      match record.crash? with
      | some reason => log .Error s!"Application crashed: {reason.name}"
      | none => log .Error s!"Application crashed: unknown crash code {record.crashWord}"
      bootIfUpdated image
  | .Por =>
      log .Info "Power cycle"
      bootIfValid image
  | .App =>
      log .Info "Application was running, probably requested warm reboot"
      bootIfValid image

-- The decision after a reset, with the record as it is left. A boot is recorded,
-- so that a later crash can be told from a cold start.
def afterReset [TickCounter σ] [Checksum σ] (record : BootRecord) (image : List UInt8) :
    Action σ (BootDecision × BootRecord) := do
  match ← choose record image with
  | .BootApplication =>
      log .Info "Booting application"
      pure (.BootApplication, { record with state := .App })
  | .FirmwareUpdate => pure (.FirmwareUpdate, record)

end

end BoardControl.Boot
