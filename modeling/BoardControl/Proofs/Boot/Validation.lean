import BoardControl.Proofs.Boot.Memory

namespace BoardControl.Boot

section

variable {σ : Type} [Logger σ] [TickCounter σ] [ValueStore σ] [StillStore σ]
  (image : List UInt8) (board : σ)

theorem isUpdated_spec : (isUpdated image board).1 = (memoryOf board).isNew image ∧
    Quiet board (isUpdated image board).2 := by
  cases hversion : versionOf? image with
  | none =>
      simp only [isUpdated, Memory.isNew, hversion, Action.bind_apply]
      exact ⟨rfl, .logged _ _ .refl⟩
  | some version =>
      have hfound : Quiet board (log .Info s!"Found firmware version: {version}" board).2 :=
        .logged _ _ .refl
      have hstored := hfound.find?_eq Settings.versionKey
      simp only [isUpdated, hversion, Action.bind_apply, get, getThe, MonadStateOf.get, StateT.get,
        pure, memoryOf, Memory.isNew]
      rw [hstored]
      cases ValueStore.find? Settings.versionKey board with
      | none => exact ⟨rfl, hfound.logged _ _⟩
      | some stored => exact ⟨rfl, hfound.logged _ _⟩

theorem expectedChecksum_spec :
    (expectedChecksum image board).1 = (memoryOf board).expects image ∧
      Quiet board (expectedChecksum image board).2 := by
  obtain ⟨hnew, hquiet⟩ := isUpdated_spec image board
  have hstored := hquiet.find?_eq Settings.checksumKey
  simp only [expectedChecksum, Action.bind_apply, Memory.expects, hnew]
  cases (memoryOf board).isNew image with
  | true => exact ⟨rfl, hquiet⟩
  | false =>
      simp only [Bool.false_eq_true, ↓reduceIte, Action.bind_apply, get, getThe, MonadStateOf.get,
        StateT.get, pure, memoryOf]
      rw [hstored]
      cases (ValueStore.find? Settings.checksumKey board).bind leWord? with
      | none => exact ⟨rfl, hquiet.logged _ _⟩
      | some checksum => exact ⟨rfl, hquiet.logged _ _⟩

end

-- What a validation comes to, with the board that it leaves.
inductive Validation {σ : Type} [Logger σ] [TickCounter σ] [ValueStore σ] [Checksum σ]
    (image : List UInt8) (board : σ) : Bool × σ → Prop where
  | blank {after : σ} (hblank : isBlank image = true) (hafter : Quiet board after) :
      Validation image board (false, after)
  | new {ready : σ} (hblank : isBlank image = false)
      (hexpects : (memoryOf board).expects image = none) (hready : Quiet board ready) :
      Validation image board (true, (remember image (Checksum.ofImage σ image) ready).2)
  | intact {after : σ} (hblank : isBlank image = false)
      (hexpects : (memoryOf board).expects image = some (Checksum.ofImage σ image))
      (hafter : Quiet board after) : Validation image board (true, after)
  | damaged {checksum : UInt32} {after : σ} (hblank : isBlank image = false)
      (hexpects : (memoryOf board).expects image = some checksum)
      (hother : checksum ≠ Checksum.ofImage σ image) (hafter : Quiet board after) :
      Validation image board (false, after)

-- What comes of a reset, with the board that it leaves: the image is looked at,
-- unless an update is asked for or a crashed image is not new.
inductive Choice {σ : Type} [Logger σ] [TickCounter σ] [ValueStore σ] [Checksum σ]
    (record : BootRecord) (image : List UInt8) (board : σ) : BootDecision × σ → Prop where
  | booted {ready after last : σ} (hstate : record.state ≠ .Dfu)
      (hnew : record.state = .Crash → (memoryOf board).isNew image = true)
      (hready : Quiet board ready) (hvalid : Validation image ready (true, after))
      (hlast : Quiet after last) : Choice record image board (.BootApplication, last)
  | rejected {ready after : σ} (hready : Quiet board ready)
      (hvalid : Validation image ready (false, after)) :
      Choice record image board (.FirmwareUpdate, after)
  | withheld {after : σ}
      (hstate : record.state = .Dfu ∨ record.state = .Crash ∧ (memoryOf board).isNew image = false)
      (hafter : Quiet board after) : Choice record image board (.FirmwareUpdate, after)

-- A request to the boot flow.
inductive Request where
  | Decide (record : BootRecord) (image : List UInt8)
  | IsUpdated (image : List UInt8)
  | Validate (image : List UInt8)

def Request.image : Request → List UInt8
  | Decide _ image | IsUpdated image | Validate image => image

-- What comes of a request, with the board that it leaves: the image is accepted,
-- to be booted or as a valid one, or nothing is stored.
inductive Outcome {σ : Type} [Logger σ] [TickCounter σ] [ValueStore σ] [Checksum σ]
    (image : List UInt8) (board : σ) : Bool × σ → Prop where
  | accepted {ready after last : σ} (hready : Quiet board ready)
      (hvalid : Validation image ready (true, after)) (hlast : Quiet after last) :
      Outcome image board (true, last)
  | refused {after : σ} (hafter : Quiet board after) : Outcome image board (false, after)

section

variable {σ : Type} [Logger σ] [TickCounter σ] [ValueStore σ] [Checksum σ]

-- Whether the image of a request is accepted.
def serve : Request → Action σ Bool
  | .Decide record image => do
      let (decision, _) ← afterReset record image
      pure (decision = .BootApplication)
  | .IsUpdated image => do
      let _ ← isUpdated image
      pure false
  | .Validate image => validate image

def serveAll (requests : List Request) : Action σ Unit :=
  requests.forM fun request => do
    let _ ← serve request

theorem serveAll_cons (request : Request) (rest : List Request) (board : σ) :
    serveAll (request :: rest) board = serveAll rest (serve request board).2 := rfl

-- A validation that comes to nothing stores nothing.
theorem Validation.quiet {image : List UInt8} {board after : σ}
    (h : Validation image board (false, after)) : Quiet board after := by
  cases h with
  | blank _ hafter => exact hafter
  | damaged _ _ _ hafter => exact hafter

-- An image is valid if it is there and no other checksum is expected of it.
theorem Validation.valid_iff {image : List UInt8} {board : σ} {result : Bool × σ}
    (h : Validation image board result) :
    result.1 = true ↔ isBlank image = false ∧
      ∀ checksum, (memoryOf board).expects image = some checksum →
        checksum = Checksum.ofImage σ image := by
  cases h with
  | blank hblank => simp [hblank]
  | new hblank hexpects => simp [hblank, hexpects]
  | intact hblank hexpects => simp [hblank, hexpects]
  | damaged hblank hexpects hother => simp [hblank, hexpects, hother]

variable [StillStore σ]

-- An image is booted if no update is asked for, the image is valid, and new if it
-- comes after a crash.
theorem Choice.booted_iff {record : BootRecord} {image : List UInt8} {board : σ}
    {result : BootDecision × σ} (h : Choice record image board result) :
    result.1 = .BootApplication ↔ record.state ≠ .Dfu ∧
      (record.state = .Crash → (memoryOf board).isNew image = true) ∧ isBlank image = false ∧
      ∀ checksum, (memoryOf board).expects image = some checksum →
        checksum = Checksum.ofImage σ image := by
  cases h with
  | booted hstate hnew hready hvalid _ =>
      have hvalid := hvalid.valid_iff.mp rfl
      rw [hready.memoryOf_eq] at hvalid
      exact iff_of_true rfl ⟨hstate, hnew, hvalid⟩
  | rejected hready hvalid =>
      have hvalid := hvalid.valid_iff
      rw [hready.memoryOf_eq] at hvalid
      exact iff_of_false BootDecision.noConfusion fun ⟨_, _, h⟩ => Bool.noConfusion (hvalid.mpr h)
  | withheld hstate _ =>
      obtain hdfu | ⟨hcrash, hold⟩ := hstate
      · simp [hdfu]
      · simp [hcrash, hold]

theorem validate_spec (image : List UInt8) (board : σ) :
    Validation image board (validate image board) := by
  rw [validate]
  split
  · rename_i hblank
    exact .blank hblank (.logged _ _ .refl)
  · rename_i hblank
    have hblank : isBlank image = false := Bool.eq_false_iff.mpr hblank
    obtain ⟨hexpects, hquiet⟩ := expectedChecksum_spec image board
    simp only [Action.bind_apply, hexpects]
    generalize hlogged : (log Severity.Info _
      (TickCounter.count (TickCounter.count (expectedChecksum image board).2).2).2).2 = ready
    have hready : Quiet board ready := by
      rw [← hlogged]
      exact (hquiet.counted.counted).logged _ _
    cases hchecksum : (memoryOf board).expects image with
    | none => exact .new hblank hchecksum (hready.logged _ _)
    | some checksum =>
        simp only
        split
        · rename_i hsame
          rw [hsame] at hchecksum
          exact .intact hblank hchecksum (hready.logged _ _)
        · rename_i hother
          exact .damaged hblank hchecksum hother (hready.logged _ _)

theorem validation_of_valid {image : List UInt8} {board : σ}
    (hvalid : (validate image board).1 = true) :
    Validation image board (true, (validate image board).2) := by
  rw [← hvalid]
  exact validate_spec image board

variable (record : BootRecord) (image : List UInt8) {board ready : σ}

theorem bootIfValid_spec (hstate : record.state ≠ .Dfu)
    (hnew : record.state = .Crash → (memoryOf board).isNew image = true)
    (hready : Quiet board ready) : Choice record image board (bootIfValid image ready) := by
  have hvalid := validate_spec image ready
  rw [bootIfValid, Action.bind_apply]
  generalize validate image ready = result at hvalid ⊢
  obtain ⟨valid, after⟩ := result
  cases valid with
  | true => exact .booted hstate hnew hready hvalid .refl
  | false => exact .rejected hready hvalid

theorem bootIfUpdated_spec (hstate : record.state = .Crash) (hready : Quiet board ready) :
    Choice record image board (bootIfUpdated image ready) := by
  obtain ⟨hnew, hquiet⟩ := isUpdated_spec image ready
  rw [hready.memoryOf_eq] at hnew
  simp only [bootIfUpdated, Action.bind_apply, hnew]
  cases hnew : (memoryOf board).isNew image with
  | true =>
      exact bootIfValid_spec record image (by rw [hstate]; decide) (fun _ => hnew)
        ((hready.trans hquiet).logged _ _)
  | false => exact .withheld (.inr ⟨hstate, hnew⟩) ((hready.trans hquiet).logged _ _)

theorem choose_spec (board : σ) : Choice record image board (choose record image board) := by
  rw [choose]
  cases hstate : record.state with
  | Dfu => exact .withheld (.inl hstate) (.logged _ _ .refl)
  | Crash =>
      cases record.crash? with
      | none => exact bootIfUpdated_spec record image hstate (.logged _ _ .refl)
      | some reason => exact bootIfUpdated_spec record image hstate (.logged _ _ .refl)
  | Por =>
      exact bootIfValid_spec record image (by rw [hstate]; decide) (by simp [hstate])
        (.logged _ _ .refl)
  | App =>
      exact bootIfValid_spec record image (by rw [hstate]; decide) (by simp [hstate])
        (.logged _ _ .refl)

theorem afterReset_spec (board : σ) :
    Choice record image board
      ((afterReset record image board).1.1, (afterReset record image board).2) := by
  have hchoice := choose_spec record image board
  rw [afterReset, Action.bind_apply]
  generalize choose record image board = chosen at hchoice ⊢
  cases hchoice with
  | booted hstate hnew hready hvalid hlast =>
      exact .booted hstate hnew hready hvalid (hlast.logged _ _)
  | rejected hready hvalid => exact .rejected hready hvalid
  | withheld hstate hafter => exact .withheld hstate hafter

theorem serve_spec (request : Request) (board : σ) :
    Outcome request.image board (serve request board) := by
  cases request with
  | Decide record image =>
      have hchoice := afterReset_spec record image board
      rw [serve, Action.bind_apply]
      generalize afterReset record image board = chosen at hchoice ⊢
      obtain ⟨⟨decision, record⟩, last⟩ := chosen
      cases hchoice with
      | booted _ _ hready hvalid hlast => exact .accepted hready hvalid hlast
      | rejected hready hvalid => exact .refused (hready.trans hvalid.quiet)
      | withheld _ hafter => exact .refused hafter
  | IsUpdated image => exact .refused (isUpdated_spec image board).2
  | Validate image =>
      have hvalid := validate_spec image board
      rw [serve]
      generalize validate image board = result at hvalid ⊢
      obtain ⟨valid, after⟩ := result
      cases valid with
      | true => exact .accepted .refl hvalid .refl
      | false => exact .refused hvalid.quiet

end

end BoardControl.Boot
