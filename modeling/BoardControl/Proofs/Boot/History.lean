import BoardControl.Crc32
import BoardControl.Proofs.Boot.Validation

namespace BoardControl.Boot

-- An image that has a version, and another one than the other image has.
def NewVersion (image other : List UInt8) : Prop :=
  ∃ version, versionOf? image = some version ∧ versionOf? other ≠ some version

namespace Memory

-- What is on record of an image that was stored whole.
def ofImage (image : List UInt8) (checksum : UInt32) : Memory :=
  { version := (versionOf? image).map Text.toUtf8
    checksum := some (leBytes checksum) }

theorem isNew_ofImage (image other : List UInt8) (checksum : UInt32) :
    (ofImage other checksum).isNew image = true ↔ NewVersion image other := by
  simp only [isNew, ofImage, NewVersion]
  cases versionOf? image with
  | none => simp
  | some version =>
      cases hother : versionOf? other with
      | none => simp
      | some stored =>
          simp only [Option.map_some, untilNul_of_versionOf? hother, bne_iff_ne]
          constructor
          · exact fun hne => ⟨version, rfl, fun h => hne (congrArg Text.toUtf8 (Option.some.inj h))⟩
          · rintro ⟨_, ⟨⟩, hne⟩ hsame
            exact hne (congrArg some (Text.toUtf8_inj hsame))

theorem expects_ofImage (image other : List UInt8) (checksum : UInt32) :
    (ofImage other checksum).expects image =
      if (ofImage other checksum).isNew image then none else some checksum := by
  have hchecksum : (ofImage other checksum).checksum.bind leWord? = some checksum :=
    leWord?_leBytes checksum
  rw [expects, hchecksum]

section

variable {checksum : List UInt8 → UInt32} {memory : Memory} {last : Option (List UInt8)}

-- What is on record is nothing, or belongs to the image that was taken as new last.
def Follows (checksum : List UInt8 → UInt32) (memory : Memory) : Option (List UInt8) → Prop
  | none => memory = ⟨none, none⟩
  | some image => memory = ofImage image (checksum image)

-- An image without a version is taken as new only if nothing is on record, so no
-- other version is left there.
theorem Follows.remember (h : memory.Follows checksum last) {image : List UInt8}
    (hexpects : memory.expects image = none) :
    (memory.remember image (checksum image) true true).Follows checksum (some image) := by
  have hversion : ((versionOf? image).map Text.toUtf8).or memory.version =
      (versionOf? image).map Text.toUtf8 := by
    cases last with
    | none =>
        rw [h]
        exact Option.or_none
    | some other =>
        rw [h, expects_ofImage] at hexpects
        split at hexpects
        · rename_i hnew
          obtain ⟨version, hversion⟩ := version_of_isNew hnew
          rw [hversion]
          rfl
        · cases hexpects
  simp only [Follows, Memory.remember, ofImage, hversion, ↓reduceIte]

end

end Memory

theorem isBlank_eq_false_iff (image : List UInt8) :
    isBlank image = false ↔ 4 ≤ image.length ∧ image.take 4 ≠ [0xff, 0xff, 0xff, 0xff] := by
  simp [isBlank]

section

variable {σ : Type} [Logger σ] [TickCounter σ] [ValueStore σ] [Checksum σ]

-- Whether a request is about an image that is accepted with nothing expected of it.
def takenAsNew (request : Request) (board : σ) : Bool :=
  (serve request board).1 && (expectedChecksum request.image board).1.isNone

def lastNew : List Request → σ → Option (List UInt8)
  | [], _ => none
  | request :: rest, board =>
      (lastNew rest (serve request board).2).or
        (if takenAsNew request board then some request.image else none)

-- Both values on record are those of the image.
def Describes (image : List UInt8) (board : σ) : Prop :=
  ValueStore.find? Settings.checksumKey board = some (leBytes (Checksum.ofImage σ image)) ∧
    ValueStore.find? Settings.versionKey board = (versionOf? image).map Text.toUtf8

omit [Logger σ] [TickCounter σ] in
theorem describes_iff (image : List UInt8) (board : σ) : Describes image board ↔
    memoryOf board = Memory.ofImage image (Checksum.ofImage σ image) := by
  simp only [Describes, memoryOf, Memory.ofImage, Memory.mk.injEq]
  exact and_comm

-- What is made of an image while another one is on record.
structure Judged (image other : List UInt8) (board : σ) : Prop where
  accepted : (validate image board).1 = true ↔
    4 ≤ image.length ∧ image.take 4 ≠ [0xff, 0xff, 0xff, 0xff] ∧
      (NewVersion image other ∨ Checksum.ofImage σ image = Checksum.ofImage σ other)
  described : (validate image board).1 = true → NewVersion image other →
    Describes image (validate image board).2
  unchanged : ¬ ((validate image board).1 = true ∧ NewVersion image other) → ∀ key,
    ValueStore.find? key (validate image board).2 = ValueStore.find? key board

variable [ReliableStore σ]

omit [Checksum σ] in
theorem memoryOf_remember (image : List UInt8) (checksum : UInt32) (board : σ) :
    memoryOf (remember image checksum board).2 =
      (memoryOf board).remember image checksum true true := by
  cases hversion : versionOf? image with
  | none =>
      rw [remember_of_versionless _ _ hversion, memoryOf_storeOrLog_checksum]
      simp [Memory.remember, hversion, ReliableStore.isKept_eq]
  | some version =>
      rw [remember_of_version _ _ hversion, memoryOf_storeOrLog_checksum,
        memoryOf_storeOrLog_version]
      simp [Memory.remember, hversion, ReliableStore.isKept_eq]

-- Only an image that is taken as new changes what is on record.
theorem memoryOf_serve (request : Request) (board : σ) : memoryOf (serve request board).2 =
    if takenAsNew request board then
      (memoryOf board).remember request.image (Checksum.ofImage σ request.image) true true
    else memoryOf board := by
  have houtcome := serve_spec request board
  rw [takenAsNew, (expectedChecksum_spec request.image board).1]
  generalize serve request board = result at houtcome ⊢
  cases houtcome with
  | refused hafter => exact hafter.memoryOf_eq
  | accepted hready hvalid hlast =>
      rw [← hready.memoryOf_eq, hlast.memoryOf_eq]
      cases hvalid with
      | new _ hexpects hquiet => simp [hexpects, memoryOf_remember, hquiet.memoryOf_eq]
      | intact _ hexpects hquiet => simp [hexpects, hquiet.memoryOf_eq]

-- The requests are taken from the front, so what the rest of them takes as new
-- comes later than `last` and goes before it.
theorem memoryOf_serveAll (requests : List Request) {board : σ} {last : Option (List UInt8)}
    (h : (memoryOf board).Follows (Checksum.ofImage σ) last) :
    (memoryOf (serveAll requests board).2).Follows (Checksum.ofImage σ)
      ((lastNew requests board).or last) := by
  induction requests generalizing board last with
  | nil => exact h
  | cons request rest ih =>
      rw [serveAll_cons, lastNew, Option.or_assoc]
      apply ih
      rw [memoryOf_serve]
      cases hnew : takenAsNew request board with
      | false => exact h
      | true =>
          have hexpects : (memoryOf board).expects request.image = none := by
            rw [takenAsNew, (expectedChecksum_spec request.image board).1] at hnew
            simpa using (Bool.and_eq_true_iff.mp hnew).2
          exact h.remember hexpects

theorem judged_of_describes {other : List UInt8} {board : σ} (h : Describes other board)
    (image : List UInt8) : Judged image other board := by
  have hmemory := (describes_iff other board).mp h
  have hnew := Memory.isNew_ofImage image other (Checksum.ofImage σ other)
  have hexpects := Memory.expects_ofImage image other (Checksum.ofImage σ other)
  rw [← hmemory] at hnew hexpects
  have hvalidation := validate_spec image board
  generalize hresult : validate image board = result at hvalidation
  have haccepted := hvalidation.valid_iff
  refine ⟨?_, ?_, ?_⟩
  · rw [hresult, haccepted, hexpects, ← hnew, isBlank_eq_false_iff, and_assoc]
    cases (memoryOf board).isNew image <;> simp [eq_comm]
  · rw [hresult]
    intro hvalid hother
    rw [hnew.mpr hother] at hexpects
    cases hvalidation with
    | blank => cases hvalid
    | damaged => cases hvalid
    -- Of an image with another version no checksum is expected.
    | intact _ hsome => simp [hexpects] at hsome
    | @new ready _ _ hready =>
        have hfollows : (memoryOf board).Follows (Checksum.ofImage σ) (some other) := hmemory
        rw [describes_iff, memoryOf_remember, hready.memoryOf_eq]
        exact hfollows.remember hexpects
  · rw [hresult]
    intro hold key
    cases hvalidation with
    | blank _ hafter => exact hafter.find?_eq key
    | damaged _ _ _ hafter => exact hafter.find?_eq key
    | intact _ _ hafter => exact hafter.find?_eq key
    | new _ hnone =>
        rw [hnone] at hexpects
        split at hexpects
        · rename_i hisNew
          exact absurd ⟨rfl, hnew.mp hisNew⟩ hold
        · cases hexpects

-- Of a store that takes every value and knew no image at the start.
theorem store_describes_last_new (requests : List Request) (start : σ)
    (hversion : ValueStore.find? Settings.versionKey start = none)
    (hchecksum : ValueStore.find? Settings.checksumKey start = none) :
    let board := (serveAll requests start).2
    (lastNew requests start = none → ValueStore.find? Settings.checksumKey board = none ∧
      ValueStore.find? Settings.versionKey board = none) ∧
    ∀ last, lastNew requests start = some last →
      Describes last board ∧ ∀ image, Judged image last board := by
  have hstart : (memoryOf start).Follows (Checksum.ofImage σ) none := by
    rw [Memory.Follows, memoryOf, hversion, hchecksum]
  have hboard := memoryOf_serveAll requests hstart
  rw [Option.or_none] at hboard
  constructor
  · intro hnone
    rw [hnone] at hboard
    exact ⟨congrArg Memory.checksum hboard, congrArg Memory.version hboard⟩
  · intro last hlast
    rw [hlast] at hboard
    have hdescribes : Describes last (serveAll requests start).2 := (describes_iff ..).mpr hboard
    exact ⟨hdescribes, judged_of_describes hdescribes⟩

end

-- A board that is nothing but a store.
structure Shelf where
  objects : Bench.Table (List UInt8) := {}

namespace Shelf

instance : Logger Shelf where
  enabled _ _ := false
  record _ _ shelf := shelf

instance : TickCounter Shelf where
  count shelf := (0, shelf)
  sleep _ shelf := ((), shelf)
  restart shelf := ((), shelf)

instance : ValueStore Shelf where
  find? key shelf := shelf.objects.find? key
  store key value shelf := (.ok (), { objects := shelf.objects.insert key value })

instance : Checksum Shelf where
  ofImage := Crc32.ofBytes

instance : ReliableStore Shelf where
  find?_store key name value shelf := by
    by_cases hname : name = key
    · rw [if_pos ⟨rfl, hname⟩, hname]
      exact Bench.Table.find?_insert ..
    · rw [if_neg (fun h => hname h.2)]
      exact Bench.Table.find?_insert_of_ne _ _ hname
  find?_record _ _ _ _ := rfl
  find?_count _ _ := rfl
  isKept_eq _ _ _ := rfl

end Shelf

-- The image v2 comes after v1, and both are taken as new.
theorem store_describes_last_new_second :
    let requests := [.Decide {} (plainImage [0x76, 0x31]), .Validate (plainImage [0x76, 0x32])]
    let start : Shelf := {}
    let board := (serveAll requests start).2
    ValueStore.find? Settings.versionKey start = none ∧
      ValueStore.find? Settings.checksumKey start = none ∧
      lastNew requests start = some (plainImage [0x76, 0x32]) ∧
      Describes (plainImage [0x76, 0x32]) board ∧
      ∀ image, Judged image (plainImage [0x76, 0x32]) board := by
  intro requests start board
  have hlast : lastNew requests start = some (plainImage [0x76, 0x32]) := by decide +kernel
  exact ⟨rfl, rfl, hlast, (store_describes_last_new requests start rfl rfl).2 _ hlast⟩

end BoardControl.Boot
