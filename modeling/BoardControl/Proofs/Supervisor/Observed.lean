import BoardControl.Proofs.Supervisor.Indices

namespace BoardControl.Supervisor

open Recorded Run

-- All that can be seen of a supervisor at work: what it asks of its rails, resets
-- and hooks, what it reads, how long it pauses, and which rail it reports.
inductive Note where
  | Did (command : Command)
  | Read (rail : Nat) (good : Bool)
  | Slept (ticks : UInt32)
  | Degraded (name : String)
deriving DecidableEq, Repr

-- A board with notes of what it was asked.
abbrev Observed (σ : Type) := Recorded σ Note

instance : Transcript Note where
  command := .Did
  degraded := .Degraded
  measured rail good := [.Read rail good]
  slept ticks := [.Slept ticks]

namespace Note

-- What a step of the reset chain may do.
def movesResets : Note → Bool
  | .Did (.Hold _) => true
  | .Did (.Release _) => true
  | .Did (.Called .ResetDone) => true
  | _ => false

-- What a pass may do that leaves the power on.
def sparesPower : Note → Bool
  | .Read _ _ => true
  | .Degraded _ => true
  | note => note.movesResets

theorem sparesPower_of_movesResets {note : Note} (h : note.movesResets = true) :
    note.sparesPower = true := by
  cases note with
  | Did command => exact h
  | Read rail good => rfl
  | Slept ticks => exact h
  | Degraded name => rfl

end Note

-- Every rail off from last to first with no pause, and every reset held after them.
def emergencyNotes (rails resets : Nat) : List Note :=
  (List.range rails).reverse.map (.Did <| .SwitchOff ·) ++
    ((List.range resets).map (.Did <| .Hold ·) ++ [.Did (.Called .Fault)])

-- Every reset held from last to first, then the rails off with a pause after each.
def powerLostNotes (rails resets : Nat) : List Note :=
  (List.range resets).reverse.map (.Did <| .Hold ·) ++
    ((List.range rails).reverse.flatMap
      (fun rail => [.Did (.SwitchOff rail), .Slept Settings.railOffSettle]) ++
      [.Did (.Called .PowerOff), .Did (.Called .PowerLost)])

section

variable {σ ρ κ η : Type}

-- A line keeps its place, and a step of the chain only ever moves resets.
theorem bystander_observed [Logger σ] [Reset σ κ] [Hooks σ η] (earlier : List Note) :
    Bystander η (Numbered.place : Numbered κ → Nat) fun observed : Observed σ =>
      ∃ moves, observed.events = earlier ++ moves ∧ ∀ note ∈ moves, note.movesResets = true := by
  -- One more note at the end is enough for every field.
  have hsnoc : ∀ (notes : List Note) (note : Note), note.movesResets = true →
      (∃ moves, notes = earlier ++ moves ∧ ∀ note ∈ moves, note.movesResets = true) →
      ∃ moves, notes ++ [note] = earlier ++ moves ∧ ∀ note ∈ moves, note.movesResets = true := by
    rintro notes note hnote ⟨moves, rfl, hmoves⟩
    refine ⟨moves ++ [note], List.append_assoc _ _ _, ?_⟩
    intro other hother
    rcases List.mem_append.mp hother with hmem | hmem
    · exact hmoves other hmem
    · rw [List.mem_singleton.mp hmem]
      exact hnote
  exact {
    log := fun severity text observed h => by
      rw [events_log]
      exact h
    hold := fun line observed h => ⟨rfl, hsnoc _ _ rfl h⟩
    release := fun line observed h => ⟨rfl, hsnoc _ _ rfl h⟩
    isReady := fun line observed h => ⟨rfl, by
      change ∃ moves, observed.events ++ [] = _ ∧ _
      rw [List.append_nil]
      exact h⟩
    onResetDone := fun hooks observed h => hsnoc _ _ rfl h }

variable [Logger σ] [Rail σ ρ] [Reset σ κ] [Hooks σ η]
  {sup : Supervisor (Numbered ρ) (Numbered κ) η} {rails resets : Nat} (observed : Observed σ)

theorem notes_emergencyOff (hrails : places sup.rails = List.range rails)
    (hresets : places sup.resets = List.range resets) :
    Leaves sup.emergencyOff observed
      (fun next after => after.events = observed.events ++ emergencyNotes rails resets ∧
        next.state.powerOn = false)
      fun after => after.events = observed.events ++ emergencyNotes rails resets := by
  have hleaves := emergencyOff_leaves sup observed
  rw [hrails, hresets] at hleaves
  apply hleaves.mono
  · rintro next after ⟨hafter, _, _, hstate⟩
    exact ⟨hafter, congrArg SequencerState.powerOn hstate⟩
  · exact fun _ => id

theorem notes_powerOff [TickCounter σ] (hrails : places sup.rails = List.range rails)
    (hresets : places sup.resets = List.range resets) :
    Ends sup.powerOff observed fun next after =>
      after.events ++ [.Did (.Called .PowerLost)] =
        observed.events ++ powerLostNotes rails resets ∧ next.state.powerOn = false := by
  apply (powerOff_ends sup observed).mono
  rintro next after ⟨hafter, _, _, hstate⟩
  refine ⟨?_, congrArg SequencerState.powerOn hstate⟩
  rw [hafter, hrails, hresets, powerOffScript, List.append_assoc, List.append_assoc,
    List.append_assoc]
  rfl

end

end BoardControl.Supervisor
