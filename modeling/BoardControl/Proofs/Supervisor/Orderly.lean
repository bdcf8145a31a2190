import BoardControl.Proofs.Supervisor.Sequencing
import BoardControl.Proofs.Supervisor.Walks

namespace BoardControl.Supervisor

open Run

-- The later trace goes on without a command to a rail.
def Spares (earlier later : List Command) : Prop :=
  ∃ script, later = earlier ++ script ∧ ∀ command ∈ script, command.rail? = none

namespace Spares

variable {earlier middle later : List Command}

theorem refl (trace : List Command) : Spares trace trace :=
  ⟨[], (List.append_nil trace).symm, nofun⟩

theorem trans (h : Spares earlier middle) (h' : Spares middle later) : Spares earlier later := by
  obtain ⟨first, rfl, hfirst⟩ := h
  obtain ⟨second, rfl, hsecond⟩ := h'
  refine ⟨first ++ second, List.append_assoc .., ?_⟩
  intro command hmem
  rcases List.mem_append.mp hmem with hmem | hmem
  · exact hfirst command hmem
  · exact hsecond command hmem

theorem append (earlier : List Command) {script : List Command}
    (hscript : ∀ command ∈ script, command.rail? = none) : Spares earlier (earlier ++ script) :=
  ⟨script, rfl, hscript⟩

theorem called (earlier : List Command) (hook : Hook) :
    Spares earlier (earlier ++ [.Called hook]) := append earlier (by simp [Command.rail?])

end Spares

-- The commands of a shutdown that could start anywhere. Rails go off first, since
-- the board loses power anyway.
def emergencyCommands (rails resets : Nat) : List Command :=
  (List.range rails).reverse.map .SwitchOff ++ ((List.range resets).map .Hold ++ [.Called .Fault])

-- The commands of a shutdown in which the board is reset before it loses power.
def powerOffCommands (rails resets : Nat) : List Command :=
  (List.range resets).reverse.map .Hold ++
    ((List.range rails).reverse.map .SwitchOff ++ [.Called .PowerOff])

section

variable {ρ κ η : Type}

-- What holds of a supervisor and of the commands it has given at any time, also
-- halfway through an operation.
structure Orderly (rails resets : Nat) (sup : Supervisor (Numbered ρ) (Numbered κ) η)
    (commands : List Command) : Prop where
  railPlaces : places sup.rails = List.range rails
  resetPlaces : places sup.resets = List.range resets
  safe : Safe rails resets commands
  ordered : ∃ count ≤ rails, FirstUp rails count commands

-- With power on, every rail has come up and none has been switched off since.
structure Running (rails resets : Nat) (sup : Supervisor (Numbered ρ) (Numbered κ) η)
    (commands : List Command) : Prop extends Orderly rails resets sup commands where
  isOn : sup.state.powerOn = true
  came : ∀ rail < rails, Came rail commands
  inChain : sup.state.resetIndex ≤ resets

structure Stopped (rails resets : Nat) (sup : Supervisor (Numbered ρ) (Numbered κ) η)
    (commands : List Command) : Prop extends Orderly rails resets sup commands where
  isOff : sup.state.powerOn = false
  down : ∀ rail < rails, ¬ Up rail commands

variable {rails resets : Nat} {sup next : Supervisor (Numbered ρ) (Numbered κ) η}
  {commands later : List Command}

theorem Orderly.length_resets (h : Orderly rails resets sup commands) :
    sup.resets.length = resets := by
  rw [← length_places, h.resetPlaces, List.length_range]

-- With every rail up, resets may be released and held in any order.
theorem Running.spared (h : Running rails resets sup commands) (hspares : Spares commands later)
    (hrails : next.rails = sup.rails) (hresets : places next.resets = places sup.resets)
    (hon : next.state.powerOn = true) (hchain : next.state.resetIndex ≤ resets) :
    Running rails resets next later := by
  obtain ⟨script, rfl, hscript⟩ := hspares
  obtain ⟨count, hcount, hfirst⟩ := h.ordered
  exact {
    railPlaces := by rw [hrails, h.railPlaces]
    resetPlaces := by rw [hresets, h.resetPlaces]
    safe := h.safe.append (allowedFrom_of_spares hfirst hscript fun _ _ => h.came)
    ordered := ⟨count, hcount, firstUp_append_of_spares hfirst hscript⟩
    isOn := hon
    came := fun rail hrail => (came_append_iff hscript).mpr (h.came rail hrail)
    inChain := hchain }

theorem Running.withResets (h : Running rails resets sup commands) {lines : List (Numbered κ)}
    (hlines : places lines = places sup.resets) (hspares : Spares commands later) :
    Running rails resets (sup.withResets lines) later :=
  h.spared hspares rfl hlines h.isOn h.inChain

theorem Running.withHooks (h : Running rails resets sup commands) (hooks : η)
    (hspares : Spares commands later) : Running rails resets (sup.withHooks hooks) later :=
  h.spared hspares rfl rfl h.isOn h.inChain

-- Going through all rails may find some of them up already.
theorem Orderly.switchedOn (h : Orderly rails resets sup commands) :
    Orderly rails resets sup (commands ++ (List.range rails).map (.SwitchOn · true)) := by
  obtain ⟨count, hcount, hfirst⟩ := h.ordered
  obtain ⟨hallowed, hup⟩ : AllowedFrom rails resets [] commands _ ∧ _ :=
    allowedFrom_switchOn 0 rails hfirst (Nat.zero_le _)
  rw [← List.range_eq_range'] at hallowed hup
  refine { h with safe := h.safe.append hallowed, ordered := ⟨_, ?_, hup⟩ }
  omega

-- The rails before the one that failed are up, and so is that one until it is
-- switched off again.
theorem Orderly.failedAt (h : Orderly rails resets sup commands) {failed : Nat}
    (hfailed : failed < rails) :
    Orderly rails resets sup (commands ++
      ((List.range failed).map (.SwitchOn · true) ++ [.SwitchOn failed false])) := by
  obtain ⟨count, hcount, hfirst⟩ := h.ordered
  obtain ⟨hallowed, hup⟩ : AllowedFrom rails resets [.SwitchOn failed false] commands _ ∧ _ :=
    allowedFrom_switchOn 0 failed hfirst (Nat.zero_le _)
  rw [← List.range_eq_range'] at hallowed hup
  have hlast := firstUp_switchOn hup (show failed ≤ _ by omega) false
  have hfailure : Allowed rails resets (commands ++ (List.range failed).map (.SwitchOn · true))
      (.SwitchOn failed false) [] := ⟨⟨_, hlast⟩, nofun, nofun⟩
  rw [List.append_assoc] at hlast
  refine { h with safe := h.safe.append ?_, ordered := ⟨_, ?_, hlast⟩ }
  · rw [allowedFrom_append]
    exact ⟨hallowed, hfailure, trivial⟩
  · omega

theorem Orderly.emergency (h : Orderly rails resets sup commands) :
    Safe rails resets (commands ++ emergencyCommands rails resets) ∧
      FirstUp rails 0 (commands ++ emergencyCommands rails resets) := by
  obtain ⟨count, hcount, hfirst⟩ := h.ordered
  have hended : endedBy ((List.range resets).map .Hold ++ [.Called .Fault]) = some .Fault := by
    rw [endedBy_append_of_silent (by simp [Command.hook?])]
    rfl
  have hspares : ∀ command ∈ (List.range resets).map Command.Hold ++ [.Called .Fault],
      command.rail? = none := by simp [Command.rail?, or_imp, forall_and]
  obtain ⟨hallowed, hnone⟩ :=
    allowedFrom_switchOff rails hfirst hcount (.inl hended)
  have hrest : AllowedFrom rails resets [] (commands ++ (List.range rails).reverse.map .SwitchOff)
      ((List.range resets).map .Hold ++ [.Called .Fault]) :=
    allowedFrom_of_spares hnone hspares (by simp)
  refine ⟨h.safe.append (allowedFrom_append.mpr ⟨?_, hrest⟩), ?_⟩
  · rwa [List.append_nil]
  · rw [emergencyCommands, ← List.append_assoc]
    exact firstUp_append_of_spares hnone hspares

theorem Orderly.powerOff (h : Orderly rails resets sup commands) :
    Safe rails resets (commands ++ powerOffCommands rails resets) ∧
      FirstUp rails 0 (commands ++ powerOffCommands rails resets) := by
  obtain ⟨count, hcount, hfirst⟩ := h.ordered
  have hspares : ∀ command ∈ (List.range resets).reverse.map Command.Hold,
      command.rail? = none := by simp [Command.rail?]
  have hheld : ∀ reset < resets,
      Held reset (commands ++ (List.range resets).reverse.map .Hold) := by
    intro reset hreset
    apply latest_append_map (fun _ => rfl)
    simpa using hreset
  have hcalled : ∀ command ∈ [Command.Called .PowerOff], command.rail? = none := by
    simp [Command.rail?]
  obtain ⟨hallowed, hnone⟩ : AllowedFrom rails resets [.Called .PowerOff] _ _ ∧ _ :=
    allowedFrom_switchOff rails (firstUp_append_of_spares hfirst hspares) hcount (.inr ⟨rfl, hheld⟩)
  have hholds : AllowedFrom rails resets
      ((List.range rails).reverse.map .SwitchOff ++ [.Called .PowerOff]) commands
      ((List.range resets).reverse.map .Hold) :=
    allowedFrom_of_spares hfirst hspares (by simp)
  have hhook : AllowedFrom rails resets [] _ [.Called .PowerOff] :=
    allowedFrom_of_spares hnone hcalled (by simp)
  refine ⟨h.safe.append ?_, ?_⟩
  · rw [powerOffCommands, allowedFrom_append, allowedFrom_append, List.append_nil]
    exact ⟨hholds, hallowed, hhook⟩
  · rw [powerOffCommands, ← List.append_assoc, ← List.append_assoc]
    exact firstUp_append_of_spares hnone hcalled

-- Whatever shut the board down, no rail is up and power counts as off.
theorem Orderly.stopped (h : Orderly rails resets sup commands)
    (hscript : Safe rails resets later ∧ FirstUp rails 0 later)
    (hrails : next.rails = sup.rails) (hresets : places next.resets = places sup.resets)
    (hoff : next.state.powerOn = false) : Stopped rails resets next later where
  railPlaces := by rw [hrails, h.railPlaces]
  resetPlaces := by rw [hresets, h.resetPlaces]
  safe := hscript.1
  ordered := ⟨0, Nat.zero_le _, hscript.2⟩
  isOff := hoff
  down rail hrail hup := Nat.not_lt_zero _ ((hscript.2 rail hrail).mp hup)

theorem Stopped.called (h : Stopped rails resets sup commands) (hook : Hook) :
    Safe rails resets (commands ++ [.Called hook]) ∧
      FirstUp rails 0 (commands ++ [.Called hook]) := by
  have hnone : FirstUp rails 0 commands := fun rail hrail =>
    iff_of_false (h.down rail hrail) (Nat.not_lt_zero _)
  have hcalled : ∀ command ∈ [Command.Called hook], command.rail? = none := by simp [Command.rail?]
  refine ⟨h.safe.append (allowedFrom_of_spares hnone hcalled (by simp)), ?_⟩
  exact firstUp_append_of_spares hnone hcalled

end

end BoardControl.Supervisor
