import BoardControl.Proofs.Supervisor.Operations

namespace BoardControl.Supervisor

open Run

def Released (reset : Nat) (trace : List Command) : Prop :=
  latest Command.reset? reset trace = some (.Release reset)

-- Held by its latest command, or never given one: a line starts held.
def Kept (reset : Nat) (trace : List Command) : Prop :=
  latest Command.reset? reset trace = none ∨ Held reset trace

-- The released lines are the first `count` ones.
def FirstReleased (resets count : Nat) (trace : List Command) : Prop :=
  ∀ reset < resets, (reset < count → Released reset trace) ∧ (count ≤ reset → Kept reset trace)

section

variable {resets count reset : Nat} {trace script : List Command}

theorem not_released_of_kept (h : Kept reset trace) : ¬ Released reset trace := by
  intro hreleased
  rcases h with hnone | hheld
  · cases hnone.symm.trans hreleased
  · cases hheld.symm.trans hreleased

theorem firstReleased_nil : FirstReleased resets 0 [] :=
  fun _ _ => ⟨fun hlt => absurd hlt (Nat.not_lt_zero _), fun _ => .inl rfl⟩

theorem firstReleased_append (h : FirstReleased resets count trace)
    (hspares : ∀ command ∈ script, command.reset? = none) :
    FirstReleased resets count (trace ++ script) := by
  intro reset hreset
  simp only [Released, Kept, Held, latest_append_of_silent hspares]
  exact h reset hreset

theorem FirstReleased.saturated (h : FirstReleased resets resets trace) :
    FirstReleased resets (resets + 1) trace := by
  intro reset hreset
  refine ⟨fun _ => (h reset hreset).1 hreset, fun hle => ?_⟩
  omega

-- The next line joins those that are released.
theorem firstReleased_release (h : FirstReleased resets count trace) :
    FirstReleased resets (count + 1) (trace ++ [.Release count]) := by
  intro reset hreset
  by_cases hsame : count = reset
  · subst hsame
    refine ⟨fun _ => ?_, fun hle => absurd hle (Nat.not_succ_le_self _)⟩
    rw [Released, latest_append_singleton, Command.reset?, if_pos rfl]
  · have hother : Command.reset? (.Release count) ≠ some reset := fun heq =>
      hsame (Option.some.inj heq)
    simp only [Released, Kept, Held, latest_append_singleton, if_neg hother]
    obtain ⟨hreleased, hkept⟩ := h reset hreset
    exact ⟨fun hlt => hreleased (by omega), fun hle => hkept (by omega)⟩

-- Holding every line from some place on leaves those before it released.
theorem firstReleased_hold {first : Nat} {others : List Nat} (h : FirstReleased resets count trace)
    (hfirst : first ≤ count) (hothers : ∀ reset < resets, reset ∈ others ↔ first ≤ reset) :
    FirstReleased resets first (trace ++ others.map .Hold) := by
  intro reset hreset
  refine ⟨fun hlt => ?_, fun hle => ?_⟩
  · have hspares : ∀ command ∈ others.map Command.Hold, command.reset? ≠ some reset := by
      intro command hmem heq
      obtain ⟨other, hother, rfl⟩ := List.mem_map.mp hmem
      obtain rfl : other = reset := Option.some.inj heq
      have hle := (hothers other hreset).mp hother
      omega
    rw [Released, latest_append_of_spares hspares]
    exact (h reset hreset).1 (by omega)
  · exact .inr (latest_append_map (fun _ => rfl) ((hothers reset hreset).mpr hle))

end

section

variable {ρ κ η : Type}

-- With power on, the chain is released up to the stage that is waited for. It is
-- done once that stage is past the last line.
structure Chained (resets : Nat) (sup : Supervisor (Numbered ρ) (Numbered κ) η)
    (commands : List Command) : Prop where
  resetPlaces : places sup.resets = List.range resets
  isOn : sup.state.powerOn = true
  inChain : sup.state.resetIndex ≤ resets
  done_iff : sup.state.resetsDone = true ↔ sup.state.resetIndex = resets
  released : FirstReleased resets (sup.state.resetIndex + 1) commands

-- With power off, every line is held and the chain is at its start.
structure Unchained (resets : Nat) (sup : Supervisor (Numbered ρ) (Numbered κ) η)
    (commands : List Command) : Prop where
  resetPlaces : places sup.resets = List.range resets
  isOff : sup.state.powerOn = false
  notDone : sup.state.resetsDone = false
  atStart : sup.state.resetIndex = 0
  kept : FirstReleased resets 0 commands

variable {resets count : Nat} {sup next : Supervisor (Numbered ρ) (Numbered κ) η}
  {commands later script : List Command}

theorem length_of_places {lines : List (Numbered κ)} (h : places lines = List.range resets) :
    lines.length = resets := by
  rw [← length_places, h, List.length_range]

theorem Chained.spared (h : Chained resets sup commands) (hlater : later = commands ++ script)
    (hspares : ∀ command ∈ script, command.reset? = none)
    (hresets : places next.resets = places sup.resets)
    (hon : next.state.powerOn = sup.state.powerOn)
    (hdone : next.state.resetsDone = sup.state.resetsDone)
    (hindex : next.state.resetIndex = sup.state.resetIndex) : Chained resets next later where
  resetPlaces := by rw [hresets, h.resetPlaces]
  isOn := by rw [hon, h.isOn]
  inChain := by rw [hindex]; exact h.inChain
  done_iff := by rw [hdone, hindex]; exact h.done_iff
  released := by
    rw [hlater, hindex]
    exact firstReleased_append h.released hspares

theorem Chained.withHooks (h : Chained resets sup commands) (hooks : η) (hook : Hook) :
    Chained resets (sup.withHooks hooks) (commands ++ [.Called hook]) :=
  h.spared rfl (by simp [Command.reset?]) rfl rfl rfl rfl

theorem Unchained.withHooks (h : Unchained resets sup commands) (hooks : η) (hook : Hook) :
    Unchained resets (sup.withHooks hooks) (commands ++ [.Called hook]) :=
  { h with kept := firstReleased_append h.kept (by simp [Command.reset?]) }

-- What every shutdown has in common.
theorem unchained_of_shutdown {before after : List Command} {others : List Nat}
    (hplaces : places sup.resets = List.range resets)
    (hfirst : FirstReleased resets count (commands ++ before))
    (hothers : ∀ reset < resets, reset ∈ others)
    (hafter : ∀ command ∈ after, command.reset? = none)
    (hlater : later = commands ++ (before ++ (others.map .Hold ++ after)))
    (hresets : places next.resets = places sup.resets) (hstate : next.state = sup.cleared.state) :
    Unchained resets next later where
  resetPlaces := by rw [hresets, hplaces]
  isOff := by rw [hstate]; rfl
  notDone := by rw [hstate]; rfl
  atStart := by rw [hstate]; rfl
  kept := by
    have hheld := firstReleased_hold hfirst (Nat.zero_le _)
      fun reset hreset => iff_of_true (hothers reset hreset) (Nat.zero_le _)
    rw [hlater, ← List.append_assoc, ← List.append_assoc]
    exact firstReleased_append hheld hafter

end

end BoardControl.Supervisor
