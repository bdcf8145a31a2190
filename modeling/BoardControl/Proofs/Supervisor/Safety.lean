import BoardControl.Bench.Units
import BoardControl.Proofs.Supervisor.Erasure
import BoardControl.Proofs.Supervisor.Operations

namespace BoardControl.Supervisor

open Run

-- What an application may call, in any order.
inductive Operation where
  | PowerOn
  | PowerOff
  | EmergencyOff
  | Poll
deriving DecidableEq, Repr

section

variable {σ ρ κ η : Type} [TickCounter σ] [Logger σ] [Rail σ ρ] [Reset σ κ] [Hooks σ η]

def operate (sup : Supervisor ρ κ η) : Operation → Run σ (Supervisor ρ κ η)
  | .PowerOn => sup.powerOn
  | .PowerOff => sup.powerOff
  | .EmergencyOff => sup.emergencyOff
  | .Poll => sup.poll

def operateAll (operations : List Operation) (sup : Supervisor ρ κ η) :
    Run σ (Supervisor ρ κ η) := operations.foldlM operate sup

theorem operateAll_append (first second : List Operation) (sup : Supervisor ρ κ η) :
    (operateAll (first ++ second) sup : Run σ _) =
      operateAll first sup >>= operateAll second := List.foldlM_append

theorem operate_mirrors {τ : Type} [TickCounter τ] [Logger τ] [Rail τ (Numbered ρ)]
    [Reset τ (Numbered κ)] [Hooks τ η] {view : τ → σ} (h : Mirror ρ κ η view)
    (operation : Operation) (sup : Supervisor (Numbered ρ) (Numbered κ) η) :
    RunMirrors view unnumbered (operate sup operation) (operate (unnumbered sup) operation) := by
  cases operation with
  | PowerOn => exact h.powerOn sup
  | PowerOff => exact h.powerOff sup
  | EmergencyOff => exact h.emergencyOff sup
  | Poll => exact h.poll sup

theorem operateAll_mirrors {τ : Type} [TickCounter τ] [Logger τ] [Rail τ (Numbered ρ)]
    [Reset τ (Numbered κ)] [Hooks τ η] {view : τ → σ} (h : Mirror ρ κ η view)
    (operations : List Operation) (sup : Supervisor (Numbered ρ) (Numbered κ) η) :
    RunMirrors view unnumbered (operateAll operations sup)
      (operateAll operations (unnumbered sup)) := by
  induction operations generalizing sup with
  | nil => exact .pure sup
  | cons operation rest ih => exact .bind (operate_mirrors h operation sup) ih

theorem operateAll_erases {ε : Type} [Transcript ε] (operations : List Operation)
    (sup : Supervisor (Numbered ρ) (Numbered κ) η) :
    RunMirrors (σ := σ) (τ := Recorded σ ε) Recorded.board unnumbered (operateAll operations sup)
      (operateAll operations (unnumbered sup)) :=
  operateAll_mirrors mirror_recorded operations sup

variable {rails resets : Nat} {sup : Supervisor (Numbered ρ) (Numbered κ) η} {traced : Traced σ}

-- Between operations a supervisor is either all the way on or all the way off.
theorem ends_operate (hreturns : FaultReturns σ η) (operation : Operation)
    (h : Running rails resets sup traced.events ∨ Stopped rails resets sup traced.events) :
    Ends (operate sup operation) traced fun next after =>
      Running rails resets next after.events ∨ Stopped rails resets next after.events := by
  have horderly : Orderly rails resets sup traced.events := by
    rcases h with h | h
    · exact h.toOrderly
    · exact h.toOrderly
  cases operation with
  | PowerOn => exact ends_powerOn hreturns horderly
  | PowerOff => exact (ends_powerOff horderly).mono fun _ _ => .inr
  | EmergencyOff => exact (ends_emergencyOff hreturns horderly).mono fun _ _ => .inr
  | Poll => exact ends_poll hreturns h

theorem ends_operateAll (hreturns : FaultReturns σ η) (operations : List Operation)
    (h : Running rails resets sup traced.events ∨ Stopped rails resets sup traced.events) :
    Ends (operateAll operations sup) traced fun next after =>
      Running rails resets next after.events ∨ Stopped rails resets next after.events := by
  induction operations generalizing sup traced with
  | nil => exact (ends_pure sup _).mpr h
  | cons operation rest ih =>
      rw [operateAll, List.foldlM_cons, ends_bind]
      exact (ends_operate hreturns operation h).mono fun _ _ => ih

-- A new supervisor with its rails and resets numbered in list order.
def built (rails : List ρ) (resets : List κ) (hooks : η) :
    Supervisor (Numbered ρ) (Numbered κ) η :=
  { rails := numbered rails, resets := numbered resets, hooks }

omit [TickCounter σ] [Logger σ] [Rail σ ρ] [Reset σ κ] [Hooks σ η] in
theorem unnumbered_built (rails : List ρ) (resets : List κ) (hooks : η) :
    unnumbered (built rails resets hooks) = { rails, resets, hooks } := by
  simp [unnumbered, built]

theorem stopped_built (rails : List ρ) (resets : List κ) (hooks : η) :
    Stopped rails.length resets.length (built rails resets hooks) [] where
  railPlaces := places_numbered rails
  resetPlaces := places_numbered resets
  safe := safe_nil
  ordered := ⟨0, Nat.zero_le _, firstUp_nil⟩
  isOff := rfl
  down rail hrail hup := Nat.not_lt_zero _ ((firstUp_nil rail hrail).mp hup)

-- Whatever the rails and resets answer and whatever is called in which order,
-- the rails that are up are the first ones after every single command, resets are
-- released only while every rail has come up, and an orderly shutdown holds every
-- reset before a rail goes off.
theorem sequencing_safe (hreturns : FaultReturns σ η) (rails : List ρ) (resets : List κ)
    (hooks : η) (board : σ) (operations : List Operation) :
    ∃ (sup : Supervisor (Numbered ρ) (Numbered κ) η) (after : Traced σ),
      operateAll operations (built rails resets hooks) { board } = .ok sup after ∧
      operateAll operations { rails, resets, hooks } board = .ok (unnumbered sup) after.board ∧
      Safe rails.length resets.length after.events ∧
      (sup.state.powerOn = true → ∀ rail < rails.length, Up rail after.events) ∧
      (sup.state.powerOn = false → ∀ rail < rails.length, ¬ Up rail after.events) := by
  obtain ⟨sup, after, hrun, hends⟩ :
      Ends (operateAll operations (built rails resets hooks)) { board } _ :=
    ends_operateAll hreturns operations (.inr (stopped_built rails resets hooks))
  have hbare := (operateAll_erases operations _).ok hrun
  rw [unnumbered_built] at hbare
  refine ⟨sup, after, hrun, hbare, ?_⟩
  rcases hends with h | h
  · refine ⟨h.safe, fun _ rail hrail => (h.came rail hrail).up, ?_⟩
    intro hoff
    cases h.isOn.symm.trans hoff
  · refine ⟨h.safe, ?_, fun _ => h.down⟩
    intro hon
    cases h.isOff.symm.trans hon

end

section

open Bench

-- Hooks that do nothing, not even after a fault.
inductive Tolerant where
  | mk
deriving DecidableEq, Repr

instance (σ : Type) : Hooks σ Tolerant where
  onFault := pure

-- A supply that is never good once it is on, and a rail behind it.
def supplied : List BenchRail :=
  [.Mock "supply" none "supply_good" false true, .Bare "core" none]

def chained : List BenchReset := [.Bare "processor", .Bare "link"]

theorem sequencing_safe_supply_lost :
    FaultReturns Board Tolerant ∧ ∃ sup after,
      operateAll [.PowerOn, .Poll] (built supplied chained Tolerant.mk)
        ({ board := {} } : Traced Board) = .ok sup after ∧
      operateAll [.PowerOn, .Poll] { rails := supplied, resets := chained, hooks := Tolerant.mk }
        ({} : Board) = .ok (unnumbered sup) after.board ∧
      Safe 2 2 after.events ∧
      (sup.state.powerOn = true → ∀ rail < 2, Up rail after.events) ∧
      (sup.state.powerOn = false → ∀ rail < 2, ¬ Up rail after.events) := by
  have hreturns : FaultReturns Board Tolerant := fun hooks board => ⟨hooks, board, rfl⟩
  exact ⟨hreturns, sequencing_safe hreturns supplied chained .mk {} [.PowerOn, .Poll]⟩

-- The input supply is found to be gone while the second reset is being released.
example : (match operateAll [.PowerOn, .Poll] (built supplied chained Tolerant.mk)
        ({ board := {} } : Traced Board) with
      | .ok _ after => after.events
      | .error _ after => after.events) =
    [.SwitchOn 0 true, .SwitchOn 1 true, .Release 0, .Called .PowerOn, .Release 1,
      .Hold 1, .Hold 0, .SwitchOff 1, .SwitchOff 0, .Called .PowerOff, .Called .PowerLost] := by
  decide +kernel

end

end BoardControl.Supervisor
