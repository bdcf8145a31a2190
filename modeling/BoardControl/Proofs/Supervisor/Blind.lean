import BoardControl.Proofs.Journal

namespace BoardControl.Supervisor

open Bitstream (Logged)

-- Everything that a supervisor calls is blind to the level of the log.
structure Blindfold (σ ρ κ η : Type) [TickCounter σ] [Rail (Logged σ Journal) ρ]
    [Reset (Logged σ Journal) κ] [Hooks σ η] : Prop where
  switchOn : ∀ rail : ρ, Blind (σ := σ) (Rail.switchOn rail)
  switchOff : ∀ rail : ρ, Blind (σ := σ) (Rail.switchOff rail)
  isGood : ∀ rail : ρ, Blind (σ := σ) (Rail.isGood rail)
  hold : ∀ line : κ, Blind (σ := σ) (Reset.hold line)
  release : ∀ line : κ, Blind (σ := σ) (Reset.release line)
  isReady : ∀ line : κ, Blind (σ := σ) (Reset.isReady line)

section

variable {σ κ α : Type}

theorem visit_blind {act : κ → Action (Logged σ Journal) (α × κ)} (hact : ∀ line, Blind (act line))
    (index : Nat) (lines : List κ) : RunBlind (visit act index lines) := by
  induction lines generalizing index with
  | nil => cases index <;> exact .throw .OutOfRange
  | cons line rest ih =>
      cases index with
      | zero => exact .bind (.perform (hact line)) fun result => .pure (result.1, result.2 :: rest)
      | succ index => exact .bind (ih index) fun result => .pure (result.1, line :: result.2)

end

namespace Blindfold

variable {σ ρ κ η : Type} [TickCounter σ] [Rail (Logged σ Journal) ρ] [Reset (Logged σ Journal) κ]
  [Hooks σ η]

omit [TickCounter σ] [Rail (Logged σ Journal) ρ] [Reset (Logged σ Journal) κ] [Hooks σ η] in
theorem logs (severity : Severity) (text : String) :
    RunBlind (perform (log severity text) : Run (Logged σ Journal) Unit) :=
  .perform (.log severity text)

theorem switchOnAll (h : Blindfold σ ρ κ η) (rails : List ρ) :
    Blind (switchOnAll rails : Action (Logged σ Journal) Bool) := by
  induction rails with
  | nil => exact .pure true
  | cons rail rest ih =>
      refine .bind (h.switchOn rail) fun answer => ?_
      cases answer with
      | ok _ => exact ih
      | error _ => exact .pure false

theorem switchOffEach (h : Blindfold σ ρ κ η) (rails : List ρ) :
    Blind (switchOffEach rails : Action (Logged σ Journal) Unit) := by
  induction rails with
  | nil => exact .pure ()
  | cons rail rest ih => exact .bind (h.switchOff rail) fun _ => ih

theorem switchOffPaused (h : Blindfold σ ρ κ η) (ticks : UInt32) (rails : List ρ) :
    Blind (switchOffPaused (TickCounter.sleep ticks) rails : Action (Logged σ Journal) Unit) := by
  induction rails with
  | nil => exact .pure ()
  | cons rail rest ih =>
      exact .bind (h.switchOff rail) fun _ => .bind (.lift (TickCounter.sleep ticks)) fun _ => ih

theorem holdInOrder (h : Blindfold σ ρ κ η) (lines : List κ) :
    Blind (holdInOrder lines : Action (Logged σ Journal) (List κ)) := by
  induction lines with
  | nil => exact .pure []
  | cons line rest ih => exact .bind (h.hold line) fun held => .bind ih fun _ => .pure (held :: _)

theorem holdFromLast (h : Blindfold σ ρ κ η) (lines : List κ) :
    Blind (holdFromLast lines : Action (Logged σ Journal) (List κ)) := by
  induction lines with
  | nil => exact .pure []
  | cons line rest ih => exact .bind ih fun _ => .bind (h.hold line) fun held => .pure (held :: _)

theorem firstDown (h : Blindfold σ ρ κ η) (count : Nat) (lines : List κ) :
    RunBlind (firstDown count lines : Run (Logged σ Journal) (Option Nat × List κ)) := by
  induction lines generalizing count with
  | nil =>
      cases count with
      | zero => exact .pure (none, [])
      | succ count => exact .throw .OutOfRange
  | cons line rest ih =>
      cases count with
      | zero => exact .pure (none, line :: rest)
      | succ count =>
          refine .bind (.perform (h.isReady line)) fun result => ?_
          obtain ⟨ready, line⟩ := result
          cases ready with
          | true => exact .bind (ih count) fun _ => .pure _
          | false => exact .pure (some 0, line :: rest)

variable (sup : Supervisor ρ κ η)

theorem emergencyOff (h : Blindfold σ ρ κ η) :
    RunBlind (sup.emergencyOff : Run (Logged σ Journal) (Supervisor ρ κ η)) := by
  refine .bind (.perform (h.switchOffEach _)) fun _ => ?_
  refine .bind (.perform (h.holdInOrder _)) fun _ => .bind (logs _ _) fun _ => ?_
  exact .bind (.lift (Hooks.onFault sup.hooks)) fun _ => .pure _

theorem powerOff (h : Blindfold σ ρ κ η) :
    RunBlind (sup.powerOff : Run (Logged σ Journal) (Supervisor ρ κ η)) := by
  refine .bind (logs _ _) fun _ => .bind (.perform (h.holdFromLast _)) fun _ => ?_
  refine .bind (.perform (h.switchOffPaused _ _)) fun _ => ?_
  exact .bind (.perform (.lift (Hooks.onPowerOff sup.hooks))) fun _ => .pure _

omit [TickCounter σ] [Rail (Logged σ Journal) ρ] [Reset (Logged σ Journal) κ] in
theorem completeResets :
    RunBlind (sup.completeResets : Run (Logged σ Journal) (Supervisor ρ κ η)) :=
  .bind (logs _ _) fun _ =>
    .bind (.perform (.lift (Hooks.onResetDone sup.hooks))) fun _ => .pure _

theorem powerOn (h : Blindfold σ ρ κ η) :
    RunBlind (sup.powerOn : Run (Logged σ Journal) (Supervisor ρ κ η)) := by
  refine .bind (logs _ _) fun _ => .bind (.perform (h.switchOnAll _)) fun came => ?_
  have hooked (next : Supervisor ρ κ η) : RunBlind (do
      pure (next.withHooks (← perform (Hooks.onPowerOn next.hooks))) :
      Run (Logged σ Journal) (Supervisor ρ κ η)) :=
    .bind (.perform (.lift (Hooks.onPowerOn next.hooks))) fun _ => .pure _
  cases came with
  | false => exact h.emergencyOff sup
  | true =>
      refine .bind (logs _ _) fun _ => ?_
      obtain ⟨rails, resets, hooks, state⟩ := sup
      cases resets with
      | nil => exact .bind (completeResets _) hooked
      | cons first rest =>
          exact .bind (.perform (h.release first)) fun _ => .bind (.pure _) hooked

theorem advanceResets (h : Blindfold σ ρ κ η) :
    RunBlind (sup.advanceResets : Run (Logged σ Journal) (Supervisor ρ κ η)) := by
  rw [Supervisor.advanceResets]
  split
  · exact .pure sup
  · refine .bind (visit_blind h.isReady _ _) fun result => ?_
    obtain ⟨ready, resets⟩ := result
    cases ready with
    | false => exact .pure _
    | true =>
        simp only [↓reduceIte]
        split
        · exact completeResets _
        · refine .bind (visit_blind (fun line => ?_) _ _) fun _ => .pure _
          exact .bind (h.release line) fun _ => .pure _

theorem fallBackTo (h : Blindfold σ ρ κ η) (index : Nat) :
    RunBlind (fallBackTo index sup : Run (Logged σ Journal) (Supervisor ρ κ η)) := by
  rw [Supervisor.fallBackTo]
  split
  · exact .bind (.perform (h.holdFromLast _)) fun _ => .pure _
  · exact .throw .OutOfRange

theorem stepResets (h : Blindfold σ ρ κ η) :
    RunBlind (sup.stepResets : Run (Logged σ Journal) (Supervisor ρ κ η)) := by
  refine .bind (h.advanceResets sup) fun sup => .bind (h.firstDown _ _) fun result => ?_
  obtain ⟨down, resets⟩ := result
  cases down with
  | none => exact .pure _
  | some index =>
      refine .bind (visit_blind (fun line => .pure _) index resets) fun _ => ?_
      exact .bind (logs _ _) fun _ => h.fallBackTo _ index

theorem checkRail (h : Blindfold σ ρ κ η) :
    RunBlind (sup.checkRail : Run (Logged σ Journal) (Supervisor ρ κ η)) := by
  rw [Supervisor.checkRail]
  split
  · exact .pure sup
  · dsimp only
    cases sup.rails[sup.state.monitorIndex % sup.rails.length]? with
    | none => exact .throw .OutOfRange
    | some rail =>
        refine .bind (.perform (h.isGood rail)) fun good => ?_
        split
        · exact .pure _
        · split
          · exact .bind (logs _ _) fun _ => h.emergencyOff _
          · split
            · refine .bind (logs _ _) fun _ => .bind (h.powerOff _) fun sup => ?_
              exact .bind (.perform (.lift (Hooks.onPowerLost sup.hooks))) fun _ => .pure _
            · refine .bind (logs _ _) fun _ => ?_
              exact .bind (.perform (.lift (Hooks.onRailDegraded _ _))) fun _ => .pure _

theorem poll (h : Blindfold σ ρ κ η) :
    RunBlind (sup.poll : Run (Logged σ Journal) (Supervisor ρ κ η)) := by
  rw [Supervisor.poll]
  split
  · exact .bind (h.stepResets sup) fun sup => h.checkRail sup
  · exact .pure sup

end Blindfold

end BoardControl.Supervisor
