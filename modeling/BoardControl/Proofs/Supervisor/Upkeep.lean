import BoardControl.Proofs.Run
import BoardControl.Proofs.Supervisor.Safety

namespace BoardControl.Supervisor

open Run

section

variable {σ ρ κ η α : Type} {keeps : List κ → σ → Prop}

-- The board may change in this way without a word to the reset lines.
def Spared (keeps : List κ → σ → Prop) (act : Action σ α) : Prop :=
  ∀ lines board, keeps lines board → keeps lines (act board).2

-- Any one of the reset lines may be used in this way.
def Served (keeps : List κ → σ → Prop) (act : κ → Action σ (α × κ)) : Prop :=
  ∀ before line after board, keeps (before ++ line :: after) board →
    keeps (before ++ (act line board).1.2 :: after) (act line board).2

section

variable (ρ η : Type) [TickCounter σ] [Logger σ] [Rail σ ρ] [Reset σ κ] [Hooks σ η]

-- A property of the reset lines and their board that no single call of a
-- supervisor breaks, whatever it answers.
structure Upkeep (keeps : List κ → σ → Prop) : Prop where
  log : ∀ severity text, Spared keeps (log (σ := σ) severity text)
  sleep : ∀ ticks, Spared keeps (TickCounter.sleep (σ := σ) ticks)
  switchOn : ∀ rail : ρ, Spared keeps (Rail.switchOn (σ := σ) rail)
  switchOff : ∀ rail : ρ, Spared keeps (Rail.switchOff (σ := σ) rail)
  isGood : ∀ rail : ρ, Spared keeps (Rail.isGood (σ := σ) rail)
  onPowerOn : ∀ hooks : η, Spared keeps (Hooks.onPowerOn (σ := σ) hooks)
  onPowerOff : ∀ hooks : η, Spared keeps (Hooks.onPowerOff (σ := σ) hooks)
  onResetDone : ∀ hooks : η, Spared keeps (Hooks.onResetDone (σ := σ) hooks)
  onPowerLost : ∀ hooks : η, Spared keeps (Hooks.onPowerLost (σ := σ) hooks)
  onRailDegraded : ∀ name (hooks : η), Spared keeps (Hooks.onRailDegraded (σ := σ) name hooks)
  onFault : ∀ (hooks : η) lines board, keeps lines board →
    Leaves (Hooks.onFault hooks) board (fun (_ : η) after => keeps lines after)
      fun after => ∃ lines, keeps lines after
  hold : Served keeps fun line : κ => do pure ((), ← Reset.hold (σ := σ) line)
  release : Served keeps fun line : κ => do pure ((), ← Reset.release (σ := σ) line)
  isReady : Served keeps (Reset.isReady (σ := σ))

end

-- The property still holds of the lines that a run hands back. A run that faults
-- hands none back, and it still holds of those it had come to.
def Upkept (keeps : List κ → σ → Prop) (run : Run σ (Supervisor ρ κ η)) (board : σ) : Prop :=
  Leaves run board (fun next after => keeps next.resets after)
    fun after => ∃ lines, keeps lines after

namespace Upkeep

section

variable [TickCounter σ] [Logger σ] [Rail σ ρ] [Reset σ κ] [Hooks σ η] {board : σ}
  {sup : Supervisor ρ κ η}

theorem switchOnAll (h : Upkeep ρ η keeps) (rails : List ρ) :
    Spared keeps (switchOnAll (σ := σ) rails) := by
  intro lines board hkeeps
  induction rails generalizing board with
  | nil => exact hkeeps
  | cons rail rest ih =>
      have hnext := h.switchOn rail lines board hkeeps
      have hstep : Supervisor.switchOnAll (rail :: rest) board =
          match Rail.switchOn rail board with
          | (.ok (), next) => Supervisor.switchOnAll rest next
          | (.error _, next) => (false, next) := by
        simp only [Supervisor.switchOnAll, bind, StateT.bind]
        rcases Rail.switchOn rail board with ⟨_ | _, next⟩ <;> rfl
      rw [hstep]
      rcases hon : Rail.switchOn rail board with ⟨reason | answer, next⟩
      · rw [hon] at hnext
        exact hnext
      · rw [hon] at hnext
        exact ih next hnext

theorem switchOffEach (h : Upkeep ρ η keeps) (rails : List ρ) :
    Spared keeps (switchOffEach (σ := σ) rails) := by
  intro lines board hkeeps
  induction rails generalizing board with
  | nil => exact hkeeps
  | cons rail rest ih => exact ih _ (h.switchOff rail lines board hkeeps)

theorem switchOffPaused (h : Upkeep ρ η keeps) (rails : List ρ) (ticks : UInt32) :
    Spared keeps (switchOffPaused (σ := σ) (TickCounter.sleep ticks) rails) := by
  intro lines board hkeeps
  induction rails generalizing board with
  | nil => exact hkeeps
  | cons rail rest ih =>
      have hoff := h.switchOff rail lines board hkeeps
      exact ih _ (h.sleep ticks lines _ hoff)

-- Lines are held one after another, each with those before it as they are by now.

theorem holdInOrder (h : Upkeep ρ η keeps) (before lines : List κ)
    (hkeeps : keeps (before ++ lines) board) :
    keeps (before ++ (Supervisor.holdInOrder lines board).1)
      (Supervisor.holdInOrder lines board).2 := by
  induction lines generalizing before board with
  | nil => exact hkeeps
  | cons line rest ih =>
      have hheld := h.hold before line rest board hkeeps
      rw [List.append_cons] at hheld
      have hrest := ih _ hheld
      rw [List.append_assoc] at hrest
      exact hrest

theorem holdFromLast (h : Upkeep ρ η keeps) (before lines : List κ)
    (hkeeps : keeps (before ++ lines) board) :
    keeps (before ++ (Supervisor.holdFromLast lines board).1)
      (Supervisor.holdFromLast lines board).2 := by
  induction lines generalizing before board with
  | nil => exact hkeeps
  | cons line rest ih =>
      rw [List.append_cons] at hkeeps
      have hrest := ih _ hkeeps
      rw [List.append_assoc] at hrest
      exact h.hold before line _ _ hrest

omit [TickCounter σ] [Logger σ] [Rail σ ρ] [Reset σ κ] [Hooks σ η] in
theorem visit {act : κ → Action σ (α × κ)} (hact : Served keeps act) (index : Nat)
    (before lines : List κ) (hkeeps : keeps (before ++ lines) board) :
    Leaves (visit act index lines) board (fun result after => keeps (before ++ result.2) after)
      fun after => ∃ lines, keeps lines after := by
  induction lines generalizing before index with
  | nil =>
      rw [Supervisor.visit, leaves_throw]
      exact ⟨_, hkeeps⟩
  | cons line rest ih =>
      cases index with
      | zero =>
          simp only [Supervisor.visit, leaves_bind, leaves_perform, leaves_pure]
          exact hact before line rest board hkeeps
      | succ index =>
          rw [List.append_cons] at hkeeps
          simp only [Supervisor.visit, leaves_bind, leaves_pure]
          refine (ih index _ hkeeps).mono ?_ fun _ => id
          intro result after hresult
          rwa [List.append_assoc] at hresult

theorem firstDown (h : Upkeep ρ η keeps) (count : Nat) (before lines : List κ)
    (hkeeps : keeps (before ++ lines) board) :
    Leaves (firstDown count lines) board (fun result after => keeps (before ++ result.2) after)
      fun after => ∃ lines, keeps lines after := by
  induction lines generalizing before count board with
  | nil =>
      cases count with
      | zero => exact hkeeps
      | succ count => exact ⟨_, hkeeps⟩
  | cons line rest ih =>
      cases count with
      | zero => exact hkeeps
      | succ count =>
          have hasked := h.isReady before line rest board hkeeps
          simp only [Supervisor.firstDown, leaves_bind, leaves_perform]
          split
          · rw [List.append_cons] at hasked
            simp only [leaves_bind, leaves_pure]
            refine (ih count _ hasked).mono ?_ fun _ => id
            intro result after hresult
            rwa [List.append_assoc] at hresult
          · exact hasked

theorem emergencyOff (h : Upkeep ρ η keeps) (hkeeps : keeps sup.resets board) :
    Upkept keeps sup.emergencyOff board := by
  have hoff := h.switchOffEach sup.rails.reverse _ _ hkeeps
  have hheld := h.holdInOrder [] sup.resets hoff
  have hlogged := h.log .Error "Panic shutdown completed" _ _ hheld
  simp only [Upkept, Supervisor.emergencyOff, leaves_bind, leaves_perform, leaves_pure]
  exact h.onFault sup.hooks _ _ hlogged

theorem powerOff (h : Upkeep ρ η keeps) (hkeeps : keeps sup.resets board) :
    Upkept keeps sup.powerOff board := by
  have hlogged := h.log .Info "Turning power off" _ _ hkeeps
  have hheld := h.holdFromLast [] sup.resets hlogged
  have hoff := h.switchOffPaused sup.rails.reverse Settings.railOffSettle _ _ hheld
  simp only [Upkept, Supervisor.powerOff, leaves_bind, leaves_perform, leaves_pure]
  exact h.onPowerOff sup.hooks _ _ hoff

theorem completeResets (h : Upkeep ρ η keeps) (hkeeps : keeps sup.resets board) :
    Upkept keeps sup.completeResets board := by
  have hlogged := h.log .Info "Reset sequence complete" _ _ hkeeps
  simp only [Upkept, Supervisor.completeResets, leaves_bind, leaves_perform, leaves_pure]
  exact h.onResetDone sup.hooks _ _ hlogged

theorem powerOn (h : Upkeep ρ η keeps) (hkeeps : keeps sup.resets board) :
    Upkept keeps sup.powerOn board := by
  have hlogged := h.log .Info "Turning power on" _ _ hkeeps
  have hswitched := h.switchOnAll sup.rails _ _ hlogged
  have hreleasing := h.log .Info "Releasing resets" _ _ hswitched
  simp only [Upkept, Supervisor.powerOn, leaves_bind, leaves_perform]
  split
  · simp only [leaves_bind, leaves_perform]
    split
    · rw [leaves_bind]
      refine Leaves.mono (h.completeResets hreleasing) ?_ fun _ => id
      intro next after hnext
      simp only [leaves_bind, leaves_perform, leaves_pure]
      exact h.onPowerOn next.hooks _ _ hnext
    · rename_i first rest hresets
      have hfirst : sup.resets = first :: rest := hresets
      rw [hfirst] at hreleasing
      have hreleased := h.release [] first rest _ hreleasing
      simp only [leaves_bind, leaves_perform, leaves_pure]
      exact h.onPowerOn sup.hooks _ _ hreleased
  · exact h.emergencyOff hswitched

theorem advanceResets (h : Upkeep ρ η keeps) (hkeeps : keeps sup.resets board) :
    Upkept keeps sup.advanceResets board := by
  rw [Upkept, Supervisor.advanceResets]
  split
  · exact hkeeps
  · rw [leaves_bind]
    refine (visit h.isReady sup.state.resetIndex [] sup.resets hkeeps).mono ?_ fun _ => id
    rintro ⟨ready, lines⟩ after hasked
    cases ready with
    | false => exact hasked
    | true =>
        simp only [↓reduceIte]
        split
        · exact h.completeResets hasked
        · simp only [leaves_bind, leaves_pure]
          exact visit h.release _ [] lines hasked

theorem fallBackTo (h : Upkeep ρ η keeps) (index : Nat) (hkeeps : keeps sup.resets board) :
    Upkept keeps (fallBackTo index sup) board := by
  rw [Upkept, Supervisor.fallBackTo]
  split
  · rw [← List.take_append_drop (index + 1) sup.resets] at hkeeps
    simp only [leaves_bind, leaves_perform, leaves_pure]
    exact h.holdFromLast _ _ hkeeps
  · exact ⟨_, hkeeps⟩

theorem stepResets (h : Upkeep ρ η keeps) (hkeeps : keeps sup.resets board) :
    Upkept keeps sup.stepResets board := by
  rw [Upkept, Supervisor.stepResets, leaves_bind]
  refine (h.advanceResets hkeeps).mono ?_ fun _ => id
  intro sup board hkeeps
  rw [leaves_bind]
  refine (h.firstDown sup.state.resetIndex [] sup.resets hkeeps).mono ?_ fun _ => id
  rintro ⟨down, lines⟩ board hkeeps
  cases down with
  | none => exact hkeeps
  | some index =>
      -- The name is looked up in the list, which stays as it is.
      have hnamed : Served (fun _ board => keeps lines board) fun line : κ =>
          pure (Reset.name σ line, line) := fun _ _ _ _ => id
      simp only [leaves_bind, leaves_perform]
      refine (visit hnamed index [] lines hkeeps).mono ?_ ?_
      · intro named board hkeeps
        exact h.fallBackTo index (h.log _ _ _ _ hkeeps)
      · rintro board ⟨_, hkeeps⟩
        exact ⟨lines, hkeeps⟩

theorem checkRail (h : Upkeep ρ η keeps) (hkeeps : keeps sup.resets board) :
    Upkept keeps sup.checkRail board := by
  rw [Upkept, Supervisor.checkRail]
  split
  · exact hkeeps
  · simp only
    split
    · exact ⟨_, hkeeps⟩
    · rename_i rail _
      have hchecked := h.isGood rail _ _ hkeeps
      simp only [leaves_bind, leaves_perform]
      split
      · exact hchecked
      · split
        · simp only [leaves_bind, leaves_perform]
          exact h.emergencyOff (h.log _ _ _ _ hchecked)
        · split
          · simp only [leaves_bind, leaves_perform, leaves_pure]
            refine Leaves.mono (h.powerOff (h.log _ _ _ _ hchecked)) ?_ fun _ => id
            exact fun next after hnext => h.onPowerLost next.hooks _ _ hnext
          · simp only [leaves_bind, leaves_perform, leaves_pure]
            exact h.onRailDegraded _ _ _ _ (h.log _ _ _ _ hchecked)

theorem poll (h : Upkeep ρ η keeps) (hkeeps : keeps sup.resets board) :
    Upkept keeps sup.poll board := by
  rw [Upkept, Supervisor.poll]
  split
  · rw [leaves_bind]
    refine (h.stepResets hkeeps).mono ?_ fun _ => id
    exact fun next after => h.checkRail
  · exact hkeeps

theorem operate (h : Upkeep ρ η keeps) (operation : Operation) (hkeeps : keeps sup.resets board) :
    Upkept keeps (operate sup operation) board := by
  cases operation with
  | PowerOn => exact h.powerOn hkeeps
  | PowerOff => exact h.powerOff hkeeps
  | EmergencyOff => exact h.emergencyOff hkeeps
  | Poll => exact h.poll hkeeps

theorem operateAll (h : Upkeep ρ η keeps) (operations : List Operation)
    (hkeeps : keeps sup.resets board) : Upkept keeps (operateAll operations sup) board := by
  induction operations generalizing sup board with
  | nil => exact hkeeps
  | cons operation rest ih =>
      rw [Upkept, Supervisor.operateAll, List.foldlM_cons, leaves_bind]
      exact (h.operate operation hkeeps).mono (fun _ _ => ih) fun _ => id

end

end Upkeep

end

end BoardControl.Supervisor
