import BoardControl.Proofs.Mirrors
import BoardControl.Proofs.Supervisor.Trace

namespace BoardControl.Supervisor

def parts {α : Type} (lines : List (Numbered α)) : List α := lines.map (·.part)

@[simp] theorem length_parts {α : Type} (lines : List (Numbered α)) :
    (parts lines).length = lines.length := List.length_map _

@[simp] theorem parts_numbered {α : Type} (lines : List α) : parts (numbered lines) = lines := by
  apply List.ext_getElem
  · simp [parts, numbered]
  · intro place hleft hright
    simp [parts, numbered]

def unnumbered {ρ κ η : Type} (sup : Supervisor (Numbered ρ) (Numbered κ) η) : Supervisor ρ κ η :=
  { sup with rails := parts sup.rails, resets := parts sup.resets }

def dropPlace {κ α : Type} (result : α × Numbered κ) : α × κ := (result.1, result.2.part)

def dropPlaces {κ α : Type} (result : α × List (Numbered κ)) : α × List κ :=
  (result.1, parts result.2)

-- Every rail, reset line and hook of the outer board is one of the board inside.
structure Mirror {σ τ : Type} (ρ κ η : Type) [TickCounter σ] [Logger σ] [Rail σ ρ] [Reset σ κ]
    [Hooks σ η] [TickCounter τ] [Logger τ] [Rail τ (Numbered ρ)] [Reset τ (Numbered κ)] [Hooks τ η]
    (view : τ → σ) : Prop where
  sleep : ∀ ticks, Mirrors view id (TickCounter.sleep ticks) (TickCounter.sleep ticks)
  log : ∀ severity text, Mirrors view id (log severity text) (log severity text)
  railName : ∀ rail : Numbered ρ, Rail.name τ rail = Rail.name σ rail.part
  switchOn : ∀ rail : Numbered ρ, Mirrors view id (Rail.switchOn rail) (Rail.switchOn rail.part)
  switchOff : ∀ rail : Numbered ρ, Mirrors view id (Rail.switchOff rail) (Rail.switchOff rail.part)
  isGood : ∀ rail : Numbered ρ, Mirrors view id (Rail.isGood rail) (Rail.isGood rail.part)
  isCritical : ∀ rail : Numbered ρ, Rail.isCritical τ rail = Rail.isCritical σ rail.part
  isInputSupply : ∀ rail : Numbered ρ, Rail.isInputSupply τ rail = Rail.isInputSupply σ rail.part
  resetName : ∀ line : Numbered κ, Reset.name τ line = Reset.name σ line.part
  hold : ∀ line : Numbered κ, Mirrors view Numbered.part (Reset.hold line) (Reset.hold line.part)
  release : ∀ line : Numbered κ,
    Mirrors view Numbered.part (Reset.release line) (Reset.release line.part)
  isReady : ∀ line : Numbered κ,
    Mirrors view dropPlace (Reset.isReady line) (Reset.isReady line.part)
  onPowerOn : ∀ hooks : η, Mirrors view id (Hooks.onPowerOn hooks) (Hooks.onPowerOn hooks)
  onPowerOff : ∀ hooks : η, Mirrors view id (Hooks.onPowerOff hooks) (Hooks.onPowerOff hooks)
  onResetDone : ∀ hooks : η, Mirrors view id (Hooks.onResetDone hooks) (Hooks.onResetDone hooks)
  onPowerLost : ∀ hooks : η, Mirrors view id (Hooks.onPowerLost hooks) (Hooks.onPowerLost hooks)
  onRailDegraded : ∀ (name : String) (hooks : η),
    Mirrors view id (Hooks.onRailDegraded name hooks) (Hooks.onRailDegraded name hooks)
  onFault : ∀ hooks : η, RunMirrors view id (Hooks.onFault hooks) (Hooks.onFault hooks)

section

variable {σ τ ρ κ η α : Type} {view : τ → σ}

theorem visit_mirrors {act : Numbered κ → Action τ (α × Numbered κ)} {bare : κ → Action σ (α × κ)}
    (hact : ∀ line, Mirrors view dropPlace (act line) (bare line.part)) (index : Nat)
    (lines : List (Numbered κ)) :
    RunMirrors view dropPlaces (visit act index lines) (visit bare index (parts lines)) := by
  induction lines generalizing index with
  | nil => cases index <;> exact .throw .OutOfRange
  | cons line rest ih =>
      cases index with
      | zero =>
          refine .bind (.perform (hact line)) fun result => ?_
          exact .pure (result.1, result.2 :: rest)
      | succ index =>
          refine .bind (ih index) fun result => ?_
          exact .pure (result.1, line :: result.2)

theorem switchOffPaused_mirrors [Rail σ ρ] [Rail τ (Numbered ρ)]
    (hoff : ∀ rail : Numbered ρ, Mirrors view id (Rail.switchOff rail) (Rail.switchOff rail.part))
    {pause : Action τ Unit} {bare : Action σ Unit} (hpause : Mirrors view id pause bare)
    (rails : List (Numbered ρ)) :
    Mirrors view id (switchOffPaused pause rails) (switchOffPaused bare (parts rails)) := by
  induction rails with
  | nil => exact .pure ()
  | cons rail rest ih => exact .bind (hoff rail) fun _ => .bind hpause fun _ => ih

end

namespace Mirror

variable {σ τ ρ κ η : Type} [TickCounter σ] [Logger σ] [Rail σ ρ] [Reset σ κ] [Hooks σ η]
  [TickCounter τ] [Logger τ] [Rail τ (Numbered ρ)] [Reset τ (Numbered κ)] [Hooks τ η] {view : τ → σ}

theorem logs (h : Mirror ρ κ η view) (severity : Severity) (text : String) :
    RunMirrors view id (perform (BoardControl.log severity text))
      (perform (BoardControl.log severity text)) :=
  .perform (h.log severity text)

theorem switchOnAll (h : Mirror ρ κ η view) (rails : List (Numbered ρ)) :
    Mirrors view id (switchOnAll rails) (switchOnAll (parts rails)) := by
  induction rails with
  | nil => exact .pure true
  | cons rail rest ih =>
      refine .bind (h.switchOn rail) ?_
      intro answer
      cases answer with
      | ok _ => exact ih
      | error _ => exact .pure false

theorem switchOffEach (h : Mirror ρ κ η view) (rails : List (Numbered ρ)) :
    Mirrors view id (switchOffEach rails) (switchOffEach (parts rails)) := by
  induction rails with
  | nil => exact .pure ()
  | cons rail rest ih => exact .bind (h.switchOff rail) fun _ => ih

theorem holdInOrder (h : Mirror ρ κ η view) (lines : List (Numbered κ)) :
    Mirrors view parts (holdInOrder lines) (holdInOrder (parts lines)) := by
  induction lines with
  | nil => exact .pure []
  | cons line rest ih =>
      refine .bind (h.hold line) fun held => .bind ih fun lines => ?_
      exact .pure (held :: lines)

theorem holdFromLast (h : Mirror ρ κ η view) (lines : List (Numbered κ)) :
    Mirrors view parts (holdFromLast lines) (holdFromLast (parts lines)) := by
  induction lines with
  | nil => exact .pure []
  | cons line rest ih =>
      refine .bind ih fun lines => .bind (h.hold line) fun held => ?_
      exact .pure (held :: lines)

theorem firstDown (h : Mirror ρ κ η view) (count : Nat) (lines : List (Numbered κ)) :
    RunMirrors view dropPlaces (firstDown count lines) (firstDown count (parts lines)) := by
  induction lines generalizing count with
  | nil =>
      cases count with
      | zero => exact .pure (none, [])
      | succ count => exact .throw .OutOfRange
  | cons line rest ih =>
      cases count with
      | zero => exact .pure (none, line :: rest)
      | succ count =>
          refine .bind (.perform (h.isReady line)) ?_
          intro result
          obtain ⟨ready, line⟩ := result
          cases ready with
          | true =>
              refine .bind (ih count) fun result => ?_
              exact .pure (result.1.map (· + 1), line :: result.2)
          | false => exact .pure (some 0, line :: rest)

variable (sup : Supervisor (Numbered ρ) (Numbered κ) η)

theorem emergencyOff (h : Mirror ρ κ η view) :
    RunMirrors view unnumbered sup.emergencyOff (unnumbered sup).emergencyOff := by
  have hoff := h.switchOffEach sup.rails.reverse
  rw [parts, List.map_reverse, ← parts] at hoff
  refine .bind (.perform hoff) fun _ => .bind (.perform (h.holdInOrder _)) fun resets => ?_
  refine .bind (h.logs _ _) fun _ => .bind (h.onFault _) fun hooks => ?_
  exact .pure { sup.cleared with resets := resets, hooks := hooks }

theorem powerOff (h : Mirror ρ κ η view) :
    RunMirrors view unnumbered sup.powerOff (unnumbered sup).powerOff := by
  have hoff := switchOffPaused_mirrors h.switchOff (h.sleep Settings.railOffSettle)
    sup.rails.reverse
  rw [parts, List.map_reverse, ← parts] at hoff
  refine .bind (h.logs _ _) fun _ => .bind (.perform (h.holdFromLast _)) fun resets => ?_
  refine .bind (.perform hoff) fun _ => .bind (.perform (h.onPowerOff _)) fun hooks => ?_
  exact .pure { sup.cleared with resets := resets, hooks := hooks }

theorem completeResets (h : Mirror ρ κ η view) :
    RunMirrors view unnumbered sup.completeResets (unnumbered sup).completeResets := by
  refine .bind (h.logs _ _) fun _ => .bind (.perform (h.onResetDone _)) fun hooks => ?_
  intro board
  simp [pure, EStateM.pure, unnumbered]

theorem powerOn (h : Mirror ρ κ η view) :
    RunMirrors view unnumbered sup.powerOn (unnumbered sup).powerOn := by
  refine .bind (h.logs _ _) fun _ => .bind (.perform (h.switchOnAll _)) fun came => ?_
  cases came with
  | false => exact h.emergencyOff sup
  | true =>
      refine .bind (h.logs _ _) fun _ => ?_
      obtain ⟨rails, resets, hooks, state⟩ := sup
      cases resets with
      | nil =>
          refine .bind (h.completeResets _) fun sup => ?_
          refine .bind (.perform (h.onPowerOn _)) fun hooks => ?_
          exact .pure (sup.withHooks hooks)
      | cons first rest =>
          refine .bind (.perform (h.release _)) fun first => ?_
          refine .bind (?_ : RunMirrors view unnumbered _ _) fun sup => ?_
          · exact fun _ => rfl
          · refine .bind (.perform (h.onPowerOn _)) fun hooks => ?_
            exact .pure (sup.withHooks hooks)

theorem advanceResets (h : Mirror ρ κ η view) :
    RunMirrors view unnumbered sup.advanceResets (unnumbered sup).advanceResets := by
  have hlength : (unnumbered sup).resets.length = sup.resets.length := length_parts _
  rw [Supervisor.advanceResets, Supervisor.advanceResets, hlength]
  change RunMirrors _ _ _ (if sup.state.resetsDone || sup.resets.length ≤ sup.state.resetIndex
    then _ else _)
  split
  · exact .pure sup
  · refine .bind (visit_mirrors h.isReady _ _) ?_
    intro result
    obtain ⟨ready, resets⟩ := result
    cases ready with
    | false => exact .pure (sup.withResets resets)
    | true =>
        change RunMirrors _ _ (if resets.length ≤ sup.state.resetIndex + 1 then _ else _)
          (if (parts resets).length ≤ sup.state.resetIndex + 1 then _ else _)
        rw [length_parts]
        split
        · exact h.completeResets _
        · refine .bind (visit_mirrors (fun line => ?_) _ _) fun result => ?_
          · exact .bind (h.release line) fun line => .pure ((), line)
          · exact fun _ => rfl

theorem fallBackTo (h : Mirror ρ κ η view) (index : Nat) :
    RunMirrors view unnumbered (fallBackTo index sup) (fallBackTo index (unnumbered sup)) := by
  have hlength : (unnumbered sup).resets.length = sup.resets.length := length_parts _
  have hafter := h.holdFromLast (sup.resets.drop (index + 1))
  rw [parts, List.map_drop, ← parts] at hafter
  rw [Supervisor.fallBackTo, Supervisor.fallBackTo, hlength]
  split
  · refine .bind (.perform hafter) fun after => ?_
    intro board
    simp [pure, EStateM.pure, unnumbered, parts, List.map_take]
  · exact fun _ => rfl

theorem stepResets (h : Mirror ρ κ η view) :
    RunMirrors view unnumbered sup.stepResets (unnumbered sup).stepResets := by
  refine .bind (h.advanceResets sup) fun sup => .bind (h.firstDown _ _) ?_
  intro result
  obtain ⟨down, resets⟩ := result
  cases down with
  | none => exact .pure (sup.withResets resets)
  | some index =>
      refine .bind (visit_mirrors (fun line => ?_) index resets) fun named => ?_
      · intro board
        rw [← h.resetName line]
        rfl
      · refine .bind (h.logs _ _) fun _ => ?_
        exact h.fallBackTo (sup.withResets resets) index

theorem checkRail (h : Mirror ρ κ η view) :
    RunMirrors view unnumbered sup.checkRail (unnumbered sup).checkRail := by
  have hlength : (unnumbered sup).rails.length = sup.rails.length := length_parts _
  rw [Supervisor.checkRail, Supervisor.checkRail, hlength]
  split
  · exact .pure sup
  · have hrail : (unnumbered sup).rails[sup.state.monitorIndex % sup.rails.length]? =
        sup.rails[sup.state.monitorIndex % sup.rails.length]?.map (·.part) := List.getElem?_map
    have hstate : (unnumbered sup).state = sup.state := rfl
    dsimp only
    rw [hstate, hrail]
    cases sup.rails[sup.state.monitorIndex % sup.rails.length]? with
    | none => exact fun _ => rfl
    | some rail =>
        simp only [Option.map_some, ← h.isCritical, ← h.isInputSupply, ← h.railName]
        refine .bind (.perform (h.isGood rail)) fun good => ?_
        simp only [id]
        split
        · exact fun _ => rfl
        · split
          · exact .bind (h.logs _ _) fun _ => h.emergencyOff _
          · split
            · refine .bind (h.logs _ _) fun _ => .bind (h.powerOff _) fun sup => ?_
              exact .bind (.perform (h.onPowerLost _)) fun hooks => .pure (sup.withHooks hooks)
            · refine .bind (h.logs _ _) fun _ => ?_
              refine .bind (.perform (h.onRailDegraded _ _)) fun hooks => ?_
              exact fun _ => rfl

theorem poll (h : Mirror ρ κ η view) :
    RunMirrors view unnumbered sup.poll (unnumbered sup).poll := by
  rw [Supervisor.poll, Supervisor.poll]
  change RunMirrors _ _ _ (if sup.state.powerOn = true then _ else _)
  split
  · exact .bind (h.stepResets sup) fun sup => h.checkRail sup
  · exact .pure sup

end Mirror

end BoardControl.Supervisor
