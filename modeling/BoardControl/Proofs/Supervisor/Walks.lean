import BoardControl.Proofs.Supervisor.Trace

namespace BoardControl.Supervisor

open Recorded Run

-- The places of a list of parts, in its order.
def places {α : Type} (parts : List (Numbered α)) : List Nat := parts.map (·.place)

section

variable {α : Type}

@[simp] theorem places_nil : places ([] : List (Numbered α)) = [] := rfl

@[simp] theorem places_cons (part : Numbered α) (rest : List (Numbered α)) :
    places (part :: rest) = part.place :: places rest := rfl

@[simp] theorem places_append (first second : List (Numbered α)) :
    places (first ++ second) = places first ++ places second := List.map_append

@[simp] theorem places_reverse (parts : List (Numbered α)) :
    places parts.reverse = (places parts).reverse := List.map_reverse

@[simp] theorem length_places (parts : List (Numbered α)) :
    (places parts).length = parts.length := List.length_map _

-- Numbering starts at zero and leaves no gap.
@[simp] theorem places_numbered (parts : List α) :
    places (numbered parts) = List.range parts.length := by
  apply List.ext_getElem
  · simp [numbered]
  · intro place hleft hright
    simp [numbered, places]

end

-- What is written down of the walks over rails and lines, whatever kind of event it is
-- written down in.
section

variable {σ ε ρ κ η α : Type} (recorded : Recorded σ ε)

theorem faultReturns_recorded [HookEvents ε] [Hooks σ η] (hreturns : FaultReturns σ η) :
    FaultReturns (Recorded σ ε) η := by
  intro hooks recorded
  obtain ⟨value, after, hrun⟩ := hreturns hooks recorded.board
  exact ⟨value, _, notingRun_ok hrun⟩

-- A fault is called however the hook for it stops.
theorem events_onFault [HookEvents ε] [Hooks σ η] (hooks : η) :
    Leaves (Hooks.onFault hooks) recorded
      (fun (_ : η) after => after.events = recorded.events ++ [HookEvents.called .Fault])
      fun after => after.events = recorded.events ++ [HookEvents.called .Fault] :=
  events_notingRun _ _ _

-- An act on one line that keeps its place is all that a visit adds.
theorem events_visit {act : Numbered κ → Action (Recorded σ ε) (α × Numbered κ)}
    (script : Nat → α → List ε)
    (hact : ∀ line recorded, (act line recorded).1.2.place = line.place ∧
      (act line recorded).2.events =
        recorded.events ++ script line.place (act line recorded).1.1)
    (index : Nat) (lines : List (Numbered κ)) (hindex : index < lines.length) :
    Ends (visit act index lines) recorded fun result after =>
      places result.2 = places lines ∧ ∃ place, (places lines)[index]? = some place ∧
        after.events = recorded.events ++ script place result.1 := by
  induction lines generalizing index with
  | nil => exact absurd hindex (Nat.not_lt_zero _)
  | cons line rest ih =>
      obtain ⟨hplace, hevents⟩ := hact line recorded
      cases index with
      | zero =>
          simp only [visit, ends_bind, ends_perform, ends_pure, places_cons, hplace]
          exact ⟨trivial, line.place, rfl, hevents⟩
      | succ index =>
          simp only [visit, ends_bind, ends_pure, places_cons, List.getElem?_cons_succ]
          apply (ih index (Nat.lt_of_succ_lt_succ hindex)).mono
          intro result after h
          exact ⟨by rw [h.1], h.2⟩

variable [Transcript ε]

@[simp] theorem events_onResetDone [Hooks σ η] (hooks : η) :
    (Hooks.onResetDone hooks recorded).2.events =
      recorded.events ++ [Transcript.command (.Called .ResetDone)] := rfl

section

variable [Rail σ ρ]

theorem events_switchOffEach (rails : List (Numbered ρ)) :
    (switchOffEach rails recorded).2.events =
      recorded.events ++ (places rails).map (Transcript.command <| .SwitchOff ·) := by
  induction rails generalizing recorded with
  | nil => exact (List.append_nil _).symm
  | cons rail rest ih =>
      change (switchOffEach rest (Rail.switchOff rail recorded).2).2.events = _
      rw [ih, places_cons, List.map_cons, ← List.singleton_append, ← List.append_assoc]
      rfl

theorem events_switchOffPaused [TickCounter σ] (ticks : UInt32) (rails : List (Numbered ρ)) :
    (switchOffPaused (TickCounter.sleep ticks) rails recorded).2.events =
      recorded.events ++ (places rails).flatMap fun rail =>
        Transcript.command (.SwitchOff rail) :: TickEvents.slept ticks := by
  induction rails generalizing recorded with
  | nil => exact (List.append_nil _).symm
  | cons rail rest ih =>
      change (switchOffPaused (TickCounter.sleep ticks) rest
        (TickCounter.sleep ticks (Rail.switchOff rail recorded).2).2).2.events = _
      rw [ih, places_cons, List.flatMap_cons, ← List.append_assoc]
      congr 1
      exact List.append_assoc _ _ _

-- All rails come up, or those before the first one that fails do.
theorem events_switchOnAll (rails : List (Numbered ρ)) :
    let came := (switchOnAll rails recorded).1
    let events := (switchOnAll rails recorded).2.events
    (came = true ∧ events =
      recorded.events ++ (places rails).map (Transcript.command <| .SwitchOn · true)) ∨
    (came = false ∧ ∃ before failed after, places rails = before ++ failed :: after ∧
      events = recorded.events ++ (before.map (Transcript.command <| .SwitchOn · true) ++
        [Transcript.command (.SwitchOn failed false)])) := by
  induction rails generalizing recorded with
  | nil => simp [switchOnAll, Action.pure_apply]
  | cons rail rest ih =>
      have hnoted : (Rail.switchOn rail recorded).2.events = recorded.events ++
          [Transcript.command (.SwitchOn rail.place (Rail.switchOn rail recorded).1.isOk)] := rfl
      rw [switchOnAll, Action.bind_apply]
      cases hon : (Rail.switchOn rail recorded).1 with
      | error reason =>
          rw [hon] at hnoted
          exact .inr ⟨rfl, [], rail.place, places rest, rfl, hnoted⟩
      | ok answer =>
          rw [hon] at hnoted
          rcases ih (Rail.switchOn rail recorded).2 with
            ⟨hcame, hevents⟩ | ⟨hcame, before, failed, after, hplaces, hevents⟩
          · refine .inl ⟨hcame, ?_⟩
            simp only [hevents, hnoted, places_cons, List.map_cons, List.append_assoc]
            rfl
          · refine .inr ⟨hcame, rail.place :: before, failed, after, ?_, ?_⟩
            · rw [places_cons, hplaces, List.cons_append]
            · simp only [hevents, hnoted, List.map_cons, List.append_assoc]
              rfl

end

section

variable [Reset σ κ]

theorem events_holdInOrder (lines : List (Numbered κ)) :
    (holdInOrder lines recorded).2.events =
      recorded.events ++ (places lines).map (Transcript.command <| .Hold ·) ∧
    places (holdInOrder lines recorded).1 = places lines := by
  induction lines generalizing recorded with
  | nil => exact ⟨(List.append_nil _).symm, rfl⟩
  | cons line rest ih =>
      obtain ⟨hevents, hplaces⟩ := ih (Reset.hold line recorded).2
      refine ⟨?_, ?_⟩
      · change (holdInOrder rest (Reset.hold line recorded).2).2.events = _
        rw [hevents, places_cons, List.map_cons, ← List.singleton_append, ← List.append_assoc]
        rfl
      · change places (_ :: (holdInOrder rest (Reset.hold line recorded).2).1) = _
        rw [places_cons, hplaces]
        rfl

theorem events_holdFromLast (lines : List (Numbered κ)) :
    (holdFromLast lines recorded).2.events =
      recorded.events ++ (places lines).reverse.map (Transcript.command <| .Hold ·) ∧
    places (holdFromLast lines recorded).1 = places lines := by
  induction lines generalizing recorded with
  | nil => exact ⟨(List.append_nil _).symm, rfl⟩
  | cons line rest ih =>
      obtain ⟨hevents, hplaces⟩ := ih recorded
      refine ⟨?_, ?_⟩
      · change (holdFromLast rest recorded).2.events ++ [Transcript.command (.Hold line.place)] = _
        rw [hevents, places_cons, List.reverse_cons, List.map_append, List.append_assoc]
        rfl
      · change places (_ :: (holdFromLast rest recorded).1) = _
        rw [places_cons, hplaces]
        rfl

-- The lines are asked in turn, up to the first one that is not ready.
theorem events_firstDown (count : Nat) (lines : List (Numbered κ)) (hcount : count ≤ lines.length) :
    Ends (firstDown count lines) recorded fun result after =>
      places result.2 = places lines ∧
      (result.1 = none ∧ after.events = recorded.events ++
          ((places lines).take count).flatMap (Transcript.asked · true) ∨
        ∃ index < count, result.1 = some index ∧ ∃ place, (places lines)[index]? = some place ∧
          after.events = recorded.events ++
            (((places lines).take index).flatMap (Transcript.asked · true) ++
              Transcript.asked place false)) := by
  induction lines generalizing recorded count with
  | nil =>
      obtain rfl : count = 0 := Nat.le_zero.mp hcount
      simp [firstDown]
  | cons line rest ih =>
      cases count with
      | zero => simp [firstDown]
      | succ count =>
          have hasked : (Reset.isReady line recorded).2.events = recorded.events ++
              Transcript.asked line.place (Reset.isReady line recorded).1.1 := rfl
          have hkept : (Reset.isReady line recorded).1.2.place = line.place := rfl
          simp only [firstDown, ends_bind, ends_perform]
          split
          · rename_i hready
            rw [hready] at hasked
            simp only [ends_bind, ends_pure, places_cons, hkept]
            apply (ih _ count (Nat.le_of_succ_le_succ hcount)).mono
            rintro ⟨down, lines⟩ after ⟨hlines, hheard⟩
            refine ⟨by rw [hlines], ?_⟩
            rw [hasked] at hheard
            rcases hheard with ⟨rfl, hafter⟩ | ⟨index, hindex, rfl, place, hplace, hafter⟩
            · refine .inl ⟨rfl, ?_⟩
              rw [hafter, List.take_succ_cons, List.flatMap_cons, List.append_assoc]
            · refine .inr ⟨index + 1, Nat.succ_lt_succ hindex, rfl, place, hplace, ?_⟩
              rw [hafter, List.take_succ_cons, List.flatMap_cons, List.append_assoc,
                List.append_assoc]
          · rename_i hready
            rw [Bool.not_eq_true] at hready
            rw [hready] at hasked
            rw [ends_pure, places_cons, hkept]
            exact ⟨rfl, .inr ⟨0, Nat.succ_pos count, rfl, line.place, rfl, hasked⟩⟩

end

end

-- Every rail off from last to first with no pause, and every line held after them.
def emergencyScript (ε : Type) [Transcript ε] (rails lines : List Nat) : List ε :=
  rails.reverse.map (Transcript.command <| .SwitchOff ·) ++
    (lines.map (Transcript.command <| .Hold ·) ++ [Transcript.command (.Called .Fault)])

-- Every line held from last to first, then the rails off with a pause after each.
def powerOffScript (ε : Type) [Transcript ε] (rails lines : List Nat) : List ε :=
  lines.reverse.map (Transcript.command <| .Hold ·) ++
    (rails.reverse.flatMap (fun rail =>
        Transcript.command (.SwitchOff rail) :: TickEvents.slept Settings.railOffSettle) ++
      [Transcript.command (.Called .PowerOff)])

section

variable {σ ε ρ κ η : Type} [Transcript ε] [Logger σ] [Rail σ ρ] [Reset σ κ] [Hooks σ η]
  (sup : Supervisor (Numbered ρ) (Numbered κ) η) (recorded : Recorded σ ε)

-- The whole script of a shutdown, wherever it starts.

theorem emergencyOff_leaves :
    Leaves sup.emergencyOff recorded
      (fun next after =>
        after.events = recorded.events ++ emergencyScript ε (places sup.rails) (places sup.resets) ∧
        next.rails = sup.rails ∧ places next.resets = places sup.resets ∧
        next.state = sup.cleared.state)
      fun after => after.events =
        recorded.events ++ emergencyScript ε (places sup.rails) (places sup.resets) := by
  simp only [emergencyOff, leaves_bind, leaves_perform, leaves_pure]
  obtain ⟨hheld, hplaces⟩ :=
    events_holdInOrder (switchOffEach sup.rails.reverse recorded).2 sup.resets
  have hscript : ∀ after : Recorded σ ε, after.events = (log .Error "Panic shutdown completed"
        (holdInOrder sup.resets (switchOffEach sup.rails.reverse recorded).2).2).2.events ++
        [HookEvents.called .Fault] → after.events =
      recorded.events ++ emergencyScript ε (places sup.rails) (places sup.resets) := by
    intro after hafter
    rw [hafter, events_log, hheld, events_switchOffEach, places_reverse, emergencyScript,
      List.append_assoc, List.append_assoc]
    rfl
  apply (events_onFault _ sup.hooks).mono
  · intro hooks after hafter
    exact ⟨hscript after hafter, rfl, hplaces, trivial⟩
  · exact hscript

theorem emergencyOff_ends (hreturns : FaultReturns σ η) :
    Ends sup.emergencyOff recorded fun next after =>
      after.events = recorded.events ++ emergencyScript ε (places sup.rails) (places sup.resets) ∧
      next.rails = sup.rails ∧ places next.resets = places sup.resets ∧
      next.state = sup.cleared.state := by
  have hends : Ends sup.emergencyOff recorded fun _ _ => True := by
    simp only [emergencyOff, ends_bind, ends_perform, ends_pure]
    obtain ⟨hooks, after, hfault⟩ := faultReturns_recorded (ε := ε) hreturns sup.hooks _
    exact ⟨hooks, after, hfault, trivial⟩
  obtain ⟨next, after, hrun, _⟩ := hends
  exact ends_of_eq hrun ((emergencyOff_leaves sup recorded).of_eq_ok hrun)

theorem powerOff_ends [TickCounter σ] :
    Ends sup.powerOff recorded fun next after =>
      after.events = recorded.events ++ powerOffScript ε (places sup.rails) (places sup.resets) ∧
      next.rails = sup.rails ∧ places next.resets = places sup.resets ∧
      next.state = sup.cleared.state := by
  simp only [powerOff, ends_bind, ends_perform, ends_pure]
  obtain ⟨hheld, hplaces⟩ :=
    events_holdFromLast (log .Info "Turning power off" recorded).2 sup.resets
  refine ⟨?_, rfl, hplaces, trivial⟩
  change Recorded.events (switchOffPaused _ _ _).2 ++ [Transcript.command (.Called .PowerOff)] = _
  rw [events_switchOffPaused, hheld, events_log, places_reverse, powerOffScript, List.append_assoc,
    List.append_assoc]

end

-- The same of commands alone, which say nothing of pauses, readings and answers.
section

variable {σ ρ κ η : Type} (traced : Traced σ)

section

variable [Hooks σ η] (hooks : η)

@[simp] theorem commands_onPowerOn :
    (Hooks.onPowerOn hooks traced).2.events = traced.events ++ [.Called .PowerOn] := rfl

@[simp] theorem commands_onPowerLost :
    (Hooks.onPowerLost hooks traced).2.events = traced.events ++ [.Called .PowerLost] := rfl

@[simp] theorem commands_onRailDegraded (name : String) :
    (Hooks.onRailDegraded name hooks traced).2.events =
      traced.events ++ [.Called .RailDegraded] := rfl

end

@[simp] theorem commands_isGood [Rail σ ρ] (rail : Numbered ρ) :
    (Rail.isGood rail traced).2.events = traced.events := List.append_nil _

section

variable [Reset σ κ]

@[simp] theorem commands_release (line : Numbered κ) :
    (Reset.release line traced).2.events = traced.events ++ [.Release line.place] := rfl

-- Asking leaves no command, and what it finds is among the lines it asked.
theorem ends_firstDown (count : Nat) (lines : List (Numbered κ)) (hcount : count ≤ lines.length) :
    Ends (firstDown count lines) traced fun result after =>
      places result.2 = places lines ∧ after.events = traced.events ∧
      ∀ index, result.1 = some index → index < count := by
  have hsilent (asked : List Nat) : asked.flatMap (Transcript.asked · true) = ([] : List Command) :=
    List.flatMap_eq_nil_iff.mpr fun _ _ => rfl
  apply (events_firstDown traced count lines hcount).mono
  rintro ⟨down, lines⟩ after ⟨hlines, hasked⟩
  refine ⟨hlines, ?_, ?_⟩
  · rcases hasked with ⟨_, hafter⟩ | ⟨index, _, _, place, _, hafter⟩
    · rwa [hsilent, List.append_nil] at hafter
    · rw [hsilent] at hafter
      exact hafter.trans (List.append_nil _)
  · intro index hdown
    rcases hasked with ⟨hnone, _⟩ | ⟨down, hbound, hsome, _⟩
    · cases hnone.symm.trans hdown
    · cases hsome.symm.trans hdown
      exact hbound

end

theorem emergencyScript_command (rails lines : List Nat) : emergencyScript Command rails lines =
    rails.reverse.map .SwitchOff ++ (lines.map .Hold ++ [.Called .Fault]) := rfl

theorem powerOffScript_command (rails lines : List Nat) : powerOffScript Command rails lines =
    lines.reverse.map .Hold ++ (rails.reverse.map .SwitchOff ++ [.Called .PowerOff]) := by
  rw [List.map_eq_flatMap (f := Command.SwitchOff)]
  rfl

end

end BoardControl.Supervisor
