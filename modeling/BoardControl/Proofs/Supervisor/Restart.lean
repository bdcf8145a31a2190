import BoardControl.Proofs.Supervisor.Chain
import BoardControl.Proofs.Supervisor.Monitoring

namespace BoardControl.Supervisor

open Recorded Run

-- Between operations: while the power is off, every line is held.
structure AtRest {ρ κ η : Type} (resets : Nat) (sup : Supervisor (Numbered ρ) (Numbered κ) η)
    (commands : List Command) : Prop where
  resetPlaces : places sup.resets = List.range resets
  kept : sup.state.powerOn = false → ∀ reset < resets, Kept reset commands

-- The chain is at its start with its first line released. The other lines are as they
-- were before.
structure Restarted (state : SequencerState) (before after : List Command) : Prop where
  powerOn : state.powerOn = true
  resetsDone : state.resetsDone = false
  resetIndex : state.resetIndex = 0
  released : Released 0 after
  others : ∀ reset, 0 < reset →
    latest Command.reset? reset after = latest Command.reset? reset before

-- What powering on commands if every rail comes up and there is a line to release.
def restartScript (rails : List Nat) : List Command :=
  rails.map (.SwitchOn · true) ++ [.Release 0, .Called .PowerOn]

section

variable {ρ κ η : Type} {resets reset : Nat} {commands before after : List Command}
  {sup next : Supervisor (Numbered ρ) (Numbered κ) η}

theorem released_restartScript (rails : List Nat) :
    Released 0 (commands ++ restartScript rails) := by
  have hspares : ∀ command ∈ [Command.Called .PowerOn], command.reset? = none := by
    simp [Command.reset?]
  rw [Released, restartScript, ← List.append_assoc,
    show [Command.Release 0, .Called .PowerOn] = [.Release 0] ++ [.Called .PowerOn] from rfl,
    ← List.append_assoc, latest_append_of_silent hspares, latest_append_singleton]
  rfl

theorem latest_restartScript (rails : List Nat) (hbehind : 0 < reset) :
    latest Command.reset? reset (commands ++ restartScript rails) =
      latest Command.reset? reset commands := by
  apply latest_append_of_spares
  simp only [restartScript, List.mem_append, List.mem_map, List.mem_cons, List.not_mem_nil,
    or_false]
  rintro command (⟨rail, _, rfl⟩ | rfl | rfl)
  · exact nofun
  · exact mt Option.some.inj (Nat.ne_of_lt hbehind)
  · exact nofun

theorem atRest_of_on (hplaces : places next.resets = List.range resets)
    (hon : next.state.powerOn = true) : AtRest resets next commands where
  resetPlaces := hplaces
  kept hoff := by cases hon.symm.trans hoff

-- Wherever a shutdown starts.
theorem atRest_of_shutdown {others : List Nat} (hplaces : places next.resets = List.range resets)
    (hothers : ∀ reset < resets, reset ∈ others)
    (hafter : ∀ command ∈ after, command.reset? = none) :
    AtRest resets next (commands ++ (before ++ (others.map .Hold ++ after))) where
  resetPlaces := hplaces
  kept _ reset hreset := by
    right
    rw [Held, ← List.append_assoc, ← List.append_assoc, latest_append_of_silent hafter]
    exact latest_append_map (fun _ => rfl) (hothers reset hreset)

theorem AtRest.called (h : AtRest resets sup commands) (hooks : η) (hook : Hook) :
    AtRest resets (sup.withHooks hooks) (commands ++ [.Called hook]) where
  resetPlaces := h.resetPlaces
  kept hoff reset hreset := by
    have hspares : ∀ command ∈ [Command.Called hook], command.reset? = none := by
      simp [Command.reset?]
    simp only [Kept, Held, latest_append_of_silent hspares]
    exact h.kept hoff reset hreset

end

section

variable {σ ρ κ η : Type} [Logger σ] [Rail σ ρ] [Reset σ κ] [Hooks σ η] {resets : Nat}
  {sup : Supervisor (Numbered ρ) (Numbered κ) η} {traced : Traced σ}

theorem emergencyOff_atRest (hplaces : places sup.resets = List.range resets) :
    Leaves sup.emergencyOff traced (fun next after => AtRest resets next after.events)
      fun _ => True := by
  apply (emergencyOff_leaves sup traced).mono ?_ fun _ _ => trivial
  rintro next after ⟨hafter, _, hnext, _⟩
  rw [hafter, emergencyScript_command, hplaces]
  refine atRest_of_shutdown (hnext.trans hplaces) ?_ (by simp [Command.reset?])
  exact fun reset => List.mem_range.mpr

theorem powerOff_atRest [TickCounter σ] (hplaces : places sup.resets = List.range resets) :
    Leaves sup.powerOff traced (fun next after => AtRest resets next after.events)
      fun _ => True := by
  apply ((powerOff_ends sup traced).leaves fun _ => True).mono ?_ fun _ => id
  rintro next after ⟨hafter, _, hnext, _⟩
  rw [hafter, powerOffScript_command, hplaces,
    ← List.nil_append (List.map _ (List.range resets).reverse ++ _)]
  refine atRest_of_shutdown (hnext.trans hplaces) ?_ ?_
  · exact fun reset hreset => List.mem_reverse.mpr (List.mem_range.mpr hreset)
  · simp [Command.reset?, or_imp, forall_and]

-- Power that comes on restarts the chain, whatever the lines were told before. If a rail
-- does not come up, everything is shut down.
theorem powerOn_commands (hplaces : places sup.resets = List.range resets) :
    Leaves sup.powerOn traced
      (fun next after => ∃ script, after.events = traced.events ++ script ∧
        AtRest resets next after.events ∧
        ((∀ rail, .SwitchOn rail false ∉ script) → 0 < resets →
          Restarted next.state traced.events after.events))
      fun after => ∃ script, after.events = traced.events ++ script ∧
        ∃ rail, .SwitchOn rail false ∈ script := by
  have hswitched := events_switchOnAll (log .Info "Turning power on" traced).2 sup.rails
  simp only [events_log, transcript_command] at hswitched
  simp only [powerOn, leaves_bind, leaves_perform]
  rcases hswitched with ⟨hcame, hcommands⟩ | ⟨hcame, before, failed, _, _, hcommands⟩
  · simp only [hcame, ↓reduceIte, leaves_bind, leaves_perform]
    split
    · -- Without a line the chain is done at once, and there is nothing to restart.
      rename_i hnone
      simp only [completeResets, leaves_bind, leaves_perform, leaves_pure, commands_onPowerOn,
        events_onResetDone, transcript_command, events_log, hcommands, List.append_assoc]
      refine ⟨_, rfl, atRest_of_on hplaces rfl, ?_⟩
      intro _ hsome
      rw [← length_of_places hplaces, hnone] at hsome
      exact absurd hsome (Nat.lt_irrefl 0)
    · rename_i first rest hlines
      rw [hlines] at hplaces
      simp only [leaves_bind, leaves_perform, leaves_pure, commands_onPowerOn, commands_release,
        events_log, hcommands, List.append_assoc]
      refine ⟨_, rfl, atRest_of_on hplaces rfl, ?_⟩
      intro _ hsome
      have hfirst : first.place = 0 := by
        have hhead := congrArg List.head? hplaces
        rwa [places_cons, List.head?_cons, List.head?_range, if_neg (Nat.ne_of_gt hsome),
          Option.some.injEq] at hhead
      rw [hfirst]
      exact ⟨rfl, rfl, rfl, released_restartScript _, fun reset => latest_restartScript _⟩
  · simp only [hcame, Bool.false_eq_true, ↓reduceIte]
    have hfailed : Command.SwitchOn failed false ∈
        (before.map (.SwitchOn · true) ++ [.SwitchOn failed false]) ++
          emergencyScript Command (places sup.rails) (places sup.resets) := by
      simp
    apply (Leaves.and (emergencyOff_leaves sup _) (emergencyOff_atRest hplaces)).mono
    · rintro next after ⟨⟨hafter, _⟩, hrest⟩
      rw [hcommands, List.append_assoc] at hafter
      refine ⟨_, hafter, hrest, ?_⟩
      intro hcame
      exact absurd hfailed (hcame failed)
    · rintro after ⟨hafter, _⟩
      rw [hcommands, List.append_assoc] at hafter
      exact ⟨_, hafter, failed, hfailed⟩

omit [Rail σ ρ] in
theorem bystander_traced :
    Bystander η (fun line : Numbered κ => line.place) fun _ : Traced σ => True where
  log _ _ _ := id
  hold _ _ _ := ⟨rfl, trivial⟩
  release _ _ _ := ⟨rfl, trivial⟩
  isReady _ _ _ := ⟨rfl, trivial⟩
  onResetDone _ _ := id

end

section

variable {σ ρ κ η : Type} [TickCounter σ] [Logger σ] [Rail σ ρ] [Reset σ κ] [Hooks σ η]
  {rails : List (Numbered ρ)} {resets : Nat} {sup : Supervisor (Numbered ρ) (Numbered κ) η}
  {traced : Traced σ}

theorem checkRail_atRest (hplaces : places sup.resets = List.range resets)
    (hon : sup.state.powerOn = true) :
    Leaves sup.checkRail traced (fun next after => AtRest resets next after.events)
      fun _ => True := by
  rw [checkRail]
  split
  · exact atRest_of_on hplaces hon
  · rename_i hsome
    have hindex : sup.state.monitorIndex % sup.rails.length < sup.rails.length :=
      Nat.mod_lt _ (Nat.pos_of_ne_zero hsome)
    simp only [List.getElem?_eq_getElem hindex, leaves_bind, leaves_perform]
    split
    · exact atRest_of_on hplaces hon
    · split
      · simp only [leaves_bind, leaves_perform]
        exact emergencyOff_atRest hplaces
      · split
        · simp only [leaves_bind, leaves_perform, leaves_pure, commands_onPowerLost]
          refine Leaves.mono (powerOff_atRest hplaces) ?_ fun _ => id
          exact fun next after hrest => hrest.called _ _
        · simp only [leaves_bind, leaves_perform, leaves_pure]
          exact atRest_of_on hplaces hon

theorem operate_atRest (operation : Operation) (hrange : InRange rails resets sup)
    (h : AtRest resets sup traced.events) :
    Leaves (operate sup operation) traced (fun next after => AtRest resets next after.events)
      fun _ => True := by
  cases operation with
  | PowerOn =>
      apply (powerOn_commands h.resetPlaces).mono ?_ fun _ _ => trivial
      rintro next after ⟨_, _, hrest, _⟩
      exact hrest
  | PowerOff => exact powerOff_atRest h.resetPlaces
  | EmergencyOff => exact emergencyOff_atRest h.resetPlaces
  | Poll =>
      rw [operate, poll]
      split
      · rename_i hon
        rw [leaves_bind]
        refine ((stepResets_inRange bystander_traced hrange trivial).leaves _).mono ?_ fun _ => id
        rintro stepped after ⟨_, hstepped, _⟩
        refine checkRail_atRest ?_ (hstepped.powerOn.trans hon)
        exact hstepped.tags.trans h.resetPlaces
      · exact h

theorem operateAll_atRest (operations : List Operation) (hrange : InRange rails resets sup)
    (h : AtRest resets sup traced.events) :
    Leaves (operateAll operations sup) traced
      (fun next after => AtRest resets next after.events) fun _ => True := by
  induction operations generalizing sup traced with
  | nil => exact h
  | cons operation rest ih =>
      rw [operateAll, List.foldlM_cons, leaves_bind]
      apply (Leaves.and (operate_staysIn operation hrange) (operate_atRest operation hrange h)).mono
      · exact fun next after hnext => ih hnext.1 hnext.2
      · exact fun _ _ => trivial

-- From any state that operations can reach: a call that powers on, and for which every
-- rail comes up, puts the chain back to its start and releases its first line. It tells
-- the other lines nothing. They are held, then, if the power was off, and otherwise are
-- as they were.
theorem powerOn_restarts (rails : List ρ) (lines : List κ) (hooks : η) (board : σ)
    (operations : List Operation) {sup : Supervisor (Numbered ρ) (Numbered κ) η} {before : Traced σ}
    (hreached : operateAll operations (built rails lines hooks) { board } = .ok sup before)
    (hsome : 0 < lines.length) :
    operateAll operations { rails, resets := lines, hooks } board =
      .ok (unnumbered sup) before.board ∧
    ∃ script, (final sup.powerOn before).events = before.events ++ script ∧
      ((∀ rail, .SwitchOn rail false ∉ script) → ∃ next after,
        sup.powerOn before = .ok next after ∧
        (unnumbered sup).powerOn before.board = .ok (unnumbered next) after.board ∧
        Restarted next.state before.events after.events ∧
        (∀ reset < lines.length, 0 < reset →
          (Kept reset after.events ↔ Kept reset before.events)) ∧
        (sup.state.powerOn = false → ∀ reset < lines.length, 0 < reset →
          Kept reset after.events)) := by
  have hbare := (operateAll_erases operations (built rails lines hooks)).ok hreached
  rw [unnumbered_built] at hbare
  have hstart : AtRest lines.length (built rails lines hooks) [] :=
    ⟨places_numbered lines, fun _ _ _ => .inl rfl⟩
  have hrange : InRange (numbered rails) lines.length (built rails lines hooks) := by
    have hbuilt := inRange_start (numbered rails) (numbered lines) hooks
    rwa [length_numbered] at hbuilt
  have hcalls : Leaves (operateAll operations (built rails lines hooks)) ({ board } : Traced σ)
      (fun next after => AtRest lines.length next after.events) fun _ => True :=
    operateAll_atRest operations hrange hstart
  have hrest := hcalls.of_eq_ok hreached
  have hcommands : Leaves sup.powerOn before _ _ := powerOn_commands hrest.resetPlaces
  unfold Leaves at hcommands
  refine ⟨hbare, ?_⟩
  simp only [final]
  cases hrun : sup.powerOn before with
  | error fault after =>
      rw [hrun] at hcommands
      obtain ⟨script, hafter, rail, hfailed⟩ := hcommands
      exact ⟨script, hafter, fun hcame => absurd hfailed (hcame rail)⟩
  | ok next after =>
      rw [hrun] at hcommands
      obtain ⟨script, hafter, _, hrestarted⟩ := hcommands
      refine ⟨script, hafter, ?_⟩
      intro hcame
      have hrestart := hrestarted hcame hsome
      have hsame : ∀ reset < lines.length, 0 < reset →
          (Kept reset after.events ↔ Kept reset before.events) := by
        intro reset _ hbehind
        simp only [Kept, Held, hrestart.others reset hbehind]
      refine ⟨next, after, rfl, (mirror_recorded.powerOn sup).ok hrun, hrestart, hsame, ?_⟩
      intro hoff reset hreset hbehind
      exact (hsame reset hreset hbehind).mpr (hrest.kept hoff reset hreset)

end

section

open Bench

-- The supply went and came back: the link is held until the processor is ready.
theorem powerOn_restarts_supply_back :
    0 < chained.length ∧ ∃ sup before next after,
      operateAll [.PowerOn, .Poll] (built supplied chained Tolerant.mk)
        ({ board := {} } : Traced Board) = .ok sup before ∧
      sup.state.powerOn = false ∧ sup.powerOn before = .ok next after ∧
      Restarted next.state before.events after.events ∧ Kept 1 after.events := by
  have hsome : 0 < chained.length := by decide
  have hchecked : endsWith (fun sup before => !sup.state.powerOn &&
        (final sup.powerOn before).events =
          before.events ++ [.SwitchOn 0 true, .SwitchOn 1 true, .Release 0, .Called .PowerOn])
      (operateAll [.PowerOn, .Poll] (built supplied chained Tolerant.mk)
        ({ board := {} } : Traced Board)) = true := by decide +kernel
  obtain ⟨sup, before, hreached, hends⟩ := exists_of_endsWith hchecked
  obtain ⟨hoff, hcommands⟩ := Bool.and_eq_true_iff.mp hends
  obtain ⟨_, script, hscript, hcame⟩ := powerOn_restarts _ _ _ _ _ hreached hsome
  have hsame := List.append_cancel_left (hscript.symm.trans (of_decide_eq_true hcommands))
  obtain ⟨next, after, hrun, _, hrestarted, _, hkept⟩ := hcame (by simp [hsame])
  rw [Bool.not_eq_true'] at hoff
  exact ⟨hsome, sup, before, next, after, hreached, hoff, hrun, hrestarted,
    hkept hoff 1 (by decide) (by decide)⟩

-- Powering on again when the chain is done: the link stays released while the processor is
-- waited for once more.
theorem link_released_at_restart :
    ∃ sup before next after,
      operateAll [.PowerOn, .Poll, .Poll] (built ([] : List BenchRail) chained Tolerant.mk)
        ({ board := {} } : Traced Board) = .ok sup before ∧
      sup.powerOn before = .ok next after ∧
      after.events = before.events ++ [.Release 0, .Called .PowerOn] ∧
      next.state.resetIndex = 0 ∧ next.state.resetsDone = false ∧ ¬ Kept 1 after.events := by
  have hchecked : endsWith (fun sup before => endsWith (fun next after =>
          after.events = before.events ++ [.Release 0, .Called .PowerOn] &&
          next.state.resetIndex = 0 && !next.state.resetsDone &&
          latest Command.reset? 1 after.events = some (.Release 1)) (sup.powerOn before))
      (operateAll [.PowerOn, .Poll, .Poll] (built ([] : List BenchRail) chained Tolerant.mk)
        ({ board := {} } : Traced Board)) = true := by decide +kernel
  obtain ⟨sup, before, hreached, hpower⟩ := exists_of_endsWith hchecked
  obtain ⟨next, after, hrun, hends⟩ := exists_of_endsWith hpower
  simp only [Bool.and_eq_true, decide_eq_true_eq, Bool.not_eq_true'] at hends
  obtain ⟨⟨⟨hcommands, hindex⟩, hdone⟩, hreleased⟩ := hends
  refine ⟨sup, before, next, after, hreached, hrun, hcommands, hindex, hdone, ?_⟩
  exact fun hkept => not_released_of_kept hkept hreleased

end

end BoardControl.Supervisor
