import BoardControl.Proofs.Supervisor.Orderly

namespace BoardControl.Supervisor

open Recorded Run

section

variable {σ ρ κ η : Type} {rails resets : Nat} {sup : Supervisor (Numbered ρ) (Numbered κ) η}
  {traced : Traced σ}

section

variable [Logger σ] [Rail σ ρ] [Reset σ κ] [Hooks σ η]

-- An emergency shutdown may start from any point of a run.
theorem ends_emergencyOff (hreturns : FaultReturns σ η)
    (h : Orderly rails resets sup traced.events) :
    Ends sup.emergencyOff traced fun next after => Stopped rails resets next after.events := by
  apply (emergencyOff_ends sup traced hreturns).mono
  intro next after hends
  obtain ⟨hscript, hrails, hplaces, hstate⟩ := hends
  rw [h.railPlaces, h.resetPlaces, emergencyScript_command, ← emergencyCommands] at hscript
  rw [hscript]
  exact h.stopped h.emergency hrails hplaces (by rw [hstate]; rfl)

theorem ends_powerOff [TickCounter σ] (h : Orderly rails resets sup traced.events) :
    Ends sup.powerOff traced fun next after => Stopped rails resets next after.events := by
  apply (powerOff_ends sup traced).mono
  intro next after hends
  obtain ⟨hscript, hrails, hplaces, hstate⟩ := hends
  rw [h.railPlaces, h.resetPlaces, powerOffScript_command, ← powerOffCommands] at hscript
  rw [hscript]
  exact h.stopped h.powerOff hrails hplaces (by rw [hstate]; rfl)

omit [Rail σ ρ] [Reset σ κ] in
theorem ends_completeResets (h : Running rails resets sup traced.events) :
    Ends sup.completeResets traced fun next after => Running rails resets next after.events := by
  simp only [completeResets, ends_bind, ends_perform, ends_pure, events_onResetDone,
    transcript_command, events_log]
  exact h.spared (.called _ _) rfl rfl h.isOn (Nat.le_of_eq h.length_resets)

omit [Logger σ] [Rail σ ρ] [Reset σ κ] [Hooks σ η] in
-- With power on, one line may be asked, held or released at any time.
theorem Running.ends_visit {α : Type} {act : Numbered κ → Action (Traced σ) (α × Numbered κ)}
    (h : Running rails resets sup traced.events) (script : Nat → List Command)
    (hscript : ∀ place, ∀ command ∈ script place, command.rail? = none)
    (hact : ∀ line traced, (act line traced).1.2.place = line.place ∧
      (act line traced).2.events = traced.events ++ script line.place)
    (index : Nat) (hindex : index < resets) :
    Ends (visit act index sup.resets) traced fun result after =>
      Running rails resets (sup.withResets result.2) after.events := by
  rw [← h.length_resets] at hindex
  apply (events_visit traced (fun place _ => script place) hact index sup.resets hindex).mono
  intro result after hends
  obtain ⟨hplaces, place, _, hafter⟩ := hends
  rw [hafter]
  exact h.withResets hplaces (.append _ (hscript place))

omit [Rail σ ρ] in
theorem ends_advanceResets (h : Running rails resets sup traced.events) :
    Ends sup.advanceResets traced fun next after => Running rails resets next after.events := by
  rw [advanceResets]
  split
  · simpa using h
  · rename_i hwaits
    have hindex : sup.state.resetIndex < resets := by
      rw [← h.length_resets]
      simp only [Bool.or_eq_true, decide_eq_true_eq, not_or, Nat.not_le] at hwaits
      exact hwaits.2
    rw [ends_bind]
    refine (h.ends_visit (fun _ => []) nofun ?_ _ hindex).mono ?_
    · intro line traced
      exact ⟨rfl, rfl⟩
    · intro result asked hasked
      obtain ⟨ready, lines⟩ := result
      cases ready with
      | false => simpa using hasked
      | true =>
          have hmoved : Running rails resets { sup.withResets lines with
              state := { sup.state with resetIndex := sup.state.resetIndex + 1 } }
              asked.events := hasked.spared (.refl _) rfl rfl h.isOn hindex
          simp only [↓reduceIte]
          split
          · exact ends_completeResets hmoved
          · rename_i hlast
            have hnext : sup.state.resetIndex + 1 < resets := by
              rw [← hasked.length_resets]
              exact Nat.lt_of_not_le hlast
            simp only [ends_bind]
            refine (hmoved.ends_visit (fun place => [.Release place]) ?_ ?_ _ hnext).mono ?_
            · simp [Command.rail?]
            · intro line traced
              exact ⟨rfl, rfl⟩
            · intro _ after hreleased
              rw [ends_pure]
              exact hreleased

omit [Logger σ] [Rail σ ρ] [Hooks σ η] in
theorem ends_fallBackTo (h : Running rails resets sup traced.events) (index : Nat)
    (hindex : index < resets) :
    Ends (fallBackTo index sup) traced fun next after =>
      Running rails resets next after.events := by
  have hinside : index + 1 ≤ sup.resets.length := by rw [h.length_resets]; exact hindex
  obtain ⟨hcommands, hplaces⟩ := events_holdFromLast traced (sup.resets.drop (index + 1))
  simp only [fallBackTo, hinside, ↓reduceIte, ends_bind, ends_pure, ends_perform]
  rw [hcommands]
  refine h.spared (.append _ ?_) rfl ?_ h.isOn (Nat.le_of_lt hindex)
  · intro command hmem
    obtain ⟨place, _, rfl⟩ := List.mem_map.mp hmem
    rfl
  · rw [places_append, hplaces, ← places_append, List.take_append_drop]

omit [Rail σ ρ] in
theorem ends_stepResets (h : Running rails resets sup traced.events) :
    Ends sup.stepResets traced fun next after => Running rails resets next after.events := by
  unfold stepResets
  rw [ends_bind]
  apply (ends_advanceResets h).mono
  intro sup after h
  rw [ends_bind]
  refine (ends_firstDown after sup.state.resetIndex sup.resets ?_).mono ?_
  · rw [h.length_resets]
    exact h.inChain
  · intro result asked hends
    obtain ⟨down, lines⟩ := result
    obtain ⟨hplaces, hasked, hbound⟩ := hends
    have hkept : Running rails resets (sup.withResets lines) asked.events :=
      h.withResets hplaces (hasked ▸ .refl _)
    cases down with
    | none => simpa using hkept
    | some index =>
        have hindex : index < resets := Nat.lt_of_lt_of_le (hbound index rfl) h.inChain
        have hlines : index < lines.length := by
          rw [← hkept.length_resets] at hindex
          exact hindex
        simp only [ends_bind, ends_perform]
        refine (events_visit asked (fun _ _ => []) ?_ index lines hlines).mono ?_
        · intro line traced
          exact ⟨rfl, (List.append_nil _).symm⟩
        · intro named later hends
          obtain ⟨_, _, _, hlater⟩ := hends
          rw [List.append_nil] at hlater
          apply ends_fallBackTo _ index hindex
          rw [events_log, hlater]
          exact hkept

theorem ends_checkRail [TickCounter σ] (hreturns : FaultReturns σ η)
    (h : Running rails resets sup traced.events) :
    Ends sup.checkRail traced fun next after =>
      Running rails resets next after.events ∨ Stopped rails resets next after.events := by
  rw [checkRail]
  split
  · simpa using .inl h
  · rename_i hsome
    have hindex : sup.state.monitorIndex % sup.rails.length < sup.rails.length :=
      Nat.mod_lt _ (Nat.pos_of_ne_zero hsome)
    have hmoved : Running rails resets { sup with state := { sup.state with
        monitorIndex := (sup.state.monitorIndex % sup.rails.length + 1) % sup.rails.length } }
        traced.events := h.spared (.refl _) rfl rfl h.isOn h.inChain
    simp only [List.getElem?_eq_getElem hindex, ends_bind, ends_perform]
    split
    · rw [ends_pure, commands_isGood]
      exact .inl hmoved
    · split
      · simp only [ends_bind, ends_perform]
        refine (ends_emergencyOff hreturns ?_).mono fun _ _ => .inr
        rw [events_log, commands_isGood]
        exact hmoved.toOrderly
      · split
        · simp only [ends_bind, ends_perform]
          refine (ends_powerOff (?_ : Orderly rails resets _ _)).mono ?_
          · rw [events_log, commands_isGood]
            exact hmoved.toOrderly
          · intro stopped after hstopped
            rw [ends_pure, commands_onPowerLost]
            exact .inr (hstopped.stopped (hstopped.called _) rfl rfl hstopped.isOff)
        · simp only [ends_bind, ends_perform, ends_pure, commands_onRailDegraded, events_log,
            commands_isGood]
          exact .inl (hmoved.withHooks _ (.called _ _))

theorem ends_poll [TickCounter σ] (hreturns : FaultReturns σ η)
    (h : Running rails resets sup traced.events ∨ Stopped rails resets sup traced.events) :
    Ends sup.poll traced fun next after =>
      Running rails resets next after.events ∨ Stopped rails resets next after.events := by
  unfold poll
  rcases h with h | h
  · rw [if_pos h.isOn, ends_bind]
    exact (ends_stepResets h).mono fun _ _ => ends_checkRail hreturns
  · rw [if_neg (by simp [h.isOff]), ends_pure]
    exact .inr h

omit [Logger σ] [Rail σ ρ] [Reset σ κ] [Hooks σ η] in
theorem range_eq_append_cons {number failed : Nat} {before after : List Nat}
    (h : List.range number = before ++ failed :: after) :
    before = List.range failed ∧ failed < number := by
  have hlength : before.length < number := by
    have hlengths := congrArg List.length h
    simp only [List.length_range, List.length_append, List.length_cons] at hlengths
    omega
  have hfailed : failed = before.length := by
    have hget := congrArg (fun places => places[before.length]?) h
    simpa [List.getElem?_range hlength] using hget.symm
  have hbefore : before = (List.range number).take before.length := by
    rw [h, List.take_left]
  rw [List.take_range, Nat.min_eq_left (Nat.le_of_lt hlength)] at hbefore
  rw [hfailed]
  exact ⟨hbefore, hlength⟩

theorem ends_powerOn (hreturns : FaultReturns σ η)
    (h : Orderly rails resets sup traced.events) :
    Ends sup.powerOn traced fun next after =>
      Running rails resets next after.events ∨ Stopped rails resets next after.events := by
  have hswitched := events_switchOnAll (log .Info "Turning power on" traced).2 sup.rails
  simp only [events_log, transcript_command, h.railPlaces] at hswitched
  simp only [powerOn, ends_bind, ends_perform]
  rcases hswitched with ⟨hcame, hcommands⟩ | ⟨hcame, before, failed, after, hplaces, hcommands⟩
  · have hstarted : Running rails resets { sup with state := { powerOn := true } }
        (traced.events ++ (List.range rails).map (.SwitchOn · true)) := {
      h.switchedOn with
      isOn := rfl
      came := fun rail hrail => latest_append_map (fun _ => rfl) (List.mem_range.mpr hrail)
      inChain := Nat.zero_le _ }
    rw [← hcommands, ← events_log .Info "Releasing resets"] at hstarted
    simp only [hcame, ↓reduceIte, ends_bind, ends_perform]
    split
    · rw [ends_bind]
      apply (ends_completeResets hstarted).mono
      intro next after hnext
      simp only [ends_bind, ends_perform, ends_pure, commands_onPowerOn]
      exact .inl (hnext.withHooks _ (.called _ _))
    · rename_i first rest hresets
      simp only [ends_bind, ends_perform, ends_pure, commands_onPowerOn, commands_release]
      refine .inl (.withHooks (hstarted.withResets ?_ (.append _ ?_)) _ (.called _ _))
      · change _ = places sup.resets
        rw [hresets]
        rfl
      · simp [Command.rail?]
  · simp only [hcame, Bool.false_eq_true, ↓reduceIte]
    obtain ⟨rfl, hfailed⟩ := range_eq_append_cons hplaces
    refine (ends_emergencyOff hreturns ?_).mono fun _ _ => .inr
    rw [hcommands]
    exact h.failedAt hfailed

end

end

end BoardControl.Supervisor
