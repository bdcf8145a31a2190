import BoardControl.Proofs.Supervisor.Chain
import BoardControl.Proofs.Supervisor.Safety

namespace BoardControl.Supervisor

open Recorded Run

section

variable {σ ρ κ η : Type} {resets : Nat}
  {sup : Supervisor (Numbered ρ) (Numbered κ) η} {traced : Traced σ}

section

variable [Logger σ] [Rail σ ρ] [Reset σ κ] [Hooks σ η]

-- A shutdown may find any part of the chain released.

theorem unchained_emergencyOff (hreturns : FaultReturns σ η)
    (hplaces : places sup.resets = List.range resets)
    (hsome : ∃ count, FirstReleased resets count traced.events) :
    Ends sup.emergencyOff traced fun next after => Unchained resets next after.events := by
  obtain ⟨count, hfirst⟩ := hsome
  apply (emergencyOff_ends sup traced hreturns).mono
  intro next after hends
  obtain ⟨hscript, _, hresets, hstate⟩ := hends
  rw [emergencyScript_command] at hscript
  refine unchained_of_shutdown hplaces (firstReleased_append hfirst ?_) ?_ ?_ hscript hresets hstate
  · simp [Command.reset?]
  · intro reset hreset
    rw [hplaces]
    exact List.mem_range.mpr hreset
  · simp [Command.reset?]

theorem unchained_powerOff [TickCounter σ] (hplaces : places sup.resets = List.range resets)
    (hsome : ∃ count, FirstReleased resets count traced.events) :
    Ends sup.powerOff traced fun next after => Unchained resets next after.events := by
  obtain ⟨count, hfirst⟩ := hsome
  apply (powerOff_ends sup traced).mono
  intro next after hends
  obtain ⟨hscript, _, hresets, hstate⟩ := hends
  rw [powerOffScript_command] at hscript
  rw [← List.append_nil traced.events] at hfirst
  refine unchained_of_shutdown hplaces hfirst ?_ ?_ hscript hresets hstate
  · intro reset hreset
    rw [hplaces]
    simpa using hreset
  · simp [Command.reset?, or_imp, forall_and]

omit [Rail σ ρ] [Reset σ κ] in
theorem chained_completeResets (hplaces : places sup.resets = List.range resets)
    (hon : sup.state.powerOn = true) (hall : FirstReleased resets resets traced.events) :
    Ends sup.completeResets traced fun next after => Chained resets next after.events := by
  have hlength := length_of_places hplaces
  simp only [completeResets, ends_bind, ends_perform, ends_pure, events_onResetDone,
    transcript_command, events_log]
  exact {
    resetPlaces := hplaces
    isOn := hon
    inChain := Nat.le_of_eq hlength
    done_iff := iff_of_true rfl hlength
    released := by
      simp only [hlength]
      exact firstReleased_append hall.saturated (by simp [Command.reset?]) }

omit [Rail σ ρ] in
theorem chained_advanceResets (h : Chained resets sup traced.events) :
    Ends sup.advanceResets traced fun next after => Chained resets next after.events := by
  rw [advanceResets]
  split
  · simpa using h
  · rename_i hwaits
    have hindex : sup.state.resetIndex < sup.resets.length := by
      simp only [Bool.or_eq_true, decide_eq_true_eq, not_or, Nat.not_le] at hwaits
      exact hwaits.2
    rw [ends_bind]
    refine (events_visit traced (fun _ _ => []) ?_ _ _ hindex).mono ?_
    · intro line traced
      exact ⟨rfl, rfl⟩
    · rintro ⟨ready, lines⟩ asked ⟨hlines, _, _, hasked⟩
      have hplaces : places lines = List.range resets := hlines.trans h.resetPlaces
      have hlength := length_of_places hplaces
      have hreleased := h.released
      rw [List.append_nil] at hasked
      rw [← hasked] at hreleased
      cases ready with
      | false =>
          simp only [Bool.false_eq_true, ↓reduceIte, ends_pure, hasked]
          exact h.spared (List.append_nil _).symm (List.forall_mem_nil _) hlines rfl rfl rfl
      | true =>
          simp only [↓reduceIte, withResets, hlength]
          rw [length_of_places h.resetPlaces] at hindex
          split
          · -- The last stage is ready, and every line is released.
            rename_i hlast
            obtain heq : sup.state.resetIndex + 1 = resets := by omega
            rw [heq] at hreleased
            exact chained_completeResets hplaces h.isOn hreleased
          · rename_i hmore
            simp only [ends_bind]
            refine (events_visit asked (fun place _ => [.Release place]) ?_ _ _ (by omega)).mono ?_
            · intro line traced
              exact ⟨rfl, rfl⟩
            · rintro ⟨_, lines'⟩ after ⟨hlines', place, hplace, hafter⟩
              simp only [ends_pure]
              rw [hplaces, List.getElem?_range (by omega), Option.some.injEq] at hplace
              subst hplace
              have hnotDone : sup.state.resetsDone ≠ true := by
                rw [ne_eq, h.done_iff]
                omega
              exact {
                resetPlaces := hlines'.trans hplaces
                isOn := h.isOn
                inChain := by simp only; omega
                done_iff := iff_of_false hnotDone (by simp only; omega)
                released := by
                  rw [hafter]
                  exact firstReleased_release hreleased }

omit [Logger σ] [Rail σ ρ] [Hooks σ η] in
-- A rollback holds the lines behind a stage. That stage is left released.
theorem chained_fallBackTo (h : Chained resets sup traced.events) (index : Nat)
    (hindex : index < resets) (hpassed : index < sup.state.resetIndex) :
    Ends (fallBackTo index sup) traced fun next after => Chained resets next after.events := by
  have hlength := length_of_places h.resetPlaces
  have hinside : index + 1 ≤ sup.resets.length := by omega
  obtain ⟨hcommands, hplaces⟩ := events_holdFromLast traced (sup.resets.drop (index + 1))
  have hdropped : places (sup.resets.drop (index + 1)) = (List.range resets).drop (index + 1) := by
    rw [← h.resetPlaces, places, List.map_drop, places]
  simp only [fallBackTo, hinside, ↓reduceIte, ends_bind, ends_pure, ends_perform]
  exact {
    resetPlaces := by
      rw [← h.resetPlaces, places_append, hplaces, ← places_append, List.take_append_drop]
    isOn := h.isOn
    inChain := Nat.le_of_lt hindex
    done_iff := iff_of_false Bool.false_ne_true (Nat.ne_of_lt hindex)
    released := by
      rw [hcommands, hdropped]
      refine firstReleased_hold h.released (by simp only; omega) ?_
      intro reset hreset
      rw [List.mem_reverse, List.range_eq_range', List.drop_range', List.mem_range'_1]
      simp only
      omega }


omit [Rail σ ρ] in
theorem chained_stepResets (h : Chained resets sup traced.events) :
    Ends sup.stepResets traced fun next after => Chained resets next after.events := by
  unfold stepResets
  rw [ends_bind]
  apply (chained_advanceResets h).mono
  intro sup after h
  have hinside : sup.state.resetIndex ≤ sup.resets.length := by
    rw [length_of_places h.resetPlaces]
    exact h.inChain
  rw [ends_bind]
  apply (ends_firstDown after sup.state.resetIndex sup.resets hinside).mono
  rintro ⟨down, lines⟩ asked ⟨hlines, hasked, hbound⟩
  have hkept : Chained resets (sup.withResets lines) asked.events := by
    rw [hasked]
    exact h.spared (List.append_nil _).symm (List.forall_mem_nil _) hlines rfl rfl rfl
  cases down with
  | none => simpa using hkept
  | some index =>
      have hpassed := hbound index rfl
      have hplaces : places lines = List.range resets := hkept.resetPlaces
      have hindex : index < lines.length := by
        rw [length_of_places hplaces]
        exact Nat.lt_of_lt_of_le hpassed h.inChain
      simp only [ends_bind, ends_perform]
      refine (events_visit asked (fun _ _ => []) ?_ index lines hindex).mono ?_
      · intro line traced
        exact ⟨rfl, (List.append_nil _).symm⟩
      · intro named later hends
        obtain ⟨_, _, _, hlater⟩ := hends
        rw [List.append_nil] at hlater
        refine chained_fallBackTo ?_ index (Nat.lt_of_lt_of_le hpassed h.inChain) hpassed
        rw [events_log, hlater]
        exact hkept

theorem chained_checkRail [TickCounter σ] (hreturns : FaultReturns σ η)
    (h : Chained resets sup traced.events) :
    Ends sup.checkRail traced fun next after =>
      Chained resets next after.events ∨ Unchained resets next after.events := by
  rw [checkRail]
  split
  · simpa using .inl h
  · rename_i hsome
    have hindex : sup.state.monitorIndex % sup.rails.length < sup.rails.length :=
      Nat.mod_lt _ (Nat.pos_of_ne_zero hsome)
    have hmoved : Chained resets { sup with state := { sup.state with
        monitorIndex := (sup.state.monitorIndex % sup.rails.length + 1) % sup.rails.length } }
        traced.events := h.spared (List.append_nil _).symm (List.forall_mem_nil _) rfl rfl rfl rfl
    simp only [List.getElem?_eq_getElem hindex, ends_bind, ends_perform]
    split
    · rw [ends_pure, commands_isGood]
      exact .inl hmoved
    · split
      · simp only [ends_bind, ends_perform]
        refine (unchained_emergencyOff hreturns hmoved.resetPlaces ?_).mono fun _ _ => .inr
        rw [events_log, commands_isGood]
        exact ⟨_, hmoved.released⟩
      · split
        · simp only [ends_bind, ends_perform]
          refine (unchained_powerOff hmoved.resetPlaces ?_).mono ?_
          · rw [events_log, commands_isGood]
            exact ⟨_, hmoved.released⟩
          · intro next after hnext
            rw [ends_pure, commands_onPowerLost]
            exact .inr (hnext.withHooks _ _)
        · simp only [ends_bind, ends_perform, ends_pure, commands_onRailDegraded, events_log,
            commands_isGood]
          exact .inl (hmoved.withHooks _ _)

theorem chained_poll [TickCounter σ] (hreturns : FaultReturns σ η)
    (h : Chained resets sup traced.events ∨ Unchained resets sup traced.events) :
    Ends sup.poll traced fun next after =>
      Chained resets next after.events ∨ Unchained resets next after.events := by
  unfold poll
  rcases h with h | h
  · rw [if_pos h.isOn, ends_bind]
    exact (chained_stepResets h).mono fun _ _ => chained_checkRail hreturns
  · rw [if_neg (by simp [h.isOff]), ends_pure]
    exact .inr h

-- Power that comes on finds every line held, and releases the first one.
theorem chained_powerOn (hreturns : FaultReturns σ η)
    (h : Unchained resets sup traced.events) :
    Ends sup.powerOn traced fun next after =>
      Chained resets next after.events ∨ Unchained resets next after.events := by
  have hswitched := events_switchOnAll (log .Info "Turning power on" traced).2 sup.rails
  simp only [events_log, transcript_command] at hswitched
  simp only [powerOn, ends_bind, ends_perform]
  rcases hswitched with ⟨hcame, hcommands⟩ | ⟨hcame, before, failed, _, _, hcommands⟩
  · have hkept : FirstReleased resets 0
        (switchOnAll sup.rails (log .Info "Turning power on" traced).2).2.events := by
      rw [hcommands]
      exact firstReleased_append h.kept (by simp [Command.reset?])
    have hplaces : places { sup with state := { powerOn := true } }.resets = List.range resets :=
      h.resetPlaces
    simp only [hcame, ↓reduceIte, ends_bind, ends_perform]
    split
    · rename_i hnone
      have hempty : resets = 0 := by
        have hlength := length_of_places h.resetPlaces
        rw [hnone] at hlength
        exact hlength.symm
      rw [ends_bind]
      refine (chained_completeResets hplaces rfl ?_).mono ?_
      · rw [events_log, hempty]
        rwa [hempty] at hkept
      · intro next after hnext
        simp only [ends_bind, ends_perform, ends_pure, commands_onPowerOn]
        exact .inl (hnext.withHooks _ _)
    · rename_i first rest hresets
      simp only at hplaces
      rw [hresets, places_cons] at hplaces
      have hfirst : resets ≠ 0 ∧ first.place = 0 := by
        cases resets with
        | zero => cases hplaces
        | succ number =>
            rw [List.range_succ_eq_map] at hplaces
            exact ⟨Nat.succ_ne_zero number, (List.cons.inj hplaces).1⟩
      have hreleased := firstReleased_release hkept
      simp only [ends_bind, ends_perform, ends_pure, commands_onPowerOn, commands_release,
        events_log, hfirst.2]
      exact .inl {
        resetPlaces := hplaces
        isOn := rfl
        inChain := Nat.zero_le _
        done_iff := iff_of_false Bool.false_ne_true hfirst.1.symm
        released := firstReleased_append hreleased (by simp [Command.reset?]) }
  · simp only [hcame, Bool.false_eq_true, ↓reduceIte]
    refine (unchained_emergencyOff hreturns h.resetPlaces ⟨0, ?_⟩).mono fun _ _ => .inr
    rw [hcommands]
    exact firstReleased_append h.kept (by simp [Command.reset?, or_imp, forall_and])

end

end

section

variable {σ ρ κ η : Type} [TickCounter σ] [Logger σ] [Rail σ ρ] [Reset σ κ] [Hooks σ η]

-- An application that switches power on only while it is off.
def PowersOnFromOff : List Operation → Supervisor ρ κ η → σ → Prop
  | [], _, _ => True
  | operation :: rest, sup, board =>
      (operation = .PowerOn → sup.state.powerOn = false) ∧
      match operate sup operation board with
      | .ok next after => PowersOnFromOff rest next after
      | .error _ _ => True

instance decidablePowersOnFromOff : (operations : List Operation) → (sup : Supervisor ρ κ η) →
    (board : σ) → Decidable (PowersOnFromOff operations sup board)
  | [], _, _ => isTrue trivial
  | operation :: rest, sup, board =>
      letI : Decidable (match operate sup operation board with
          | .ok next after => PowersOnFromOff rest next after
          | .error _ _ => True) :=
        match operate sup operation board with
        | .ok next after => decidablePowersOnFromOff rest next after
        | .error _ _ => isTrue trivial
      inferInstanceAs (Decidable (_ ∧ _))

variable {resets : Nat} {sup : Supervisor (Numbered ρ) (Numbered κ) η} {traced : Traced σ}

theorem powersOnFromOff_unnumbered {operations : List Operation}
    (h : PowersOnFromOff operations (unnumbered sup) traced.board) :
    PowersOnFromOff operations sup traced := by
  induction operations generalizing sup traced with
  | nil => trivial
  | cons operation rest ih =>
      obtain ⟨hoff, hrest⟩ := h
      refine ⟨hoff, ?_⟩
      rw [operate_mirrors mirror_recorded operation sup traced] at hrest
      split
      · rename_i next after hrun
        rw [hrun] at hrest
        exact ih hrest
      · trivial

theorem chained_operate (hreturns : FaultReturns σ η) (operation : Operation)
    (hcall : operation = .PowerOn → sup.state.powerOn = false)
    (h : Chained resets sup traced.events ∨ Unchained resets sup traced.events) :
    Ends (operate sup operation) traced fun next after =>
      Chained resets next after.events ∨ Unchained resets next after.events := by
  have hplaces : places sup.resets = List.range resets := by
    rcases h with h | h
    · exact h.resetPlaces
    · exact h.resetPlaces
  have hsome : ∃ count, FirstReleased resets count traced.events := by
    rcases h with h | h
    · exact ⟨_, h.released⟩
    · exact ⟨_, h.kept⟩
  cases operation with
  | PowerOn =>
      rcases h with h | h
      · cases h.isOn.symm.trans (hcall rfl)
      · exact chained_powerOn hreturns h
  | PowerOff => exact (unchained_powerOff hplaces hsome).mono fun _ _ => .inr
  | EmergencyOff => exact (unchained_emergencyOff hreturns hplaces hsome).mono fun _ _ => .inr
  | Poll => exact chained_poll hreturns h

theorem chained_operateAll (hreturns : FaultReturns σ η) (operations : List Operation)
    (hcalls : PowersOnFromOff operations sup traced)
    (h : Chained resets sup traced.events ∨ Unchained resets sup traced.events) :
    Ends (operateAll operations sup) traced fun next after =>
      Chained resets next after.events ∨ Unchained resets next after.events := by
  induction operations generalizing sup traced with
  | nil => exact (ends_pure sup _).mpr h
  | cons operation rest ih =>
      obtain ⟨hcall, hrest⟩ := hcalls
      obtain ⟨next, after, hrun, hnext⟩ := chained_operate hreturns operation hcall h
      rw [hrun] at hrest
      rw [operateAll, List.foldlM_cons, ends_bind]
      exact ends_of_eq hrun (ih hrest hnext)

omit [TickCounter σ] [Logger σ] [Rail σ ρ] [Reset σ κ] [Hooks σ η] in
theorem unchained_built (rails : List ρ) (resets : List κ) (hooks : η) :
    Unchained resets.length (built rails resets hooks) [] where
  resetPlaces := places_numbered resets
  isOff := rfl
  notDone := rfl
  atStart := rfl
  kept := firstReleased_nil

-- Between operations the stage that is waited for tells what every line was last
-- told, whatever the rails and the resets answered: with power on, the lines up
-- to that stage are released and those behind it are held.
theorem cursor_describes_lines (hreturns : FaultReturns σ η) (rails : List ρ) (resets : List κ)
    (hooks : η) (board : σ) (operations : List Operation)
    (hcalls : PowersOnFromOff operations { rails, resets, hooks } board) :
    ∃ (sup : Supervisor (Numbered ρ) (Numbered κ) η) (after : Traced σ),
      operateAll operations (built rails resets hooks) { board } = .ok sup after ∧
      operateAll operations { rails, resets, hooks } board = .ok (unnumbered sup) after.board ∧
      (sup.state.powerOn = true →
        (∀ reset < resets.length,
          (Released reset after.events ↔ reset ≤ sup.state.resetIndex) ∧
          (Kept reset after.events ↔ sup.state.resetIndex < reset)) ∧
        (sup.state.resetsDone = true ↔ sup.state.resetIndex = resets.length) ∧
        (sup.state.resetsDone = true → ∀ reset < resets.length, Released reset after.events)) ∧
      (sup.state.powerOn = false →
        (∀ reset < resets.length, Kept reset after.events) ∧
        sup.state.resetsDone = false ∧ sup.state.resetIndex = 0) := by
  rw [← unnumbered_built] at hcalls
  obtain ⟨sup, after, hrun, hends⟩ :
      Ends (operateAll operations (built rails resets hooks)) { board } _ :=
    chained_operateAll hreturns operations (powersOnFromOff_unnumbered hcalls)
      (.inr (unchained_built rails resets hooks))
  have hbare := (operateAll_erases operations _).ok hrun
  rw [unnumbered_built] at hbare
  refine ⟨sup, after, hrun, hbare, ?_⟩
  rcases hends with h | h
  · refine ⟨fun _ => ⟨fun reset hreset => ?_, h.done_iff, fun hdone reset hreset => ?_⟩, ?_⟩
    · obtain ⟨hreleased, hkept⟩ := h.released reset hreset
      have hnot : Kept reset after.events → ¬ Released reset after.events :=
        not_released_of_kept
      constructor
      · refine ⟨fun hlast => ?_, fun hle => hreleased (by omega)⟩
        by_contra hbehind
        exact hnot (hkept (by omega)) hlast
      · refine ⟨fun hlast => ?_, fun hlt => hkept (by omega)⟩
        by_contra hpassed
        exact hnot hlast (hreleased (by omega))
    · have hindex := h.done_iff.mp hdone
      exact (h.released reset hreset).1 (by omega)
    · intro hoff
      cases h.isOn.symm.trans hoff
  · refine ⟨fun hon => ?_, fun _ => ⟨fun reset hreset => ?_, h.notDone, h.atStart⟩⟩
    · cases h.isOff.symm.trans hon
    · exact (h.kept reset hreset).2 (Nat.zero_le _)

end

section

open Bench

-- Power comes back after the supply was lost.
theorem cursor_describes_lines_supply_back :
    FaultReturns Board Tolerant ∧
    PowersOnFromOff [.PowerOn, .Poll, .PowerOn]
      { rails := supplied, resets := chained, hooks := Tolerant.mk } ({} : Board) ∧
    ∃ sup after,
      operateAll [.PowerOn, .Poll, .PowerOn] (built supplied chained Tolerant.mk)
        ({ board := {} } : Traced Board) = .ok sup after ∧
      operateAll [.PowerOn, .Poll, .PowerOn]
        { rails := supplied, resets := chained, hooks := Tolerant.mk } ({} : Board) =
          .ok (unnumbered sup) after.board ∧
      (sup.state.powerOn = true →
        (∀ reset < 2,
          (Released reset after.events ↔ reset ≤ sup.state.resetIndex) ∧
          (Kept reset after.events ↔ sup.state.resetIndex < reset)) ∧
        (sup.state.resetsDone = true ↔ sup.state.resetIndex = 2) ∧
        (sup.state.resetsDone = true → ∀ reset < 2, Released reset after.events)) ∧
      (sup.state.powerOn = false →
        (∀ reset < 2, Kept reset after.events) ∧
        sup.state.resetsDone = false ∧ sup.state.resetIndex = 0) := by
  have hreturns : FaultReturns Board Tolerant := fun hooks board => ⟨hooks, board, rfl⟩
  have hcalls : PowersOnFromOff [.PowerOn, .Poll, .PowerOn]
      { rails := supplied, resets := chained, hooks := Tolerant.mk } ({} : Board) := by
    decide +kernel
  exact ⟨hreturns, hcalls, cursor_describes_lines hreturns supplied chained .mk {} _ hcalls⟩

end

end BoardControl.Supervisor
