import BoardControl.Proofs.Supervisor.Vouched

namespace BoardControl.Supervisor

open Recorded Run

-- Commands carry no answer, so none of them is bad.
def Exchange.isGood : Exchange → Bool
  | .Gave _ => true
  | .Asked _ ready => ready
  | .Measured _ good => good

-- Every line that was asked was ready, and every rail that was checked was good.
def Undisturbed (exchanges : List Exchange) : Prop :=
  ∀ exchange ∈ exchanges, exchange.isGood = true

-- What a pass without a bad answer commands, by the stage that is waited for.
def stageCommands (resets stage : Nat) : List Command :=
  if stage + 1 < resets then [.Release (stage + 1)]
  else if stage + 1 = resets then [.Called .ResetDone]
  else []

-- The power is on and the chain has come to a stage. Past its last one it is done.
structure Underway (resets stage : Nat) (state : SequencerState) : Prop where
  powerOn : state.powerOn = true
  resetIndex_eq : state.resetIndex = min stage resets
  done_iff : state.resetsDone = true ↔ resets ≤ stage

section

variable {resets stage : Nat} {first second exchanges : List Exchange}
  {state next : SequencerState}

theorem undisturbed_append :
    Undisturbed (first ++ second) ↔ Undisturbed first ∧ Undisturbed second :=
  List.forall_mem_append

theorem Undisturbed.of_earlier (h : Undisturbed second) (hearlier : first <+: second) :
    Undisturbed first :=
  fun exchange hmem => h exchange (hearlier.subset hmem)

theorem stageCommands_of_le (hpast : resets ≤ stage) : stageCommands resets stage = [] := by
  rw [stageCommands, if_neg (by omega), if_neg (by omega)]

theorem flatMap_stageCommands_of_le (hpast : resets ≤ stage) (count : Nat) :
    (List.range' stage count).flatMap (stageCommands resets) = [] := by
  rw [List.flatMap_eq_nil_iff]
  intro later hlater
  exact stageCommands_of_le (Nat.le_trans hpast (List.mem_range'_1.mp hlater).1)

-- A whole chain: each line behind the first stage in turn, and then the end.
theorem flatMap_stageCommands (stage count : Nat) :
    (List.range' stage (count + 1)).flatMap (stageCommands (stage + count + 1)) =
      (List.range' (stage + 1) count).map .Release ++ [.Called .ResetDone] := by
  induction count generalizing stage with
  | zero => simp [stageCommands]
  | succ count ih =>
      have hfirst : stageCommands (stage + (count + 1) + 1) stage = [.Release (stage + 1)] := by
        rw [stageCommands, if_pos (by omega)]
      rw [List.range'_succ, List.flatMap_cons, hfirst,
        show stage + (count + 1) + 1 = stage + 1 + count + 1 by omega, ih (stage + 1),
        List.range'_succ, List.map_cons]
      rfl

theorem flatMap_stageCommands_of_lt (hstage : stage < resets) :
    (List.range' stage (resets - stage)).flatMap (stageCommands resets) =
      (List.range' (stage + 1) (resets - (stage + 1))).map .Release ++ [.Called .ResetDone] := by
  obtain ⟨count, rfl⟩ := Nat.exists_eq_add_of_lt hstage
  rw [show stage + count + 1 - stage = count + 1 by omega,
    show stage + count + 1 - (stage + 1) = count by omega, flatMap_stageCommands]

-- Past the last stage only the rail that is checked next is left to change.
theorem Underway.eq_of_le {last : Nat} (h : Underway resets stage state)
    (hnext : Underway resets last next) (hpast : resets ≤ stage) (hlast : resets ≤ last) :
    next = { state with monitorIndex := next.monitorIndex } := by
  have hdone := h.done_iff.mpr hpast
  have hstill := hnext.done_iff.mpr hlast
  have hindex := h.resetIndex_eq
  have hend := hnext.resetIndex_eq
  rw [Nat.min_eq_right hpast] at hindex
  rw [Nat.min_eq_right hlast] at hend
  cases state
  cases next
  simp only [SequencerState.mk.injEq, and_true]
  exact ⟨hnext.powerOn.trans h.powerOn.symm, hstill.trans hdone.symm, hend.trans hindex.symm⟩

theorem Advances.underway (h : Advances resets state exchanges next)
    (hstate : Underway resets stage state) (hgood : Undisturbed exchanges) :
    Underway resets (stage + 1) next ∧ commandsOf exchanges = stageCommands resets stage := by
  have hindex := hstate.resetIndex_eq
  have hwaits : state.resetsDone = false → stage < resets := by
    intro hdone
    rw [← Nat.not_le, ← hstate.done_iff, hdone]
    exact Bool.false_ne_true
  cases h with
  | idles hidle =>
      have hpast : resets ≤ stage := by
        rcases hidle with hdone | hend
        · exact hstate.done_iff.mp hdone
        · omega
      refine ⟨⟨hstate.powerOn, by omega, ?_⟩, (stageCommands_of_le hpast).symm⟩
      exact iff_of_true (hstate.done_iff.mpr hpast) (by omega)
  | waits _ _ => exact absurd (hgood _ (List.mem_singleton_self _)) Bool.false_ne_true
  | releases hdone hnext =>
      have hstage := hwaits hdone
      obtain rfl : state.resetIndex = stage := by omega
      refine ⟨⟨hstate.powerOn, ?_, ?_⟩, ?_⟩
      · exact (Nat.min_eq_left (Nat.le_of_lt hnext)).symm
      · exact iff_of_false (by rw [hdone]; exact Bool.false_ne_true) (by omega)
      · rw [stageCommands, if_pos hnext]
        rfl
  | completes hdone hlast =>
      have hstage := hwaits hdone
      obtain rfl : state.resetIndex = stage := by omega
      refine ⟨⟨hstate.powerOn, ?_, ?_⟩, ?_⟩
      · exact (Nat.min_eq_right (Nat.le_of_eq hlast.symm)).symm
      · exact iff_of_true rfl (Nat.le_of_eq hlast.symm)
      · rw [stageCommands, if_neg (by omega), if_pos hlast]
        rfl

theorem Rechecks.undisturbed (h : Rechecks resets state exchanges next)
    (hgood : Undisturbed exchanges) : next = state ∧ commandsOf exchanges = [] := by
  cases h with
  | stands => exact ⟨rfl, commandsOf_asked true _⟩
  | falls index _ =>
      have hdown := hgood (.Asked index false) (by simp)
      cases hdown

theorem Checks.undisturbed {ρ κ η : Type} {sup next : Supervisor ρ κ η}
    (h : Checks sup exchanges next) (hgood : Undisturbed exchanges) :
    commandsOf exchanges = [] ∧
      ∃ index, next = { sup with state := { sup.state with monitorIndex := index } } := by
  cases h with
  | spared => exact ⟨rfl, sup.state.monitorIndex, rfl⟩
  | good _ index => exact ⟨rfl, index, rfl⟩
  | reported _ _ _ => exact absurd (hgood _ List.mem_cons_self) Bool.false_ne_true
  | shutDown _ _ _ _ => exact absurd (hgood _ List.mem_cons_self) Bool.false_ne_true

end

-- A number of passes without a bad answer, from one stage of the chain on.
structure Onward {ρ κ η : Type} (resets stage count : Nat)
    (sup next : Supervisor (Numbered ρ) (Numbered κ) η) (exchanges : List Exchange) : Prop where
  resetPlaces : places next.resets = List.range resets
  underway : Underway resets (stage + count) next.state
  commands : commandsOf exchanges = (List.range' stage count).flatMap (stageCommands resets)
  rails_eq : next.rails = sup.rails
  hooks_eq : resets ≤ stage → next.hooks = sup.hooks

section

variable {ρ κ η : Type} {resets stage count : Nat}
  {sup middle next : Supervisor (Numbered ρ) (Numbered κ) η} {first second : List Exchange}

theorem Onward.zero (hplaces : places sup.resets = List.range resets)
    (hstate : Underway resets stage sup.state) : Onward resets stage 0 sup sup [] where
  resetPlaces := hplaces
  underway := hstate
  commands := rfl
  rails_eq := rfl
  hooks_eq _ := rfl

theorem Onward.cons (h : Onward resets stage 1 sup middle first)
    (hrest : Onward resets (stage + 1) count middle next second) :
    Onward resets stage (count + 1) sup next (first ++ second) where
  resetPlaces := hrest.resetPlaces
  underway := by
    rw [Nat.add_comm count, ← Nat.add_assoc]
    exact hrest.underway
  commands := by
    rw [commandsOf_append, h.commands, hrest.commands, ← List.flatMap_append]
    rfl
  rails_eq := hrest.rails_eq.trans h.rails_eq
  hooks_eq hpast := (hrest.hooks_eq (Nat.le_succ_of_le hpast)).trans (h.hooks_eq hpast)

-- A chain that is done stays as it is.
theorem Onward.of_le (h : Onward resets stage count sup next first)
    (hstate : Underway resets stage sup.state) (hpast : resets ≤ stage) :
    commandsOf first = [] ∧
      unnumbered next = { unnumbered sup with
        resets := (unnumbered next).resets
        state := { sup.state with monitorIndex := next.state.monitorIndex } } := by
  refine ⟨?_, ?_⟩
  · rw [h.commands, flatMap_stageCommands_of_le hpast]
  · have hstill := hstate.eq_of_le h.underway hpast (Nat.le_add_right_of_le hpast)
    simp only [unnumbered, h.rails_eq, h.hooks_eq hpast, Supervisor.mk.injEq, true_and]
    exact hstill

end

section

variable {σ ρ κ η : Type} [TickCounter σ] [Logger σ] [Rail σ ρ] [Reset σ κ] [Hooks σ η]
  {resets stage : Nat} {sup : Supervisor (Numbered ρ) (Numbered κ) η} {overheard : Overheard σ}

-- One pass either hears a bad answer or moves on by one stage.
theorem poll_onward (hplaces : places sup.resets = List.range resets)
    (hstate : Underway resets stage sup.state) :
    Leaves sup.poll overheard
      (fun next after => Undisturbed after.events → ∃ exchanges,
        after.events = overheard.events ++ exchanges ∧
        Onward resets stage 1 sup next exchanges)
      fun after => ¬ Undisturbed after.events := by
  have hindex : sup.state.resetIndex ≤ resets := by
    rw [hstate.resetIndex_eq]
    exact Nat.min_le_right _ _
  rw [poll, if_pos hstate.powerOn, leaves_bind]
  refine ((stepResets_exchanges hplaces hindex).leaves fun _ => False).mono ?_ fun _ => False.elim
  rintro stepped asked ⟨middle, first, second, hasked, hadvances, hrechecks, hlines, hrails, hhooks⟩
  apply (checkRail_exchanges hlines).mono
  · rintro next after ⟨checked, hafter, hchecks⟩ hgood
    rw [hasked, List.append_assoc] at hafter
    rw [hafter, undisturbed_append, undisturbed_append, undisturbed_append] at hgood
    obtain ⟨_, ⟨hfirst, hsecond⟩, hchecked⟩ := hgood
    obtain ⟨hmoved, hreleased⟩ := hadvances.underway hstate hfirst
    obtain ⟨hstands, hnothing⟩ := hrechecks.undisturbed hsecond
    obtain ⟨hnone, index, rfl⟩ := hchecks.undisturbed hchecked
    refine ⟨_, hafter, hlines, ?_, ?_, hrails, ?_⟩
    · rw [← hstands] at hmoved
      exact ⟨hmoved.powerOn, hmoved.resetIndex_eq, hmoved.done_iff⟩
    · rw [commandsOf_append, commandsOf_append, hreleased, hnothing, hnone]
      simp
    · intro hpast
      apply hhooks
      intro hcalled
      have hcommand : Command.Called .ResetDone ∈ commandsOf first :=
        List.mem_filterMap.mpr ⟨_, hcalled, rfl⟩
      rw [hreleased, stageCommands_of_le hpast] at hcommand
      cases hcommand
  · rintro after ⟨rail, hbad⟩ hgood
    cases hgood _ hbad

-- After a bad answer a run has heard one, however it goes on. Until then every pass
-- moves on by one stage.
theorem polls_onward (hplaces : places sup.resets = List.range resets)
    (hstate : Underway resets stage sup.state) (count : Nat) :
    Leaves (operateAll (List.replicate count .Poll) sup) overheard
      (fun next after => Undisturbed after.events → ∃ exchanges,
        after.events = overheard.events ++ exchanges ∧
        Onward resets stage count sup next exchanges)
      fun after => ¬ Undisturbed after.events := by
  induction count generalizing stage sup overheard with
  | zero => exact fun _ => ⟨[], (List.append_nil _).symm, .zero hplaces hstate⟩
  | succ count ih =>
      have hkept : Upkept (Continues resets []) sup.poll overheard :=
        (upkeep_overheard resets []).poll ⟨hplaces, List.nil_prefix⟩
      rw [List.replicate_succ, operateAll, List.foldlM_cons, leaves_bind]
      apply (Leaves.and (poll_onward hplaces hstate) hkept).mono
      · rintro middle heard ⟨honward, hlines, _⟩
        by_cases hgood : Undisturbed heard.events
        · obtain ⟨first, hheard, hfirst⟩ := honward hgood
          apply (ih hlines hfirst.underway).mono ?_ fun _ => id
          intro next after hrest hundisturbed
          obtain ⟨second, hafter, hsecond⟩ := hrest hundisturbed
          rw [hheard, List.append_assoc] at hafter
          exact ⟨_, hafter, hfirst.cons hsecond⟩
        · have hlater : Upkept (Continues resets heard.events)
              (operateAll (List.replicate count .Poll) middle) heard :=
            (upkeep_overheard resets _).operateAll _ ⟨hlines, List.prefix_refl _⟩
          apply hlater.mono
          · rintro next after ⟨_, hearlier⟩ hundisturbed
            exact absurd (hundisturbed.of_earlier hearlier) hgood
          · rintro after ⟨_, _, hearlier⟩ hundisturbed
            exact hgood (hundisturbed.of_earlier hearlier)
      · exact fun after h => h.1

-- Passes without a bad answer leave a chain that is done as it is.
theorem polls_stay (hplaces : places sup.resets = List.range resets)
    (hstate : Underway resets stage sup.state) (hpast : resets ≤ stage) (count : Nat)
    (overheard : Overheard σ) :
    let polls := List.replicate count Operation.Poll
    let seen := final (operateAll polls sup) overheard
    Undisturbed seen.events → ∃ next,
      operateAll polls (unnumbered sup) overheard.board = .ok next seen.board ∧
      commandsOf seen.events = commandsOf overheard.events ∧
      next = { unnumbered sup with
        resets := next.resets
        state := { sup.state with monitorIndex := next.state.monitorIndex } } := by
  intro polls seen hgood
  obtain ⟨next, hrun, exchanges, hexchanges, honward⟩ :=
    (polls_onward hplaces hstate count).ok_of_final hgood
  obtain ⟨hnothing, hsame⟩ := honward.of_le hstate hpast
  refine ⟨unnumbered next, (operateAll_erases _ sup).ok hrun, ?_, hsame⟩
  rw [hexchanges, commandsOf_append, hnothing, List.append_nil]

-- What is heard of a supervisor from where it has got to.
theorem polls_heard {sup : Supervisor ρ κ η} (begun : σ) (hlength : sup.resets.length = resets)
    (hstate : Underway resets stage sup.state) (count : Nat) :
    let polls := List.replicate count Operation.Poll
    let seen := final (operateAll polls (labelled sup)) ({ board := begun } : Overheard σ)
    Undisturbed seen.events → ∃ next,
      operateAll polls (labelled sup) { board := begun } = .ok next seen ∧
      Onward resets stage count (labelled sup) next seen.events := by
  intro polls seen hgood
  have hplaces : places (labelled sup).resets = List.range resets := by
    rw [labelled, places_numbered, hlength]
  obtain ⟨next, hrun, exchanges, hexchanges, honward⟩ :=
    (polls_onward hplaces hstate count).ok_of_final hgood
  rw [List.nil_append] at hexchanges
  rw [hexchanges]
  exact ⟨next, hrun, honward⟩

-- A chain that waits, with the power on, has a stage to wait for.
theorem underway_of_waiting (rails : List ρ) (lines : List κ) (hooks : η) (board : σ)
    (calls : List Call) {sup : Supervisor ρ κ η} {begun : σ}
    (hreached : callAll calls { rails, resets := lines, hooks } board = .ok sup begun)
    (hon : sup.state.powerOn = true) (hwaits : sup.state.resetsDone = false) :
    sup.resets.length = lines.length ∧ sup.state.resetIndex < lines.length ∧
      Underway lines.length sup.state.resetIndex sup.state := by
  have hrange : InRange rails lines.length sup :=
    (callAll_staysIn calls (inRange_start rails lines hooks)).of_eq_ok hreached
  have hmirror : RunMirrors (σ := σ) (τ := Overheard σ) Recorded.board unnumbered
      (callAll calls (built rails lines hooks)) _ := callAll_mirrors mirror_recorded calls _
  rw [unnumbered_built] at hmirror
  obtain ⟨numbered, heard, hrun, rfl, _⟩ := hmirror.of_ok { board } hreached
  have hnotDone : (unnumbered numbered).state.resetsDone ≠ true := by
    rw [hwaits]
    exact Bool.false_ne_true
  have hsome : 0 < lines.length := by
    rw [Nat.pos_iff_ne_zero]
    intro hnone
    exact hnotDone ((vouched_of_reached hrun).emptyDone hon hnone)
  have hstage : (unnumbered numbered).state.resetIndex < lines.length :=
    Nat.lt_of_le_of_ne hrange.resetIndex_le (mt (hrange.done_iff hsome).mpr hnotDone)
  refine ⟨hrange.resets_eq, hstage, hon, (Nat.min_eq_left (Nat.le_of_lt hstage)).symm, ?_⟩
  exact iff_of_false hnotDone (Nat.not_le.mpr hstage)

-- From any state that can be reached in which the chain waits for a stage: as long as
-- every line answers that it is ready and every rail reads good, each pass releases the
-- line behind the stage that is waited for. The pass that finds the last line ready says
-- that the chain is done, and those after it command nothing and change nothing but the
-- rail to check next.
theorem chain_converges (rails : List ρ) (lines : List κ) (hooks : η) (board : σ)
    (calls : List Call) {sup : Supervisor ρ κ η} {begun : σ}
    (hreached : callAll calls { rails, resets := lines, hooks } board = .ok sup begun)
    (hon : sup.state.powerOn = true) (hwaits : sup.state.resetsDone = false) :
    let resets := lines.length
    let stage := sup.state.resetIndex
    let polls count := List.replicate count Operation.Poll
    let seen count := final (operateAll (polls count) (labelled sup)) ({ board := begun } : Overheard σ)
    stage < resets ∧
    (∀ count, (seen count).board = final (operateAll (polls count) sup) begun) ∧
    (∀ count, Undisturbed (seen count).events → ∃ next,
      operateAll (polls count) sup begun = .ok next (seen count).board ∧
      Underway resets (stage + count) next.state ∧
      commandsOf (seen count).events =
        (List.range' stage count).flatMap (stageCommands resets)) ∧
    (Undisturbed (seen (resets - stage)).events → ∃ done,
      operateAll (polls (resets - stage)) sup begun = .ok done (seen (resets - stage)).board ∧
      commandsOf (seen (resets - stage)).events =
        (List.range' (stage + 1) (resets - (stage + 1))).map .Release ++ [.Called .ResetDone] ∧
      ∀ more, Undisturbed (seen (resets - stage + more)).events → ∃ next,
        operateAll (polls more) done (seen (resets - stage)).board =
          .ok next (seen (resets - stage + more)).board ∧
        commandsOf (seen (resets - stage + more)).events =
          commandsOf (seen (resets - stage)).events ∧
        next = { done with
          resets := next.resets
          state := { done.state with monitorIndex := next.state.monitorIndex } }) := by
  intro resets stage polls seen
  obtain ⟨hlength, hstage, hstate⟩ :=
    underway_of_waiting rails lines hooks board calls hreached hon hwaits
  have hmirror := fun count => labelled_erases (σ := σ) (ε := Exchange) (polls count) sup
  have hheard := fun count => polls_heard begun hlength hstate count
  refine ⟨hstage, fun count => (hmirror count).final { board := begun }, ?_, ?_⟩
  · intro count hgood
    obtain ⟨next, hrun, honward⟩ := hheard count hgood
    exact ⟨unnumbered next, (hmirror count).ok hrun, honward.underway, honward.commands⟩
  · intro hgood
    obtain ⟨done, hrun, honward⟩ := hheard _ hgood
    have hpast : resets ≤ stage + (resets - stage) := Nat.le_of_eq (by omega)
    refine ⟨unnumbered done, (hmirror _).ok hrun, ?_, ?_⟩
    · rw [honward.commands, flatMap_stageCommands_of_lt hstage]
    · intro more hstill
      have hseen : seen (resets - stage + more) =
          final (operateAll (polls more) done) (seen (resets - stage)) := by
        change final (operateAll (polls (resets - stage + more)) (labelled sup)) _ = _
        rw [show polls (resets - stage + more) = polls (resets - stage) ++ polls more from
          List.replicate_add _ _ _, operateAll_append, final_bind_ok hrun]
      rw [hseen] at hstill ⊢
      exact polls_stay honward.resetPlaces honward.underway hpast more _ hstill

end

section

open Bench

-- The processor goes down once, just after the link has come up.
def processorBlinks : Board :=
  Board.setPin "supply_good" { level := true }
    (Board.setPin "link_up" { level := true }
      (Board.setPin "processor_up"
        { script := [.Level true, .Level true, .Level false, .Level true] } {}))

-- The chain has fallen back to its first stage. It takes three passes to its end, and is
-- still there after two more.
theorem chain_converges_fallen_back :
    ∃ sup begun,
      callAll [.Operate .PowerOn, .Operate .Poll, .Operate .Poll]
          { rails := supplied, resets := upInTurn ++ [.Bare "radio"], hooks := Tolerant.mk }
          processorBlinks = .ok sup begun ∧
      sup.state = { powerOn := true } ∧
      let seen count := final (operateAll (List.replicate count .Poll) (labelled sup))
        ({ board := begun } : Overheard Board)
      Undisturbed (seen 5).events ∧
      commandsOf (seen 5).events = [.Release 1, .Release 2, .Called .ResetDone] := by
  have hchecked : endsWith (fun sup begun => sup.state = { powerOn := true } &&
        (final (operateAll (List.replicate 3 .Poll) (labelled sup))
          ({ board := begun } : Overheard Board)).events.all Exchange.isGood &&
        (final (operateAll (List.replicate 5 .Poll) (labelled sup))
          ({ board := begun } : Overheard Board)).events.all Exchange.isGood)
      (callAll [.Operate .PowerOn, .Operate .Poll, .Operate .Poll]
        { rails := supplied, resets := upInTurn ++ [.Bare "radio"], hooks := Tolerant.mk }
        processorBlinks) = true := by decide +kernel
  obtain ⟨sup, begun, hreached, hends⟩ := exists_of_endsWith hchecked
  simp only [Bool.and_eq_true, List.all_eq_true, decide_eq_true_eq] at hends
  obtain ⟨⟨hstate, hthree⟩, hfive⟩ := hends
  have hlength : (upInTurn ++ [BenchReset.Bare "radio"]).length = 3 := rfl
  have hstage : sup.state.resetIndex = 0 := by rw [hstate]
  have hon : sup.state.powerOn = true := by rw [hstate]
  have hwaits : sup.state.resetsDone = false := by rw [hstate]
  obtain ⟨_, _, _, hdone⟩ := chain_converges _ _ _ _ _ hreached hon hwaits
  simp only [hlength, hstage, Nat.sub_zero, Nat.zero_add, Nat.reduceSub] at hdone
  obtain ⟨_, _, hcommands, hstays⟩ := hdone hthree
  obtain ⟨_, _, hsame, _⟩ := hstays 2 hfive
  exact ⟨sup, begun, hreached, hstate, hfive, hsame.trans hcommands⟩

end

end BoardControl.Supervisor
