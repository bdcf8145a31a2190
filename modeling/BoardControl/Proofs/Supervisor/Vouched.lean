import BoardControl.Proofs.Supervisor.ResetPass
import BoardControl.Proofs.Supervisor.Upkeep

namespace BoardControl.Supervisor

open Recorded Run

-- The check of one rail: what is exchanged, and what it makes of the supervisor. After
-- a shutdown the power is off and the chain at its start.
inductive Checks {ρ κ η : Type} (sup : Supervisor ρ κ η) :
    List Exchange → Supervisor ρ κ η → Prop where
  | spared : Checks sup [] sup
  | good (rail index : Nat) : Checks sup [.Measured rail true]
      { sup with state := { sup.state with monitorIndex := index } }
  | reported (rail index : Nat) (hooks : η) :
      Checks sup [.Measured rail false, .Gave (.Called .RailDegraded)]
        { sup with hooks, state := { sup.state with monitorIndex := index } }
  | shutDown (rail : Nat) (script : List Exchange) {next : Supervisor ρ κ η}
      (hoff : next.state.powerOn = false) (hstart : next.state.resetIndex = 0) :
      Checks sup (.Measured rail false :: script) next

-- The lines are in their places, and what was heard before has only been added to.
def Continues {σ κ : Type} (resets : Nat) (earlier : List Exchange) (lines : List (Numbered κ))
    (overheard : Overheard σ) : Prop :=
  places lines = List.range resets ∧ earlier <+: overheard.events

section

variable {σ ρ κ η : Type} [TickCounter σ] [Logger σ] [Rail σ ρ] [Reset σ κ] [Hooks σ η]
  {resets : Nat}

theorem upkeep_overheard (resets : Nat) (earlier : List Exchange) :
    Upkeep (Numbered ρ) η (Continues (σ := σ) (κ := κ) resets earlier) := by
  have hspared : ∀ {lines : List (Numbered κ)} {before after : Overheard σ}
      {exchanges : List Exchange}, after.events = before.events ++ exchanges →
      Continues resets earlier lines before → Continues resets earlier lines after := by
    intro lines before after exchanges hafter hcontinues
    refine ⟨hcontinues.1, ?_⟩
    rw [hafter]
    exact hcontinues.2.trans (List.prefix_append _ _)
  have hserved : ∀ {first rest : List (Numbered κ)} {line line' : Numbered κ}
      {before after : Overheard σ} {exchanges : List Exchange}, line'.place = line.place →
      after.events = before.events ++ exchanges →
      Continues resets earlier (first ++ line :: rest) before →
      Continues resets earlier (first ++ line' :: rest) after := by
    intro first rest line line' before after exchanges hplace hafter hcontinues
    refine ⟨?_, (hspared hafter hcontinues).2⟩
    rw [← hcontinues.1]
    simp only [places_append, places_cons, hplace]
  exact {
    log := fun severity text lines board hcontinues =>
      hspared (by rw [events_log, List.append_nil]) hcontinues
    sleep := fun _ _ _ => hspared rfl
    switchOn := fun _ _ _ => hspared rfl
    switchOff := fun _ _ _ => hspared rfl
    isGood := fun _ _ _ => hspared rfl
    onPowerOn := fun _ _ _ => hspared rfl
    onPowerOff := fun _ _ _ => hspared rfl
    onResetDone := fun _ _ _ => hspared rfl
    onPowerLost := fun _ _ _ => hspared rfl
    onRailDegraded := fun _ _ _ _ => hspared rfl
    onFault := fun hooks lines board hcontinues => by
      apply (events_onFault board hooks).mono
      · exact fun value after hafter => hspared hafter hcontinues
      · exact fun after hafter => ⟨lines, hspared hafter hcontinues⟩
    hold := fun _ _ _ _ => hserved rfl rfl
    release := fun _ _ _ _ => hserved rfl rfl
    isReady := fun _ _ _ _ => hserved rfl rfl }

end

-- Where the sequencer is after the operations that do not step the chain.
section

variable {σ ρ κ η : Type} [TickCounter σ] [Logger σ] [Rail σ ρ] [Reset σ κ] [Hooks σ η]

omit [TickCounter σ] in
theorem emergencyOff_state (sup : Supervisor ρ κ η) (board : σ) :
    Leaves sup.emergencyOff board (fun next _ => next.state = sup.cleared.state)
      fun _ => True := by
  simp only [emergencyOff, leaves_bind, leaves_perform, leaves_pure]
  exact leaves_trivial _ _

theorem powerOff_state (sup : Supervisor ρ κ η) (board : σ) :
    Leaves sup.powerOff board (fun next _ => next.state = sup.cleared.state) fun _ => True := by
  simp only [powerOff, leaves_bind, leaves_perform, leaves_pure]

omit [TickCounter σ] in
theorem powerOn_state (sup : Supervisor ρ κ η) (board : σ) :
    Leaves sup.powerOn board
      (fun next _ => next.state.resetIndex = 0 ∧
        (next.state.powerOn = true → sup.resets = [] → next.state.resetsDone = true))
      fun _ => True := by
  simp only [powerOn, leaves_bind, leaves_perform]
  split
  · simp only [leaves_bind, leaves_perform]
    split
    · rename_i hnone
      simp only [completeResets, leaves_bind, leaves_perform, leaves_pure]
      exact ⟨congrArg List.length hnone, fun _ _ => rfl⟩
    · rename_i first rest hsome
      simp only [leaves_bind, leaves_perform, leaves_pure]
      refine ⟨rfl, fun _ hnone => ?_⟩
      simp only [hnone, reduceCtorEq] at hsome
  · apply (emergencyOff_state sup _).mono ?_ fun _ => id
    intro next _ hstate
    rw [hstate]
    exact ⟨rfl, fun hon => absurd hon Bool.false_ne_true⟩

end

section

variable {σ ρ κ η : Type} [TickCounter σ] [Logger σ] [Rail σ ρ] [Reset σ κ] [Hooks σ η]
  {resets : Nat} {sup : Supervisor (Numbered ρ) (Numbered κ) η} {overheard : Overheard σ}

omit [TickCounter σ] [Logger σ] [Rail σ ρ] [Reset σ κ] [Hooks σ η] in
-- A shutdown adds to what was heard, however it ends.
theorem leaves_shutDown {run : Run (Overheard σ) (Supervisor (Numbered ρ) (Numbered κ) η)}
    {state : SequencerState} {rail : Nat} {earlier : List Exchange}
    (hkept : Upkept (Continues resets (earlier ++ [.Measured rail false])) run overheard)
    (hstate : Leaves run overheard (fun next _ => next.state = state) fun _ => True) :
    Leaves run overheard
      (fun next after => next.state = state ∧
        ∃ script, after.events = earlier ++ .Measured rail false :: script)
      fun after => ∃ rail, .Measured rail false ∈ after.events := by
  apply (Leaves.and hkept hstate).mono
  · rintro next after ⟨⟨_, script, hscript⟩, hnext⟩
    rw [List.append_assoc] at hscript
    exact ⟨hnext, script, hscript.symm⟩
  · rintro after ⟨⟨_, _, hearlier⟩, _⟩
    exact ⟨rail, hearlier.subset (by simp)⟩

theorem checkRail_exchanges (hplaces : places sup.resets = List.range resets) :
    Leaves sup.checkRail overheard
      (fun next after => ∃ exchanges, after.events = overheard.events ++ exchanges ∧
        Checks sup exchanges next)
      fun after => ∃ rail, .Measured rail false ∈ after.events := by
  rw [checkRail]
  split
  · exact ⟨[], (List.append_nil _).symm, .spared⟩
  · rename_i hsome
    have hindex : sup.state.monitorIndex % sup.rails.length < sup.rails.length :=
      Nat.mod_lt _ (Nat.pos_of_ne_zero hsome)
    simp only [List.getElem?_eq_getElem hindex, leaves_bind, leaves_perform]
    generalize sup.rails[sup.state.monitorIndex % sup.rails.length] = rail
    have hmeasured : (Rail.isGood rail overheard).2.events = overheard.events ++
        [.Measured rail.place (Rail.isGood rail overheard).1] := rfl
    split
    · rename_i hgood
      rw [hgood] at hmeasured
      exact ⟨_, hmeasured, .good _ _⟩
    · rename_i hbad
      rw [Bool.not_eq_true] at hbad
      rw [hbad] at hmeasured
      have hupkeep := upkeep_overheard (σ := σ) (ρ := ρ) (κ := κ) (η := η) resets
        (overheard.events ++ [.Measured rail.place false])
      have hcontinues : Continues resets (overheard.events ++ [.Measured rail.place false])
          sup.resets (Rail.isGood rail overheard).2 :=
        ⟨hplaces, [], (List.append_nil _).trans hmeasured.symm⟩
      split
      · simp only [leaves_bind, leaves_perform]
        refine (leaves_shutDown (hupkeep.emergencyOff ?_) (emergencyOff_state _ _)).mono ?_
          fun _ => id
        · exact hupkeep.log _ _ _ _ hcontinues
        · rintro next after ⟨hstate, script, hscript⟩
          refine ⟨_, hscript, .shutDown rail.place script ?_ ?_⟩
          · rw [hstate]
            rfl
          · rw [hstate]
            rfl
      · split
        · simp only [leaves_bind, leaves_perform, leaves_pure]
          refine (leaves_shutDown (hupkeep.powerOff ?_) (powerOff_state _ _)).mono ?_ fun _ => id
          · exact hupkeep.log _ _ _ _ hcontinues
          · rintro next after ⟨hstate, script, hscript⟩
            refine ⟨.Measured rail.place false :: (script ++ [.Gave (.Called .PowerLost)]), ?_,
              .shutDown rail.place _ ?_ ?_⟩
            · change after.events ++ [.Gave (.Called .PowerLost)] = _
              rw [hscript, List.append_assoc, List.cons_append]
            · rw [withHooks, hstate]
              rfl
            · rw [withHooks, hstate]
              rfl
        · simp only [leaves_bind, leaves_perform, leaves_pure]
          refine ⟨[.Measured rail.place false, .Gave (.Called .RailDegraded)], ?_,
            .reported rail.place _ _⟩
          change Recorded.events (log .Warn _ _).2 ++ [Exchange.Gave (.Called .RailDegraded)] = _
          rw [events_log, hmeasured, List.append_assoc]
          rfl

end

-- Every stage that counts as passed was ready when it was last asked. A chain without
-- a stage is done as soon as the power is on.
structure Vouched {ρ κ η : Type} (resets : Nat) (sup : Supervisor (Numbered ρ) (Numbered κ) η)
    (exchanges : List Exchange) : Prop where
  resetPlaces : places sup.resets = List.range resets
  resetIndex_le : sup.state.resetIndex ≤ resets
  answered : ∀ reset < sup.state.resetIndex, latestAnswer reset exchanges = some true
  emptyDone : sup.state.powerOn = true → resets = 0 → sup.state.resetsDone = true

section

variable {ρ κ η : Type} {resets : Nat} {sup next : Supervisor (Numbered ρ) (Numbered κ) η}
  {earlier exchanges first second : List Exchange} {middle : SequencerState}

-- No stage is passed, so none has to answer for itself.
theorem vouched_of_start (hplaces : places next.resets = List.range resets)
    (hstart : next.state.resetIndex = 0)
    (hempty : next.state.powerOn = true → resets = 0 → next.state.resetsDone = true) :
    Vouched resets next exchanges where
  resetPlaces := hplaces
  resetIndex_le := by
    rw [hstart]
    exact Nat.zero_le _
  answered reset hreset := by
    rw [hstart] at hreset
    exact absurd hreset (Nat.not_lt_zero _)
  emptyDone := hempty

theorem Vouched.checked (h : Vouched resets sup earlier) (hchecks : Checks sup exchanges next)
    (hplaces : places next.resets = List.range resets) :
    Vouched resets next (earlier ++ exchanges) := by
  have hkept : (∀ reset, ∀ exchange ∈ exchanges, exchange.answer? reset = none) →
      ∀ reset < sup.state.resetIndex, latestAnswer reset (earlier ++ exchanges) = some true := by
    intro hsilent reset hreset
    rw [latestAnswer_append, latestAnswer_of_silent (hsilent reset), Option.none_or]
    exact h.answered reset hreset
  cases hchecks with
  | spared => exact { h with answered := hkept fun _ _ => nofun }
  | good rail index => exact { h with answered := hkept (by simp [Exchange.answer?]) }
  | reported rail index hooks => exact { h with answered := hkept (by simp [Exchange.answer?]) }
  | shutDown rail script hoff hstart =>
      refine vouched_of_start hplaces hstart ?_
      intro hon
      cases hoff.symm.trans hon

-- A step asks every stage again that it leaves behind.
theorem Vouched.stepped (h : Vouched resets sup earlier)
    (hadvances : Advances resets sup.state first middle)
    (hrechecks : Rechecks resets middle second next.state)
    (hplaces : places next.resets = List.range resets) :
    Vouched resets next (earlier ++ (first ++ second)) where
  resetPlaces := hplaces
  resetIndex_le := Nat.le_trans hrechecks.resetIndex_le (hadvances.resetIndex_le h.resetIndex_le)
  answered reset hreset := by
    rw [latestAnswer_append, latestAnswer_append, hrechecks.latestAnswer_eq hreset,
      Option.some_or, Option.some_or]
  emptyDone hon hnone := by
    subst hnone
    have hindex := h.resetIndex_le
    have hstill : next.state = sup.state := by
      cases hadvances with
      | idles _ => exact hrechecks.eq_of_start (Nat.le_zero.mp hindex)
      | waits _ hlt => omega
      | releases _ hnext => omega
      | completes _ hlast => omega
    rw [hstill] at hon ⊢
    exact h.emptyDone hon rfl

end

section

variable {σ ρ κ η : Type} [TickCounter σ] [Logger σ] [Rail σ ρ] [Reset σ κ] [Hooks σ η]
  {resets : Nat} {sup : Supervisor (Numbered ρ) (Numbered κ) η} {overheard : Overheard σ}

omit [TickCounter σ] [Rail σ ρ] in
theorem stepResets_vouched (h : Vouched resets sup overheard.events) :
    Ends sup.stepResets overheard fun next after => Vouched resets next after.events := by
  apply (stepResets_exchanges h.resetPlaces h.resetIndex_le).mono
  rintro next after ⟨middle, first, second, hafter, hadvances, hrechecks, hplaces, _⟩
  rw [hafter]
  exact h.stepped hadvances hrechecks hplaces

theorem checkRail_vouched (h : Vouched resets sup overheard.events) :
    Leaves sup.checkRail overheard (fun next after => Vouched resets next after.events)
      fun _ => True := by
  have hkept : Upkept (Continues resets []) sup.checkRail overheard :=
    (upkeep_overheard resets []).checkRail ⟨h.resetPlaces, List.nil_prefix⟩
  apply ((checkRail_exchanges h.resetPlaces).and hkept).mono ?_ fun _ _ => trivial
  rintro next after ⟨⟨exchanges, hafter, hchecks⟩, hplaces, _⟩
  rw [hafter]
  exact h.checked hchecks hplaces

theorem operate_vouched (operation : Operation) (h : Vouched resets sup overheard.events) :
    Leaves (operate sup operation) overheard
      (fun next after => Vouched resets next after.events) fun _ => True := by
  have hkept : Upkept (Continues resets []) (operate sup operation) overheard :=
    (upkeep_overheard resets []).operate operation ⟨h.resetPlaces, List.nil_prefix⟩
  cases operation with
  | PowerOn =>
      apply (Leaves.and hkept (powerOn_state sup overheard)).mono ?_ fun _ _ => trivial
      rintro next after ⟨⟨hplaces, _⟩, hstart, hempty⟩
      refine vouched_of_start hplaces hstart fun hon hnone => hempty hon ?_
      rw [← List.length_eq_zero_iff, length_of_places h.resetPlaces, hnone]
  | PowerOff =>
      apply (Leaves.and hkept (powerOff_state sup overheard)).mono ?_ fun _ _ => trivial
      rintro next after ⟨⟨hplaces, _⟩, hstate⟩
      exact vouched_of_start hplaces (by rw [hstate]; rfl) (by rw [hstate]; nofun)
  | EmergencyOff =>
      apply (Leaves.and hkept (emergencyOff_state sup overheard)).mono ?_ fun _ _ => trivial
      rintro next after ⟨⟨hplaces, _⟩, hstate⟩
      exact vouched_of_start hplaces (by rw [hstate]; rfl) (by rw [hstate]; nofun)
  | Poll =>
      rw [operate, poll]
      split
      · rw [leaves_bind]
        refine ((stepResets_vouched h).leaves fun _ => True).mono ?_ fun _ => id
        exact fun next after => checkRail_vouched
      · exact h

theorem callAll_vouched (calls : List Call) (h : Vouched resets sup overheard.events) :
    Leaves (callAll calls sup) overheard
      (fun next after => Vouched resets next after.events) fun _ => True := by
  induction calls generalizing sup overheard with
  | nil => exact h
  | cons which rest ih =>
      rw [callAll, List.foldlM_cons, leaves_bind]
      have hcall : Leaves (call sup which) overheard
          (fun next after => Vouched resets next after.events) fun _ => True := by
        cases which with
        | Operate operation => exact operate_vouched operation h
        | StepResets => exact (stepResets_vouched h).leaves _
        | CheckRail => exact checkRail_vouched h
      exact hcall.mono (fun _ _ => ih) fun _ => id

omit [TickCounter σ] [Logger σ] [Rail σ ρ] [Reset σ κ] [Hooks σ η] in
theorem vouched_built (rails : List ρ) (lines : List κ) (hooks : η) :
    Vouched lines.length (built rails lines hooks) [] :=
  vouched_of_start (places_numbered lines) rfl nofun

-- It holds of every state that can be reached.
theorem vouched_of_reached {rails : List ρ} {lines : List κ} {hooks : η} {board : σ}
    {calls : List Call} {before : Overheard σ}
    (hreached : callAll calls (built rails lines hooks) { board } = .ok sup before) :
    Vouched lines.length sup before.events := by
  have hcalls : Leaves (callAll calls (built rails lines hooks)) ({ board } : Overheard σ)
      (fun next after => Vouched lines.length next after.events) fun _ => True :=
    callAll_vouched calls (vouched_built rails lines hooks)
  exact hcalls.of_eq_ok hreached

end

-- A step that moves the chain on: it releases a line or announces the end.
def MovesOn (exchanges : List Exchange) : Prop :=
  (∃ reset, .Gave (.Release reset) ∈ exchanges) ∨ .Gave (.Called .ResetDone) ∈ exchanges

-- What a move rests on, and whether it stands. The stages before the one that was waited
-- for have been asked before the step; all of them are asked again after the move.
structure Moved (resets : Nat) (before : SequencerState) (earlier exchanges : List Exchange)
    (after : SequencerState) : Prop where
  asked : ∃ rest, exchanges = .Asked before.resetIndex true :: rest
  answered : ∀ reset < before.resetIndex, latestAnswer reset earlier = some true
  stands : (∀ reset ≤ before.resetIndex, latestAnswer reset exchanges = some true) →
    after.resetIndex = before.resetIndex + 1 ∧ (∀ reset, .Gave (.Hold reset) ∉ exchanges) ∧
      (.Gave (.Called .ResetDone) ∈ exchanges → after.resetsDone = true)
  undone : (∃ reset ≤ before.resetIndex, latestAnswer reset exchanges ≠ some true) →
    ∀ reset, .Gave (.Release reset) ∈ exchanges → Held reset (commandsOf exchanges)

section

variable {resets : Nat} {state middle next : SequencerState} {first second earlier : List Exchange}

-- Only the first half of a step moves the chain on.
theorem Advances.moved (h : Advances resets state first middle)
    (hrechecks : Rechecks resets middle second next) (hmoves : MovesOn (first ++ second)) :
    middle.resetIndex = state.resetIndex + 1 ∧ middle.resetIndex ≤ resets ∧
      (first = [.Asked state.resetIndex true, .Gave (.Release (state.resetIndex + 1))] ∧
          state.resetIndex + 1 < resets ∨
        first = [.Asked state.resetIndex true, .Gave (.Called .ResetDone)] ∧
          middle.resetsDone = true) := by
  have hsecond : ¬ MovesOn second := by
    cases hrechecks with
    | stands => simp [MovesOn]
    | falls _ _ => simp [MovesOn]
  cases h with
  | idles _ => exact absurd hmoves hsecond
  | waits _ _ => simp_all [MovesOn]
  | releases _ hnext => exact ⟨rfl, Nat.le_of_lt hnext, .inl ⟨rfl, hnext⟩⟩
  | completes _ hlast => exact ⟨hlast.symm, Nat.le_refl _, .inr ⟨rfl, rfl⟩⟩

theorem moved_of_halves (hadvances : Advances resets state first middle)
    (hrechecks : Rechecks resets middle second next) (hmoves : MovesOn (first ++ second))
    (hanswered : ∀ reset < state.resetIndex, latestAnswer reset earlier = some true) :
    Moved resets state earlier (first ++ second) next := by
  obtain ⟨hindex, hinside, hfirst⟩ := hadvances.moved hrechecks hmoves
  have hasked : ∃ rest, first ++ second = .Asked state.resetIndex true :: rest := by
    rcases hfirst with ⟨rfl, _⟩ | ⟨rfl, _⟩
    · exact ⟨_, rfl⟩
    · exact ⟨_, rfl⟩
  cases hrechecks with
  | stands =>
      refine ⟨hasked, hanswered, fun _ => ⟨hindex, ?_, ?_⟩, ?_⟩
      · rcases hfirst with ⟨rfl, _⟩ | ⟨rfl, _⟩
        · simp
        · simp
      · rcases hfirst with ⟨rfl, _⟩ | ⟨rfl, hdone⟩
        · simp
        · exact fun _ => hdone
      · rintro ⟨reset, hreset, hdown⟩
        rw [latestAnswer_append, latestAnswer_asked (by omega), Option.some_or] at hdown
        exact absurd rfl hdown
  | falls index hfall =>
      refine ⟨hasked, hanswered, ?_, ?_⟩
      · intro hready
        have hdown := hready index (by omega)
        rw [latestAnswer_append, latestAnswer_append, latestAnswer_cons_gave, if_pos rfl] at hdown
        cases hdown
      · -- The line that was released is behind the stage that the chain goes back to.
        intro _ reset hreleased
        rcases hfirst with ⟨rfl, hnext⟩ | ⟨rfl, _⟩
        · obtain rfl : reset = state.resetIndex + 1 := by simpa using hreleased
          have hbehind : state.resetIndex + 1 ∈
              (List.range' (index + 1) (resets - (index + 1))).reverse := by
            rw [List.mem_reverse, List.mem_range'_1]
            omega
          simp only [commandsOf_append, commandsOf_cons_asked, commandsOf_asked, commandsOf_gave,
            List.nil_append]
          exact latest_append_map (fun _ => rfl) hbehind
        · simp at hreleased

end

section

variable {σ ρ κ η : Type} [TickCounter σ] [Logger σ] [Rail σ ρ] [Reset σ κ] [Hooks σ η]

theorem callAll_mirrors {τ : Type} [TickCounter τ] [Logger τ] [Rail τ (Numbered ρ)]
    [Reset τ (Numbered κ)] [Hooks τ η] {view : τ → σ} (h : Mirror ρ κ η view) (calls : List Call)
    (sup : Supervisor (Numbered ρ) (Numbered κ) η) :
    RunMirrors view unnumbered (callAll calls sup) (callAll calls (unnumbered sup)) := by
  induction calls generalizing sup with
  | nil => exact .pure sup
  | cons which rest ih =>
      refine .bind ?_ ih
      cases which with
      | Operate operation => exact operate_mirrors h operation sup
      | StepResets => exact h.stepResets sup
      | CheckRail => exact h.checkRail sup

-- From any state that can be reached, a step moves the chain on only if the stage that is
-- waited for is ready in that step, and each stage before it was ready when it was last
-- asked. The move stands if all of them are ready in that step, and the line it released
-- is held again if one is not.
theorem moves_on_latest_answers (rails : List ρ) (lines : List κ) (hooks : η) (board : σ)
    (calls : List Call) {sup : Supervisor (Numbered ρ) (Numbered κ) η} {before : Overheard σ}
    (hreached : callAll calls (built rails lines hooks) { board } = .ok sup before) :
    callAll calls { rails, resets := lines, hooks } board = .ok (unnumbered sup) before.board ∧
    ∃ next after exchanges, sup.stepResets before = .ok next after ∧
      (unnumbered sup).stepResets before.board = .ok (unnumbered next) after.board ∧
      after.events = before.events ++ exchanges ∧
      (MovesOn exchanges → Moved lines.length sup.state before.events exchanges next.state) := by
  have hvouched := vouched_of_reached hreached
  have hbare := (callAll_mirrors mirror_recorded calls _).ok hreached
  rw [unnumbered_built] at hbare
  obtain ⟨next, after, hrun, middle, first, second, hafter, hadvances, hrechecks, _⟩ :
      Ends sup.stepResets before _ :=
    stepResets_exchanges hvouched.resetPlaces hvouched.resetIndex_le
  refine ⟨hbare, next, after, first ++ second, hrun, ?_, hafter, ?_⟩
  · exact (mirror_recorded.stepResets sup).ok hrun
  · intro hmoves
    exact moved_of_halves hadvances hrechecks hmoves hvouched.answered

end

section

open Bench

-- The processor is up while the link is being brought up, and goes down in the step that
-- finds the link up.
def upInTurn : List BenchReset := [.Mock "processor" "processor_up", .Mock "link" "link_up"]

def processorDrops : Board :=
  Board.setPin "link_up" { level := true }
    (Board.setPin "processor_up" { script := [.Level true, .Level true, .Level false] } {})

-- With a third line behind the link, that line is released and held again.
theorem moves_on_latest_answers_undone :
    ∃ sup before next after exchanges,
      callAll [.Operate .PowerOn, .Operate .Poll]
          (built ([] : List BenchRail) (upInTurn ++ [.Bare "radio"]) Tolerant.mk)
          ({ board := processorDrops } : Overheard Board) = .ok sup before ∧
      sup.stepResets before = .ok next after ∧
      after.events = before.events ++ exchanges ∧ MovesOn exchanges ∧
      Moved 3 sup.state before.events exchanges next.state := by
  have hchecked : endsWith (fun sup before => endsWith (fun _ after =>
        after.events = before.events ++ [.Asked 1 true, .Gave (.Release 2), .Asked 0 false,
          .Gave (.Hold 2), .Gave (.Hold 1)]) (sup.stepResets before))
      (callAll [.Operate .PowerOn, .Operate .Poll]
        (built ([] : List BenchRail) (upInTurn ++ [.Bare "radio"]) Tolerant.mk)
        ({ board := processorDrops } : Overheard Board)) = true := by decide +kernel
  obtain ⟨sup, before, hreached, hstep⟩ := exists_of_endsWith hchecked
  obtain ⟨next, after, hrun, hheard⟩ := exists_of_endsWith hstep
  obtain ⟨_, _, _, exchanges, hsame, _, hexchanges, hmoved⟩ :=
    moves_on_latest_answers _ _ _ _ _ hreached
  cases hrun.symm.trans hsame
  have hmoves : MovesOn exchanges := by
    rw [List.append_cancel_left (hexchanges.symm.trans (of_decide_eq_true hheard))]
    exact .inl ⟨2, by simp⟩
  exact ⟨sup, before, next, after, exchanges, hreached, hrun, hexchanges, hmoves, hmoved hmoves⟩

-- The end is announced in a step in which the processor answers that it is not up, and
-- that leaves the chain waiting for it.
theorem end_announced_while_down :
    ∃ sup before next after,
      callAll [.Operate .PowerOn, .Operate .Poll] (built ([] : List BenchRail) upInTurn Tolerant.mk)
        ({ board := processorDrops } : Overheard Board) = .ok sup before ∧
      sup.state.powerOn = true ∧ sup.stepResets before = .ok next after ∧
      after.events = before.events ++
        [.Asked 1 true, .Gave (.Called .ResetDone), .Asked 0 false, .Gave (.Hold 1)] ∧
      next.state.resetsDone = false := by
  have hchecked : endsWith (fun sup before => sup.state.powerOn &&
        endsWith (fun next after => after.events = before.events ++
            [.Asked 1 true, .Gave (.Called .ResetDone), .Asked 0 false, .Gave (.Hold 1)] &&
            !next.state.resetsDone)
          (sup.stepResets before))
      (callAll [.Operate .PowerOn, .Operate .Poll]
        (built ([] : List BenchRail) upInTurn Tolerant.mk)
        ({ board := processorDrops } : Overheard Board)) = true := by decide +kernel
  obtain ⟨sup, before, hreached, hstep⟩ := exists_of_endsWith hchecked
  obtain ⟨hon, hstep⟩ := Bool.and_eq_true_iff.mp hstep
  obtain ⟨next, after, hrun, hends⟩ := exists_of_endsWith hstep
  obtain ⟨hexchanges, hdone⟩ := Bool.and_eq_true_iff.mp hends
  exact ⟨sup, before, next, after, hreached, hon, hrun, of_decide_eq_true hexchanges,
    Bool.not_eq_true' _ |>.mp hdone⟩

end

end BoardControl.Supervisor
