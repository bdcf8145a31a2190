import BoardControl.Proofs.Supervisor.Chain
import BoardControl.Proofs.Supervisor.Overheard

namespace BoardControl.Supervisor

open Recorded Run

-- The first half of a step of the chain: what is exchanged, and where it leaves the
-- sequencer. Nothing changes unless the stage that is waited for is ready.
inductive Advances (resets : Nat) (state : SequencerState) :
    List Exchange → SequencerState → Prop where
  | idles (hidle : state.resetsDone = true ∨ resets ≤ state.resetIndex) :
      Advances resets state [] state
  | waits (hdone : state.resetsDone = false) (hindex : state.resetIndex < resets) :
      Advances resets state [.Asked state.resetIndex false] state
  | releases (hdone : state.resetsDone = false) (hnext : state.resetIndex + 1 < resets) :
      Advances resets state
        [.Asked state.resetIndex true, .Gave (.Release (state.resetIndex + 1))]
        { state with resetIndex := state.resetIndex + 1 }
  | completes (hdone : state.resetsDone = false) (hlast : state.resetIndex + 1 = resets) :
      Advances resets state [.Asked state.resetIndex true, .Gave (.Called .ResetDone)]
        { state with resetsDone := true, resetIndex := resets }

-- The second half: the stages that were passed are asked again, in list order. The
-- first one that is not ready is waited for again, and those behind it are held.
inductive Rechecks (resets : Nat) (state : SequencerState) :
    List Exchange → SequencerState → Prop where
  | stands : Rechecks resets state ((List.range state.resetIndex).map (.Asked · true)) state
  | falls (index : Nat) (hindex : index < state.resetIndex) :
      Rechecks resets state
        ((List.range index).map (.Asked · true) ++ .Asked index false ::
          (List.range' (index + 1) (resets - (index + 1))).reverse.map (.Gave <| .Hold ·))
        { state with resetsDone := false, resetIndex := index }

section

variable {resets : Nat} {state middle next : SequencerState} {exchanges first second : List Exchange}

theorem Advances.spares (h : Advances resets state exchanges next) :
    next.powerOn = state.powerOn ∧ next.monitorIndex = state.monitorIndex ∧
      ∀ command, .Gave command ∈ exchanges → command.rail? = none := by
  cases h with
  | idles _ => simp
  | waits _ _ => simp
  | releases _ _ => simp [Command.rail?]
  | completes _ _ => simp [Command.rail?]

theorem Rechecks.spares (h : Rechecks resets state exchanges next) :
    next.powerOn = state.powerOn ∧ next.monitorIndex = state.monitorIndex ∧
      ∀ command, .Gave command ∈ exchanges → command.rail? = none := by
  cases h with
  | stands => simp
  | falls index _ => simp +contextual [Command.rail?, eq_comm]

theorem Advances.resetIndex_le (h : Advances resets state exchanges next)
    (hindex : state.resetIndex ≤ resets) : next.resetIndex ≤ resets := by
  cases h with
  | idles _ => exact hindex
  | waits _ _ => exact hindex
  | releases _ hnext => exact Nat.le_of_lt hnext
  | completes _ _ => exact Nat.le_refl resets

-- The commands of the first half go to a line behind all that were passed.
theorem Advances.behind (h : Advances resets state exchanges next) {index : Nat}
    (hindex : index < next.resetIndex) {command : Command} (hgave : .Gave command ∈ exchanges) :
    command.reset? ≠ some index := by
  cases h with
  | idles _ => simp at hgave
  | waits _ _ => simp at hgave
  | releases _ _ =>
      simp only [List.mem_cons, reduceCtorEq, Exchange.Gave.injEq, List.not_mem_nil, or_false,
        false_or] at hgave
      subst hgave
      simp only at hindex
      simp only [Command.reset?, ne_eq, Option.some.injEq]
      omega
  | completes _ _ =>
      simp only [List.mem_cons, reduceCtorEq, Exchange.Gave.injEq, List.not_mem_nil, or_false,
        false_or] at hgave
      subst hgave
      simp [Command.reset?]

-- A stage that is not ready any more is the one that the chain goes back to. It and
-- those before it get no command.
theorem Rechecks.of_down (h : Rechecks resets state exchanges next) {index : Nat}
    (hdown : .Asked index false ∈ exchanges) :
    index < state.resetIndex ∧ next.resetIndex = index ∧ next.resetsDone = false ∧
      ∀ command, .Gave command ∈ exchanges → ∀ reset ≤ index, command.reset? ≠ some reset := by
  cases h with
  | stands => simp at hdown
  | falls down hindex =>
      obtain rfl : index = down := by simpa using hdown
      refine ⟨hindex, rfl, rfl, ?_⟩
      intro command hgave reset hreset
      obtain ⟨held, hheld, rfl⟩ : ∃ held ∈ List.range' (index + 1) (resets - (index + 1)),
          Command.Hold held = command := by simpa using hgave
      rw [List.mem_range'_1] at hheld
      simp only [Command.reset?, ne_eq, Option.some.injEq]
      omega

-- Every stage that counts as passed has just been found ready.
theorem Rechecks.latestAnswer_eq (h : Rechecks resets state exchanges next) {reset : Nat}
    (hreset : reset < next.resetIndex) : latestAnswer reset exchanges = some true := by
  cases h with
  | stands => exact latestAnswer_asked hreset
  | falls index _ =>
      simp only at hreset
      rw [latestAnswer_append, latestAnswer_cons_gave, if_neg (Nat.ne_of_gt hreset), Option.none_or]
      exact latestAnswer_asked hreset

theorem Rechecks.resetIndex_le (h : Rechecks resets state exchanges next) :
    next.resetIndex ≤ state.resetIndex := by
  cases h with
  | stands => exact Nat.le_refl _
  | falls index hindex => exact Nat.le_of_lt hindex

-- At the start of the chain there is nothing to ask again.
theorem Rechecks.eq_of_start (h : Rechecks resets state exchanges next)
    (hstart : state.resetIndex = 0) : next = state := by
  cases h with
  | stands => rfl
  | falls index hindex => omega

theorem Advances.done_at_end (h : Advances resets state exchanges next)
    (hend : state.resetsDone = true → state.resetIndex = resets) (hdone : next.resetsDone = true) :
    next.resetIndex = resets := by
  cases h with
  | idles _ => exact hend hdone
  | waits _ _ => exact hend hdone
  | releases hwaiting _ => cases hwaiting.symm.trans hdone
  | completes _ _ => rfl

theorem Rechecks.done_at_end (h : Rechecks resets state exchanges next)
    (hend : state.resetsDone = true → state.resetIndex = resets) (hdone : next.resetsDone = true) :
    next.resetIndex = resets := by
  cases h with
  | stands => exact hend hdone
  | falls _ _ => cases hdone

end

-- A whole step of the chain, from one state to the next. What it exchanges tells which
-- stages are passed: those that gave a good answer last.
structure ResetPass (resets : Nat) (before : SequencerState) (exchanges : List Exchange)
    (after : SequencerState) : Prop where
  halves : ∃ middle first second, exchanges = first ++ second ∧
    Advances resets before first middle ∧ Rechecks resets middle second after ∧
    ∀ index, .Asked index false ∈ second → after.resetIndex = index ∧
      ∀ command, .Gave command ∈ exchanges → ∀ reset ≤ index, command.reset? ≠ some reset
  passed : ∀ reset < after.resetIndex, latestAnswer reset exchanges = some true
  complete : after.resetsDone = true → ∀ reset < resets, latestAnswer reset exchanges = some true
  powerOn_eq : after.powerOn = before.powerOn
  monitorIndex_eq : after.monitorIndex = before.monitorIndex
  sparesRails : ∀ command, .Gave command ∈ exchanges → command.rail? = none

theorem resetPass_of_halves {resets : Nat} {before middle after : SequencerState}
    {first second : List Exchange} (hadvances : Advances resets before first middle)
    (hrechecks : Rechecks resets middle second after)
    (hend : before.resetsDone = true → before.resetIndex = resets) :
    ResetPass resets before (first ++ second) after := by
  obtain ⟨hpower, hmonitor, hfirst⟩ := hadvances.spares
  obtain ⟨hpower', hmonitor', hsecond⟩ := hrechecks.spares
  have hpassed : ∀ reset < after.resetIndex,
      latestAnswer reset (first ++ second) = some true := by
    intro reset hreset
    rw [latestAnswer_append, hrechecks.latestAnswer_eq hreset, Option.some_or]
  refine {
    halves := ⟨middle, first, second, rfl, hadvances, hrechecks, ?_⟩
    passed := hpassed
    complete := ?_
    powerOn_eq := hpower'.trans hpower
    monitorIndex_eq := hmonitor'.trans hmonitor
    sparesRails := ?_ }
  · intro index hdown
    obtain ⟨hindex, hback, _, huntouched⟩ := hrechecks.of_down hdown
    refine ⟨hback, ?_⟩
    intro command hgave reset hreset
    rcases List.mem_append.mp hgave with hmem | hmem
    · exact hadvances.behind (Nat.lt_of_le_of_lt hreset hindex) hmem
    · exact huntouched command hmem reset hreset
  · intro hdone reset hreset
    rw [← hrechecks.done_at_end (hadvances.done_at_end hend) hdone] at hreset
    exact hpassed reset hreset
  · intro command hgave
    rcases List.mem_append.mp hgave with hmem | hmem
    · exact hfirst command hmem
    · exact hsecond command hmem

section

variable {σ ρ κ η : Type} [Logger σ] [Reset σ κ] [Hooks σ η] {resets : Nat}
  {sup : Supervisor (Numbered ρ) (Numbered κ) η} {overheard : Overheard σ}

omit [Logger σ] [Reset σ κ] [Hooks σ η] in
-- The first lines, all of them ready.
theorem asked_range {count : Nat} (hcount : count ≤ resets) :
    ((List.range resets).take count).flatMap (Transcript.asked · true) =
      (List.range count).map (Exchange.Asked · true) := by
  rw [List.take_range, Nat.min_eq_left hcount]
  exact List.map_eq_flatMap.symm

theorem advanceResets_exchanges (hplaces : places sup.resets = List.range resets) :
    Ends sup.advanceResets overheard fun next after =>
      ∃ exchanges, after.events = overheard.events ++ exchanges ∧
        Advances resets sup.state exchanges next.state ∧
        places next.resets = List.range resets ∧ next.rails = sup.rails ∧
        (.Gave (.Called .ResetDone) ∉ exchanges → next.hooks = sup.hooks) := by
  have hlength := length_of_places hplaces
  rw [advanceResets, hlength]
  split
  · rename_i hidle
    rw [ends_pure]
    refine ⟨[], (List.append_nil _).symm, .idles ?_, hplaces, rfl, fun _ => rfl⟩
    simpa using hidle
  · rename_i hwaits
    simp only [Bool.or_eq_true, decide_eq_true_eq, not_or, Nat.not_le, Bool.not_eq_true] at hwaits
    obtain ⟨hdone, hindex⟩ := hwaits
    rw [ends_bind]
    refine (events_visit overheard (fun place ready => [.Asked place ready]) ?_ _ _
      (by rw [hlength]; exact hindex)).mono ?_
    · intro line overheard
      exact ⟨rfl, rfl⟩
    · rintro ⟨ready, lines⟩ asked ⟨hlines, place, hplace, hasked⟩
      rw [hplaces, List.getElem?_range hindex, Option.some.injEq] at hplace
      subst hplace
      rw [hplaces] at hlines
      have hcount := length_of_places hlines
      cases ready with
      | false =>
          simp only [Bool.false_eq_true, ↓reduceIte, ends_pure]
          exact ⟨_, hasked, .waits hdone hindex, hlines, rfl, fun _ => rfl⟩
      | true =>
          simp only [↓reduceIte, withResets, hcount]
          split
          · rename_i hlast
            simp only [completeResets, ends_bind, ends_perform, ends_pure, events_onResetDone,
              transcript_exchange, events_log, hasked, hcount]
            refine ⟨_, List.append_assoc _ _ _, .completes hdone (by omega), hlines, trivial, ?_⟩
            intro hsilent
            simp at hsilent
          · rename_i hnext
            rw [Nat.not_le] at hnext
            rw [ends_bind]
            refine (events_visit asked (fun place _ => [.Gave (.Release place)]) ?_ _ _
              (by rw [hcount]; exact hnext)).mono ?_
            · intro line overheard
              exact ⟨rfl, rfl⟩
            · rintro ⟨_, lines'⟩ after ⟨hlines', place, hplace, hafter⟩
              rw [hlines, List.getElem?_range hnext, Option.some.injEq] at hplace
              subst hplace
              rw [ends_pure]
              rw [hasked, List.append_assoc] at hafter
              exact ⟨_, hafter, .releases hdone hnext, hlines'.trans hlines, rfl, fun _ => rfl⟩

omit [Logger σ] [Hooks σ η] in
theorem fallBackTo_exchanges (hplaces : places sup.resets = List.range resets) {index : Nat}
    (hindex : index < resets) :
    Ends (fallBackTo index sup) overheard fun next after =>
      after.events = overheard.events ++
        (List.range' (index + 1) (resets - (index + 1))).reverse.map (.Gave <| .Hold ·) ∧
      next.state = { sup.state with resetsDone := false, resetIndex := index } ∧
      places next.resets = List.range resets ∧ next.rails = sup.rails ∧ next.hooks = sup.hooks := by
  have hinside : index + 1 ≤ sup.resets.length := by
    rw [length_of_places hplaces]
    exact hindex
  have hdropped : places (sup.resets.drop (index + 1)) =
      List.range' (index + 1) (resets - (index + 1)) := by
    rw [places, List.map_drop, ← places, hplaces, List.range_eq_range', List.drop_range',
      Nat.zero_add, Nat.mul_one]
  obtain ⟨hexchanges, hheld⟩ := events_holdFromLast overheard (sup.resets.drop (index + 1))
  simp only [fallBackTo, hinside, ↓reduceIte, ends_bind, ends_pure, ends_perform]
  refine ⟨?_, trivial, ?_, trivial, trivial⟩
  · simp only [hexchanges, hdropped, transcript_exchange]
  · rw [places_append, hheld, ← places_append, List.take_append_drop, hplaces]

-- Both halves of a step, whatever the lines answer at every question.
theorem stepResets_exchanges (hplaces : places sup.resets = List.range resets)
    (hindex : sup.state.resetIndex ≤ resets) :
    Ends sup.stepResets overheard fun next after => ∃ middle first second,
      after.events = overheard.events ++ (first ++ second) ∧
      Advances resets sup.state first middle ∧ Rechecks resets middle second next.state ∧
      places next.resets = List.range resets ∧ next.rails = sup.rails ∧
      (.Gave (.Called .ResetDone) ∉ first → next.hooks = sup.hooks) := by
  unfold stepResets
  rw [ends_bind]
  apply (advanceResets_exchanges hplaces).mono
  rintro moved asked ⟨first, hasked, hadvances, hmoved, hrails, hhooks⟩
  have hcursor := hadvances.resetIndex_le hindex
  rw [ends_bind]
  refine (events_firstDown asked moved.state.resetIndex moved.resets ?_).mono ?_
  · rw [length_of_places hmoved]
    exact hcursor
  · rintro ⟨down, lines⟩ after ⟨hlines, hheard⟩
    rw [hmoved] at hlines hheard
    rcases hheard with ⟨rfl, hafter⟩ | ⟨index, hdown, rfl, place, hplace, hafter⟩
    · rw [asked_range hcursor, hasked, List.append_assoc] at hafter
      rw [ends_pure]
      exact ⟨moved.state, first, _, hafter, hadvances, .stands, hlines, hrails, hhooks⟩
    · have hinside : index < resets := Nat.lt_of_lt_of_le hdown hcursor
      rw [List.getElem?_range hinside, Option.some.injEq] at hplace
      subst hplace
      rw [asked_range (Nat.le_of_lt hinside), asked_exchange, hasked] at hafter
      simp only [ends_bind, ends_perform]
      refine (events_visit after (fun _ _ => []) ?_ index lines ?_).mono ?_
      · intro line overheard
        exact ⟨rfl, (List.append_nil _).symm⟩
      · rw [length_of_places hlines]
        exact hinside
      · rintro named later ⟨_, _, _, hlater⟩
        rw [List.append_nil] at hlater
        apply (fallBackTo_exchanges hlines hinside).mono
        rintro next last ⟨hlast, hstate, hresets, hrails', hhooks'⟩
        rw [events_log, hlater, hafter] at hlast
        simp only [List.append_assoc, List.cons_append, List.nil_append] at hlast
        rw [hstate]
        exact ⟨moved.state, first, _, hlast, hadvances, .falls index hdown, hresets,
          hrails'.trans hrails, fun hsilent => hhooks'.trans (hhooks hsilent)⟩

-- Whatever the lines answer at every question, one step first moves the chain on by
-- at most one stage, and then takes it back to the first stage that is found down. The
-- chain counts as done only if every line has just been found ready.
theorem stepResets_advances_then_rechecks [TickCounter σ] [Rail σ ρ] {rails : List ρ}
    {sup : Supervisor ρ κ η} (h : InRange rails resets sup) (board : σ) :
    ∃ (next : Supervisor (Numbered ρ) (Numbered κ) η) (after : Overheard σ),
      (labelled sup).stepResets { board } = .ok next after ∧
      sup.stepResets board = .ok (unnumbered next) after.board ∧
      ResetPass resets sup.state after.events next.state ∧
      (unnumbered next).rails = sup.rails ∧
      (.Gave (.Called .ResetDone) ∉ after.events → next.hooks = sup.hooks) := by
  have hplaces : places (labelled sup).resets = List.range resets := by
    rw [labelled, places_numbered, h.resets_eq]
  have hend : sup.state.resetsDone = true → sup.state.resetIndex = resets := by
    intro hdone
    rcases Nat.eq_zero_or_pos resets with hnone | hsome
    · have hindex := h.resetIndex_le
      omega
    · exact (h.done_iff hsome).mp hdone
  obtain ⟨next, after, hrun, middle, first, second, hafter, hadvances, hrechecks, _, hrails, hhooks⟩ :
      Ends (labelled sup).stepResets ({ board } : Overheard σ) _ :=
    stepResets_exchanges hplaces h.resetIndex_le
  rw [List.nil_append] at hafter
  have hbare := (mirror_recorded.stepResets (labelled sup)).ok hrun
  rw [unnumbered_labelled] at hbare
  refine ⟨next, after, hrun, hbare, ?_, ?_, ?_⟩
  · rw [hafter]
    exact resetPass_of_halves hadvances hrechecks hend
  · rw [unnumbered, hrails, labelled, parts_numbered]
  · intro hsilent
    apply hhooks
    intro hcalled
    rw [hafter] at hsilent
    exact hsilent (List.mem_append_left _ hcalled)

end

section

open Bench

-- Three lines, of which the link has just been released and the processor goes down.
def interrupted : Supervisor BenchRail BenchReset Tolerant where
  rails := supplied
  resets := [.Mock "processor" "processor_up", .Mock "link" "link_up", .Bare "radio"]
  hooks := .mk
  state := { powerOn := true, resetIndex := 1 }

def linkUp : Board := Board.setPin "link_up" { level := true } {}

theorem stepResets_advances_then_rechecks_interrupted :
    InRange supplied 3 interrupted ∧
    ∃ (next : Supervisor (Numbered BenchRail) (Numbered BenchReset) Tolerant)
      (after : Overheard Board),
      (labelled interrupted).stepResets { board := linkUp } = .ok next after ∧
      interrupted.stepResets linkUp = .ok (unnumbered next) after.board ∧
      ResetPass 3 interrupted.state after.events next.state ∧
      (unnumbered next).rails = interrupted.rails ∧
      (.Gave (.Called .ResetDone) ∉ after.events → next.hooks = interrupted.hooks) := by
  have hrange : InRange supplied 3 interrupted := {
    rails_eq := rfl
    resets_eq := rfl
    resetIndex_le := by decide
    done_iff := by decide
    monitorIndex_lt := by decide
    monitorIndex_zero := by decide }
  exact ⟨hrange, stepResets_advances_then_rechecks hrange linkUp⟩

end

end BoardControl.Supervisor
