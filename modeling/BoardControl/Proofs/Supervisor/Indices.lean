import BoardControl.Proofs.Supervisor.Safety

namespace BoardControl.Supervisor

open Run

-- Walks over lines hand back as many lines as they were given.
section

variable {σ κ α : Type} {board : σ}

theorem length_holdInOrder [Reset σ κ] (lines : List κ) (board : σ) :
    (holdInOrder lines board).1.length = lines.length := by
  induction lines generalizing board with
  | nil => rfl
  | cons line rest ih =>
      change (_ :: (holdInOrder rest (Reset.hold line board).2).1).length = _
      rw [List.length_cons, ih, List.length_cons]

theorem length_holdFromLast [Reset σ κ] (lines : List κ) (board : σ) :
    (holdFromLast lines board).1.length = lines.length := by
  induction lines generalizing board with
  | nil => rfl
  | cons line rest ih =>
      change (_ :: (holdFromLast rest board).1).length = _
      rw [List.length_cons, ih, List.length_cons]

end

-- What no command to a reset line, no question to one and no record breaks. A
-- line keeps its tag whatever is done to it.
structure Bystander {σ κ β : Type} (η : Type) [Logger σ] [Reset σ κ] [Hooks σ η] (tag : κ → β)
    (keeps : σ → Prop) : Prop where
  log : ∀ severity text board, keeps board → keeps (log severity text board).2
  hold : ∀ line board, keeps board →
    tag (Reset.hold line board).1 = tag line ∧ keeps (Reset.hold line board).2
  release : ∀ line board, keeps board →
    tag (Reset.release line board).1 = tag line ∧ keeps (Reset.release line board).2
  isReady : ∀ line board, keeps board →
    tag (Reset.isReady line board).1.2 = tag line ∧ keeps (Reset.isReady line board).2
  onResetDone : ∀ (hooks : η) board, keeps board → keeps (Hooks.onResetDone hooks board).2

theorem Bystander.always {σ κ η : Type} [Logger σ] [Reset σ κ] [Hooks σ η] :
    Bystander η (fun _ : κ => ()) fun _ : σ => True where
  log _ _ _ := id
  hold _ _ _ := ⟨rfl, trivial⟩
  release _ _ _ := ⟨rfl, trivial⟩
  isReady _ _ _ := ⟨rfl, trivial⟩
  onResetDone _ _ := id

-- Both cursors are inside their lists. The reset cursor is behind the last line
-- exactly when the chain is done.
structure InRange {ρ κ η : Type} (rails : List ρ) (resets : Nat) (sup : Supervisor ρ κ η) :
    Prop where
  rails_eq : sup.rails = rails
  resets_eq : sup.resets.length = resets
  resetIndex_le : sup.state.resetIndex ≤ resets
  done_iff : 0 < resets → (sup.state.resetsDone = true ↔ sup.state.resetIndex = resets)
  monitorIndex_lt : 0 < rails.length → sup.state.monitorIndex < rails.length
  monitorIndex_zero : rails.length = 0 → sup.state.monitorIndex = 0

-- The reset chain has moved, and the rails were left alone.
structure Stepped {ρ κ η β : Type} (tag : κ → β) (sup next : Supervisor ρ κ η) : Prop where
  rails : next.rails = sup.rails
  tags : next.resets.map tag = sup.resets.map tag
  powerOn : next.state.powerOn = sup.state.powerOn
  monitorIndex : next.state.monitorIndex = sup.state.monitorIndex

section

variable {σ ρ κ η α β : Type} {board : σ} {rails : List ρ} {resets : Nat}
  {sup next : Supervisor ρ κ η} {tag : κ → β}

theorem length_of_tags {lines lines' : List κ} (h : lines.map tag = lines'.map tag) :
    lines.length = lines'.length := by
  simpa using congrArg List.length h

theorem Stepped.refl (sup : Supervisor ρ κ η) : Stepped tag sup sup := ⟨rfl, rfl, rfl, rfl⟩

theorem Stepped.trans {last : Supervisor ρ κ η} (h : Stepped tag sup next)
    (h' : Stepped tag next last) : Stepped tag sup last where
  rails := h'.rails.trans h.rails
  tags := h'.tags.trans h.tags
  powerOn := h'.powerOn.trans h.powerOn
  monitorIndex := h'.monitorIndex.trans h.monitorIndex

theorem Stepped.withResets {lines : List κ} (hlines : lines.map tag = sup.resets.map tag) :
    Stepped tag sup (sup.withResets lines) :=
  ⟨rfl, hlines, rfl, rfl⟩

theorem InRange.withResets (h : InRange rails resets sup) {lines : List κ}
    (hlines : lines.length = sup.resets.length) : InRange rails resets (sup.withResets lines) :=
  { h with resets_eq := hlines.trans h.resets_eq }

theorem InRange.withHooks (h : InRange rails resets sup) (hooks : η) :
    InRange rails resets (sup.withHooks hooks) := { h with }

-- Every shutdown puts the chain back to its start.
theorem InRange.cleared (h : InRange rails resets sup) : InRange rails resets sup.cleared :=
  { h with
    resetIndex_le := Nat.zero_le _
    done_iff := fun hsome => iff_of_false Bool.false_ne_true (Nat.ne_of_lt hsome) }

-- The chain is at some stage and not done.
theorem InRange.atStage (h : InRange rails resets sup) {state : SequencerState} {lines : List κ}
    (hlines : lines.length = resets) (hindex : state.resetIndex < resets)
    (hdone : state.resetsDone = false) (hmonitor : state.monitorIndex = sup.state.monitorIndex) :
    InRange rails resets { sup with resets := lines, state := state } where
  rails_eq := h.rails_eq
  resets_eq := hlines
  resetIndex_le := Nat.le_of_lt hindex
  done_iff _ := iff_of_false (by rw [hdone]; exact Bool.false_ne_true) (Nat.ne_of_lt hindex)
  monitorIndex_lt hsome := by rw [hmonitor]; exact h.monitorIndex_lt hsome
  monitorIndex_zero hnone := by rw [hmonitor]; exact h.monitorIndex_zero hnone

-- The next rail to check may be any one of them.
theorem InRange.atRail (h : InRange rails resets sup) {index : Nat} (hindex : index < rails.length) :
    InRange rails resets { sup with state := { sup.state with monitorIndex := index } } :=
  { h with
    monitorIndex_lt := fun _ => hindex
    monitorIndex_zero := fun hnone => absurd hindex (by rw [hnone]; exact Nat.not_lt_zero _) }

section

variable {keeps : σ → Prop}

-- A position inside the list is found.
theorem ends_visit_inside {act : κ → Action σ (α × κ)}
    (hact : ∀ line board, keeps board →
      tag (act line board).1.2 = tag line ∧ keeps (act line board).2)
    (index : Nat) (lines : List κ) (hindex : index < lines.length) (hkeeps : keeps board) :
    Ends (visit act index lines) board fun result after =>
      result.2.map tag = lines.map tag ∧ keeps after := by
  induction lines generalizing index with
  | nil => exact absurd hindex (Nat.not_lt_zero _)
  | cons line rest ih =>
      cases index with
      | zero =>
          obtain ⟨htag, hacted⟩ := hact line board hkeeps
          simp only [visit, ends_bind, ends_perform, ends_pure, List.map_cons, htag, true_and]
          exact hacted
      | succ index =>
          simp only [visit, ends_bind, ends_pure, List.map_cons]
          apply (ih index (Nat.lt_of_succ_lt_succ hindex)).mono
          intro result after hends
          exact ⟨by rw [hends.1], hends.2⟩

variable [Logger σ] [Reset σ κ] [Hooks σ η]

theorem holdFromLast_keeps (hby : Bystander η tag keeps) (lines : List κ) (hkeeps : keeps board) :
    (holdFromLast lines board).1.map tag = lines.map tag ∧ keeps (holdFromLast lines board).2 := by
  induction lines generalizing board with
  | nil => exact ⟨rfl, hkeeps⟩
  | cons line rest ih =>
      obtain ⟨htags, hrest⟩ := ih hkeeps
      obtain ⟨htag, hheld⟩ := hby.hold line _ hrest
      refine ⟨?_, hheld⟩
      change tag (Reset.hold line _).1 :: (holdFromLast rest board).1.map tag = _
      rw [htag, htags, List.map_cons]

-- Lines before the end of the list are all there to be asked.
theorem ends_firstDown_inside (hby : Bystander η tag keeps) (count : Nat) (lines : List κ)
    (hcount : count ≤ lines.length) (hkeeps : keeps board) :
    Ends (firstDown count lines) board fun result after =>
      result.2.map tag = lines.map tag ∧ (∀ index, result.1 = some index → index < count) ∧
        keeps after := by
  induction lines generalizing count board with
  | nil =>
      obtain rfl : count = 0 := Nat.le_zero.mp hcount
      simpa [firstDown] using hkeeps
  | cons line rest ih =>
      cases count with
      | zero => simpa [firstDown] using hkeeps
      | succ count =>
          obtain ⟨htag, hasked⟩ := hby.isReady line board hkeeps
          simp only [firstDown, ends_bind, ends_perform]
          split
          · simp only [ends_bind, ends_pure, List.map_cons, htag]
            apply (ih count (Nat.le_of_succ_le_succ hcount) hasked).mono
            intro result after hends
            obtain ⟨htags, hbound, hafter⟩ := hends
            refine ⟨by rw [htags], ?_, hafter⟩
            intro index hindex
            obtain ⟨inner, hinner, rfl⟩ := Option.map_eq_some_iff.mp hindex
            exact Nat.succ_lt_succ (hbound inner hinner)
          · simpa [htag] using hasked

-- The end of the chain sets its cursor, wherever it was.
theorem completeResets_inRange (hby : Bystander η tag keeps) (h : InRange rails resets sup)
    {reached : Supervisor ρ κ η} (hreached : Stepped tag sup reached) (hkeeps : keeps board) :
    Ends reached.completeResets board fun next after =>
      InRange rails resets next ∧ Stepped tag sup next ∧ keeps after := by
  have hcount : reached.resets.length = resets := (length_of_tags hreached.tags).trans h.resets_eq
  simp only [completeResets, ends_bind, ends_perform, ends_pure]
  refine ⟨?_, hreached.trans ⟨rfl, rfl, rfl, rfl⟩, hby.onResetDone _ _ (hby.log _ _ _ hkeeps)⟩
  exact {
    rails_eq := hreached.rails.trans h.rails_eq
    resets_eq := hcount
    resetIndex_le := Nat.le_of_eq hcount
    done_iff := fun _ => iff_of_true rfl hcount
    monitorIndex_lt := fun hsome => by
      simp only [hreached.monitorIndex]
      exact h.monitorIndex_lt hsome
    monitorIndex_zero := fun hnone => by
      simp only [hreached.monitorIndex]
      exact h.monitorIndex_zero hnone }

theorem advanceResets_inRange (hby : Bystander η tag keeps) (h : InRange rails resets sup)
    (hkeeps : keeps board) :
    Ends sup.advanceResets board fun next after =>
      InRange rails resets next ∧ Stepped tag sup next ∧ keeps after := by
  rw [advanceResets]
  split
  · rw [ends_pure]
    exact ⟨h, .refl sup, hkeeps⟩
  · rename_i hwaits
    simp only [Bool.or_eq_true, decide_eq_true_eq, not_or, Nat.not_le, Bool.not_eq_true] at hwaits
    obtain ⟨hdone, hindex⟩ := hwaits
    rw [ends_bind]
    refine (ends_visit_inside hby.isReady _ _ hindex hkeeps).mono ?_
    rintro ⟨ready, lines⟩ asked ⟨hlines, hasked⟩
    have hcount : lines.length = resets := (length_of_tags hlines).trans h.resets_eq
    cases ready with
    | false =>
        simp only [Bool.false_eq_true, ↓reduceIte, ends_pure]
        exact ⟨h.withResets (length_of_tags hlines), .withResets hlines, hasked⟩
    | true =>
        simp only [↓reduceIte, withResets, hcount]
        split
        · exact completeResets_inRange hby h ⟨rfl, hlines, rfl, rfl⟩ hasked
        · rename_i hmore
          rw [Nat.not_le, ← hcount] at hmore
          simp only [ends_bind]
          refine (ends_visit_inside hby.release _ _ hmore hasked).mono ?_
          rintro ⟨_, lines'⟩ after ⟨hlines', hafter⟩
          rw [ends_pure]
          refine ⟨h.atStage ?_ ?_ hdone rfl, ⟨rfl, hlines'.trans hlines, rfl, rfl⟩, hafter⟩
          · exact (length_of_tags hlines').trans hcount
          · rw [← hcount]
            exact hmore

theorem fallBackTo_inRange (hby : Bystander η tag keeps) (h : InRange rails resets sup)
    (index : Nat) (hindex : index < resets) (hkeeps : keeps board) :
    Ends (fallBackTo index sup) board fun next after =>
      InRange rails resets next ∧ Stepped tag sup next ∧ keeps after := by
  have hinside : index + 1 ≤ sup.resets.length := by rw [h.resets_eq]; exact hindex
  obtain ⟨hheld, hafter⟩ := holdFromLast_keeps hby (sup.resets.drop (index + 1)) hkeeps
  have hlines : (sup.resets.take (index + 1) ++
      (holdFromLast (sup.resets.drop (index + 1)) board).1).map tag = sup.resets.map tag := by
    rw [List.map_append, hheld, ← List.map_append, List.take_append_drop]
  simp only [fallBackTo, hinside, ↓reduceIte, ends_bind, ends_pure, ends_perform]
  refine ⟨h.atStage ?_ hindex rfl rfl, ⟨rfl, hlines, rfl, rfl⟩, hafter⟩
  exact (length_of_tags hlines).trans h.resets_eq

-- A step of the reset chain stays inside the list, wherever the chain is.
theorem stepResets_inRange (hby : Bystander η tag keeps) (h : InRange rails resets sup)
    (hkeeps : keeps board) :
    Ends sup.stepResets board fun next after =>
      InRange rails resets next ∧ Stepped tag sup next ∧ keeps after := by
  unfold stepResets
  rw [ends_bind]
  apply (advanceResets_inRange hby h hkeeps).mono
  intro moved board hmoved
  obtain ⟨h, hstepped, hkeeps⟩ := hmoved
  have hinside : moved.state.resetIndex ≤ moved.resets.length := by
    rw [h.resets_eq]
    exact h.resetIndex_le
  rw [ends_bind]
  apply (ends_firstDown_inside hby _ _ hinside hkeeps).mono
  rintro ⟨down, lines⟩ asked ⟨hlines, hbound, hasked⟩
  have hkept := h.withResets (length_of_tags hlines)
  have hstepped := hstepped.trans (.withResets hlines)
  cases down with
  | none =>
      rw [ends_pure]
      exact ⟨hkept, hstepped, hasked⟩
  | some index =>
      have hindex : index < lines.length := by
        rw [length_of_tags hlines]
        exact Nat.lt_of_lt_of_le (hbound index rfl) hinside
      -- The name is looked up in the list, which stays as it is.
      have hnamed : ∀ (line : κ) (board : σ), keeps board →
          tag (Reset.name σ line, line).2 = tag line ∧ keeps board := fun _ _ hkeeps => ⟨rfl, hkeeps⟩
      simp only [ends_bind, ends_perform]
      refine (ends_visit_inside hnamed index lines hindex hasked).mono ?_
      intro named later hends
      refine (fallBackTo_inRange hby hkept index ?_ (hby.log _ _ _ hends.2)).mono ?_
      · rw [← hkept.resets_eq]
        exact hindex
      · intro next after hends
        exact ⟨hends.1, hstepped.trans hends.2.1, hends.2.2⟩

end

section

variable [Hooks σ η]

-- The run keeps both cursors inside their lists. Only a fault hook that does not
-- come back can stop it.
def StaysIn (rails : List ρ) (resets : Nat) (run : Run σ (Supervisor ρ κ η)) (board : σ) : Prop :=
  Leaves run board (fun next _ => InRange rails resets next) fun _ => ¬ FaultReturns σ η

theorem leaves_onFault (hooks : η) (board : σ) :
    Leaves (Hooks.onFault hooks) board (fun (_ : η) _ => True) fun _ => ¬ FaultReturns σ η := by
  unfold Leaves
  split
  · trivial
  · rename_i hfault
    intro hreturns
    obtain ⟨value, after, hrun⟩ := hreturns hooks board
    rw [hrun] at hfault
    cases hfault

variable [TickCounter σ] [Logger σ] [Rail σ ρ] [Reset σ κ]

omit [TickCounter σ] in
theorem emergencyOff_staysIn (h : InRange rails resets sup) :
    StaysIn rails resets sup.emergencyOff board := by
  simp only [StaysIn, emergencyOff, leaves_bind, leaves_perform, leaves_pure]
  refine (leaves_onFault sup.hooks _).mono ?_ fun _ => id
  intro hooks after _
  exact (h.cleared.withResets (length_holdInOrder _ _)).withHooks hooks

theorem powerOff_staysIn (h : InRange rails resets sup) :
    StaysIn rails resets sup.powerOff board := by
  simp only [StaysIn, powerOff, leaves_bind, leaves_perform, leaves_pure]
  exact (h.cleared.withResets (length_holdFromLast _ _)).withHooks _

omit [TickCounter σ] in
theorem powerOn_staysIn (h : InRange rails resets sup) :
    StaysIn rails resets sup.powerOn board := by
  -- Power that comes on starts both cursors anew.
  have hstarted : InRange rails resets { sup with state := { powerOn := true } } :=
    { h with
      resetIndex_le := Nat.zero_le _
      done_iff := fun hsome => iff_of_false Bool.false_ne_true (Nat.ne_of_lt hsome)
      monitorIndex_lt := id
      monitorIndex_zero := fun _ => rfl }
  simp only [StaysIn, powerOn, leaves_bind, leaves_perform]
  split
  · simp only [leaves_bind, leaves_perform]
    split
    · rw [leaves_bind]
      refine Leaves.mono (Ends.leaves (completeResets_inRange .always hstarted
        (.refl _) trivial) _) ?_ fun _ => id
      intro next after hends
      simp only [leaves_bind, leaves_perform, leaves_pure]
      exact hends.1.withHooks _
    · rename_i first rest hresets
      simp only [leaves_bind, leaves_perform, leaves_pure]
      refine (hstarted.withResets ?_).withHooks _
      exact (congrArg List.length hresets).symm
  · exact emergencyOff_staysIn h

-- One rail is there to be checked whenever there are rails.
theorem checkRail_staysIn (h : InRange rails resets sup) :
    StaysIn rails resets sup.checkRail board := by
  rw [StaysIn, checkRail]
  split
  · exact h
  · rename_i hsome
    have hpos : 0 < sup.rails.length := Nat.pos_of_ne_zero hsome
    have hindex : sup.state.monitorIndex % sup.rails.length < sup.rails.length :=
      Nat.mod_lt _ hpos
    have hmoved : InRange rails resets { sup with state := { sup.state with
        monitorIndex := (sup.state.monitorIndex % sup.rails.length + 1) % sup.rails.length } } := by
      apply h.atRail
      rw [← h.rails_eq]
      exact Nat.mod_lt _ hpos
    simp only [List.getElem?_eq_getElem hindex, leaves_bind, leaves_perform]
    split
    · exact hmoved
    · split
      · simp only [leaves_bind, leaves_perform]
        exact emergencyOff_staysIn hmoved
      · split
        · simp only [leaves_bind, leaves_perform, leaves_pure]
          refine Leaves.mono (powerOff_staysIn hmoved) ?_ fun _ => id
          exact fun next after hnext => hnext.withHooks _
        · simp only [leaves_bind, leaves_perform, leaves_pure]
          exact hmoved.withHooks _

theorem poll_staysIn (h : InRange rails resets sup) : StaysIn rails resets sup.poll board := by
  rw [StaysIn, poll]
  split
  · rw [leaves_bind]
    refine ((stepResets_inRange .always h trivial).leaves _).mono ?_ fun _ => id
    exact fun stepped after hends => checkRail_staysIn hends.1
  · exact h

theorem operate_staysIn (operation : Operation) (h : InRange rails resets sup) :
    StaysIn rails resets (operate sup operation) board := by
  cases operation with
  | PowerOn => exact powerOn_staysIn h
  | PowerOff => exact powerOff_staysIn h
  | EmergencyOff => exact emergencyOff_staysIn h
  | Poll => exact poll_staysIn h

end

end

-- All that can be called, the two halves of a pass on their own included.
inductive Call where
  | Operate (operation : Operation)
  | StepResets
  | CheckRail
deriving DecidableEq, Repr

section

variable {σ ρ κ η : Type} [TickCounter σ] [Logger σ] [Rail σ ρ] [Reset σ κ] [Hooks σ η]

def call (sup : Supervisor ρ κ η) : Call → Run σ (Supervisor ρ κ η)
  | .Operate operation => operate sup operation
  | .StepResets => sup.stepResets
  | .CheckRail => sup.checkRail

def callAll (calls : List Call) (sup : Supervisor ρ κ η) : Run σ (Supervisor ρ κ η) :=
  calls.foldlM call sup

variable {board : σ} {rails : List ρ} {resets : Nat} {sup : Supervisor ρ κ η}

theorem call_staysIn (which : Call) (h : InRange rails resets sup) :
    StaysIn rails resets (call sup which) board := by
  cases which with
  | Operate operation => exact operate_staysIn operation h
  | StepResets =>
      exact ((stepResets_inRange .always h trivial).leaves _).mono (fun _ _ hends => hends.1)
        fun _ => id
  | CheckRail => exact checkRail_staysIn h

theorem callAll_staysIn (calls : List Call) (h : InRange rails resets sup) :
    StaysIn rails resets (callAll calls sup) board := by
  induction calls generalizing sup board with
  | nil => exact h
  | cons which rest ih =>
      rw [StaysIn, callAll, List.foldlM_cons, leaves_bind]
      exact Leaves.mono (call_staysIn which h) (fun _ _ => ih) fun _ => id

omit [TickCounter σ] [Logger σ] [Rail σ ρ] [Reset σ κ] [Hooks σ η] in
theorem inRange_start (rails : List ρ) (lines : List κ) (hooks : η) :
    InRange rails lines.length { rails, resets := lines, hooks } where
  rails_eq := rfl
  resets_eq := rfl
  resetIndex_le := Nat.zero_le _
  done_iff hsome := iff_of_false Bool.false_ne_true (Nat.ne_of_lt hsome)
  monitorIndex_lt := id
  monitorIndex_zero _ := rfl

-- Whatever is called in which order, with the power on or off, every call ends
-- with no position looked up outside a list, and leaves both cursors where the
-- next call needs them.
theorem indices_in_range (hreturns : FaultReturns σ η) (rails : List ρ) (lines : List κ)
    (hooks : η) (board : σ) (calls : List Call) :
    ∃ (sup : Supervisor ρ κ η) (after : σ),
      callAll calls { rails, resets := lines, hooks } board = .ok sup after ∧
      InRange rails lines.length sup :=
  (callAll_staysIn calls (inRange_start rails lines hooks)).ends fun _ => not_not_intro hreturns

end

section

open Bench

-- A whole chain is stepped and a rail checked before the power has ever been on,
-- and again after the loss of the supply.
theorem indices_in_range_unpowered :
    FaultReturns Board Tolerant ∧ ∃ sup after,
      callAll [.StepResets, .StepResets, .CheckRail, .Operate .PowerOn, .StepResets, .CheckRail,
          .StepResets, .Operate .Poll, .Operate .EmergencyOff]
        { rails := supplied, resets := chained, hooks := Tolerant.mk } ({} : Board) =
          .ok sup after ∧
      InRange supplied 2 sup := by
  have hreturns : FaultReturns Board Tolerant := fun hooks board => ⟨hooks, board, rfl⟩
  exact ⟨hreturns, indices_in_range hreturns supplied chained .mk {} _⟩

end

end BoardControl.Supervisor
