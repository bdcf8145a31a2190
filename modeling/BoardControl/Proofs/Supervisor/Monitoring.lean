import BoardControl.Proofs.Supervisor.Observed
import Mathlib.Data.List.Nodup
import Mathlib.Data.Nat.ModEq

namespace BoardControl.Supervisor

open Recorded Run

-- The places of the rails that were read, in the order of the reads.
def reads (notes : List Note) : List Nat :=
  notes.filterMap fun
    | .Read rail _ => some rail
    | _ => none

section

variable (σ : Type) {ρ : Type} [Rail σ ρ]

-- One pass that leaves the power on: the reset chain may move, one rail is read,
-- and a bad one is reported. It is then neither critical nor the input supply.
def Pass (rails : List ρ) (place : Nat) (notes : List Note) : Prop :=
  ∃ rail moves, rails[place]? = some rail ∧ (∀ note ∈ moves, note.movesResets = true) ∧
    (notes = moves ++ [.Read place true] ∨
      Rail.isCritical σ rail = false ∧ Rail.isInputSupply σ rail = false ∧
        notes = moves ++ [.Read place false, .Degraded (Rail.name σ rail)])

-- Passes over the rails in turn, from one place on.
inductive Passes (rails : List ρ) : Nat → List (List Note) → Prop where
  | nil (place : Nat) : Passes rails place []
  | cons {place : Nat} {notes : List Note} {rest : List (List Note)} (hpass : Pass σ rails place notes)
      (hrest : Passes rails ((place + 1) % rails.length) rest) : Passes rails place (notes :: rest)

-- A rail reads bad and the power goes down for it, by what kind of rail it is.
-- Nothing has touched the power before, and nothing happens after.
def TakenDown (rails : List ρ) (resets place : Nat) (notes : List Note) : Prop :=
  ∃ rail earlier, rails[place]? = some rail ∧ (∀ note ∈ earlier, note.sparesPower = true) ∧
    (Rail.isCritical σ rail = true ∧
        notes = earlier ++ .Read place false :: emergencyNotes rails.length resets ∨
      Rail.isCritical σ rail = false ∧ Rail.isInputSupply σ rail = true ∧
        notes = earlier ++ .Read place false :: powerLostNotes rails.length resets)

variable {σ} {rails : List ρ} {resets place : Nat} {notes : List Note}

theorem Pass.sparesPower (h : Pass σ rails place notes) :
    ∀ note ∈ notes, note.sparesPower = true := by
  obtain ⟨rail, moves, _, hmoves, rfl | ⟨_, _, rfl⟩⟩ := h
  · simpa [or_imp, forall_and, Note.sparesPower] using
      fun note hnote => Note.sparesPower_of_movesResets (hmoves note hnote)
  · simpa [or_imp, forall_and, Note.sparesPower] using
      fun note hnote => Note.sparesPower_of_movesResets (hmoves note hnote)

theorem TakenDown.later (h : TakenDown σ rails resets place notes) {earlier : List Note}
    (hearlier : ∀ note ∈ earlier, note.sparesPower = true) :
    TakenDown σ rails resets place (earlier ++ notes) := by
  obtain ⟨rail, before, hrail, hbefore, hkind⟩ := h
  refine ⟨rail, earlier ++ before, hrail, ?_, ?_⟩
  · intro note hnote
    rcases List.mem_append.mp hnote with hmem | hmem
    · exact hearlier note hmem
    · exact hbefore note hmem
  · rcases hkind with ⟨hcritical, rfl⟩ | ⟨hcritical, hsupply, rfl⟩
    · exact .inl ⟨hcritical, (List.append_assoc _ _ _).symm⟩
    · exact .inr ⟨hcritical, hsupply, (List.append_assoc _ _ _).symm⟩

theorem reads_append (first second : List Note) :
    reads (first ++ second) = reads first ++ reads second := List.filterMap_append

theorem reads_of_movesResets {moves : List Note} (h : ∀ note ∈ moves, note.movesResets = true) :
    reads moves = [] := by
  rw [reads, List.filterMap_eq_nil_iff]
  intro note hnote
  have hmoves := h note hnote
  cases note with
  | Read rail good => cases hmoves
  | Did _ => rfl
  | Slept _ => rfl
  | Degraded _ => rfl

theorem Pass.reads_eq (h : Pass σ rails place notes) : reads notes = [place] := by
  obtain ⟨rail, moves, _, hmoves, rfl | ⟨_, _, rfl⟩⟩ := h
  · rw [reads_append, reads_of_movesResets hmoves]
    rfl
  · rw [reads_append, reads_of_movesResets hmoves]
    rfl

-- The rails are read in turn, one in each pass.
theorem Passes.reads_eq {passes : List (List Note)} (h : Passes σ rails place passes)
    (hplace : place < rails.length) :
    reads passes.flatten =
      (List.range passes.length).map fun pass => (place + pass) % rails.length := by
  induction h with
  | nil place => rfl
  | cons hpass hrest ih =>
      rename_i place notes rest
      have hnext : (place + 1) % rails.length < rails.length :=
        Nat.mod_lt _ (Nat.zero_lt_of_lt hplace)
      rw [List.flatten_cons, reads_append, hpass.reads_eq, ih hnext, List.length_cons,
        List.range_succ_eq_map]
      simp only [List.map_cons, Nat.add_zero, Nat.mod_eq_of_lt hplace, List.map_map]
      refine congrArg (place :: ·) (List.map_congr_left fun pass _ => ?_)
      rw [Function.comp_apply, Nat.mod_add_mod, Nat.succ_eq_one_add, Nat.add_assoc]

-- A rail that is read bad while the power stays on is one that may be bad.
theorem Passes.of_bad {passes : List (List Note)} {first : Nat} (h : Passes σ rails first passes)
    {rail : ρ} (hrail : rails[place]? = some rail) (hread : place ∈ reads passes.flatten)
    (hbad : ∀ good, .Read place good ∈ passes.flatten → good = false) :
    Rail.isCritical σ rail = false ∧ Rail.isInputSupply σ rail = false := by
  induction h with
  | nil first => cases hread
  | cons hpass hrest ih =>
      rename_i first notes rest
      rw [List.flatten_cons, reads_append, hpass.reads_eq] at hread
      rw [List.flatten_cons] at hbad
      rcases List.mem_append.mp hread with hfirst | hlater
      · obtain rfl := List.mem_singleton.mp hfirst
        obtain ⟨other, moves, hother, _, rfl | ⟨hcritical, hsupply, _⟩⟩ := hpass
        · cases hbad true (by simp)
        · rw [hrail] at hother
          cases hother
          exact ⟨hcritical, hsupply⟩
      · exact ih hlater fun good hmem => hbad good (List.mem_append_right _ hmem)

end

-- With the power on, a supervisor whose rails and resets are where they were when
-- it was built.
structure Watching {ρ κ η : Type} (rails : List ρ) (resets : Nat)
    (sup : Supervisor (Numbered ρ) (Numbered κ) η) : Prop
    extends InRange (numbered rails) resets sup where
  resetPlaces : places sup.resets = List.range resets
  isOn : sup.state.powerOn = true

section

variable {σ ρ κ η : Type} [TickCounter σ] [Logger σ] [Rail σ ρ] [Reset σ κ] [Hooks σ η]
  {rails : List ρ} {resets : Nat} {sup : Supervisor (Numbered ρ) (Numbered κ) η}
  {observed : Observed σ}

omit [TickCounter σ] [Logger σ] [Rail σ ρ] [Reset σ κ] [Hooks σ η] in
theorem Watching.railPlaces (h : Watching rails resets sup) :
    places sup.rails = List.range rails.length := by
  rw [h.rails_eq, places_numbered]

omit [TickCounter σ] [Logger σ] [Rail σ ρ] [Reset σ κ] [Hooks σ η] in
theorem length_numbered (parts : List ρ) : (numbered parts).length = parts.length :=
  List.length_mapIdx

omit [TickCounter σ] [Logger σ] [Rail σ ρ] [Reset σ κ] [Hooks σ η] in
theorem Watching.monitorIndex_lt' (h : Watching rails resets sup) (hsome : 0 < rails.length) :
    sup.state.monitorIndex < rails.length := by
  rw [← length_numbered rails] at hsome ⊢
  exact h.monitorIndex_lt hsome

-- A pass has taken the power down.
def Downed (rails : List ρ) (resets place : Nat) (earlier : List Note) (after : Observed σ) :
    Prop :=
  ∃ notes, after.events = earlier ++ notes ∧ TakenDown σ rails resets place notes

-- Where a pass leads: the next rail is waited for, or the power is off.
def Turned (rails : List ρ) (resets place : Nat) (earlier : List Note)
    (next : Supervisor (Numbered ρ) (Numbered κ) η) (after : Observed σ) : Prop :=
  (∃ notes, after.events = earlier ++ notes ∧ Pass σ rails place notes ∧
      Watching rails resets next ∧ next.state.monitorIndex = (place + 1) % rails.length) ∨
    Downed rails resets place earlier after ∧ next.state.powerOn = false

section

variable {place : Nat} {rail : ρ} {earlier moves : List Note} {after : Observed σ}

omit [TickCounter σ] [Logger σ] [Reset σ κ] [Hooks σ η] in
theorem downed_of_critical (hrail : rails[place]? = some rail)
    (hcritical : Rail.isCritical σ rail = true) (hmoves : ∀ note ∈ moves, note.sparesPower = true)
    (hnotes : after.events =
      earlier ++ (moves ++ [.Read place false]) ++ emergencyNotes rails.length resets) :
    Downed rails resets place earlier after := by
  refine ⟨_, hnotes.trans (List.append_assoc ..), rail, moves, hrail, hmoves, .inl ⟨hcritical, ?_⟩⟩
  exact List.append_assoc ..

omit [TickCounter σ] [Logger σ] [Reset σ κ] [Hooks σ η] in
theorem downed_of_supply (hrail : rails[place]? = some rail)
    (hcritical : Rail.isCritical σ rail = false) (hsupply : Rail.isInputSupply σ rail = true)
    (hmoves : ∀ note ∈ moves, note.sparesPower = true)
    (hnotes : after.events =
      earlier ++ (moves ++ [.Read place false]) ++ powerLostNotes rails.length resets) :
    Downed rails resets place earlier after := by
  refine ⟨_, hnotes.trans (List.append_assoc ..), rail, moves, hrail, hmoves,
    .inr ⟨hcritical, hsupply, ?_⟩⟩
  exact List.append_assoc ..

end

-- What a rail that was read does to the power.
theorem checkRail_leaves (h : Watching rails resets sup) (hsome : 0 < rails.length)
    (moves : List Note) (hmoves : ∀ note ∈ moves, note.movesResets = true) {earlier : List Note}
    (hnotes : observed.events = earlier ++ moves) :
    Leaves sup.checkRail observed (Turned rails resets sup.state.monitorIndex earlier)
      (Downed rails resets sup.state.monitorIndex earlier) := by
  have hindex := h.monitorIndex_lt' hsome
  have hcount : sup.rails.length = rails.length := by rw [h.rails_eq, length_numbered]
  obtain ⟨rail, hrail⟩ : ∃ rail, rails[sup.state.monitorIndex]? = some rail :=
    ⟨_, List.getElem?_eq_getElem hindex⟩
  have hnumbered : sup.rails[sup.state.monitorIndex]? = some ⟨sup.state.monitorIndex, rail⟩ := by
    rw [h.rails_eq, numbered, List.getElem?_mapIdx, hrail, Option.map_some]
  have hspares : ∀ note ∈ moves, note.sparesPower = true :=
    fun note hnote => Note.sparesPower_of_movesResets (hmoves note hnote)
  rw [checkRail]
  simp only [hcount, Nat.ne_of_gt hsome, ↓reduceIte, Nat.mod_eq_of_lt hindex, hnumbered,
    leaves_bind, leaves_perform]
  -- The read is noted with the answer that decides what comes next.
  have hread : (Rail.isGood (Numbered.mk sup.state.monitorIndex rail) observed).2.events =
      earlier ++ (moves ++ [.Read sup.state.monitorIndex
        (Rail.isGood (Numbered.mk sup.state.monitorIndex rail) observed).1]) := by
    rw [← List.append_assoc, ← hnotes]
    rfl
  have hmoved : Watching rails resets { sup with state := { sup.state with
      monitorIndex := (sup.state.monitorIndex + 1) % rails.length } } := {
    h.toInRange.atRail (by rw [length_numbered]; exact Nat.mod_lt _ hsome) with
    resetPlaces := h.resetPlaces
    isOn := h.isOn }
  split
  · rename_i hgood
    rw [hgood] at hread
    exact .inl ⟨_, hread, ⟨rail, moves, hrail, hmoves, .inl rfl⟩, hmoved, rfl⟩
  · rename_i hbad
    rw [Bool.not_eq_true] at hbad
    rw [hbad] at hread
    split
    · rename_i hcritical
      simp only [leaves_bind, leaves_perform]
      apply (notes_emergencyOff _ hmoved.railPlaces hmoved.resetPlaces).mono
      · rintro next after ⟨hafter, hoff⟩
        rw [events_log, hread] at hafter
        exact .inr ⟨downed_of_critical hrail hcritical hspares hafter, hoff⟩
      · intro after hafter
        rw [events_log, hread] at hafter
        exact downed_of_critical hrail hcritical hspares hafter
    · rename_i hcritical
      rw [Bool.not_eq_true] at hcritical
      split
      · rename_i hsupply
        simp only [leaves_bind, leaves_perform, leaves_pure]
        refine ((notes_powerOff _ hmoved.railPlaces hmoved.resetPlaces).leaves _).mono ?_
          fun _ => id
        rintro next after ⟨hafter, hoff⟩
        rw [events_log, hread] at hafter
        exact .inr ⟨downed_of_supply hrail hcritical hsupply hspares hafter, hoff⟩
      · rename_i hsupply
        rw [Bool.not_eq_true] at hsupply
        simp only [leaves_bind, leaves_perform, leaves_pure]
        refine .inl ⟨moves ++ [.Read sup.state.monitorIndex false,
          .Degraded (Rail.name σ rail)], ?_,
          ⟨rail, moves, hrail, hmoves, .inr ⟨hcritical, hsupply, rfl⟩⟩, ?_, rfl⟩
        · change Recorded.events (log .Warn _ _).2 ++ [Note.Degraded (Rail.name σ rail)] = _
          rw [events_log, hread]
          simp only [List.append_assoc, List.cons_append, List.nil_append]
        · exact { hmoved with }

-- A pass reads the rail whose turn it is, whatever the reset chain does before.
theorem poll_leaves (h : Watching rails resets sup) (hsome : 0 < rails.length) :
    Leaves sup.poll observed (Turned rails resets sup.state.monitorIndex observed.events)
      (Downed rails resets sup.state.monitorIndex observed.events) := by
  rw [poll, if_pos h.isOn, leaves_bind]
  have hmoves := stepResets_inRange (bystander_observed (η := η) observed.events) h.toInRange
    ⟨[], (List.append_nil _).symm, List.forall_mem_nil _⟩
  refine (hmoves.leaves _).mono ?_ fun _ => id
  rintro moved after ⟨hrange, hstepped, moves, hnotes, hmoves⟩
  have hwatching : Watching rails resets moved := {
    hrange with
    resetPlaces := hstepped.tags.trans h.resetPlaces
    isOn := hstepped.powerOn.trans h.isOn }
  rw [← hstepped.monitorIndex]
  exact checkRail_leaves hwatching hsome moves hmoves hnotes

-- A pass with the power off does nothing.
theorem polls_of_off {ρ' κ' τ : Type} [TickCounter τ] [Logger τ] [Rail τ ρ'] [Reset τ κ'] [Hooks τ η]
    {sup : Supervisor ρ' κ' η} (hoff : sup.state.powerOn = false) (count : Nat) :
    operateAll (List.replicate count .Poll) sup = (pure sup : Run τ _) := by
  induction count with
  | zero => rfl
  | succ count ih =>
      have hpoll : poll sup = (pure sup : Run τ _) := by
        rw [poll, if_neg (by rw [hoff]; exact Bool.false_ne_true)]
      rw [List.replicate_succ, operateAll, List.foldlM_cons, operate, hpoll, pure_bind]
      exact ih

-- So many passes either leave the power on and have read as many rails in turn,
-- or one of them took it down.
theorem polls_leave (h : Watching rails resets sup) (hsome : 0 < rails.length) (count : Nat) :
    Leaves (operateAll (List.replicate count .Poll) sup) observed
      (fun next after => ∃ notes, after.events = observed.events ++ notes ∧
        ((∃ passes, notes = passes.flatten ∧ passes.length = count ∧
            Passes σ rails sup.state.monitorIndex passes) ∧
            next.state.monitorIndex = (sup.state.monitorIndex + count) % rails.length ∨
          (∃ last, TakenDown σ rails resets last notes) ∧ next.state.powerOn = false))
      fun after => ∃ notes, after.events = observed.events ++ notes ∧
        ∃ last, TakenDown σ rails resets last notes := by
  induction count generalizing sup observed with
  | zero =>
      refine ⟨[], (List.append_nil _).symm, .inl ⟨⟨[], rfl, rfl, .nil _⟩, ?_⟩⟩
      rw [Nat.add_zero, Nat.mod_eq_of_lt (h.monitorIndex_lt' hsome)]
  | succ count ih =>
      rw [List.replicate_succ, operateAll, List.foldlM_cons, leaves_bind]
      apply (poll_leaves h hsome).mono
      · rintro next after (⟨notes, hnotes, hpass, hnext, hindex⟩ | ⟨⟨notes, hnotes, htaken⟩, hoff⟩)
        · apply (ih hnext).mono
          · rintro last left ⟨later, hlater, ⟨⟨passes, rfl, hcount, hpasses⟩, hlast⟩ | ⟨hlast, hoff⟩⟩
            · refine ⟨notes ++ passes.flatten, ?_, .inl ⟨⟨notes :: passes, rfl, ?_, ?_⟩, ?_⟩⟩
              · rw [hlater, hnotes, List.append_assoc]
              · rw [List.length_cons, hcount]
              · rw [hindex] at hpasses
                exact .cons hpass hpasses
              · rw [hlast, hindex, Nat.mod_add_mod, Nat.add_right_comm, Nat.add_assoc]
            · obtain ⟨place, htaken⟩ := hlast
              refine ⟨notes ++ later, ?_, .inr ⟨⟨place, htaken.later hpass.sparesPower⟩, hoff⟩⟩
              rw [hlater, hnotes, List.append_assoc]
          · rintro left ⟨later, hlater, place, htaken⟩
            refine ⟨notes ++ later, ?_, place, htaken.later hpass.sparesPower⟩
            rw [hlater, hnotes, List.append_assoc]
        · change Leaves (operateAll (List.replicate count .Poll) next) after _ _
          rw [polls_of_off hoff, leaves_pure]
          exact ⟨notes, hnotes, .inr ⟨⟨_, htaken⟩, hoff⟩⟩
      · rintro after ⟨notes, hnotes, htaken⟩
        exact ⟨notes, hnotes, _, htaken⟩

-- The rails and resets of a supervisor with their places, wherever it has got to.
def labelled (sup : Supervisor ρ κ η) : Supervisor (Numbered ρ) (Numbered κ) η :=
  { sup with rails := numbered sup.rails, resets := numbered sup.resets }

omit [TickCounter σ] [Logger σ] [Rail σ ρ] [Reset σ κ] [Hooks σ η] in
theorem unnumbered_labelled (sup : Supervisor ρ κ η) : unnumbered (labelled sup) = sup := by
  simp [unnumbered, labelled]

-- The same operations on a board beside which nothing is written down.
theorem labelled_erases {ε : Type} [Transcript ε] (operations : List Operation)
    (sup : Supervisor ρ κ η) :
    RunMirrors (σ := σ) (τ := Recorded σ ε) Recorded.board unnumbered
      (operateAll operations (labelled sup)) (operateAll operations sup) := by
  have herases := operateAll_erases (σ := σ) (ε := ε) operations (labelled sup)
  rwa [unnumbered_labelled] at herases

omit [TickCounter σ] [Logger σ] [Rail σ ρ] [Reset σ κ] [Hooks σ η] in
theorem watching_labelled {sup : Supervisor ρ κ η} (h : InRange rails resets sup)
    (hon : sup.state.powerOn = true) : Watching rails resets (labelled sup) where
  rails_eq := by rw [labelled, h.rails_eq]
  resets_eq := (length_numbered _).trans h.resets_eq
  resetIndex_le := h.resetIndex_le
  done_iff := h.done_iff
  monitorIndex_lt := by
    rw [length_numbered]
    exact h.monitorIndex_lt
  monitorIndex_zero := by
    rw [length_numbered]
    exact h.monitorIndex_zero
  resetPlaces := by
    rw [labelled, places_numbered, h.resets_eq]
  isOn := hon

omit [TickCounter σ] [Logger σ] [Rail σ ρ] [Reset σ κ] [Hooks σ η] in
-- A round from any place on comes by every place once.
theorem count_round {first place count : Nat} (hfirst : first < count) (hplace : place < count) :
    ((List.range count).map fun pass => (first + pass) % count).count place = 1 := by
  have hnodup : ((List.range count).map fun pass => (first + pass) % count).Nodup := by
    refine List.Nodup.map_on ?_ List.nodup_range
    intro pass hpass other hother hequal
    rw [List.mem_range] at hpass hother
    exact Nat.ModEq.eq_of_lt_of_lt (Nat.ModEq.add_left_cancel' first hequal) hpass hother
  refine List.count_eq_one_of_mem hnodup (List.mem_map.mpr ?_)
  refine ⟨(place + (count - first)) % count, ?_, ?_⟩
  · exact List.mem_range.mpr (Nat.mod_lt _ (Nat.zero_lt_of_lt hplace))
  · rw [Nat.add_mod_mod, Nat.add_left_comm, Nat.add_sub_cancel' (Nat.le_of_lt hfirst),
      Nat.add_mod_right, Nat.mod_eq_of_lt hplace]

omit [TickCounter σ] [Logger σ] [Reset σ κ] [Hooks σ η] in
-- A whole round of passes that left the power on came by every rail.
theorem Passes.not_bad {passes : List (List Note)} {first : Nat}
    (h : Passes σ rails first passes) (hfirst : first < rails.length)
    (hcount : passes.length = rails.length) {place : Nat} {rail : ρ}
    (hrail : rails[place]? = some rail)
    (hkind : Rail.isCritical σ rail = true ∨ Rail.isInputSupply σ rail = true) :
    ∃ good, .Read place good ∈ passes.flatten ∧ good = true := by
  have hplace : place < rails.length := (List.getElem?_eq_some_iff.mp hrail).1
  have hread : place ∈ reads passes.flatten := by
    rw [← List.count_pos_iff, h.reads_eq hfirst, hcount, count_round hfirst hplace]
    exact Nat.one_pos
  by_contra hnone
  have hbad : ∀ good, .Read place good ∈ passes.flatten → good = false := by
    intro good hmem
    rw [← Bool.not_eq_true]
    exact fun hgood => hnone ⟨good, hmem, hgood⟩
  obtain ⟨hcritical, hsupply⟩ := h.of_bad hrail hread hbad
  rw [hcritical, hsupply] at hkind
  simp at hkind

-- The same of a board without notes: what it does is what is noted beside it.
theorem polls_seen {sup : Supervisor ρ κ η} (begun : σ) (h : Watching rails resets (labelled sup))
    (hsome : 0 < rails.length) (count : Nat) :
    let polls := List.replicate count Operation.Poll
    let seen := final (operateAll polls (labelled sup)) ({ board := begun } : Observed σ)
    seen.board = final (operateAll polls sup) begun ∧
    ((∃ passes, seen.events = passes.flatten ∧ passes.length = count ∧
        Passes σ rails sup.state.monitorIndex passes) ∧
        (∀ next after, operateAll polls sup begun = .ok next after →
          next.state.monitorIndex = (sup.state.monitorIndex + count) % rails.length) ∨
      (∃ last, TakenDown σ rails resets last seen.events) ∧
        ∀ next after, operateAll polls sup begun = .ok next after → next.state.powerOn = false) := by
  intro polls seen
  have hmirror := labelled_erases (σ := σ) (ε := Note) polls sup
  have hpolls : Leaves (operateAll polls (labelled sup)) ({ board := begun } : Observed σ) _ _ :=
    polls_leave h hsome count
  refine ⟨hmirror.final { board := begun }, ?_⟩
  unfold Leaves at hpolls
  simp only [seen, final]
  cases hrun : operateAll polls (labelled sup) ({ board := begun } : Observed σ) with
  | error fault after =>
      simp only [hrun, List.nil_append] at hpolls
      obtain ⟨notes, rfl, hdown⟩ := hpolls
      refine .inr ⟨hdown, ?_⟩
      intro next left hbare
      obtain ⟨_, _, hnoted, _⟩ := hmirror.of_ok { board := begun } hbare
      cases hrun.symm.trans hnoted
  | ok noted after =>
      have hsame : ∀ next left, operateAll polls sup begun = .ok next left →
          next.state = noted.state := by
        intro next left hbare
        obtain ⟨_, _, hnoted, rfl, _⟩ := hmirror.of_ok { board := begun } hbare
        cases hrun.symm.trans hnoted
        rfl
      simp only [hrun, List.nil_append] at hpolls
      obtain ⟨notes, rfl, ⟨hpasses, hnext⟩ | ⟨hdown, hoff⟩⟩ := hpolls
      · refine .inl ⟨hpasses, ?_⟩
        intro next left hbare
        rw [hsame next left hbare, hnext]
        rfl
      · refine .inr ⟨hdown, ?_⟩
        intro next left hbare
        rw [hsame next left hbare, hoff]

-- From any point of any run at which the power is on, with `m` the next rail to
-- check of `n`, passes do one of two things. As long as they leave the power on,
-- each reads one rail, from `m` on in turn, and a rail that reads bad is neither
-- critical nor the input supply and is reported by name; after `n` passes every
-- rail was read once and the next one is `m` again. Or a pass takes the power down,
-- for a rail that it reads bad, by the script of that kind of rail. That happens
-- within `n` passes when a critical rail or the input supply reads bad throughout.
theorem every_rail_watched {rails : List ρ} (hsome : rails ≠ []) (lines : List κ) (hooks : η)
    (board : σ) (calls : List Call) {sup : Supervisor ρ κ η} {begun : σ}
    (hreached : callAll calls { rails, resets := lines, hooks } board = .ok sup begun)
    (hon : sup.state.powerOn = true) :
    let polls count := List.replicate count Operation.Poll
    let seen count := final (operateAll (polls count) (labelled sup)) ({ board := begun } : Observed σ)
    (∀ count, (seen count).board = final (operateAll (polls count) sup) begun) ∧
    (∀ count next after, operateAll (polls count) sup begun = .ok next after →
      next.state.powerOn = true →
      (∃ passes, (seen count).events = passes.flatten ∧ passes.length = count ∧
        Passes σ rails sup.state.monitorIndex passes) ∧
      reads (seen count).events =
        (List.range count).map (fun pass => (sup.state.monitorIndex + pass) % rails.length) ∧
      (count = rails.length →
        (∀ place < rails.length, (reads (seen count).events).count place = 1) ∧
        next.state.monitorIndex = sup.state.monitorIndex)) ∧
    (∀ place rail, rails[place]? = some rail →
      Rail.isCritical σ rail = true ∨ Rail.isInputSupply σ rail = true →
      (∀ good, .Read place good ∈ (seen rails.length).events → good = false) →
      (∃ last, TakenDown σ rails lines.length last (seen rails.length).events) ∧
      ∀ next after, operateAll (polls rails.length) sup begun = .ok next after →
        next.state.powerOn = false) := by
  intro polls seen
  have hpos : 0 < rails.length := List.length_pos_iff.mpr hsome
  have hrange : InRange rails lines.length sup :=
    (callAll_staysIn calls (inRange_start rails lines hooks)).of_eq_ok hreached
  have hindex : sup.state.monitorIndex < rails.length := hrange.monitorIndex_lt hpos
  have hwatching := watching_labelled hrange hon
  have hseen := fun count => polls_seen begun hwatching hpos count
  refine ⟨fun count => (hseen count).1, ?_, ?_⟩
  · intro count next after hrun hstays
    rcases (hseen count).2 with ⟨⟨passes, hnotes, hcount, hpasses⟩, hnext⟩ | ⟨_, hoff⟩
    · have hreads : reads (seen count).events = (List.range count).map
          (fun pass => (sup.state.monitorIndex + pass) % rails.length) := by
        rw [hnotes, hpasses.reads_eq hindex, hcount]
      refine ⟨⟨passes, hnotes, hcount, hpasses⟩, hreads, ?_⟩
      rintro rfl
      refine ⟨?_, ?_⟩
      · intro place hplace
        rw [hreads]
        exact count_round hindex hplace
      · rw [hnext next after hrun, Nat.add_mod_right, Nat.mod_eq_of_lt hindex]
    · cases (hoff next after hrun).symm.trans hstays
  · intro place rail hrail hkind hbad
    rcases (hseen rails.length).2 with ⟨⟨passes, hnotes, hcount, hpasses⟩, _⟩ | hdown
    · obtain ⟨good, hmem, hgood⟩ := hpasses.not_bad hindex hcount hrail hkind
      rw [← hnotes] at hmem
      cases (hbad good hmem).symm.trans hgood
    · exact hdown

end

section

open Bench

-- Whether a run comes to its end at something that passes a check.
def endsWith {σ α : Type} (check : α → σ → Bool) : EStateM.Result Fault σ α → Bool
  | .ok value after => check value after
  | .error _ _ => false

theorem exists_of_endsWith {σ α : Type} {check : α → σ → Bool}
    {result : EStateM.Result Fault σ α} (h : endsWith check result = true) :
    ∃ value after, result = .ok value after ∧ check value after = true := by
  cases result with
  | ok value after => exact ⟨value, after, rfl, h⟩
  | error fault after => cases h

-- The core is behind the supply. It is the supply's turn, which reads bad.
theorem every_rail_watched_supply_next :
    supplied.reverse ≠ [] ∧ ∃ (sup : Supervisor BenchRail BenchReset Tolerant) (begun : Board),
      callAll [.Operate .PowerOn, .Operate .Poll]
          { rails := supplied.reverse, resets := chained, hooks := Tolerant.mk } ({} : Board) =
        .ok sup begun ∧ sup.state.powerOn = true ∧
      ∃ last, TakenDown Board supplied.reverse 2 last
        (final (operateAll (List.replicate 2 .Poll) (labelled sup))
          ({ board := begun } : Observed Board)).events := by
  have hsome : supplied.reverse ≠ [] := by decide
  obtain ⟨sup, begun, hrun, _⟩ : Ends (callAll [.Operate .PowerOn, .Operate .Poll]
      { rails := supplied.reverse, resets := chained, hooks := Tolerant.mk }) ({} : Board) _ :=
    (callAll_staysIn _ (inRange_start _ _ _)).ends
      fun _ => not_not_intro fun hooks board => ⟨hooks, board, rfl⟩
  have hchecked : endsWith (fun sup begun => sup.state.powerOn &&
        (final (operateAll (List.replicate 2 .Poll) (labelled sup))
          ({ board := begun } : Observed Board)).events.all (· ≠ .Read 1 true))
      (callAll [.Operate .PowerOn, .Operate .Poll]
        { rails := supplied.reverse, resets := chained, hooks := Tolerant.mk } ({} : Board)) =
      true := by decide +kernel
  rw [hrun, endsWith, Bool.and_eq_true, List.all_eq_true] at hchecked
  obtain ⟨hon, hreads⟩ := hchecked
  obtain ⟨_, _, hdetected⟩ := every_rail_watched hsome chained Tolerant.mk ({} : Board) _ hrun hon
  refine ⟨hsome, sup, begun, hrun, hon, (hdetected 1 _ rfl (.inr rfl) ?_).1⟩
  intro good hmem
  have hgood := hreads _ hmem
  cases good with
  | false => rfl
  | true => simp at hgood

end

end BoardControl.Supervisor
