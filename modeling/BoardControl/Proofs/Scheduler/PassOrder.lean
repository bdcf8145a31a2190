import BoardControl.Proofs.Scheduler.Journal
import Mathlib.Data.List.Forall2

namespace BoardControl.Scheduler

open Run Journaled
open Supervisor (Numbered numbered)

-- Nothing that runs inside a pass stops it.
structure Returning (σ ζ ν : Type) [DueHandler σ ζ] [Task σ ν] (hook : Run σ Unit) : Prop where
  onDue : ∀ (handler : ζ) (board : σ), Ends (DueHandler.onDue handler) board fun (_ : ζ) _ => True
  poll : ∀ (task : ν) (board : σ), Ends (Task.poll task) board fun (_ : ν) _ => True
  rebase : ∀ delta (task : ν) (board : σ), Ends (Task.rebase delta task) board fun (_ : ν) _ => True
  hook : ∀ board, Ends hook board fun _ _ => True

-- Every task is at its place.
def Placed {σ τ : Type} (roster : Roster (Journaled σ) (Numbered τ)) : Prop :=
  ∀ place (task : Numbered τ), roster.tasks[place]? = some task → task.place = place

-- Using a task leaves one entry, of a shape that depends on its place.
def Noting {σ τ : Type} (shape : Nat → Entry → Prop) (halts : Prop)
    (act : Numbered τ → Run (Journaled σ) (Numbered τ)) : Prop :=
  ∀ task journal, Leaves (act task) journal
    (fun next after => next.place = task.place ∧
      ∃ entry, shape task.place entry ∧ after.events = journal.events ++ [entry])
    fun after => halts ∧
      ∃ entry, shape task.place entry ∧ after.events = journal.events ++ [entry, .Stopped]

def IsPoll (place : Nat) (entry : Entry) : Prop := ∃ heard, entry = .Polled place heard

-- A timer task has read this count, and called its handler if the count has reached
-- its target.
def heardAt (target count : UInt32) : Heard :=
  { counts := [count], calls := if Ticks.hasReached count target then 1 else 0 }

-- One whole pass: the count is read, and at the ceiling the counter is restarted
-- once and every entry of the timer table is told. Then every task is polled in its
-- order, and the application's own work comes last.
def IsScript (scheduler : Scheduler) (now : UInt32) (entries : List Entry) : Prop :=
  ∃ polls, List.Forall₂ IsPoll scheduler.tasks polls ∧
    entries = .Counted now ::
      ((if scheduler.ceiling ≤ now then
          .Restarted :: (named scheduler.tasks scheduler.timers).map (.Rebased · now)
        else []) ++
        (polls ++ [.Hooked]))

section

variable {σ τ α : Type} {roster : Roster (Journaled σ) (Numbered τ)} {journal : Journaled σ}

theorem placed_journaled (roster : Roster σ τ) : Placed (journaled roster) := by
  intro place task htask
  simp only [journaled, numbered, List.getElem?_mapIdx, Option.map_eq_some_iff] at htask
  obtain ⟨part, _, rfl⟩ := htask
  rfl

theorem Placed.set (h : Placed roster) {place : Nat} {task next : Numbered τ} {board : Journaled σ}
    (htask : roster.tasks[place]? = some task) (hnext : next.place = task.place) :
    Placed { board, tasks := roster.tasks.set place next } := by
  intro other found hfound
  by_cases hsame : place = other
  · subst hsame
    rw [List.getElem?_set_self (List.getElem?_eq_some_iff.mp htask).1] at hfound
    cases hfound
    rw [hnext, h place task htask]
  · rw [List.getElem?_set_ne hsame] at hfound
    exact h other found hfound

theorem during_leaves (entry : Entry) (run : Run σ α) :
    Leaves (during entry run) journal
      (fun _ after => after.events = journal.events ++ [entry])
      fun after => ¬ Ends run journal.board (fun _ _ => True) ∧
        after.events = journal.events ++ [entry, .Stopped] := by
  unfold Leaves during
  cases hrun : run journal.board with
  | ok value board => rfl
  | error fault board =>
      refine ⟨?_, rfl⟩
      rintro ⟨value, after, hends, _⟩
      rw [hrun] at hends
      cases hends

theorem listened_leaves (entry : Heard → Entry) {run : Run (Listening σ) α}
    {post : α → Heard → Prop} {broken : Heard → Prop}
    (h : Leaves run { board := journal.board } (fun value after => post value after.heard)
      fun after => broken after.heard) :
    Leaves (listened entry run) journal
      (fun value after => ∃ heard, post value heard ∧
        after.events = journal.events ++ [entry heard])
      fun after => ∃ heard, broken heard ∧
        after.events = journal.events ++ [entry heard, .Stopped] := by
  unfold Leaves at h ⊢
  unfold listened
  cases hrun : run { board := journal.board } with
  | ok value after =>
      rw [hrun] at h
      exact ⟨after.heard, h, rfl⟩
  | error fault after =>
      rw [hrun] at h
      exact ⟨after.heard, h, rfl⟩

-- One turn for each of some tasks that are there.
theorem turns_leave {shape : Nat → Entry → Prop} {halts : Prop}
    {act : Numbered τ → Run (Journaled σ) (Numbered τ)} (hact : Noting shape halts act)
    (hshape : ∀ place, ∃ entry, shape place entry) (places : List Nat) (h : Placed roster)
    (hplaces : ∀ place ∈ places, place < roster.tasks.length) :
    Leaves (turns act places) roster
      (fun _ after => Placed after ∧ after.tasks.length = roster.tasks.length ∧
        ∃ entries, List.Forall₂ shape places entries ∧
          after.board.events = roster.board.events ++ entries)
      fun after => halts ∧ ∃ part rest, List.Forall₂ shape places (part ++ rest) ∧
        after.board.events = roster.board.events ++ (part ++ [.Stopped]) := by
  induction places generalizing roster with
  | nil => exact ⟨h, rfl, [], .nil, (List.append_nil _).symm⟩
  | cons place rest ih =>
      have htask := List.getElem?_eq_getElem (hplaces place List.mem_cons_self)
      have hplace := h place _ htask
      rw [turns_cons, leaves_bind, leaves_onTask, htask]
      refine (hact _ roster.board).mono ?_ ?_
      · rintro next board ⟨hnext, entry, hentry, hentries⟩
        rw [hplace] at hentry
        refine (ih (h.set htask hnext) ?_).mono ?_ ?_
        · intro other hother
          rw [List.length_set]
          exact hplaces other (List.mem_cons_of_mem place hother)
        · rintro _ after ⟨hafter, hlength, entries, hshapes, hnoted⟩
          refine ⟨hafter, hlength.trans (List.length_set ..), entry :: entries,
            .cons hentry hshapes, ?_⟩
          rw [hnoted, hentries, List.append_assoc, List.singleton_append]
        · rintro after ⟨hhalts, part, left, hshapes, hnoted⟩
          refine ⟨hhalts, entry :: part, left, .cons hentry hshapes, ?_⟩
          rw [hnoted, hentries, List.append_assoc, List.singleton_append, List.cons_append]
      · rintro board ⟨hhalts, entry, hentry, hentries⟩
        rw [hplace] at hentry
        -- The turns that are left could have gone on in any way.
        choose entryAt hentryAt using hshape
        have hleft : List.Forall₂ shape rest (rest.map entryAt) :=
          List.forall₂_map_right_iff.mpr (List.forall₂_same.mpr fun other _ => hentryAt other)
        exact ⟨hhalts, [entry], _, .cons hentry hleft, hentries⟩

end

section

variable {σ ζ ν : Type} [TickCounter σ] [DueHandler σ ζ] [Task σ ν] (hook : Run σ Unit)

omit [TickCounter σ] [Task σ ν] in
theorem heard_onDue (handler : ζ) (listening : Listening σ) :
    Leaves (DueHandler.onDue handler) listening
      (fun (_ : ζ) after => after.heard = ⟨listening.heard.counts, listening.heard.calls + 1⟩)
      fun after => ¬ Ends (DueHandler.onDue handler) listening.board (fun (_ : ζ) _ => True) ∧
        after.heard = ⟨listening.heard.counts, listening.heard.calls + 1⟩ := by
  simp only [Leaves, DueHandler.onDue]
  cases hrun : DueHandler.onDue handler listening.board with
  | ok value board => rfl
  | error fault board =>
      refine ⟨?_, rfl⟩
      rintro ⟨value, after, hends, _⟩
      rw [hrun] at hends
      cases hends

-- A timer task reads the count once, and calls its handler once if that has
-- reached its target.
theorem heard_poll (timer : PeriodicTask ζ) (board : σ) :
    Leaves (Task.poll timer) ({ board } : Listening σ)
      (fun next after => ∃ count,
        next.target = (if Ticks.hasReached count timer.target then timer.target + timer.period
          else timer.target) ∧
        after.heard = heardAt timer.target count)
      fun after => ¬ Returning σ ζ ν hook ∧ ∃ count, after.heard = heardAt timer.target count := by
  have hcount : (TickCounter.count ({ board } : Listening σ)).1 = (TickCounter.count board).1 := rfl
  simp only [Task.poll, PeriodicTask.poll, leaves_bind, leaves_perform, hcount]
  split
  · rename_i hreached
    simp only [leaves_bind, leaves_pure]
    refine (heard_onDue timer.handler _).mono ?_ ?_
    · intro handler after hheard
      refine ⟨(TickCounter.count board).1, ?_, ?_⟩
      · rw [if_pos hreached]
      · rw [heardAt, if_pos hreached]
        exact hheard
    · rintro after ⟨hends, hheard⟩
      refine ⟨fun hreturns => hends (hreturns.onDue _ _), (TickCounter.count board).1, ?_⟩
      rw [heardAt, if_pos hreached]
      exact hheard
  · rename_i hearly
    rw [leaves_pure]
    refine ⟨(TickCounter.count board).1, ?_, ?_⟩
    · rw [if_neg hearly]
    · rw [heardAt, if_neg hearly]
      rfl

variable {place : Nat} {timer : PeriodicTask ζ} {journal : Journaled σ}

-- The turn of a timer task.
theorem timer_poll_leaves :
    Leaves (Task.poll (Numbered.mk place (Sum.inl timer : PeriodicTask ζ ⊕ ν))) journal
      (fun next after => ∃ count moved, next = ⟨place, .inl moved⟩ ∧
        moved.target = (if Ticks.hasReached count timer.target then timer.target + timer.period
          else timer.target) ∧
        after.events = journal.events ++ [.Polled place (some (heardAt timer.target count))])
      fun after => ¬ Returning σ ζ ν hook ∧ ∃ count, after.events =
        journal.events ++ [.Polled place (some (heardAt timer.target count)), .Stopped] := by
  have hpoll : Leaves (listened (.Polled place <| some ·) (Task.poll timer)) journal
      (fun moved after => ∃ heard, (∃ count,
        moved.target = (if Ticks.hasReached count timer.target then timer.target + timer.period
          else timer.target) ∧ heard = heardAt timer.target count) ∧
        after.events = journal.events ++ [.Polled place (some heard)])
      fun after => ∃ heard, (¬ Returning σ ζ ν hook ∧ ∃ count, heard = heardAt timer.target count) ∧
        after.events = journal.events ++ [.Polled place (some heard), .Stopped] :=
    listened_leaves _ (heard_poll hook timer journal.board)
  simp only [Task.poll, eachSide, leaves_bind, leaves_map, leaves_pure]
  refine hpoll.mono ?_ ?_
  · rintro moved after ⟨_, ⟨count, htarget, rfl⟩, hentries⟩
    exact ⟨count, moved, rfl, htarget, hentries⟩
  · rintro after ⟨_, ⟨hhalts, count, rfl⟩, hentries⟩
    exact ⟨hhalts, count, hentries⟩

theorem poll_noting :
    Noting IsPoll (¬ Returning σ ζ ν hook)
      (Task.poll (σ := Journaled σ) (τ := Numbered (PeriodicTask ζ ⊕ ν))) := by
  rintro ⟨place, timer | other⟩ journal
  · refine (timer_poll_leaves hook).mono ?_ ?_
    · rintro _ after ⟨count, moved, rfl, _, hentries⟩
      exact ⟨rfl, _, ⟨_, rfl⟩, hentries⟩
    · rintro after ⟨hhalts, count, hentries⟩
      exact ⟨hhalts, _, ⟨_, rfl⟩, hentries⟩
  · simp only [Task.poll, eachSide, leaves_bind, leaves_map, leaves_pure]
    refine (during_leaves _ _).mono ?_ ?_
    · intro next after hentries
      exact ⟨trivial, _, ⟨_, rfl⟩, hentries⟩
    · rintro after ⟨hends, hentries⟩
      exact ⟨fun hreturns => hends (hreturns.poll _ _), _, ⟨_, rfl⟩, hentries⟩

theorem rebase_noting (delta : UInt32) :
    Noting (fun place entry => entry = .Rebased place delta) (¬ Returning σ ζ ν hook)
      (Task.rebase (σ := Journaled σ) (τ := Numbered (PeriodicTask ζ ⊕ ν)) delta) := by
  intro task journal
  simp only [Task.rebase, leaves_bind, leaves_pure]
  refine (during_leaves _ _).mono ?_ ?_
  · intro next after hentries
    exact ⟨trivial, _, rfl, hentries⟩
  · rintro after ⟨hends, hentries⟩
    refine ⟨fun hreturns => hends ?_, _, rfl, hentries⟩
    cases task.part with
    | inl timer => exact (ends_map _ _ _).mpr ((ends_pure _ _).mpr trivial)
    | inr other => exact (ends_map _ _ _).mpr (hreturns.rebase delta other _)

variable {scheduler : Scheduler} {roster : Roster (Journaled σ) (Numbered (PeriodicTask ζ ⊕ ν))}

-- The second half of a pass: every task in its order, then the hook.
theorem polls_leave (hplaced : Placed roster) (places : List Nat)
    (hplaces : ∀ place ∈ places, place < roster.tasks.length) :
    Leaves (do pollAll places; Roster.onBoard (during .Hooked hook)) roster
      (fun _ after => ∃ polls, List.Forall₂ IsPoll places polls ∧
        after.board.events = roster.board.events ++ (polls ++ [.Hooked]))
      fun after => ¬ Returning σ ζ ν hook ∧
        ∃ part rest polls, List.Forall₂ IsPoll places polls ∧ part ++ rest = polls ++ [.Hooked] ∧
          after.board.events = roster.board.events ++ (part ++ [.Stopped]) := by
  rw [pollAll_eq_turns, leaves_bind]
  have hpolls := turns_leave (poll_noting hook) (fun place => ⟨.Polled place none, none, rfl⟩) places
    hplaced hplaces
  refine hpolls.mono ?_ ?_
  · rintro _ polled ⟨_, _, polls, hpolls, hpolled⟩
    rw [leaves_onBoard]
    refine (during_leaves _ _).mono ?_ ?_
    · intro _ after hafter
      refine ⟨polls, hpolls, ?_⟩
      rw [hafter, hpolled, List.append_assoc]
    · rintro after ⟨hends, hafter⟩
      refine ⟨fun hreturns => hends (hreturns.hook _), polls ++ [.Hooked], [], polls, hpolls,
        List.append_nil _, ?_⟩
      rw [hafter, hpolled]
      simp only [List.append_assoc, List.cons_append, List.nil_append]
  · rintro after ⟨hhalts, part, rest, hpolls, hafter⟩
    exact ⟨hhalts, part, rest ++ [.Hooked], _, hpolls, (List.append_assoc _ _ _).symm, hafter⟩

-- The first half of a pass whose count has come to the ceiling.
theorem rebases_leave (hplaced : Placed roster) {tasks timers : List Nat}
    (hplaces : ∀ place ∈ tasks, place < roster.tasks.length)
    (hhandles : ∀ handle ∈ timers, handle < tasks.length) (delta : UInt32) :
    Leaves (shiftTimers tasks delta timers) roster
      (fun _ after => Placed after ∧ after.tasks.length = roster.tasks.length ∧
        after.board.events = roster.board.events ++ (named tasks timers).map (.Rebased · delta))
      fun after => ¬ Returning σ ζ ν hook ∧
        ∃ part rest, part ++ rest = (named tasks timers).map (.Rebased · delta) ∧
          after.board.events = roster.board.events ++ (part ++ [.Stopped]) := by
  have hnamed : ∀ place ∈ named tasks timers, place < roster.tasks.length := by
    intro place hplace
    obtain ⟨handle, _, hfound⟩ := List.mem_filterMap.mp hplace
    exact hplaces place (List.mem_of_getElem? hfound)
  have hentries : ∀ places entries,
      List.Forall₂ (fun place entry => entry = Entry.Rebased place delta) places entries →
      entries = places.map (.Rebased · delta) := by
    intro places entries hforall
    induction hforall with
    | nil => rfl
    | cons hentry _ ih => rw [List.map_cons, hentry, ih]
  rw [shiftTimers_eq_turns hhandles]
  refine (turns_leave (rebase_noting hook delta) (fun place => ⟨_, rfl⟩) _ hplaced hnamed).mono ?_ ?_
  · rintro _ after ⟨hafter, hlength, entries, hforall, hnoted⟩
    rw [hentries _ _ hforall] at hnoted
    exact ⟨hafter, hlength, hnoted⟩
  · rintro after ⟨hhalts, part, rest, hforall, hnoted⟩
    exact ⟨hhalts, part, rest, hentries _ _ hforall, hnoted⟩

-- A pass over tables that name tasks which are there goes by the script. Only a
-- task or the hook can stop it, at any point of the script.
theorem pass_leaves (hplaced : Placed roster)
    (hplaces : ∀ place ∈ scheduler.tasks, place < roster.tasks.length)
    (hhandles : ∀ handle ∈ scheduler.timers, handle < scheduler.tasks.length) :
    Leaves (scheduler.pass (Roster.onBoard (during .Hooked hook))) roster
      (fun _ after => ∃ script, IsScript scheduler (TickCounter.count roster.board.board).1 script ∧
        after.board.events = roster.board.events ++ script)
      fun after => ¬ Returning σ ζ ν hook ∧
        ∃ part rest, IsScript scheduler (TickCounter.count roster.board.board).1 (part ++ rest) ∧
          after.board.events = roster.board.events ++ (part ++ [.Stopped]) := by
  have hnow : (TickCounter.count roster.board).1 = (TickCounter.count roster.board.board).1 := rfl
  have hcounted : (TickCounter.count roster.board).2.events =
    roster.board.events ++ [.Counted (TickCounter.count roster.board.board).1] := rfl
  generalize (TickCounter.count roster.board.board).1 = now at hnow hcounted ⊢
  rw [Scheduler.pass, leaves_bind, leaves_onBoard, leaves_perform, hnow]
  split
  · rename_i hceiling
    have hrestarted : (TickCounter.restart (TickCounter.count roster.board).2).2.events =
        roster.board.events ++ [.Counted now, .Restarted] := by
      change (TickCounter.count roster.board).2.events ++ [Entry.Restarted] = _
      rw [hcounted, List.append_assoc]
      rfl
    dsimp only
    rw [leaves_bind, leaves_onBoard, leaves_perform, leaves_bind]
    have hagain : Placed (Roster.mk
        (TickCounter.restart (TickCounter.count roster.board).2).2 roster.tasks) := hplaced
    refine (rebases_leave hook hagain hplaces hhandles now).mono ?_ ?_
    · rintro _ told ⟨htold, hlength, hrebased⟩
      rw [hrestarted] at hrebased
      refine (polls_leave hook htold scheduler.tasks ?_).mono ?_ ?_
      · rw [hlength]
        exact hplaces
      · rintro _ after ⟨polls, hpolls, hafter⟩
        refine ⟨_, ⟨polls, hpolls, rfl⟩, ?_⟩
        rw [hafter, hrebased, if_pos hceiling]
        simp only [List.append_assoc, List.cons_append, List.nil_append]
      · rintro after ⟨hhalts, part, rest, polls, hpolls, hpart, hafter⟩
        refine ⟨hhalts, .Counted now :: .Restarted ::
          ((named scheduler.tasks scheduler.timers).map (.Rebased · now) ++ part), rest,
          ⟨polls, hpolls, ?_⟩, ?_⟩
        · rw [if_pos hceiling, ← hpart]
          simp only [List.append_assoc, List.cons_append]
        · rw [hafter, hrebased]
          simp only [List.append_assoc, List.cons_append, List.nil_append]
    · rintro after ⟨hhalts, part, rest, hpart, hafter⟩
      -- The polls that were left could have gone on in any way.
      have hpolls : List.Forall₂ IsPoll scheduler.tasks (scheduler.tasks.map (.Polled · none)) :=
        List.forall₂_map_right_iff.mpr (List.forall₂_same.mpr fun _ _ => ⟨none, rfl⟩)
      refine ⟨hhalts, .Counted now :: .Restarted :: part,
        rest ++ (scheduler.tasks.map (.Polled · none) ++ [.Hooked]), ⟨_, hpolls, ?_⟩, ?_⟩
      · rw [if_pos hceiling, ← hpart]
        simp only [List.append_assoc, List.cons_append]
      · rw [hafter, hrestarted]
        simp only [List.append_assoc, List.cons_append, List.nil_append]
  · rename_i hearly
    dsimp only
    have hagain : Placed (Roster.mk (TickCounter.count roster.board).2 roster.tasks) := hplaced
    refine (polls_leave hook hagain scheduler.tasks hplaces).mono ?_ ?_
    · rintro _ after ⟨polls, hpolls, hafter⟩
      refine ⟨_, ⟨polls, hpolls, rfl⟩, ?_⟩
      rw [hafter, hcounted, if_neg hearly, List.append_assoc]
      rfl
    · rintro after ⟨hhalts, part, rest, polls, hpolls, hpart, hafter⟩
      refine ⟨hhalts, .Counted now :: part, rest, ⟨polls, hpolls, ?_⟩, ?_⟩
      · rw [if_neg hearly, List.nil_append, ← hpart]
        rfl
      · rw [hafter, hcounted, List.append_assoc]
        rfl

end

end BoardControl.Scheduler
