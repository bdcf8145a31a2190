import BoardControl.Proofs.Scheduler.PassOrder

namespace BoardControl.Scheduler

open Run Journaled
open Supervisor (Numbered numbered)

-- Since `earlier`, polls of one task have left only entries of this kind.
def Said (seat : Nat) (said : Option Heard → Prop) (earlier entries : List Entry) : Prop :=
  ∃ later, entries = earlier ++ later ∧ ∀ heard, .Polled seat heard ∈ later → said heard

section

variable {seat : Nat} {said : Option Heard → Prop} {earlier entries : List Entry}

theorem Said.start : Said seat said earlier earlier :=
  ⟨[], (List.append_nil _).symm, fun _ hmem => absurd hmem List.not_mem_nil⟩

theorem Said.append (h : Said seat said earlier entries) {more : List Entry}
    (hmore : ∀ heard, .Polled seat heard ∈ more → said heard) :
    Said seat said earlier (entries ++ more) := by
  obtain ⟨later, rfl, hlater⟩ := h
  refine ⟨later ++ more, List.append_assoc _ _ _, ?_⟩
  intro heard hmem
  rcases List.mem_append.mp hmem with hmem | hmem
  · exact hlater heard hmem
  · exact hmore heard hmem

theorem Said.mono (h : Said seat said earlier entries) {weaker : Option Heard → Prop}
    (himp : ∀ heard, said heard → weaker heard) : Said seat weaker earlier entries := by
  obtain ⟨later, hentries, hlater⟩ := h
  exact ⟨later, hentries, fun heard hmem => himp heard (hlater heard hmem)⟩

end

theorem split_of_count {places : List Nat} {seat : Nat} (h : places.count seat = 1) :
    ∃ front back, places = front ++ seat :: back ∧ seat ∉ front ∧ seat ∉ back := by
  have hmem : seat ∈ places := List.count_pos_iff.mp (by omega)
  obtain ⟨front, back, rfl, hfront⟩ := List.eq_append_cons_of_mem hmem
  refine ⟨front, back, rfl, hfront, List.count_eq_zero.mp ?_⟩
  rw [List.count_append, List.count_cons_self, List.count_eq_zero.mpr hfront] at h
  omega

section

variable {σ ζ ν : Type} {seat : Nat} {timer : PeriodicTask ζ} {said : Option Heard → Prop}
  {earlier : List Entry} {roster : Roster (Journaled σ) (Numbered (PeriodicTask ζ ⊕ ν))}

-- A timer task at its place, and what its polls have left since `earlier`.
structure Seen (seat : Nat) (timer : PeriodicTask ζ) (said : Option Heard → Prop)
    (earlier : List Entry) (roster : Roster (Journaled σ) (Numbered (PeriodicTask ζ ⊕ ν))) :
    Prop where
  placed : Placed roster
  there : roster.tasks[seat]? = some ⟨seat, .inl timer⟩
  said : Said seat said earlier roster.board.events

-- Turns of other tasks.
theorem Seen.passed (h : Seen seat timer said earlier roster) {shape : Nat → Entry → Prop}
    {halts : Prop} {act : Numbered (PeriodicTask ζ ⊕ ν) → Run (Journaled σ) _}
    (hact : Noting shape halts act)
    (hshape : ∀ place heard, shape place (.Polled seat heard) → place = seat) (places : List Nat)
    (hnot : seat ∉ places) :
    Leaves (turns act places) roster (fun _ after => Seen seat timer said earlier after)
      fun after => Said seat said earlier after.board.events := by
  induction places generalizing roster with
  | nil => exact h
  | cons place rest ih =>
      rw [List.mem_cons, not_or] at hnot
      obtain ⟨hplace, hrest⟩ := hnot
      rw [turns_cons, leaves_bind, leaves_onTask]
      split
      · exact h.said
      · rename_i task htask
        have hsame := h.placed place task htask
        have hother : ∀ entry, shape task.place entry →
            ∀ heard, .Polled seat heard ∈ [entry, .Stopped] → said heard := by
          intro entry hentry heard hmem
          simp only [List.mem_cons, List.not_mem_nil, or_false, reduceCtorEq] at hmem
          subst hmem
          exact absurd (hshape _ _ hentry).symm (by rw [hsame]; exact hplace)
        refine (hact task roster.board).mono ?_ ?_
        · rintro next board ⟨hnext, entry, hentry, hentries⟩
          refine ih ⟨h.placed.set htask hnext, ?_, ?_⟩ hrest
          · rw [List.getElem?_set_ne (Ne.symm hplace)]
            exact h.there
          · rw [hentries]
            refine h.said.append fun heard hmem => hother entry hentry heard ?_
            exact List.mem_cons.mpr (.inl (List.mem_singleton.mp hmem))
        · rintro board ⟨_, entry, hentry, hentries⟩
          simp only
          rw [hentries]
          exact h.said.append (hother entry hentry)

variable [TickCounter σ] [DueHandler σ ζ] [Task σ ν]

-- The task's own turn to be told of a restart.
theorem Seen.told (h : Seen seat timer said earlier roster) (delta : UInt32) :
    Leaves (Roster.onTask seat (Task.rebase delta)) roster
      (fun _ after => Seen seat (timer.shift delta) said earlier after)
      fun after => Said seat said earlier after.board.events := by
  rw [leaves_onTask, h.there]
  refine ⟨h.placed.set h.there rfl, ?_, h.said.append ?_⟩
  · exact List.getElem?_set_self (List.getElem?_eq_some_iff.mp h.there).1
  · simp

-- Its own turn to be polled, which is the first one.
theorem Seen.polled (h : Seen seat timer (fun _ => False) earlier roster) :
    Leaves (Roster.onTask seat Task.poll) roster
      (fun _ after => ∃ count next,
        next.target = (if Ticks.hasReached count timer.target then timer.target + timer.period
          else timer.target) ∧
        Seen seat next (· = some (heardAt timer.target count)) earlier after)
      fun after => ∃ count,
        Said seat (· = some (heardAt timer.target count)) earlier after.board.events := by
  rw [leaves_onTask, h.there]
  refine (timer_poll_leaves (pure ())).mono ?_ ?_
  · rintro next board ⟨count, moved, rfl, htarget, hentries⟩
    refine ⟨count, moved, htarget, h.placed.set h.there rfl, ?_, ?_⟩
    · exact List.getElem?_set_self (List.getElem?_eq_some_iff.mp h.there).1
    · rw [hentries]
      exact (h.said.mono fun _ => False.elim).append (by simp)
  · rintro board ⟨_, count, hentries⟩
    refine ⟨count, ?_⟩
    simp only
    rw [hentries]
    exact (h.said.mono fun _ => False.elim).append (by simp)

theorem Seen.rebases_passed (h : Seen seat timer said earlier roster) (delta : UInt32)
    {places : List Nat} (hnot : seat ∉ places) :
    Leaves (turns (Task.rebase delta) places) roster
      (fun _ after => Seen seat timer said earlier after)
      fun after => Said seat said earlier after.board.events := by
  refine h.passed (rebase_noting (pure ()) delta) ?_ places hnot
  rintro place heard ⟨⟩

theorem Seen.polls_passed (h : Seen seat timer said earlier roster) {places : List Nat}
    (hnot : seat ∉ places) :
    Leaves (turns Task.poll places) roster (fun _ after => Seen seat timer said earlier after)
      fun after => Said seat said earlier after.board.events := by
  refine h.passed (poll_noting (pure ())) ?_ places hnot
  rintro place heard ⟨_, ⟨⟩⟩
  rfl

theorem Seen.rebases (h : Seen seat timer said earlier roster) (delta : UInt32) {places : List Nat}
    (hmark : places.count seat ≤ 1) :
    Leaves (turns (Task.rebase delta) places) roster
      (fun _ after =>
        Seen seat (if seat ∈ places then timer.shift delta else timer) said earlier after)
      fun after => Said seat said earlier after.board.events := by
  by_cases hmem : seat ∈ places
  · have hcount : places.count seat = 1 := Nat.le_antisymm hmark (List.count_pos_iff.mpr hmem)
    obtain ⟨front, back, rfl, hfront, hback⟩ := split_of_count hcount
    rw [if_pos hmem, turns_append, leaves_bind]
    refine (h.rebases_passed delta hfront).mono ?_ fun _ => id
    intro _ before hbefore
    rw [turns_cons, leaves_bind]
    refine (hbefore.told delta).mono ?_ fun _ => id
    exact fun _ told htold => htold.rebases_passed delta hback
  · rw [if_neg hmem]
    exact h.rebases_passed delta hmem

theorem Seen.polls (h : Seen seat timer (fun _ => False) earlier roster) {places : List Nat}
    (honce : places.count seat = 1) :
    Leaves (turns Task.poll places) roster
      (fun _ after => ∃ count next,
        next.target = (if Ticks.hasReached count timer.target then timer.target + timer.period
          else timer.target) ∧
        Seen seat next (· = some (heardAt timer.target count)) earlier after)
      fun after => ∃ count,
        Said seat (· = some (heardAt timer.target count)) earlier after.board.events := by
  obtain ⟨front, back, rfl, hfront, hback⟩ := split_of_count honce
  rw [turns_append, leaves_bind]
  refine (h.polls_passed hfront).mono ?_ ?_
  · intro _ before hbefore
    rw [turns_cons, leaves_bind]
    refine hbefore.polled.mono ?_ fun _ => id
    rintro _ polled ⟨count, next, htarget, hpolled⟩
    refine (hpolled.polls_passed hback).mono ?_ ?_
    · exact fun _ after hafter => ⟨count, next, htarget, hafter⟩
    · exact fun after hafter => ⟨count, hafter⟩
  · -- A pass that stops before this task has not polled it at any count.
    intro after hafter
    exact ⟨0, hafter.mono fun _ => False.elim⟩

variable (hook : Run σ Unit)

-- The second half of a pass.
theorem Seen.pollAll (h : Seen seat timer (fun _ => False) earlier roster) {places : List Nat}
    (honce : places.count seat = 1) :
    Leaves (do pollAll places; Roster.onBoard (during .Hooked hook)) roster
      (fun _ after => ∃ count next,
        next.target = (if Ticks.hasReached count timer.target then timer.target + timer.period
          else timer.target) ∧
        Seen seat next (· = some (heardAt timer.target count)) earlier after)
      fun after => ∃ count,
        Said seat (· = some (heardAt timer.target count)) earlier after.board.events := by
  rw [pollAll_eq_turns, leaves_bind]
  refine (h.polls honce).mono ?_ fun _ => id
  rintro _ polled ⟨count, next, htarget, hpolled⟩
  rw [leaves_onBoard]
  refine (during_leaves _ _).mono ?_ ?_
  · intro _ board hboard
    refine ⟨count, next, htarget, hpolled.placed, hpolled.there, ?_⟩
    simp only
    rw [hboard]
    exact hpolled.said.append (by simp)
  · rintro board ⟨_, hboard⟩
    refine ⟨count, ?_⟩
    simp only
    rw [hboard]
    exact hpolled.said.append (by simp)

variable {scheduler : Scheduler}

-- What one pass does to a timer task that is polled once and told at most once.
theorem timer_pass_leaves (hplaced : Placed roster)
    (hthere : roster.tasks[seat]? = some ⟨seat, .inl timer⟩)
    (hhandles : ∀ handle ∈ scheduler.timers, handle < scheduler.tasks.length)
    (honce : scheduler.tasks.count seat = 1)
    (hmark : (named scheduler.tasks scheduler.timers).count seat ≤ 1) {now target : UInt32}
    (hnow : (TickCounter.count roster.board.board).1 = now)
    (htarget : target.toNat =
      if scheduler.ceiling ≤ now ∧ seat ∈ named scheduler.tasks scheduler.timers then
        timer.target.toNat - now.toNat
      else timer.target.toNat) :
    Leaves (scheduler.pass (Roster.onBoard (during .Hooked hook))) roster
      (fun _ after => ∃ count next,
        next.target = (if Ticks.hasReached count target then target + timer.period else target) ∧
        Seen seat next (· = some (heardAt target count)) roster.board.events after)
      fun after => ∃ count,
        Said seat (· = some (heardAt target count)) roster.board.events after.board.events := by
  have hread : (TickCounter.count roster.board).1 = now := hnow
  have hcounted : Seen seat timer (fun _ => False) roster.board.events
      (Roster.mk (TickCounter.count roster.board).2 roster.tasks) :=
    ⟨hplaced, hthere, Said.start.append (by simp)⟩
  rw [Scheduler.pass, leaves_bind, leaves_onBoard, leaves_perform, hread]
  split
  · rename_i hceiling
    have hrestarted : Seen seat timer (fun _ => False) roster.board.events
        (Roster.mk (TickCounter.restart (TickCounter.count roster.board).2).2 roster.tasks) :=
      ⟨hplaced, hthere, hcounted.said.append (by simp)⟩
    dsimp only
    rw [leaves_bind, leaves_onBoard, leaves_perform, leaves_bind, shiftTimers_eq_turns hhandles]
    refine (hrestarted.rebases now hmark).mono ?_ ?_
    · intro _ told htold
      by_cases hmem : seat ∈ named scheduler.tasks scheduler.timers
      · rw [if_pos hmem] at htold
        obtain rfl : target = (timer.shift now).target := by
          rw [if_pos ⟨hceiling, hmem⟩, ← Word.toNat_subSaturating] at htarget
          exact UInt32.toNat_inj.mp htarget
        exact htold.pollAll hook honce
      · rw [if_neg hmem] at htold
        obtain rfl : target = timer.target := by
          rw [if_neg fun hboth => hmem hboth.2] at htarget
          exact UInt32.toNat_inj.mp htarget
        exact htold.pollAll hook honce
    · exact fun after hafter => ⟨0, hafter.mono fun _ => False.elim⟩
  · rename_i hearly
    obtain rfl : target = timer.target := by
      rw [if_neg fun hboth => hearly hboth.1] at htarget
      exact UInt32.toNat_inj.mp htarget
    exact hcounted.pollAll hook honce

end

end BoardControl.Scheduler
