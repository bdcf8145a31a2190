import BoardControl.Proofs.Scheduler.Seat
import Mathlib.Data.List.Nodup

namespace BoardControl.Scheduler

open Run Supervisor Timed

-- The latest release of a reset line that is still released. It is steady as long
-- as the tick counter was not restarted after it.
structure Release where
  tick : Nat
  steady : Bool
deriving DecidableEq, Repr

namespace Event

def reset? : Event → Option Nat
  | .Held reset => some reset
  | .Released reset _ => some reset
  | .Answered reset _ _ => some reset
  | .Restarted _ => none
  | .Fired _ _ => none

def follow (reset : Nat) (latest : Option Release) : Event → Option Release
  | .Held other => if other = reset then none else latest
  | .Released other tick => if other = reset then some ⟨tick, true⟩ else latest
  | .Restarted _ => latest.map fun release => { release with steady := false }
  | .Answered _ _ _ => latest
  | .Fired _ _ => latest

end Event

def latestRelease (reset : Nat) (history : List Event) : Option Release :=
  history.foldl (Event.follow reset) none

-- A line that is called ready was released more than so many ticks before. This
-- is said of releases that no restart of the tick counter came after.
def Settles (reset : Nat) (ticks : UInt16) : List Event → Prop :=
  AtEach fun before event => ∀ tick, event = .Answered reset true tick →
    ∃ release, latestRelease reset before = some release ∧
      (release.steady = true → release.tick + ticks.toNat < tick)

section

variable {reset : Nat} {ticks : UInt16} {history : List Event} {event : Event}

theorem latestRelease_snoc :
    latestRelease reset (history ++ [event]) = event.follow reset (latestRelease reset history) :=
  List.foldl_concat _ _ _ _

theorem latestRelease_of_other {other : Nat} (hevent : event.reset? = some other)
    (hother : other ≠ reset) :
    latestRelease reset (history ++ [event]) = latestRelease reset history := by
  rw [latestRelease_snoc]
  cases event with
  | Held found =>
      cases hevent
      exact if_neg hother
  | Released found tick =>
      cases hevent
      exact if_neg hother
  | Answered found ready tick => rfl
  | Restarted tick => cases hevent
  | Fired due tick => cases hevent

theorem Settles.of_unready (h : Settles reset ticks history)
    (hevent : ∀ tick, event ≠ .Answered reset true tick) :
    Settles reset ticks (history ++ [event]) :=
  h.snoc fun tick heq => absurd heq (hevent tick)

theorem Settles.of_other (h : Settles reset ticks history) {other : Nat}
    (hevent : event.reset? = some other) (hother : other ≠ reset) :
    Settles reset ticks (history ++ [event]) := by
  refine h.of_unready fun tick heq => hother ?_
  rw [heq] at hevent
  exact (Option.some.inj hevent).symm

end

section

variable {σ ρ κ η π δ : Type}

-- A delayed line tells what was written down about it, unless the tick counter was
-- restarted since its release.
def Tracks (reset : Nat) (ticks : UInt16) (line : ResetLine π δ) (timed : Timed σ) : Prop :=
  ∃ start done, line.readiness = .Delay ticks start done ∧
    match latestRelease reset timed.history with
    | none => start = none ∧ done = false
    | some release => release.steady = true →
        timed.origin ≤ release.tick ∧ release.tick ≤ timed.real ∧
        start = some (release.tick - timed.origin).toUInt32 ∧
        (done = true → release.tick + ticks.toNat < timed.real)

-- One line of a list is delayed and tells what was written down about it.
structure Minded (reset : Nat) (ticks : UInt16) (lines : List (Numbered (ResetLine π δ ⊕ κ)))
    (timed : Timed σ) : Prop where
  distinct : (places lines).Nodup
  own : ∀ line ∈ lines, line.place = reset →
    ∃ described, line.part = .inl described ∧ Tracks reset ticks described timed
  settles : Settles reset ticks timed.history

variable {reset : Nat} {ticks : UInt16} {line : ResetLine π δ} {timed next : Timed σ}

theorem Tracks.later (h : Tracks reset ticks line timed) (hlater : Later timed next) :
    Tracks reset ticks line next := by
  obtain ⟨start, done, hline, hrelease⟩ := h
  refine ⟨start, done, hline, ?_⟩
  rw [hlater.history, hlater.origin]
  have hreal := hlater.real
  split at hrelease
  · exact hrelease
  · intro hsteady
    obtain ⟨hbegun, hpast, hstart, hdone⟩ := hrelease hsteady
    exact ⟨hbegun, by omega, hstart, fun hset => by have := hdone hset; omega⟩

-- An event about another line.
theorem Tracks.other (h : Tracks reset ticks line timed) {event : Event} {other : Nat}
    (hevent : event.reset? = some other) (hother : other ≠ reset) :
    Tracks reset ticks line { timed with history := timed.history ++ [event] } := by
  obtain ⟨start, done, hline, hrelease⟩ := h
  refine ⟨start, done, hline, ?_⟩
  rw [latestRelease_of_other hevent hother]
  exact hrelease

theorem Tracks.answered (h : Tracks reset ticks line timed) (ready : Bool) (tick : Nat) :
    Tracks reset ticks line
      { timed with history := timed.history ++ [.Answered reset ready tick] } := by
  obtain ⟨start, done, hline, hrelease⟩ := h
  refine ⟨start, done, hline, ?_⟩
  rw [latestRelease_snoc]
  exact hrelease

theorem Tracks.restarted (h : Tracks reset ticks line timed) :
    Tracks reset ticks line timed.restarted := by
  obtain ⟨start, done, hline, hrelease⟩ := h
  refine ⟨start, done, hline, ?_⟩
  simp only [Timed.restarted, latestRelease_snoc, Event.follow]
  cases hlatest : latestRelease reset timed.history with
  | none =>
      rw [hlatest] at hrelease
      exact hrelease
  | some release => exact nofun

-- Two readings of the counter between two restarts do not show more time than
-- there was.
theorem elapsed_le {origin first last : Nat} (hfirst : origin ≤ first) (hlast : first ≤ last) :
    (Ticks.elapsed (first - origin).toUInt32 (last - origin).toUInt32).toNat ≤ last - first := by
  have hspan : last - origin - (first - origin) = last - first := by omega
  rw [Ticks.elapsed_toUInt32 (Nat.sub_le_sub_right hlast origin), hspan]
  exact Nat.mod_le _ _

section

variable [Pace σ] [Logger σ] [OutputPin σ π] [InputPin σ δ]

omit [InputPin σ δ] in
-- The counter is read at the end of a release.
theorem release_value {start : Option UInt32} {done : Bool}
    (hline : line.readiness = .Delay ticks start done) (timed : Timed σ) :
    (line.release timed).1 = line.released.startDelay ticks (line.release timed).2.reading := by
  simp only [ResetLine.release, Action.bind_apply, hline]
  split <;> rfl

omit [InputPin σ δ] in
theorem Tracks.hold (h : Tracks reset ticks line timed) :
    Tracks reset ticks (line.hold timed).1
      { (line.hold timed).2 with history := (line.hold timed).2.history ++ [.Held reset] } := by
  obtain ⟨start, done, hline, _⟩ := h
  refine ⟨none, false, ?_, ?_⟩
  · rw [ResetLine.hold_value, ResetLine.held, hline]
  · simp only [latestRelease_snoc, Event.follow, ↓reduceIte, and_self]

omit [InputPin σ δ] in
theorem Tracks.release (h : Tracks reset ticks line timed) :
    Tracks reset ticks (line.release timed).1
      { (line.release timed).2 with
        history := (line.release timed).2.history ++
          [.Released reset (line.release timed).2.real] } := by
  obtain ⟨start, done, hline, _⟩ := h
  refine ⟨some (line.release timed).2.reading, false, ?_, ?_⟩
  · rw [release_value hline, ResetLine.startDelay]
  · simp only [latestRelease_snoc, Event.follow, ↓reduceIte]
    exact fun _ => ⟨Timed.begun _, Nat.le_refl _, rfl, nofun⟩

omit [Logger σ] [OutputPin σ π] in
-- The line answers yes only after its time.
theorem Tracks.isReady (h : Tracks reset ticks line timed) :
    Tracks reset ticks (line.isReady timed).1.2 (line.isReady timed).2 ∧
    ((line.isReady timed).1.1 = true →
      ∃ release, latestRelease reset timed.history = some release ∧
        (release.steady = true → release.tick + ticks.toNat < (line.isReady timed).2.real)) := by
  obtain ⟨start, done, hline, hrelease⟩ := id h
  cases start with
  | none =>
      have hasked : line.isReady timed = ((done, line), timed) := by
        simp only [ResetLine.isReady, hline]
        rfl
      rw [hasked]
      refine ⟨h, fun hdone => ?_⟩
      cases hlatest : latestRelease reset timed.history with
      | none =>
          rw [hlatest] at hrelease
          cases hrelease.2.symm.trans hdone
      | some release =>
          rw [hlatest] at hrelease
          exact ⟨release, rfl, fun hsteady => nomatch (hrelease hsteady).2.2.1⟩
  | some start =>
      have hlapsed := Later.lapsed timed
      let passed := decide (ticks.toUInt32 < Ticks.elapsed start timed.lapsed.reading)
      have hasked : line.isReady timed = ((done || passed,
          { line with readiness := .Delay ticks (some start) (done || passed) }), timed.lapsed) := by
        simp only [ResetLine.isReady, hline]
        rfl
      cases hlatest : latestRelease reset timed.history with
      | none =>
          rw [hlatest] at hrelease
          cases hrelease.1
      | some release =>
          rw [hlatest] at hrelease
          have hpassed : release.steady = true → (done || passed) = true →
              release.tick + ticks.toNat < timed.lapsed.real := by
            intro hsteady hready
            obtain ⟨hbegun, hpast, hstart, hdone⟩ := hrelease hsteady
            have hreal := hlapsed.real
            rcases (Bool.or_eq_true _ _).mp hready with hset | hset
            · have := hdone hset
              omega
            · have helapsed := UInt32.lt_iff_toNat_lt.mp (of_decide_eq_true hset)
              rw [Option.some.inj hstart, Timed.reading, hlapsed.origin] at helapsed
              have := elapsed_le hbegun (Nat.le_trans hpast hreal)
              have hticks : ticks.toUInt32.toNat = ticks.toNat := UInt16.toNat_toUInt32 ticks
              omega
          rw [hasked]
          refine ⟨⟨some start, done || passed, rfl, ?_⟩, fun hready => ⟨release, rfl, ?_⟩⟩
          · rw [hlapsed.history, hlatest]
            intro hsteady
            obtain ⟨hbegun, hpast, hstart, _⟩ := hrelease hsteady
            rw [hlapsed.origin]
            exact ⟨hbegun, Nat.le_trans hpast hlapsed.real, hstart, hpassed hsteady⟩
          · exact fun hsteady => hpassed hsteady hready

end

-- One line of the list is used, which is written down.
theorem Minded.used {before after : List (Numbered (ResetLine π δ ⊕ κ))}
    {line changed : Numbered (ResetLine π δ ⊕ κ)} {event : Event}
    (h : Minded reset ticks (before ++ line :: after) timed) (hlater : Later timed next)
    (hplace : changed.place = line.place) (hevent : event.reset? = some line.place)
    (hown : line.place = reset →
      (∃ described, changed.part = .inl described ∧
        Tracks reset ticks described { next with history := next.history ++ [event] }) ∧
      Settles reset ticks (timed.history ++ [event])) :
    Minded reset ticks (before ++ changed :: after)
      { next with history := next.history ++ [event] } := by
  have hplaces : places (before ++ changed :: after) = places (before ++ line :: after) := by
    rw [places_append, places_cons, hplace, ← places_cons, ← places_append]
  have hdistinct := h.distinct
  refine ⟨by rw [hplaces]; exact hdistinct, ?_, ?_⟩
  · intro found hmem hfound
    rw [places_append, places_cons, List.nodup_middle, List.nodup_cons, ← places_append] at hdistinct
    by_cases hsame : line.place = reset
    · rcases List.mem_append.mp hmem with hmem | hmem
      · refine absurd ?_ hdistinct.1
        rw [hsame, ← hfound]
        exact List.mem_map_of_mem (List.mem_append_left _ hmem)
      · rcases List.mem_cons.mp hmem with rfl | hmem
        · exact (hown hsame).1
        · refine absurd ?_ hdistinct.1
          rw [hsame, ← hfound]
          exact List.mem_map_of_mem (List.mem_append_right _ hmem)
    · have hkept : found ∈ before ++ line :: after := by
        rcases List.mem_append.mp hmem with hmem | hmem
        · exact List.mem_append_left _ hmem
        · rcases List.mem_cons.mp hmem with rfl | hmem
          · exact absurd (hplace.symm.trans hfound) hsame
          · exact List.mem_append_right _ (List.mem_cons_of_mem _ hmem)
      obtain ⟨described, hpart, htracks⟩ := h.own found hkept hfound
      exact ⟨described, hpart, (htracks.later hlater).other hevent hsame⟩
  · simp only [hlater.history]
    by_cases hsame : line.place = reset
    · exact (hown hsame).2
    · exact h.settles.of_other hevent hsame

theorem Minded.later {lines : List (Numbered (ResetLine π δ ⊕ κ))}
    (h : Minded reset ticks lines timed) (hlater : Later timed next) :
    Minded reset ticks lines next where
  distinct := h.distinct
  own line hmem hplace := by
    obtain ⟨described, hpart, htracks⟩ := h.own line hmem hplace
    exact ⟨described, hpart, htracks.later hlater⟩
  settles := by
    rw [hlater.history]
    exact h.settles

theorem Minded.restarted {lines : List (Numbered (ResetLine π δ ⊕ κ))}
    (h : Minded reset ticks lines timed) : Minded reset ticks lines timed.restarted where
  distinct := h.distinct
  own line hmem hplace := by
    obtain ⟨described, hpart, htracks⟩ := h.own line hmem hplace
    exact ⟨described, hpart, htracks.restarted⟩
  settles := h.settles.of_unready nofun

-- A line with its place, where what is done with it is written down.
instance [Reset (Timed σ) κ] : Reset (Timed σ) (Numbered κ) where
  name line := Reset.name (Timed σ) line.part
  hold line := do
    let part ← Reset.hold line.part
    note fun _ => .Held line.place
    pure { line with part }
  release line := do
    let part ← Reset.release line.part
    note fun timed => .Released line.place timed.real
    pure { line with part }
  isReady line := do
    let (ready, part) ← Reset.isReady line.part
    note fun timed => .Answered line.place ready timed.real
    pure (ready, { line with part })

variable [Pace σ] [Logger σ] [OutputPin σ π] [InputPin σ δ] [Rail σ ρ] [Reset σ κ] [Hooks σ η]

theorem minded_upkeep (reset : Nat) (ticks : UInt16) :
    Upkeep ρ η fun lines (timed : Timed σ) =>
      Minded reset ticks (lines : List (Numbered (ResetLine π δ ⊕ κ))) timed := by
  refine upkeep_of_later (fun lines _ _ hlater h => h.later hlater) ?_ ?_ ?_
  · rintro before ⟨place, part⟩ after timed h
    refine h.used (line_hold_lasts part timed) rfl rfl ?_
    rintro rfl
    obtain ⟨described, rfl, htracks⟩ := h.own ⟨place, part⟩ (by simp) rfl
    exact ⟨⟨_, rfl, htracks.hold⟩, h.settles.of_unready nofun⟩
  · rintro before ⟨place, part⟩ after timed h
    refine h.used (line_release_lasts part timed) rfl rfl ?_
    rintro rfl
    obtain ⟨described, rfl, htracks⟩ := h.own ⟨place, part⟩ (by simp) rfl
    exact ⟨⟨_, rfl, htracks.release⟩, h.settles.of_unready nofun⟩
  · rintro before ⟨place, part⟩ after timed h
    refine h.used (line_isReady_lasts part timed) rfl rfl ?_
    rintro rfl
    obtain ⟨described, rfl, htracks⟩ := h.own ⟨place, part⟩ (by simp) rfl
    obtain ⟨hasked, hready⟩ := htracks.isReady
    refine ⟨⟨_, rfl, hasked.answered _ _⟩, h.settles.snoc ?_⟩
    intro tick heq
    obtain ⟨-, hyes, rfl⟩ := Event.Answered.inj heq
    exact hready hyes

omit [Pace σ] [Logger σ] [OutputPin σ π] [InputPin σ δ] [Rail σ ρ] [Reset σ κ] [Hooks σ η] in
theorem minded_numbered {resets : List (ResetLine π δ ⊕ κ)} {name : String} {pin : π}
    {polarity : Polarity} (hreset : resets[reset]? = some (.inl (.delayed name pin polarity ticks)))
    (board : σ) (real : Nat) :
    Minded reset ticks (numbered resets) ({ board, real } : Timed σ) where
  distinct := by
    rw [places_numbered]
    exact List.nodup_range
  own line hmem hplace := by
    obtain ⟨index, hindex, rfl⟩ := List.mem_mapIdx.mp hmem
    obtain rfl : index = reset := hplace
    rw [List.getElem?_eq_getElem hindex] at hreset
    exact ⟨_, Option.some.inj hreset, none, false, rfl, rfl, rfl⟩
  settles := atEach_nil _

theorem minded_operate (operation : Operation)
    (sup : Supervisor ρ (Numbered (ResetLine π δ ⊕ κ)) η) (timed : Timed σ)
    (h : Minded reset ticks sup.resets timed) :
    Leaves (operate sup operation) timed (fun next after => Minded reset ticks next.resets after)
      fun after => Settles reset ticks after.history :=
  ((minded_upkeep reset ticks).operate operation h).mono (fun _ _ => id) fun _ ⟨_, h⟩ => h.settles

-- What can happen to a scheduled board: time passes, the main loop goes round
-- once, or the application calls the supervisor.
inductive Move where
  | Advance (ticks : Nat)
  | Pass
  | Operate (operation : Operation)
deriving DecidableEq, Repr

section

variable {ν : Type} [Task (Timed σ) ν]

def move (scheduler : Scheduler) (seat : Nat) :
    Move → Run (Roster (Timed σ) (Supervisor ρ (Numbered (ResetLine π δ ⊕ κ)) η ⊕ ν)) Unit
  | .Advance ticks => Roster.onBoard (perform fun timed => ((), timed.elapse ticks))
  | .Pass => scheduler.pass (pure ())
  | .Operate operation => Roster.onTask seat (eachSide (operate · operation) pure)

def moveAll (scheduler : Scheduler) (seat : Nat) (moves : List Move) :
    Run (Roster (Timed σ) (Supervisor ρ (Numbered (ResetLine π δ ⊕ κ)) η ⊕ ν)) Unit :=
  forM moves (move scheduler seat)

variable [Quiet σ ν] {seat : Nat}
  {roster : Roster (Timed σ) (Supervisor ρ (Numbered (ResetLine π δ ⊕ κ)) η ⊕ ν)}

-- The supervisor's place on the roster, with one of its lines.
abbrev Watches (reset : Nat) (ticks : UInt16) (seat : Nat)
    (roster : Roster (Timed σ) (Supervisor ρ (Numbered (ResetLine π δ ⊕ κ)) η ⊕ ν)) : Prop :=
  Seated seat (fun sup timed => Minded reset ticks sup.resets timed) roster

omit [Pace σ] [Logger σ] [OutputPin σ π] [InputPin σ δ] [Rail σ ρ] [Reset σ κ] [Hooks σ η] in
theorem minded_lasting : Lasting (σ := σ)
    (fun (sup : Supervisor ρ (Numbered (ResetLine π δ ⊕ κ)) η) => Minded reset ticks sup.resets)
    fun timed => Settles reset ticks timed.history where
  later _ _ _ hlater h := h.later hlater
  broken _ _ h := h.settles

theorem watches_pass (scheduler : Scheduler) (h : Watches reset ticks seat roster) :
    Leaves (scheduler.pass (pure ())) roster (fun _ after => Watches reset ticks seat after)
      fun after => Settles reset ticks after.board.history := by
  have hcounted : Watches reset ticks seat { roster with board := roster.board.lapsed } :=
    h.onBoard fun _ hminded => hminded.later (.lapsed _)
  simp only [Scheduler.pass, leaves_bind, leaves_onBoard, leaves_perform]
  split
  · simp only [leaves_bind, leaves_onBoard, leaves_perform]
    have hrestarted : Watches reset ticks seat
        { roster with board := roster.board.lapsed.lapsed.restarted } :=
      hcounted.onBoard fun _ hminded => (hminded.later (.lapsed _)).restarted
    refine (hrestarted.shiftTimers minded_lasting _ _ _ ?_).mono ?_ fun _ => id
    · exact fun _ _ _ _ _ hminded => hminded
    · intro _ shifted hshifted
      refine (hshifted.pollAll minded_lasting _ fun _ => minded_operate .Poll).mono ?_ fun _ => id
      exact fun _ _ => id
  · simp only [leaves_bind]
    refine (hcounted.pollAll minded_lasting _ fun _ => minded_operate .Poll).mono ?_ fun _ => id
    exact fun _ _ => id

theorem watches_move (scheduler : Scheduler) (step : Move)
    (h : Watches reset ticks seat roster) :
    Leaves (move scheduler seat step) roster (fun _ after => Watches reset ticks seat after)
      fun after => Settles reset ticks after.board.history := by
  cases step with
  | Advance passed =>
      simp only [move, leaves_onBoard, leaves_perform]
      exact h.onBoard fun _ hminded => hminded.later (.elapse _ _)
  | Pass => exact watches_pass scheduler h
  | Operate operation =>
      exact h.used (minded_operate operation)

theorem watches_moveAll (scheduler : Scheduler) (moves : List Move)
    (h : Watches reset ticks seat roster) :
    Leaves (moveAll scheduler seat moves) roster (fun _ after => Watches reset ticks seat after)
      fun after => Settles reset ticks after.board.history := by
  induction moves generalizing roster with
  | nil => exact h
  | cons step rest ih =>
      rw [moveAll, List.forM_cons, leaves_bind]
      exact (watches_move scheduler step h).mono (fun _ _ => ih) fun _ => id

-- However the board takes its time and whatever else the scheduler polls, a
-- delayed reset is called ready only once its delay has passed since its latest
-- release, unless the scheduler restarted the tick counter in between.
theorem settle_time_kept (scheduler : Scheduler) (rails : List ρ)
    (resets : List (ResetLine π δ ⊕ κ)) (hooks : η) (earlier others : List ν) (board : σ)
    (real : Nat) (moves : List Move) {name : String} {pin : π} {polarity : Polarity}
    (hreset : resets[reset]? = some (.inl (.delayed name pin polarity ticks))) :
    Settles reset ticks (chronicle (moveAll scheduler earlier.length moves)
      (crewed earlier { rails, resets := numbered resets, hooks } others { board, real })) := by
  have hstart : Watches reset ticks earlier.length
      (crewed earlier { rails, resets := numbered resets, hooks } others { board, real }) :=
    seated_crewed (minded_numbered hreset board real)
  have hends := watches_moveAll scheduler moves hstart
  refine Leaves.final (hends.mono ?_ fun _ => id)
  intro _ after hafter
  obtain ⟨sup, _, hminded⟩ := hafter.there
  exact hminded.settles

end

end

section

open Bench

-- The last reset of the board.
def lastReset : ResetLine String String ⊕ BenchReset :=
  .inl (.delayed "MCU" Settings.Pins.mcuReset .ActiveLow Settings.resetSettle)

-- That line alone, with time for its delay before the tick counter is restarted.
def farFromCeiling : Roster (Timed Board)
    (Supervisor BenchRail (Numbered (ResetLine String String ⊕ BenchReset)) BenchHooks ⊕
      PeriodicTask BenchHandler) :=
  crewed [] { rails := [], resets := numbered [lastReset], hooks := .Reporting 0 } []
    { board := {}, real := 1000 }

-- The line is looked at when just its delay has passed, and one tick later.
theorem settle_time_kept_last_reset :
    let moves : List Move := [.Operate .PowerOn, .Advance 100, .Pass, .Advance 1, .Pass]
    let history := chronicle (moveAll { tasks := [0] } 0 moves) farFromCeiling
    [lastReset][0]? = some (.inl (.delayed "MCU" "PC2" .ActiveLow 100)) ∧
    history = [.Released 0 1000, .Answered 0 false 1100, .Answered 0 true 1101,
      .Answered 0 true 1101] ∧
    Settles 0 100 history := by
  intro moves history
  have hreset : [lastReset][0]? = some (.inl (.delayed "MCU" "PC2" .ActiveLow 100)) := rfl
  have hsettles := settle_time_kept { tasks := [0] } ([] : List BenchRail) [lastReset]
    (BenchHooks.Reporting 0) ([] : List (PeriodicTask BenchHandler)) [] ({} : Board) 1000 moves
    hreset
  exact ⟨hreset, by decide +kernel, hsettles⟩

-- The line fifty ticks before the restart.
def nearCeiling : Roster (Timed Board)
    (Supervisor BenchRail (Numbered (ResetLine String String ⊕ BenchReset)) BenchHooks ⊕
      PeriodicTask BenchHandler) :=
  crewed [] { rails := [], resets := numbered [lastReset], hooks := .Reporting 0 } []
    { board := {}, real := 59950 }

-- The counter restarts between the release and the next look at the line, which
-- takes the line for ready after half of its delay.
theorem settle_time_lost_at_restart :
    ¬ AtEach (fun before event => ∀ tick, event = .Answered 0 true tick →
        ∃ release, latestRelease 0 before = some release ∧ release.tick + 100 < tick)
      (chronicle (moveAll { tasks := [0] } 0 [.Operate .PowerOn, .Advance 50, .Pass])
        nearCeiling) := by
  have hhistory : chronicle (moveAll { tasks := [0] } 0
      [.Operate .PowerOn, .Advance 50, .Pass]) nearCeiling =
        [.Released 0 59950, .Restarted 60000, .Answered 0 true 60000, .Answered 0 true 60000] := by
    decide +kernel
  intro hclaim
  obtain ⟨release, hrelease, hwaited⟩ :=
    hclaim [.Released 0 59950, .Restarted 60000] _ _ hhistory 60000 rfl
  cases hrelease
  change 59950 + 100 < 60000 at hwaited
  omega

end

end BoardControl.Scheduler
