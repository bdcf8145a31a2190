import BoardControl.Bench.Board
import BoardControl.Proofs.Recorded
import BoardControl.Rail.Switched
import Mathlib.Data.Nat.Find

namespace BoardControl.SwitchedRail

open Recorded

-- One look at the feedback of a rail: what was read, and where.
inductive Reading (ι ς : Type) where
  | Level (pin : ι) (level : Option Bool)
  | Voltage (sensor : ς) (millivolts : UInt32)
deriving DecidableEq, Repr

-- What a rail asks of its board while it is brought up, with the answers.
inductive Access (π ι ς : Type) where
  | Drove (pin : π) (level ok : Bool)
  | Read (reading : Reading ι ς)
  | Slept (ticks : UInt32)
deriving DecidableEq, Repr

namespace Access

variable {π ι ς : Type}

def isReading : Access π ι ς → Bool
  | .Read _ => true
  | .Drove _ _ _ | .Slept _ => false

def isSleep : Access π ι ς → Bool
  | .Slept _ => true
  | .Drove _ _ _ | .Read _ => false

end Access

-- A board whose accesses are written down.
abbrev Metered (σ π ι ς : Type) := Recorded σ (Access π ι ς)

section

variable {σ π ι ς : Type}

instance : TickEvents (Access π ι ς) where
  slept ticks := [.Slept ticks]

instance [OutputPin σ π] : OutputPin (Metered σ π ι ς) π where
  write pin level := noting (fun ok => [.Drove pin level ok]) (OutputPin.write pin level)

instance [InputPin σ ι] : InputPin (Metered σ π ι ς) ι where
  read pin := noting (fun level => [.Read (.Level pin level)]) (InputPin.read pin)

instance [VoltageSensor σ ς] : VoltageSensor (Metered σ π ι ς) ς where
  read sensor := noting (fun found => [.Read (.Voltage sensor found)]) (VoltageSensor.read sensor)

end

-- The feedback that a rail waits for: a power-good pin or a measured voltage.
inductive Gauge (ι ς : Type) where
  | GoodPin (pin : ι) (polarity : Polarity)
  | Meter (sensor : ς) (window : VoltageWindow)
deriving DecidableEq, Repr

namespace Gauge

variable {σ ι ς : Type}

def feedback (timeout : UInt16) : Gauge ι ς → Feedback ι ς
  | .GoodPin pin polarity => .PowerGood pin polarity timeout
  | .Meter sensor window => .Sensed sensor window timeout

-- A pin is good when it could be read and is at its active level, and a voltage
-- when it lies in its window.
def accepts : Gauge ι ς → Reading ι ς → Bool
  | .GoodPin _ .ActiveHigh, .Level _ level => level == some true
  | .GoodPin _ .ActiveLow, .Level _ level => level == some false
  | .Meter _ window, .Voltage _ millivolts =>
      window.low ≤ millivolts && millivolts ≤ window.high
  | .GoodPin _ _, .Voltage _ _ | .Meter _ _, .Level _ _ => false

def read [InputPin σ ι] [VoltageSensor σ ς] : Gauge ι ς → Action σ (Reading ι ς)
  | .GoodPin pin _ => return .Level pin (← InputPin.read pin)
  | .Meter sensor _ => return .Voltage sensor (← VoltageSensor.read sensor)

theorem settle_or_feedback (feedback : Feedback ι ς) : (∃ delay, feedback = .Settle delay) ∨
    ∃ (gauge : Gauge ι ς) (timeout : UInt16), feedback = gauge.feedback timeout := by
  cases feedback with
  | Settle delay => exact .inl ⟨delay, rfl⟩
  | PowerGood pin polarity timeout => exact .inr ⟨.GoodPin pin polarity, timeout, rfl⟩
  | Sensed sensor window timeout => exact .inr ⟨.Meter sensor window, timeout, rfl⟩

theorem settle_ne_feedback {delay timeout : UInt16} (gauge : Gauge ι ς) :
    .Settle delay ≠ gauge.feedback timeout := by
  cases gauge <;> simp [feedback]

theorem feedback_inj {gauge other : Gauge ι ς} {timeout later : UInt16}
    (h : gauge.feedback timeout = other.feedback later) : gauge = other ∧ timeout = later := by
  cases gauge <;> cases other <;> simp_all [feedback]

variable [TickCounter σ] [InputPin σ ι] [VoltageSensor σ ς] (gauge : Gauge ι ς)

-- The board after so many readings, each of them with a sleep of one tick.
def boardAt : Nat → σ → σ
  | 0, board => board
  | count + 1, board => boardAt count (TickCounter.sleep 1 (gauge.read board).2).2

-- The readings that the board has in store, numbered from zero.
def reading (number : Nat) (board : σ) : Reading ι ς :=
  (gauge.read (gauge.boardAt number board)).1

-- The first `count` readings, with a sleep of one tick between any two.
def polls (π : Type) (count : Nat) (board : σ) : List (Access π ι ς) :=
  ((List.range count).map fun number => .Read (gauge.reading number board)).intersperse (.Slept 1)

end Gauge

section

variable {σ π ι ς : Type} [TickCounter σ] [InputPin σ ι] [VoltageSensor σ ς] (gauge : Gauge ι ς)

-- These accesses are the first readings and one sleep less, of one tick each.
structure Polled (count : Nat) (start : σ) (accesses : List (Access π ι ς)) : Prop where
  eq_polls : accesses = gauge.polls π count start
  readings_eq : accesses.countP Access.isReading = count
  sleeps_eq : accesses.countP Access.isSleep + 1 = count

-- The rail was waited for as long as it took to come up, or until the time was up.
-- A measured rail that stays down may be measured once more, for the record of it.
structure PolledAsNeeded (timeout : Nat) (start : σ) (answer : Except RailError Unit)
    (accesses : List (Access π ι ς)) : Prop where
  ok_iff : answer = .ok () ↔ ∃ number ≤ timeout, gauge.accepts (gauge.reading number start) = true
  of_first : ∀ number ≤ timeout, gauge.accepts (gauge.reading number start) = true →
    (∀ earlier < number, gauge.accepts (gauge.reading earlier start) = false) →
    answer = .ok () ∧ Polled gauge (number + 1) start accesses
  of_none : (∀ number ≤ timeout, gauge.accepts (gauge.reading number start) = false) →
    answer = .error .NotGood ∧ ∃ judged record, accesses = judged ++ record ∧
      Polled gauge (timeout + 1) start judged ∧ (record = [] ∨
        ∃ sensor window millivolts, gauge = .Meter sensor window ∧
          record = [.Read (.Voltage sensor millivolts)])

end

section

variable {σ π ι ς : Type} [TickCounter σ] [Logger σ] [OutputPin σ π] [InputPin σ ι]
  [VoltageSensor σ ς] (rail : SwitchedRail π ι ς)

-- The first thing that is done to bring up a rail. It answers whether the enable
-- pin could be driven.
def enableFirst : Action σ Bool := do
  log .Info s!"Turning on {rail.name}"
  rail.drive true

-- What bringing up a rail asks of a board.
def accessesOn (board : σ) : List (Access π ι ς) :=
  (rail.switchOn (⟨board, []⟩ : Metered σ π ι ς)).2.events

end

-- A board does what it would do without the list of its accesses.
section

variable {σ π ι ς : Type} {rail : SwitchedRail π ι ς}

theorem looksGood_mirrors [InputPin σ ι] [VoltageSensor σ ς] :
    Mirrors Recorded.board id (rail.looksGood : Action (Metered σ π ι ς) Bool)
      rail.looksGood := by
  unfold looksGood
  cases rail.feedback with
  | Settle delay => exact .pure true
  | PowerGood pin polarity timeout =>
      refine (noting_mirrors _ (InputPin.read pin)).bind fun level => ?_
      cases level with
      | none => exact .pure false
      | some level => exact .pure _
  | Sensed sensor window timeout =>
      exact (noting_mirrors _ (VoltageSensor.read sensor)).bind fun found => .pure _

theorem awaitGood_mirrors [TickCounter σ] [InputPin σ ι] [VoltageSensor σ ς] (timeout : Nat) :
    Mirrors Recorded.board id (rail.awaitGood timeout : Action (Metered σ π ι ς) Bool)
      (rail.awaitGood timeout) := by
  induction timeout with
  | zero => exact looksGood_mirrors
  | succ timeout ih =>
      refine looksGood_mirrors.bind fun good => ?_
      cases good with
      | true => exact .pure true
      | false => exact (noting_mirrors _ (TickCounter.sleep 1)).bind fun _ => ih

theorem reportDown_mirrors [Logger σ] [VoltageSensor σ ς] :
    Mirrors Recorded.board id (rail.reportDown : Action (Metered σ π ι ς) Unit)
      rail.reportDown := by
  unfold reportDown
  cases rail.feedback with
  | Settle delay => exact log_mirrors _ _
  | PowerGood pin polarity timeout => exact log_mirrors _ _
  | Sensed sensor window timeout =>
      intro metered
      simp only [logFrom, Logger.enabled]
      split <;> rfl

variable [TickCounter σ] [Logger σ] [InputPin σ ι] [VoltageSensor σ ς]

theorem awaitUp_mirrors (timeout : UInt16) :
    Mirrors Recorded.board id
      (rail.awaitUp timeout : Action (Metered σ π ι ς) (Except RailError Unit))
      (rail.awaitUp timeout) := by
  refine (awaitGood_mirrors timeout.toNat).bind fun good => ?_
  cases good with
  | true => exact .pure _
  | false => exact reportDown_mirrors.bind fun _ => .pure _

theorem switchOn_mirrors [OutputPin σ π] :
    Mirrors Recorded.board id
      (rail.switchOn : Action (Metered σ π ι ς) (Except RailError Unit)) rail.switchOn := by
  have hdriven : Mirrors Recorded.board id (rail.drive true : Action (Metered σ π ι ς) Bool)
      (rail.drive true) := fun _ => rfl
  refine (log_mirrors _ _).bind fun _ => hdriven.bind fun driven => ?_
  cases driven with
  | false => exact (log_mirrors _ _).bind fun _ => .pure _
  | true =>
      cases rail.feedback with
      | Settle delay =>
          exact (noting_mirrors _ (TickCounter.sleep delay.toUInt32)).bind fun _ => .pure _
      | PowerGood pin polarity timeout => exact awaitUp_mirrors timeout
      | Sensed sensor window timeout => exact awaitUp_mirrors timeout

end

namespace Gauge

variable {σ π ι ς : Type} [TickCounter σ] [InputPin σ ι] [VoltageSensor σ ς] {gauge : Gauge ι ς}
  {count : Nat} {board : σ}

theorem polls_succ_succ : gauge.polls π (count + 2) board =
    [.Read (gauge.read board).1, .Slept 1] ++
      gauge.polls π (count + 1) (TickCounter.sleep 1 (gauge.read board).2).2 := by
  rw [polls, polls, List.range_succ_eq_map (n := count + 1), List.range_succ_eq_map (n := count)]
  simp only [List.map_cons, List.map_map, List.intersperse_cons_cons]
  rfl

theorem polled_polls : Polled gauge (count + 1) board (gauge.polls π (count + 1) board) := by
  refine ⟨rfl, ?_, ?_⟩
  · induction count generalizing board with
    | zero => rfl
    | succ count ih => simp [polls_succ_succ, List.countP_cons, ih, Access.isReading]
  · induction count generalizing board with
    | zero => rfl
    | succ count ih => simp [polls_succ_succ, List.countP_cons, ih, Access.isSleep]

end Gauge

section

variable {σ π ι ς : Type} [TickCounter σ] [InputPin σ ι] [VoltageSensor σ ς]
  {rail : SwitchedRail π ι ς} {gauge : Gauge ι ς} {timeout : UInt16}
  (hfeedback : rail.feedback = gauge.feedback timeout) (metered : Metered σ π ι ς)
include hfeedback

omit [TickCounter σ] in
theorem looksGood_metered : rail.looksGood metered = (gauge.accepts (gauge.read metered.board).1,
    ⟨(gauge.read metered.board).2, metered.events ++ [.Read (gauge.read metered.board).1]⟩) := by
  unfold looksGood
  rw [hfeedback]
  cases gauge with
  | Meter sensor window => rfl
  | GoodPin pin polarity =>
      have hread : InputPin.read pin metered = ((InputPin.read pin metered.board).1,
          ⟨(InputPin.read pin metered.board).2,
            metered.events ++ [.Read (.Level pin (InputPin.read pin metered.board).1)]⟩) := rfl
      simp only [Gauge.feedback, Polarity.sense, Gauge.read, Action.bind_apply, Action.pure_apply,
        hread]
      cases (InputPin.read pin metered.board).1 with
      | none => cases polarity <;> rfl
      | some level => cases polarity <;> cases level <;> rfl

omit [TickCounter σ] [InputPin σ ι] in
theorem reportDown_metered [Logger σ] : ∃ record,
    (rail.reportDown metered).2.events = metered.events ++ record ∧ (record = [] ∨
      ∃ sensor window millivolts, gauge = .Meter sensor window ∧
        record = [.Read (.Voltage sensor millivolts)]) := by
  unfold reportDown
  rw [hfeedback]
  cases gauge with
  | GoodPin pin polarity =>
      refine ⟨[], ?_, .inl rfl⟩
      simp only [Gauge.feedback, log]
      split
      · exact (List.append_nil _).symm
      · exact (List.append_nil _).symm
  | Meter sensor window =>
      simp only [Gauge.feedback, logFrom]
      split
      · exact ⟨_, rfl, .inr ⟨sensor, window, _, rfl, rfl⟩⟩
      · exact ⟨[], (List.append_nil _).symm, .inl rfl⟩

theorem awaitGood_of_good {bound : Nat}
    (hgood : gauge.accepts (gauge.read metered.board).1 = true) :
    rail.awaitGood bound metered = (true, ⟨(gauge.read metered.board).2,
      metered.events ++ [.Read (gauge.read metered.board).1]⟩) := by
  have hlook := looksGood_metered hfeedback metered
  rw [hgood] at hlook
  cases bound with
  | zero => exact hlook
  | succ bound =>
      rw [awaitGood, Action.bind_apply, hlook]
      rfl

theorem awaitGood_succ_of_bad {bound : Nat}
    (hbad : gauge.accepts (gauge.read metered.board).1 = false) :
    rail.awaitGood (bound + 1) metered =
      rail.awaitGood bound ⟨(TickCounter.sleep 1 (gauge.read metered.board).2).2,
        metered.events ++ [.Read (gauge.read metered.board).1, .Slept 1]⟩ := by
  have hlook := looksGood_metered hfeedback metered
  rw [hbad] at hlook
  rw [List.append_cons, awaitGood, Action.bind_apply, hlook]
  rfl

-- The poll loop stops at the first reading that is good.
theorem awaitGood_of_first {number bound : Nat} (hwithin : number ≤ bound)
    (hgood : gauge.accepts (gauge.reading number metered.board) = true)
    (hearlier : ∀ earlier < number,
      gauge.accepts (gauge.reading earlier metered.board) = false) :
    (rail.awaitGood bound metered).1 = true ∧ (rail.awaitGood bound metered).2.events =
      metered.events ++ gauge.polls π (number + 1) metered.board := by
  induction number generalizing bound metered with
  | zero =>
      rw [awaitGood_of_good hfeedback metered hgood]
      exact ⟨rfl, rfl⟩
  | succ number ih =>
      cases bound with
      | zero => exact absurd hwithin (Nat.not_succ_le_zero number)
      | succ bound =>
          have hfirst := hearlier 0 (Nat.zero_lt_succ number)
          rw [awaitGood_succ_of_bad hfeedback metered hfirst, Gauge.polls_succ_succ,
            ← List.append_assoc]
          refine ih _ (Nat.le_of_succ_le_succ hwithin) ?_ ?_
          · exact hgood
          · intro earlier hless
            exact hearlier (earlier + 1) (Nat.succ_lt_succ hless)

-- It goes on to the end when none is good.
theorem awaitGood_of_none {bound : Nat}
    (hbad : ∀ number ≤ bound, gauge.accepts (gauge.reading number metered.board) = false) :
    (rail.awaitGood bound metered).1 = false ∧ (rail.awaitGood bound metered).2.events =
      metered.events ++ gauge.polls π (bound + 1) metered.board := by
  have hfirst := hbad 0 (Nat.zero_le bound)
  induction bound generalizing metered with
  | zero =>
      rw [awaitGood, looksGood_metered hfeedback metered]
      exact ⟨hfirst, rfl⟩
  | succ bound ih =>
      have hrest (number : Nat) (hwithin : number ≤ bound) :=
        hbad (number + 1) (Nat.succ_le_succ hwithin)
      rw [awaitGood_succ_of_bad hfeedback metered hfirst, Gauge.polls_succ_succ,
        ← List.append_assoc]
      refine ih _ ?_ ?_
      · exact hrest
      · exact hrest 0 (Nat.zero_le bound)

variable [Logger σ]

theorem awaitUp_of_first {number : Nat} (hwithin : number ≤ timeout.toNat)
    (hgood : gauge.accepts (gauge.reading number metered.board) = true)
    (hearlier : ∀ earlier < number,
      gauge.accepts (gauge.reading earlier metered.board) = false) :
    (rail.awaitUp timeout metered).1 = .ok () ∧ (rail.awaitUp timeout metered).2.events =
      metered.events ++ gauge.polls π (number + 1) metered.board := by
  obtain ⟨hanswer, haccesses⟩ := awaitGood_of_first hfeedback metered hwithin hgood hearlier
  rw [awaitUp, Action.bind_apply, hanswer]
  exact ⟨rfl, haccesses⟩

theorem awaitUp_of_none (hbad : ∀ number ≤ timeout.toNat,
      gauge.accepts (gauge.reading number metered.board) = false) :
    (rail.awaitUp timeout metered).1 = .error .NotGood ∧ ∃ record,
      (rail.awaitUp timeout metered).2.events = metered.events ++
        (gauge.polls π (timeout.toNat + 1) metered.board ++ record) ∧ (record = [] ∨
          ∃ sensor window millivolts, gauge = .Meter sensor window ∧
            record = [.Read (.Voltage sensor millivolts)]) := by
  obtain ⟨hanswer, haccesses⟩ := awaitGood_of_none hfeedback metered hbad
  obtain ⟨record, hadded, hrecord⟩ :=
    reportDown_metered hfeedback (rail.awaitGood timeout.toNat metered).2
  rw [awaitUp, Action.bind_apply, hanswer]
  refine ⟨rfl, record, ?_, hrecord⟩
  rw [haccesses, List.append_assoc] at hadded
  exact hadded

theorem awaitUp_polled : ∃ polled,
    (rail.awaitUp timeout metered).2.events = metered.events ++ polled ∧
      PolledAsNeeded gauge timeout.toNat metered.board (rail.awaitUp timeout metered).1 polled := by
  by_cases hfound : ∃ number ≤ timeout.toNat,
      gauge.accepts (gauge.reading number metered.board) = true
  · obtain ⟨hwithin, hgood⟩ := Nat.find_spec hfound
    have hearlier (earlier : Nat) (hless : earlier < Nat.find hfound) :
        gauge.accepts (gauge.reading earlier metered.board) = false :=
      Bool.eq_false_iff.mpr fun haccepted =>
        Nat.find_min hfound hless ⟨Nat.le_trans (Nat.le_of_lt hless) hwithin, haccepted⟩
    obtain ⟨hanswer, haccesses⟩ := awaitUp_of_first hfeedback metered hwithin hgood hearlier
    refine ⟨_, haccesses, ⟨fun _ => hfound, fun _ => hanswer⟩, ?_, ?_⟩
    · intro number hwithin' hgood' hearlier'
      obtain ⟨-, haccesses'⟩ := awaitUp_of_first hfeedback metered hwithin' hgood' hearlier'
      rw [haccesses, List.append_cancel_left_eq] at haccesses'
      rw [haccesses']
      exact ⟨hanswer, Gauge.polled_polls⟩
    · intro hnone
      exact absurd hgood (by rw [hnone _ hwithin]; exact Bool.false_ne_true)
  · have hnone (number : Nat) (hwithin : number ≤ timeout.toNat) :
        gauge.accepts (gauge.reading number metered.board) = false :=
      Bool.eq_false_iff.mpr fun haccepted => hfound ⟨number, hwithin, haccepted⟩
    obtain ⟨hanswer, record, haccesses, hrecord⟩ := awaitUp_of_none hfeedback metered hnone
    refine ⟨_, haccesses, ?_, ?_, ?_⟩
    · rw [hanswer]
      exact iff_of_false (by simp) hfound
    · intro number hwithin hgood _
      exact absurd ⟨number, hwithin, hgood⟩ hfound
    · intro _
      exact ⟨hanswer, _, record, rfl, Gauge.polled_polls, hrecord⟩

end

section

variable {σ π ι ς : Type} [TickCounter σ] [Logger σ] [OutputPin σ π] [InputPin σ ι]
  [VoltageSensor σ ς]

omit [TickCounter σ] [InputPin σ ι] [VoltageSensor σ ς] in
theorem enableFirst_metered (rail : SwitchedRail π ι ς) (metered : Metered σ π ι ς) :
    rail.enableFirst metered = ((rail.enableFirst metered.board).1,
      ⟨(rail.enableFirst metered.board).2, metered.events ++
        [.Drove rail.enable (rail.polarity.level true) (rail.enableFirst metered.board).1]⟩) := by
  rw [enableFirst, Action.bind_apply, log_recorded]
  rfl

variable {rail : SwitchedRail π ι ς} {board : σ}

omit [TickCounter σ] [InputPin σ ι] [VoltageSensor σ ς] in
theorem driven_eq : (rail.drive true (log .Info s!"Turning on {rail.name}" board).2).1 =
    (rail.enableFirst board).1 := rfl

theorem switchOn_failed (hfailed : (rail.enableFirst board).1 = false) : rail.switchOn board =
    (.error .Pin,
      (log .Error s!"Rail {rail.name} enable pin error" (rail.enableFirst board).2).2) := by
  rw [switchOn, Action.bind_apply, Action.bind_apply, driven_eq, hfailed]
  rfl

theorem switchOn_settled (henabled : (rail.enableFirst board).1 = true) {delay : UInt16}
    (hfeedback : rail.feedback = .Settle delay) : rail.switchOn board =
      (.ok (), (TickCounter.sleep delay.toUInt32 (rail.enableFirst board).2).2) := by
  rw [switchOn, Action.bind_apply, Action.bind_apply, driven_eq, if_pos henabled, hfeedback]
  rfl

theorem switchOn_awaited (henabled : (rail.enableFirst board).1 = true) {gauge : Gauge ι ς}
    {timeout : UInt16} (hfeedback : rail.feedback = gauge.feedback timeout) :
    rail.switchOn board = rail.awaitUp timeout (rail.enableFirst board).2 := by
  rw [switchOn, Action.bind_apply, Action.bind_apply, driven_eq, if_pos henabled, hfeedback]
  cases gauge <;> rfl

-- A rail comes up exactly when one of its readings is good in time, and it takes
-- no more readings and sleeps than that needs. The readings are those of any board,
-- from the moment at which the enable pin is driven on.
theorem bring_up_polls_as_needed (rail : SwitchedRail π ι ς) (board : σ) :
    ((rail.enableFirst board).1 = false →
      (rail.switchOn board).1 = .error .Pin ∧
      rail.accessesOn board = [.Drove rail.enable (rail.polarity.level true) false]) ∧
    ((rail.enableFirst board).1 = true → ∃ polled,
      rail.accessesOn board = .Drove rail.enable (rail.polarity.level true) true :: polled ∧
      (∀ delay, rail.feedback = .Settle delay →
        (rail.switchOn board).1 = .ok () ∧ polled = [.Slept delay.toUInt32]) ∧
      ∀ (gauge : Gauge ι ς) (timeout : UInt16), rail.feedback = gauge.feedback timeout →
        PolledAsNeeded gauge timeout.toNat (rail.enableFirst board).2 (rail.switchOn board).1
          polled) := by
  have hbare : (rail.switchOn board).1 = (rail.switchOn (⟨board, []⟩ : Metered σ π ι ς)).1 :=
    congrArg Prod.fst (switchOn_mirrors (⟨board, []⟩ : Metered σ π ι ς))
  have hfirst := enableFirst_metered rail (⟨board, []⟩ : Metered σ π ι ς)
  rw [hbare, accessesOn]
  refine ⟨?_, ?_⟩
  · intro hfailed
    rw [hfailed] at hfirst
    rw [switchOn_failed (congrArg Prod.fst hfirst), hfirst, log_recorded]
    exact ⟨rfl, rfl⟩
  · intro henabled
    rw [henabled] at hfirst
    have hdriven := congrArg Prod.fst hfirst
    rcases Gauge.settle_or_feedback rail.feedback with ⟨delay, hdelay⟩ | ⟨gauge, timeout, hgauge⟩
    · rw [switchOn_settled hdriven hdelay, hfirst]
      refine ⟨_, rfl, ?_, ?_⟩
      · intro delay' hdelay'
        rw [hdelay] at hdelay'
        cases hdelay'
        exact ⟨rfl, rfl⟩
      · intro gauge timeout hgauge
        exact absurd (hdelay.symm.trans hgauge) (Gauge.settle_ne_feedback gauge)
    · rw [switchOn_awaited hdriven hgauge, hfirst]
      obtain ⟨polled, haccesses, hpolled⟩ := awaitUp_polled hgauge (⟨(rail.enableFirst board).2,
        [.Drove rail.enable (rail.polarity.level true) true]⟩ : Metered σ π ι ς)
      refine ⟨polled, haccesses, ?_, ?_⟩
      · intro delay hdelay
        exact absurd (hdelay.symm.trans hgauge) (Gauge.settle_ne_feedback gauge)
      · intro gauge' timeout' hgauge'
        obtain ⟨rfl, rfl⟩ := Gauge.feedback_inj (hgauge.symm.trans hgauge')
        exact hpolled

end

-- A power-good pin that is active low. It cannot be read at first, and it goes to
-- its active level in the last tick of the timeout.
def lateRail : SwitchedRail String String String :=
  (withGoodPin "VCC" "enable" "good" 2).withActiveLowGood

def lateBoard : Bench.Board :=
  Bench.Board.setPin "good" { script := [.Failure, .Level true, .Level false] } {}

theorem bring_up_polls_as_needed_last_tick :
    (lateRail.switchOn lateBoard).1 = .ok () ∧
    lateRail.accessesOn lateBoard = [.Drove "enable" true true,
      .Read (.Level "good" none), .Slept 1, .Read (.Level "good" (some true)), .Slept 1,
      .Read (.Level "good" (some false))] := by
  obtain ⟨polled, haccesses, -, hgauge⟩ :=
    (bring_up_polls_as_needed lateRail lateBoard).2 (by decide)
  have hpolled := hgauge (.GoodPin "good" .ActiveLow) 2 rfl
  obtain ⟨hanswer, hfirst⟩ := hpolled.of_first 2 (by decide) (by decide) (by decide)
  refine ⟨hanswer, ?_⟩
  rw [haccesses, hfirst.eq_polls]
  decide

end BoardControl.SwitchedRail
