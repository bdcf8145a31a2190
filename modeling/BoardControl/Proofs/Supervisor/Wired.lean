import BoardControl.Proofs.Journal
import BoardControl.Rail.Switched
import BoardControl.Reset.Line

namespace BoardControl

open Bitstream (Logged)

section

variable {σ π ι ς δ : Type}

theorem logFrom_of_enabled [Logger σ] (severity : Severity) (text : Action σ String) (board : σ)
    (h : Logger.enabled severity board = true) : logFrom severity text board =
      ((), Logger.record severity (text board).1 (text board).2) := by
  simp only [logFrom, h, ↓reduceIte]
  rfl

theorem blind_drive [OutputPin σ π] (polarity : Polarity) (pin : π) (asserted : Bool) :
    Blind (polarity.drive pin asserted : Action (Logged σ Journal) Bool) := .lift _

theorem blind_sense [InputPin σ ι] (polarity : Polarity) (pin : ι) :
    Blind (polarity.sense pin : Action (Logged σ Journal) Bool) := by
  refine .bind (.lift (InputPin.read pin)) fun reading => ?_
  cases reading with
  | some level => exact .pure _
  | none => exact .pure false

namespace SwitchedRail

variable (rail : SwitchedRail π ι ς)

theorem blind_install [OutputPin σ π] :
    Blind (rail.install : Action (Logged σ Journal) Unit) :=
  .bind (blind_drive _ _ _) fun _ => .pure ()

theorem blind_millivolts? [VoltageSensor σ ς] :
    Blind (rail.millivolts? : Action (Logged σ Journal) (Option UInt32)) := by
  unfold millivolts?
  cases rail.feedback with
  | Settle delay => exact .pure none
  | PowerGood pin polarity timeout => exact .pure none
  | Sensed sensor window timeout =>
      exact .bind (.lift (VoltageSensor.read sensor)) fun reading => .pure (some reading)

theorem blind_looksGood [InputPin σ ι] [VoltageSensor σ ς] :
    Blind (rail.looksGood : Action (Logged σ Journal) Bool) := by
  unfold looksGood
  cases rail.feedback with
  | Settle delay => exact .pure true
  | PowerGood pin polarity timeout => exact blind_sense polarity pin
  | Sensed sensor window timeout =>
      exact .bind (.lift (VoltageSensor.read sensor)) fun reading => .pure (window.contains reading)

theorem blind_awaitGood [TickCounter σ] [InputPin σ ι] [VoltageSensor σ ς] (timeout : Nat) :
    Blind (rail.awaitGood timeout : Action (Logged σ Journal) Bool) := by
  induction timeout with
  | zero => exact rail.blind_looksGood
  | succ timeout ih =>
      refine .bind rail.blind_looksGood fun good => ?_
      cases good with
      | true => exact .pure true
      | false => exact .bind (.lift (TickCounter.sleep 1)) fun _ => ih

-- The text of the record is made from one more reading, which only a board that
-- keeps the record takes.

section

variable {rail} [VoltageSensor σ ς] {sensor : ς} {window : VoltageWindow} {timeout : UInt16}
  (hfeedback : rail.feedback = .Sensed sensor window timeout) (logged : Logged σ Journal)
include hfeedback

theorem reportDown_of_off (hlevel : logged.journal.level = none) :
    rail.reportDown logged = ((), logged) := by
  have hdisabled : Logger.enabled .Error logged = false := by
    change Logger.enabled .Error logged.journal = false
    rw [Journal.enabled_error, hlevel]
    rfl
  simp only [reportDown, hfeedback]
  exact logFrom_of_disabled _ _ _ hdisabled

theorem reportDown_of_on {limit : Severity} (hlevel : logged.journal.level = some limit) :
    (rail.reportDown logged).2.board = (VoltageSensor.read sensor logged.board).2 ∧
      (rail.reportDown logged).2.journal.Blames := by
  have henabled : Logger.enabled .Error logged = true := by
    change Logger.enabled .Error logged.journal = true
    rw [Journal.enabled_error, hlevel]
    rfl
  simp only [reportDown, hfeedback]
  rw [logFrom_of_enabled _ _ _ henabled]
  exact ⟨rfl, rail.name, window, _, List.mem_append_right _ (List.mem_singleton.mpr rfl)⟩

end

theorem blind_reportDown [VoltageSensor σ ς] :
    Blind (rail.reportDown : Action (Logged σ Journal) Unit) := by
  cases hfeedback : rail.feedback with
  | Settle delay =>
      simp only [reportDown, hfeedback]
      exact .log _ _
  | PowerGood pin polarity timeout =>
      simp only [reportDown, hfeedback]
      exact .log _ _
  | Sensed sensor window timeout =>
      refine ⟨?_, ?_⟩
      · intro logged
        simp only [reportDown, hfeedback, logFrom]
        split
        · exact Journal.grew_record _ _ logged.journal
        · exact .refl _
      · intro left right hboard
        cases hleft : left.journal.level with
        | none =>
            rw [reportDown_of_off hfeedback left hleft]
            cases hright : right.journal.level with
            | none =>
                rw [reportDown_of_off hfeedback right hright]
                exact .inl ⟨rfl, hboard⟩
            | some limit => exact .inr (.inl ⟨hleft, (reportDown_of_on hfeedback right hright).2⟩)
        | some limit =>
            cases hright : right.journal.level with
            | none =>
                rw [reportDown_of_off hfeedback right hright]
                exact .inr (.inr ⟨hright, (reportDown_of_on hfeedback left hleft).2⟩)
            | some limit' =>
                refine .inl ⟨rfl, ?_⟩
                rw [(reportDown_of_on hfeedback left hleft).1,
                  (reportDown_of_on hfeedback right hright).1, hboard]

section

variable [TickCounter σ] [InputPin σ ι] [VoltageSensor σ ς]

theorem blind_awaitUp (timeout : UInt16) :
    Blind (rail.awaitUp timeout : Action (Logged σ Journal) (Except RailError Unit)) := by
  refine .bind (rail.blind_awaitGood timeout.toNat) fun good => ?_
  cases good with
  | true => exact .pure _
  | false => exact .bind rail.blind_reportDown fun _ => .pure _

variable [OutputPin σ π]

theorem blind_switchOn :
    Blind (rail.switchOn : Action (Logged σ Journal) (Except RailError Unit)) := by
  refine .bind (.log _ _) fun _ => .bind (blind_drive _ _ _) fun driven => ?_
  cases driven with
  | true =>
      simp only [↓reduceIte]
      cases rail.feedback with
      | Settle delay => exact .bind (.lift (TickCounter.sleep _)) fun _ => .pure _
      | PowerGood pin polarity timeout => exact rail.blind_awaitUp timeout
      | Sensed sensor window timeout => exact rail.blind_awaitUp timeout
  | false => exact .bind (.log _ _) fun _ => .pure _

omit [TickCounter σ] [InputPin σ ι] [VoltageSensor σ ς] in
theorem blind_switchOff : Blind (rail.switchOff : Action (Logged σ Journal) Unit) := by
  refine .bind (blind_drive _ _ _) fun driven => ?_
  cases driven with
  | true => exact .pure ()
  | false => exact .log _ _

end

end SwitchedRail

namespace ResetLine

variable (line : ResetLine π δ) [OutputPin σ π]

theorem blind_install : Blind (line.install : Action (Logged σ Journal) Unit) :=
  .bind (blind_drive _ _ _) fun _ => .pure ()

theorem blind_hold : Blind (line.hold : Action (Logged σ Journal) (ResetLine π δ)) := by
  refine .bind (.log _ _) fun _ => .bind (blind_drive _ _ _) fun driven => ?_
  exact .optional driven (.log _ _) (.pure line.held)

theorem blind_release [TickCounter σ] :
    Blind (line.release : Action (Logged σ Journal) (ResetLine π δ)) := by
  refine .bind (.log _ _) fun _ => .bind (blind_drive _ _ _) fun driven => ?_
  refine .optional driven (.log _ _) ?_
  cases line.readiness with
  | Immediate => exact .pure _
  | Delay ticks start done => exact .bind (.lift TickCounter.count) fun _ => .pure _
  | DonePin pin polarity => exact .pure _

omit [OutputPin σ π] in
theorem blind_isReady [TickCounter σ] [InputPin σ δ] :
    Blind (line.isReady : Action (Logged σ Journal) (Bool × ResetLine π δ)) := by
  unfold isReady
  cases line.readiness with
  | Immediate => exact .pure _
  | Delay ticks start done =>
      cases start with
      | none => exact .pure _
      | some start => exact .bind (.lift TickCounter.count) fun _ => .pure _
  | DonePin pin polarity => exact .bind (blind_sense polarity pin) fun _ => .pure _

end ResetLine

end

end BoardControl
