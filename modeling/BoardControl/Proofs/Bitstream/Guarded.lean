import BoardControl.Proofs.Bitstream.Gates

namespace BoardControl.Bitstream

open Session

namespace Gate

section

variable {φ μ : Type} [Flash φ] [Logger μ] {gate : Gate φ} {delivered : List UInt8}
  {updater : Updater} {logged : Logged (Watched φ) μ}

-- What the parser or a writer leads to once it stops.
def Drains (gate : Gate φ) (delivered : List UInt8) (result : Updater × Option UpdateError)
    (after : Watched φ) : Prop :=
  match result with
  | (next, none) => gate.Live delivered next after
  | (next, some _) => gate.Aims next ∧ gate.Behind delivered after

omit [Logger μ] in
-- Writing what waits keeps a session where it is or fails. In the header nothing
-- waits.
theorem Live.flushed {flush : Run (Logged (Watched φ) μ) (PageWriter × Option UpdateError)}
    (h : gate.Live delivered updater logged.board)
    (hempty : updater.writer.pending.length = 0 → Run.Leaves flush logged
      (fun result after => result.1 = updater.writer ∧ after.board = logged.board) fun _ => False)
    (hpages : Run.Leaves flush logged
      (fun result after => updater.writer.Wrote logged.board result after.board)
      (fun after => Made Writing logged.board after.board)) :
    Run.Leaves flush logged
      (fun result after =>
        gate.Drains delivered ({ updater with writer := result.1 }, result.2) after.board)
      (fun after => gate.Behind delivered after.board) := by
  have hstays : ∀ (result : PageWriter × Option UpdateError) (after : Logged (Watched φ) μ),
      result.1 = updater.writer ∧ after.board = logged.board →
      gate.Drains delivered ({ updater with writer := result.1 }, result.2) after.board := by
    intro result after hsame
    rw [hsame.1, hsame.2]
    cases result.2 with
    | none => exact h
    | some _ => exact ⟨h.toAims, h.stage.behind⟩
  cases h.stage with
  | magic _ hheader => exact (hempty hheader.empty).mono hstays fun _ => False.elim
  | records _ _ _ hheader => exact (hempty hheader.empty).mono hstays fun _ => False.elim
  | body hphase hadmits hmade =>
      refine hpages.mono ?_ ?_
      · intro result after hwrote
        obtain ⟨hpartition, hcalls⟩ := hwrote
        have haims : gate.Aims { updater with writer := result.1 } :=
          ⟨hpartition.trans h.partition, h.device⟩
        cases hfailure : result.2 with
        | none =>
            rw [hfailure] at hcalls
            exact ⟨haims, .body hphase hadmits (programmed hmade hcalls)⟩
        | some _ =>
            rw [hfailure] at hcalls
            exact ⟨haims, .inr ⟨hadmits, (programming hmade hcalls).mono fun _ => .inr⟩⟩
      · intro after hcalls
        exact .inr ⟨hadmits, (programming hmade hcalls).mono fun _ => .inr⟩

theorem drain_leaves [TickCounter φ] (h : gate.Live delivered updater logged.board) :
    Run.Leaves updater.drain logged
      (fun result after => gate.Drains delivered result after.board)
      (fun after => gate.Behind delivered after.board) := by
  induction hlength : updater.received.length using Nat.strongRecOn generalizing updater logged with
  | _ length ih =>
      rw [Updater.drain, Run.leaves_bind]
      refine Run.Leaves.mono (step_leaves h) ?_ fun _ => id
      intro result middle hsteps
      cases result with
      | error failure => exact ⟨h.toAims, hsteps⟩
      | ok answer =>
          obtain ⟨progress, next⟩ := answer
          have hnext : gate.Live delivered next middle.board := hsteps
          simp only [Run.leaves_bind]
          refine Run.Leaves.mono (hnext.flushed
            (fun hempty => PageWriter.flushPages_leaves_of_empty hempty middle)
            (next.writer.flushPages_leaves middle)) ?_ fun _ => id
          intro flushed after hflushed
          obtain ⟨writer, failure⟩ := flushed
          cases failure with
          | some _ => exact hflushed
          | none =>
              have hlive : gate.Live delivered { next with writer := writer } after.board := hflushed
              by_cases hstop : (!progress || next.phase.isTerminal) = true
              · simp only [Option.isSome_none, Bool.false_or, hstop, if_true, Run.leaves_pure]
                exact hlive
              · simp only [Option.isSome_none, Bool.false_or, hstop, Bool.false_eq_true, if_false]
                split
                · rename_i hless
                  exact ih next.received.length (by omega) hlive rfl
                · exact hlive.stage.behind

-- A session fails wherever it is.
theorem guards_of_fail (haims : gate.Aims updater) (hbehind : gate.Behind delivered logged.board)
    (failure : UpdateError) :
    gate.Guards delivered (updater.fail failure logged).1 (updater.fail failure logged).2.board := by
  rw [board_fail]
  exact .failed ⟨haims.partition, haims.device⟩ rfl hbehind

theorem guards_of_overflow (haims : gate.Aims updater)
    (hbehind : gate.Behind delivered logged.board) :
    gate.Guards delivered (updater.overflow logged).1 (updater.overflow logged).2.board := by
  simp only [Updater.overflow, Action.bind_apply]
  refine guards_of_fail haims ?_ _
  rwa [Logged.board_log]

omit [Logger μ] in
theorem Guards.aims {board : Watched φ} (h : gate.Guards delivered updater board) :
    gate.Aims updater := by
  cases h with
  | live h => exact h.toAims
  | failed haims => exact haims

theorem Guards.behind {board : Watched φ} (h : gate.Guards delivered updater board) :
    gate.Behind delivered board := by
  cases h with
  | live h => exact h.stage.behind
  | failed _ _ hbehind => exact hbehind

theorem Guards.live_of_ne {board : Watched φ} (h : gate.Guards delivered updater board)
    (hphase : updater.phase ≠ .Failed) : gate.Live delivered updater board := by
  cases h with
  | live h => exact h
  | failed _ hfailed => exact absurd hfailed hphase

-- Bytes that come after the end are ignored.
theorem Guards.ignored {board : Watched φ} (h : gate.Guards delivered updater board)
    (hphase : updater.phase.isTerminal) (more : List UInt8) :
    gate.Guards (delivered ++ more) updater board := by
  cases h with
  | failed haims hfailed hbehind => exact .failed haims hfailed (hbehind.append more)
  | live h =>
      refine .live ⟨h.toAims, ?_⟩
      cases h.stage with
      | magic hmagic =>
          rw [hmagic] at hphase
          cases hphase
      | records hrecords =>
          rw [hrecords] at hphase
          cases hphase
      | body hbody hadmits hmade => exact .body hbody (hadmits.append more) hmade

-- Bytes that fit the receive buffer are taken.
theorem Live.pushed {board : Watched φ} (h : gate.Live delivered updater board)
    {received : Ring Settings.streamBuffer} {data : List UInt8}
    (hreceived : received.toList = updater.received.toList ++ data) :
    gate.Live (delivered ++ data) { updater with received := received } board := by
  have hheader : ∀ {accepted : List UInt8}, gate.Header delivered accepted updater board →
      gate.Header (delivered ++ data) accepted { updater with received := received } board := by
    intro accepted hheader
    refine ⟨hheader.board_eq, hheader.empty, ?_⟩
    rw [hheader.delivered_eq, hreceived, List.append_assoc]
  refine ⟨⟨h.partition, h.device⟩, ?_⟩
  cases h.stage with
  | magic hphase hbefore => exact .magic hphase (hheader hbefore)
  | records hphase records hsuits hbefore => exact .records hphase records hsuits (hheader hbefore)
  | body hphase hadmits hmade => exact .body hphase (hadmits.append data) hmade

theorem receive_leaves [TickCounter φ] (h : gate.Guards delivered updater logged.board)
    (data : List UInt8) :
    Run.Leaves (updater.receive data) logged
      (fun next after => gate.Guards (delivered ++ data) next after.board)
      (fun after => gate.Behind (delivered ++ data) after.board) := by
  induction hlength : data.length using Nat.strongRecOn
    generalizing data delivered updater logged with
  | _ length ih =>
      rw [Updater.receive]
      by_cases hend : (data.isEmpty || updater.phase.isTerminal) = true
      · rw [dif_pos hend, Run.leaves_pure]
        by_cases hterminal : updater.phase.isTerminal = true
        · exact h.ignored hterminal data
        · rw [Bool.or_eq_true, or_iff_left hterminal, List.isEmpty_iff] at hend
          rwa [hend, List.append_nil]
      · obtain ⟨hdata, hgoes⟩ := not_or.mp (mt Bool.or_eq_true_iff.mpr hend)
        rw [List.isEmpty_iff, ← List.length_eq_zero_iff] at hdata
        have hlive := h.live_of_ne (by
          intro hfailed
          rw [hfailed] at hgoes
          exact hgoes rfl)
        have hoverflow := guards_of_overflow h.aims (h.behind.append data)
        generalize hfree : updater.received.free = room
        rw [dif_neg hend]
        by_cases hroom : room = 0
        · simp only [dif_pos hroom, Run.leaves_perform]
          exact hoverflow
        · have htake : (data.take room).length ≤ updater.received.free := by
            rw [List.length_take]
            omega
          have hpush := (Ring.push_eq_ok_true_iff updater.received _ _).mpr ⟨htake, by decide, rfl⟩
          have htaken := hlive.pushed (Ring.toList_pushBytes updater.received _ htake)
          -- What the rest of the data does is what it does after a part of it.
          have hcontinue : ∀ {next : Updater} (now : Logged (Watched φ) μ),
              gate.Guards (delivered ++ data.take room) next now.board →
              Run.Leaves (next.receive (data.drop room)) now
                (fun next after => gate.Guards (delivered ++ data) next after.board)
                (fun after => gate.Behind (delivered ++ data) after.board) := by
            intro next now hnow
            have hrest := ih _ (by rw [List.length_drop]; omega) hnow (data.drop room) rfl
            rwa [List.append_assoc, List.take_append_drop] at hrest
          simp only [dif_neg hroom, hpush, Run.leaves_bind, Run.leaves_ok]
          refine Run.Leaves.mono (drain_leaves htaken) ?_ ?_
          · intro result after hdrains
            obtain ⟨next, failure⟩ := result
            cases failure with
            | none => exact hcontinue after (.live hdrains)
            | some failure =>
                obtain ⟨haims, hbehind⟩ := hdrains
                simp only [Run.leaves_bind, Run.leaves_perform]
                exact hcontinue _ (guards_of_fail haims hbehind failure)
          · intro after hbehind
            have hall := hbehind.append (data.drop room)
            rwa [List.append_assoc, List.take_append_drop] at hall

theorem closed_leaves (h : gate.Guards delivered updater logged.board) :
    Run.Leaves updater.closed logged
      (fun next after => gate.Guards delivered next after.board)
      (fun after => gate.Behind delivered after.board) := by
  simp only [Updater.closed]
  by_cases hfailed : updater.phase = .Failed
  · simp only [if_pos hfailed, Run.leaves_bind, Run.leaves_perform, Run.leaves_pure,
      Logged.board_log]
    exact h
  · rw [if_neg hfailed]
    apply Logged.leaves_of_log
    intro now hnow
    have hlive := h.live_of_ne hfailed
    rw [← hnow] at hlive
    simp only [Run.leaves_bind]
    refine Run.Leaves.mono (hlive.flushed
      (fun hempty => PageWriter.flushAll_leaves_of_empty hempty now)
      (updater.writer.flushAll_leaves now)) ?_ fun _ => id
    intro flushed after hflushed
    obtain ⟨writer, failure⟩ := flushed
    cases failure with
    | none =>
        have hflushed : gate.Live delivered { updater with writer := writer } after.board := hflushed
        simp only [Run.leaves_bind, Run.leaves_lift, Run.leaves_perform, Run.leaves_pure,
          Logged.board_log]
        exact ⟨fun _ _ => .live hflushed, fun _ _ => hflushed.stage.behind⟩
    | some failure =>
        obtain ⟨haims, hbehind⟩ := hflushed
        simp only [Run.leaves_perform]
        exact guards_of_fail haims hbehind failure

end

end Gate

end BoardControl.Bitstream
