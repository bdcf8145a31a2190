import BoardControl.Bitstream.Updater
import BoardControl.Proofs.Run

namespace BoardControl.Bitstream

theorem length_pos_of_goes_on {data : List UInt8} {phase : Phase}
    (h : ¬ (data.isEmpty || phase.isTerminal) = true) : 0 < data.length := by
  rw [Bool.or_eq_true, not_or, List.isEmpty_iff] at h
  exact List.length_pos_iff.mpr h.1

-- The error that a failed session ended with.
def Updater.failure? (updater : Updater) : Option UpdateError :=
  if updater.phase = .Failed then updater.lastError else none

theorem Updater.failure?_of_ne {updater : Updater} (h : updater.phase ≠ .Failed) :
    updater.failure? = none :=
  if_neg h

-- Something that is kept of an updater and its board while the updater works. It may
-- depend on the error that has stopped the updater, if one has.
structure UpdaterLaw {σ : Type} [TickCounter σ] [Logger σ] [Flash σ]
    (holds : Option UpdateError → Updater → σ → Prop) : Prop where
  stopped {updater : Updater} {board : σ} (failure : Option UpdateError) :
    holds none updater board → holds failure updater board
  failed {updater : Updater} {board : σ} {failure : UpdateError} :
    holds (some failure) updater board →
      holds (some failure) { updater with phase := .Failed, lastError := some failure } board
  logged {updater : Updater} {board : σ} {failure : Option UpdateError} (severity : Severity)
    (text : String) : holds failure updater board →
      holds failure updater (log severity text board).2
  taken {updater : Updater} {board : σ} {data : List UInt8}
    {received : Ring Settings.streamBuffer} : holds none updater board →
      updater.received.push data = .ok (true, received) →
        holds none { updater with received } board
  step {updater : Updater} {board : σ} : holds none updater board →
    Run.Leaves updater.step board (fun result after => holds none updater after ∧
      ∀ answer, result = .ok answer → holds none answer.2 after) fun _ => True
  flushPages {updater : Updater} {board : σ} : holds none updater board →
    Run.Leaves updater.writer.flushPages board
      (fun result after => holds result.2 { updater with writer := result.1 } after) fun _ => True
  flushAll {updater : Updater} {board : σ} : holds none updater board →
    Run.Leaves updater.writer.flushAll board
      (fun result after => holds result.2 { updater with writer := result.1 } after) fun _ => True

namespace UpdaterLaw

variable {σ : Type} [TickCounter σ] [Logger σ] [Flash σ]
  {holds : Option UpdateError → Updater → σ → Prop} {updater : Updater} {board : σ}

theorem fail (law : UpdaterLaw holds) {failure : UpdateError}
    (h : holds (some failure) updater board) :
    holds (updater.fail failure board).1.failure? (updater.fail failure board).1
      (updater.fail failure board).2 :=
  law.failed (law.logged .Error _ h)

theorem overflow (law : UpdaterLaw holds) (h : holds none updater board) :
    holds (updater.overflow board).1.failure? (updater.overflow board).1
      (updater.overflow board).2 :=
  law.fail (law.stopped _ (law.logged .Error _ h))

theorem sometimes_logged (law : UpdaterLaw holds) {α : Type} {failure : Option UpdateError}
    {condition : Prop} [Decidable condition] {severity : Severity} {text : String} {rest : Run σ α}
    {post : α → σ → Prop} {broken : σ → Prop} (h : holds failure updater board)
    (hrest : ∀ next, holds failure updater next → Run.Leaves rest next post broken) :
    Run.Leaves (if condition then do perform (log severity text); rest else rest) board post
      broken := by
  split
  · simp only [Run.leaves_bind, Run.leaves_perform]
    exact hrest _ (law.logged severity text h)
  · exact hrest board h

theorem drain (law : UpdaterLaw holds) (h : holds none updater board) :
    Run.Leaves updater.drain board (fun result after => holds result.2 result.1 after)
      fun _ => True := by
  induction hlength : updater.received.length using Nat.strongRecOn
    generalizing updater board with
  | _ length ih =>
      rw [Updater.drain, Run.leaves_bind]
      refine Run.Leaves.mono (law.step h) ?_ fun _ => id
      intro result middle hstepped
      obtain ⟨hstays, hnext⟩ := hstepped
      cases result with
      | error failure => exact law.stopped (some failure) hstays
      | ok answer =>
          simp only [Run.leaves_bind]
          refine Run.Leaves.mono (law.flushPages (hnext answer rfl)) ?_ fun _ => id
          intro flushed after hflushed
          obtain ⟨writer, failure⟩ := flushed
          cases failure with
          | some _ => exact hflushed
          | none =>
              simp only [Option.isSome_none, Bool.false_or]
              split
              · exact hflushed
              · split
                · rename_i hless
                  rw [hlength] at hless
                  exact ih _ hless hflushed rfl
                · trivial

theorem receive (law : UpdaterLaw holds) (data : List UInt8)
    (h : holds updater.failure? updater board) :
    Run.Leaves (updater.receive data) board (fun next after => holds next.failure? next after)
      fun _ => True := by
  induction hlength : data.length using Nat.strongRecOn generalizing data updater board with
  | _ length ih =>
      rw [Updater.receive]
      split
      · exact h
      · rename_i hend
        have hdata := length_pos_of_goes_on hend
        have hlive : updater.phase ≠ .Failed := by
          intro hfailed
          rw [hfailed, Phase.isTerminal, Bool.or_true] at hend
          exact hend rfl
        rw [updater.failure?_of_ne hlive] at h
        simp only
        split
        · exact law.overflow h
        · have hrest : (data.drop updater.received.free).length < length := by
            rw [List.length_drop]
            omega
          simp only [Run.leaves_bind, Run.leaves_lift]
          refine ⟨?_, fun _ _ => trivial⟩
          intro result hpush
          obtain ⟨_ | _, received⟩ := result
          · exact law.overflow h
          · simp only [Run.leaves_bind]
            refine Run.Leaves.mono (law.drain (law.taken h hpush)) ?_ fun _ => id
            intro result middle hdrained
            obtain ⟨next, failure⟩ := result
            cases failure with
            | none => exact ih _ hrest _ (law.stopped _ hdrained) rfl
            | some failure =>
                simp only [Run.leaves_bind, Run.leaves_perform]
                exact ih _ hrest _ (law.fail hdrained) rfl

theorem closed (law : UpdaterLaw holds) (h : holds updater.failure? updater board) :
    Run.Leaves updater.closed board (fun next after => holds next.failure? next after)
      fun _ => True := by
  simp only [Updater.closed]
  split
  · exact law.logged .Warn _ h
  · rename_i hlive
    rw [updater.failure?_of_ne hlive] at h
    refine law.sometimes_logged h ?_
    intro now hnow
    simp only [Run.leaves_bind]
    refine Run.Leaves.mono (law.flushAll hnow) ?_ fun _ => id
    intro flushed after hflushed
    obtain ⟨writer, failure⟩ := flushed
    cases failure with
    | none =>
        simp only [Run.leaves_bind, Run.leaves_lift, Run.leaves_perform, Run.leaves_pure]
        exact ⟨fun _ _ => law.logged .Info _ (law.stopped _ hflushed), fun _ _ => trivial⟩
    | some failure => exact law.fail hflushed

end UpdaterLaw

end BoardControl.Bitstream
