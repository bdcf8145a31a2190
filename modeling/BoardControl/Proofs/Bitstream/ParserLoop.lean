import BoardControl.Proofs.Bitstream.Lifetime

namespace BoardControl.Bitstream

namespace Updater

section

variable {σ : Type} [TickCounter σ] [Logger σ] [Flash σ]

-- The loop of the parser comes from one updater to another, before a step of it.
inductive Loops (updater : Updater) (board : σ) : Updater → σ → Prop
  | first : Loops updater board updater board
  | next {now next : Updater} {writer : PageWriter} {middle stepped after : σ}
      (earlier : Loops updater board now middle)
      (hstep : now.step middle = .ok (.ok (true, next)) stepped)
      (hflush : next.writer.flushPages stepped = .ok (writer, none) after)
      (hlive : next.phase.isTerminal = false)
      (hless : next.received.length < now.received.length) :
      Loops updater board { next with writer } after

-- A piece of the file is taken as far as there is room for it.
def taken (updater : Updater) (data : List UInt8) : Updater :=
  { updater with received := updater.received.pushBytes (data.take updater.received.free) }

-- There is something to take, and room for it.
structure Takes (updater : Updater) (data : List UInt8) : Prop where
  live : (data.isEmpty || updater.phase.isTerminal) = false
  room : updater.received.free ≠ 0

-- A piece of the file that is handed over brings the parser to an updater. A long
-- piece is taken in parts.
inductive Parses : Updater → List UInt8 → σ → Updater → σ → Prop
  | now {updater now : Updater} {data : List UInt8} {board middle : σ}
      (htakes : updater.Takes data) (hloops : (updater.taken data).Loops board now middle) :
      Parses updater data board now middle
  | later {updater next now : Updater} {data : List UInt8} {board left middle : σ}
      (htakes : updater.Takes data)
      (hdrain : (updater.taken data).drain board = .ok (next, none) left)
      (hrest : Parses next (data.drop updater.received.free) left now middle) :
      Parses updater data board now middle

variable {updater now : Updater} {data : List UInt8} {board middle after : σ}

theorem Loops.drain_eq (h : updater.Loops board now middle) :
    updater.drain board = now.drain middle := by
  induction h with
  | first => rfl
  | @next now next writer middle stepped after earlier hstep hflush hlive hless ih =>
      rw [ih, drain, Run.bind_ok hstep]
      simp only
      rw [Run.bind_ok hflush]
      simp only [Option.isSome_none, Bool.not_true, hlive, Bool.or_self, Bool.false_eq_true,
        if_false, dif_pos hless]

theorem Takes.receive_eq (h : updater.Takes data) (board : σ) :
    updater.receive data board = (do
      let (next, failure) ← (updater.taken data).drain
      match failure with
      | none => next.receive (data.drop updater.received.free)
      | some failure =>
          (← perform (next.fail failure)).receive (data.drop updater.received.free)) board := by
  have hends : ¬ (data.isEmpty || updater.phase.isTerminal) = true := by
    rw [h.live]
    exact Bool.false_ne_true
  have hfits : (data.take updater.received.free).length ≤ updater.received.free := by
    rw [List.length_take]
    exact Nat.min_le_left _ _
  have hpush := (Ring.push_eq_ok_true_iff updater.received _ _).mpr ⟨hfits, by decide, rfl⟩
  rw [receive, dif_neg hends]
  simp only [dif_neg h.room, hpush]
  exact Run.bind_ok (Run.ofExcept_ok _ board)

-- A step that fails ends the session, and the rest of the piece is ignored.
theorem Parses.receive_eq (h : Parses updater data board now middle) {failure : UpdateError}
    (hstep : now.step middle = .ok (.error failure) after) :
    updater.receive data board = .ok (now.fail failure after).1 (now.fail failure after).2 := by
  induction h with
  | @now updater now data board middle htakes hloops =>
      have hdrain : (updater.taken data).drain board = .ok (now, some failure) after := by
        rw [hloops.drain_eq, drain, Run.bind_ok hstep]
        rfl
      rw [htakes.receive_eq, Run.bind_ok hdrain]
      exact receive_of_terminal rfl _ _
  | later htakes hdrain _ ih =>
      rw [htakes.receive_eq, Run.bind_ok hdrain]
      exact ih hstep

end

end Updater

end BoardControl.Bitstream
