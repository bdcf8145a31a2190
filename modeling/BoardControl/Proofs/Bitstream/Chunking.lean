import BoardControl.Proofs.Bitstream.WholeFile

namespace BoardControl.Bitstream

section

variable {φ μ : Type} [Flash φ] [TickCounter φ] [Logger μ]

-- How a file is cut into pieces makes no difference, whatever the flash does and
-- whatever the updater did before. The pieces may be empty or larger than the
-- buffers. Both sessions end, in the same phase and with the same failure and
-- count of bytes, and they leave the device with the same calls made.
theorem session_eq_of_flatten_eq (page : Nat) (hpos : 0 < page) (hmax : page ≤ Settings.maxPage)
    (hpage : ∀ device : φ, (Flash.pageSize device).toNat = page) (updater : Updater)
    (hfits : updater.writer.partition.offset.toNat + updater.writer.partition.size.toNat ≤
      UInt32.size)
    {one other : List (List UInt8)} (hsame : one.flatten = other.flatten) (closing : Bool)
    (logged : Logged (Watched φ) μ) :
    ∃ (first second : Updater) (left right : Logged (Watched φ) μ) (written : UInt32),
      updater.session one closing logged = .ok first left ∧
      updater.session other closing logged = .ok second right ∧
      first.phase = second.phase ∧ first.lastError = second.lastError ∧
      first.bytesWritten = .ok written ∧ second.bytesWritten = .ok written ∧
      left.board = right.board := by
  let target : Target :=
    { partition := updater.writer.partition, device := updater.device, page, page_pos := hpos,
      page_le := hmax, fits := hfits }
  have hsuits : target.Suits (Watched φ) := fun board => hpage board.device
  obtain ⟨first, left, hfirst, last, board, hsettles, hfollows, hleft, hwritten⟩ :=
    session_ends hsuits rfl rfl one closing logged
  obtain ⟨second, right, hsecond, last', board', hsettles', hfollows', hright, hwritten'⟩ :=
    session_ends hsuits rfl rfl other closing logged
  rw [hsame] at hsettles
  obtain ⟨rfl, rfl⟩ := Prod.mk.inj (hsettles.unique hsettles')
  refine ⟨first, second, left, right, _, hfirst, hsecond, ?_, ?_, hwritten, hwritten', ?_⟩
  · rw [hfollows.phase, hfollows'.phase]
  · rw [hfollows.lastError, hfollows'.lastError]
  · rw [hleft, hright]

end

-- The shortest file in two pieces, and byte by byte with nothing in between. Both
-- sessions program its page.
theorem session_eq_of_flatten_eq_shortest :
    ∃ (first second : Updater) (left right : Logged (Watched (Chip 0x1000 256)) Unit),
      Chip.updater.session Chip.halves true Chip.board = .ok first left ∧
      Chip.updater.session (Chip.shortest.bytes.flatMap fun byte => [[byte], []]) true Chip.board =
        .ok second right ∧
      first.phase = .Done ∧ second.phase = .Done ∧ first.lastError = second.lastError ∧
      first.bytesWritten = .ok 12 ∧ second.bytesWritten = .ok 12 ∧ left.board = right.board := by
  have hsame : Chip.halves.flatten =
      (Chip.shortest.bytes.flatMap fun byte => [[byte], []]).flatten := by decide
  obtain ⟨first, second, left, right, written, hfirst, hsecond, hphase, herror, hone, hother,
      hboard⟩ :=
    session_eq_of_flatten_eq 256 (by decide) (by decide) (fun _ => rfl) Chip.updater (by decide)
      hsame true Chip.board
  obtain ⟨closed, after, hrun, hdone, hwritten⟩ := Chip.session_shortest Chip.flatten_halves
  cases hfirst.symm.trans hrun
  rw [hdone] at hphase
  cases hone.symm.trans hwritten
  exact ⟨first, second, left, right, hfirst, hsecond, hdone, hphase.symm, herror, hone, hother,
    hboard⟩

end BoardControl.Bitstream
