import BoardControl.Proofs.Bitstream.Lifetime

namespace BoardControl.Bitstream

open Session Updater

section

variable {σ μ : Type} [Flash σ] [TickCounter σ] [Logger μ] {target : Target}
  {holds : Session → Prop} {linked : σ → σ → Prop}

-- Something that holds of an updater whenever the host calls, and how each call
-- links the board that it finds to the board that it leaves.
structure HostLaw (μ : Type) [Logger μ] (holds : Updater → σ → Prop) (linked : σ → σ → Prop) :
    Prop where
  refl : ∀ board, linked board board
  trans : ∀ {board middle after}, linked board middle → linked middle after → linked board after
  serve : ∀ (call : HostCall) (updater : Updater) (logged : Logged σ μ),
    holds updater logged.board → Run.Ends (updater.serve call) logged fun next after =>
      holds next after.board ∧ linked logged.board after.board

theorem HostLaw.serveAll {holds : Updater → σ → Prop} (law : HostLaw μ holds linked)
    (calls : List HostCall) {updater : Updater} {logged : Logged σ μ}
    (h : holds updater logged.board) :
    Run.Ends (Updater.serveAll calls updater) logged fun next after =>
      holds next after.board ∧ linked logged.board after.board := by
  induction calls generalizing updater logged with
  | nil => exact Run.ends_of_eq rfl ⟨h, law.refl _⟩
  | cons call rest ih =>
      simp only [Updater.serveAll, Run.ends_bind]
      refine (law.serve call updater logged h).mono ?_
      intro next middle hserved
      obtain ⟨hnext, hfirst⟩ := hserved
      refine (ih hnext).mono ?_
      intro last after hrest
      obtain ⟨hlast, hlinked⟩ := hrest
      exact ⟨hlast, law.trans hfirst hlinked⟩

-- Something that holds of a session after each of its steps, and how each step
-- links the board that it finds to the board that it leaves.
structure SessionLaw (target : Target) (holds : Session → Prop) (linked : σ → σ → Prop) : Prop where
  refl : ∀ board, linked board board
  trans : ∀ {board middle after}, linked board middle → linked middle after → linked board after
  start : holds (start target)
  append : ∀ session bytes, holds session → holds (session.append bytes)
  advance : ∀ {now next : Session × σ}, Sound target now.1 → holds now.1 →
    advance? target now = some next → holds next.1 ∧ linked now.2 next.2
  close : ∀ {session : Session} (board : σ), Sound target session → holds session →
    holds (session.close target board).1 ∧ linked board (session.close target board).2

-- An updater between two calls follows a session that has no token left.
structure Lawful (target : Target) (holds : Session → Prop) (session : Session) (updater : Updater)
    (board : σ) : Prop where
  follows : Follows target updater session
  sound : Sound target session
  settled : advance? target (session, board) = none
  holds : holds session

theorem lawful_start (hstart : holds (start target)) (board : σ) :
    Lawful target holds (start target) (Updater.start target.partition target.device) board :=
  ⟨.of_buffers rfl rfl rfl rfl rfl rfl Ring.toList_empty Ring.toList_empty, Sound.start, rfl,
    hstart⟩

namespace SessionLaw

theorem reaches (law : SessionLaw target holds linked) {now last : Session × σ}
    (hsound : Sound target now.1) (hnow : holds now.1) (hreach : Reaches target now last) :
    holds last.1 ∧ linked now.2 last.2 := by
  induction hreach with
  | refl => exact ⟨hnow, law.refl now.2⟩
  | tail hreach hstep ih =>
      obtain ⟨hholds, hlinked⟩ := ih
      obtain ⟨hnext, hlink⟩ := law.advance (hsound.reaches hreach) hholds hstep
      exact ⟨hnext, law.trans hlinked hlink⟩

theorem serve (law : SessionLaw target holds linked) (hsuits : target.Suits σ) {session : Session}
    {updater : Updater} {logged : Logged σ μ}
    (h : Lawful target holds session updater logged.board) (call : HostCall) :
    Run.Ends (updater.serve call) logged fun next after =>
      (∃ last, Lawful target holds last next after.board) ∧ linked logged.board after.board := by
  cases call with
  | Open =>
      obtain ⟨hfollows, hboard⟩ := opened_follows h.follows.partition h.follows.device logged
      simp only [Updater.serve, Run.ends_perform, hboard]
      exact ⟨⟨_, hfollows, Sound.start, rfl, law.start⟩, law.refl _⟩
  | Data bytes =>
      refine (receive_ends hsuits bytes h.follows h.sound logged h.settled).mono ?_
      intro next after hends
      obtain ⟨last, hfollows, hreach, hsettled⟩ := hends
      have hsound := h.sound.append bytes
      obtain ⟨hholds, hlinked⟩ := law.reaches hsound (law.append session bytes h.holds) hreach
      exact ⟨⟨last, hfollows, hsound.reaches hreach, hsettled, hholds⟩, hlinked⟩
  | Close =>
      refine (closed_ends hsuits h.follows h.sound logged).mono ?_
      intro next after hends
      obtain ⟨hfollows, hboard⟩ := hends
      obtain ⟨hholds, hlinked⟩ := law.close logged.board h.sound h.holds
      rw [hboard]
      exact ⟨⟨_, hfollows, h.sound.close logged.board, advance?_close h.settled, hholds⟩, hlinked⟩

theorem host (law : SessionLaw target holds linked) (hsuits : target.Suits σ) :
    HostLaw μ (fun updater board => ∃ session, Lawful target holds session updater board)
      linked where
  refl := law.refl
  trans := law.trans
  serve := by
    rintro call updater logged ⟨session, h⟩
    exact law.serve hsuits h call

end SessionLaw

end

end BoardControl.Bitstream
