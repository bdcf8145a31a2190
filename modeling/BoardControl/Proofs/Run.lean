import BoardControl.Log
import BoardControl.Run

namespace BoardControl.Run

variable {σ α β : Type} {board : σ}

-- The run stops with no fault, and `post` holds of its value and of the board
-- it leaves.
def Ends (run : Run σ α) (board : σ) (post : α → σ → Prop) : Prop :=
  ∃ value after, run board = .ok value after ∧ post value after

-- A run is followed part by part: what the rest needs has to hold where the
-- first part ends.
@[simp] theorem ends_bind (first : Run σ α) (next : α → Run σ β) (post : β → σ → Prop) :
    Ends (first >>= next) board post ↔
      Ends first board fun value after => Ends (next value) after post := by
  constructor
  · intro hends
    obtain ⟨value, after, hrun, hpost⟩ := hends
    cases hfirst : first board with
    | ok middle left =>
        rw [bind_ok hfirst] at hrun
        exact ⟨middle, left, hfirst, value, after, hrun, hpost⟩
    | error fault left =>
        rw [bind_error hfirst] at hrun
        cases hrun
  · intro hends
    obtain ⟨middle, left, hfirst, value, after, hnext, hpost⟩ := hends
    exact ⟨value, after, by rw [bind_ok hfirst, hnext], hpost⟩

@[simp] theorem ends_pure (value : α) (post : α → σ → Prop) :
    Ends (pure value : Run σ α) board post ↔ post value board := by
  constructor
  · intro hends
    obtain ⟨_, _, hrun, hpost⟩ := hends
    cases hrun
    exact hpost
  · intro hpost
    exact ⟨value, board, rfl, hpost⟩

@[simp] theorem ends_map (change : α → β) (run : Run σ α) (post : β → σ → Prop) :
    Ends (change <$> run) board post ↔
      Ends run board fun value after => post (change value) after := by
  rw [map_eq_pure_bind, ends_bind]
  simp only [ends_pure]

@[simp] theorem ends_perform (act : Action σ α) (post : α → σ → Prop) :
    Ends (perform act) board post ↔ post (act board).1 (act board).2 := by
  constructor
  · intro hends
    obtain ⟨_, _, hrun, hpost⟩ := hends
    cases hrun
    exact hpost
  · intro hpost
    exact ⟨_, _, rfl, hpost⟩

@[simp] theorem ends_get (post : σ → σ → Prop) :
    Ends (get : Run σ σ) board post ↔ post board board := by
  constructor
  · intro hends
    obtain ⟨_, _, hrun, hpost⟩ := hends
    cases hrun
    exact hpost
  · intro hpost
    exact ⟨_, _, rfl, hpost⟩

@[simp] theorem ends_ok (value : α) (post : α → σ → Prop) :
    Ends (liftM (Except.ok value : Except Fault α) : Run σ α) board post ↔ post value board := by
  constructor
  · intro hends
    obtain ⟨_, _, hrun, hpost⟩ := hends
    cases hrun
    exact hpost
  · intro hpost
    exact ⟨value, board, rfl, hpost⟩

theorem Ends.mono {run : Run σ α} {post weaker : α → σ → Prop} (h : Ends run board post)
    (himp : ∀ value after, post value after → weaker value after) : Ends run board weaker := by
  obtain ⟨value, after, hrun, hpost⟩ := h
  exact ⟨value, after, hrun, himp value after hpost⟩

-- What a known run does is all that its rest needs.
theorem ends_of_eq {run : Run σ α} {post : α → σ → Prop} {value : α} {after : σ}
    (hrun : run board = .ok value after) (hpost : post value after) : Ends run board post :=
  ⟨value, after, hrun, hpost⟩

theorem Ends.of_eq_ok {run : Run σ α} {post : α → σ → Prop} {value : α} {after : σ}
    (h : Ends run board post) (hrun : run board = .ok value after) : post value after := by
  obtain ⟨_, _, hsame, hpost⟩ := h
  cases hrun.symm.trans hsame
  exact hpost

-- A result that was found without the board has one for each part.
theorem exists_of_bind_eq_ok {first : Except Fault α} {next : α → Except Fault β} {result : β}
    (h : (first >>= next) = .ok result) :
    ∃ value, first = .ok value ∧ next value = .ok result := by
  cases first with
  | error fault => cases h
  | ok value => exact ⟨value, rfl, h⟩

-- However the run stops: `post` holds of its value and of the board when it ends,
-- and `broken` holds of the board when it faults.
def Leaves (run : Run σ α) (board : σ) (post : α → σ → Prop) (broken : σ → Prop) : Prop :=
  match run board with
  | .ok value after => post value after
  | .error _ after => broken after

section

variable {broken : σ → Prop}

@[simp] theorem leaves_bind (first : Run σ α) (next : α → Run σ β) (post : β → σ → Prop) :
    Leaves (first >>= next) board post broken ↔
      Leaves first board (fun value after => Leaves (next value) after post broken) broken := by
  unfold Leaves
  cases hfirst : first board with
  | ok middle left => rw [bind_ok hfirst]
  | error fault left => rw [bind_error hfirst]

@[simp] theorem leaves_pure (value : α) (post : α → σ → Prop) :
    Leaves (pure value : Run σ α) board post broken ↔ post value board := Iff.rfl

@[simp] theorem leaves_map (change : α → β) (run : Run σ α) (post : β → σ → Prop) :
    Leaves (change <$> run) board post broken ↔
      Leaves run board (fun value after => post (change value) after) broken := by
  rw [map_eq_pure_bind, leaves_bind]
  simp only [leaves_pure]

@[simp] theorem leaves_perform (act : Action σ α) (post : α → σ → Prop) :
    Leaves (perform act) board post broken ↔ post (act board).1 (act board).2 := Iff.rfl

@[simp] theorem leaves_get (post : σ → σ → Prop) :
    Leaves (get : Run σ σ) board post broken ↔ post board board := Iff.rfl

@[simp] theorem leaves_throw (fault : Fault) (post : α → σ → Prop) :
    Leaves (throw fault : Run σ α) board post broken ↔ broken board := Iff.rfl

@[simp] theorem leaves_ok (value : α) (post : α → σ → Prop) :
    Leaves (liftM (Except.ok value : Except Fault α) : Run σ α) board post broken ↔
      post value board := Iff.rfl

-- A result that was found without the board is used, or it is a fault.
theorem leaves_lift (result : Except Fault α) (post : α → σ → Prop) :
    Leaves (liftM result : Run σ α) board post broken ↔
      (∀ value, result = .ok value → post value board) ∧
        ∀ fault, result = .error fault → broken board := by
  cases result with
  | ok value =>
      rw [leaves_ok]
      constructor
      · intro hpost
        refine ⟨?_, nofun⟩
        rintro _ ⟨⟩
        exact hpost
      · intro hpost
        exact hpost.1 value rfl
  | error fault =>
      constructor
      · intro hbroken
        exact ⟨nofun, fun _ _ => hbroken⟩
      · intro hbroken
        exact hbroken.2 fault rfl

theorem Leaves.mono {run : Run σ α} {post weaker : α → σ → Prop} {halted : σ → Prop}
    (h : Leaves run board post broken)
    (himp : ∀ value after, post value after → weaker value after)
    (hbroken : ∀ after, broken after → halted after) : Leaves run board weaker halted := by
  unfold Leaves at h ⊢
  cases hrun : run board with
  | ok value after =>
      rw [hrun] at h
      exact himp value after h
  | error fault after =>
      rw [hrun] at h
      exact hbroken after h

-- Two things that hold however the run stops hold together.
theorem Leaves.and {run : Run σ α} {post other : α → σ → Prop} {halted : σ → Prop}
    (h : Leaves run board post broken) (h' : Leaves run board other halted) :
    Leaves run board (fun value after => post value after ∧ other value after)
      fun after => broken after ∧ halted after := by
  unfold Leaves at h h' ⊢
  cases hrun : run board with
  | ok value after =>
      rw [hrun] at h h'
      exact ⟨h, h'⟩
  | error fault after =>
      rw [hrun] at h h'
      exact ⟨h, h'⟩

end

-- Of a run that does not matter nothing is asked.
theorem leaves_trivial (run : Run σ α) (board : σ) :
    Leaves run board (fun _ _ => True) fun _ => True := by
  unfold Leaves
  cases run board with
  | ok _ _ => trivial
  | error _ _ => trivial

theorem Leaves.of_eq_ok {run : Run σ α} {post : α → σ → Prop} {broken : σ → Prop} {value : α}
    {after : σ} (h : Leaves run board post broken) (hrun : run board = .ok value after) :
    post value after := by
  unfold Leaves at h
  rw [hrun] at h
  exact h

theorem Ends.leaves {run : Run σ α} {post : α → σ → Prop} (h : Ends run board post)
    (broken : σ → Prop) : Leaves run board post broken := by
  obtain ⟨value, after, hrun, hpost⟩ := h
  unfold Leaves
  rw [hrun]
  exact hpost

-- A run that cannot fault ends.
theorem Leaves.ends {run : Run σ α} {post : α → σ → Prop} {broken : σ → Prop}
    (h : Leaves run board post broken) (hnever : ∀ after, ¬ broken after) :
    Ends run board post := by
  unfold Leaves at h
  cases hrun : run board with
  | ok value after =>
      rw [hrun] at h
      exact ⟨value, after, hrun, h⟩
  | error fault after =>
      rw [hrun] at h
      exact absurd h (hnever after)

-- The board that a run leaves, however it stops.
def final (run : Run σ α) (board : σ) : σ :=
  match run board with
  | .ok _ after => after
  | .error _ after => after

theorem Leaves.final {run : Run σ α} {post : σ → Prop}
    (h : Leaves run board (fun _ => post) post) : post (final run board) := by
  unfold Leaves at h
  unfold Run.final
  cases hrun : run board with
  | ok value after =>
      rw [hrun] at h
      exact h
  | error fault after =>
      rw [hrun] at h
      exact h

theorem final_bind_ok {first : Run σ α} {value : α} {after : σ}
    (hfirst : first board = .ok value after) (next : α → Run σ β) :
    Run.final (first >>= next) board = Run.final (next value) after := by
  unfold Run.final
  rw [bind_ok hfirst]

-- A run that faults only where something is lost ends where it is still there.
theorem Leaves.ok_of_final {run : Run σ α} {post : α → σ → Prop} {intact : σ → Prop}
    (h : Leaves run board (fun value after => intact after → post value after)
      fun after => ¬ intact after)
    (hintact : intact (Run.final run board)) :
    ∃ value, run board = .ok value (Run.final run board) ∧ post value (Run.final run board) := by
  unfold Leaves at h
  unfold Run.final at hintact ⊢
  cases hrun : run board with
  | ok value after =>
      rw [hrun] at h hintact
      exact ⟨value, rfl, h hintact⟩
  | error fault after =>
      rw [hrun] at h hintact
      exact absurd hintact h

end BoardControl.Run
