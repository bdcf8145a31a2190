import BoardControl.Proofs.Run

namespace BoardControl

-- A board that holds another one does what that one would do alone. `view` finds
-- the board inside, and `forget` leaves out of a value what only the outer board
-- can tell.
section

variable {σ τ α β γ δ : Type}

def Mirrors (view : τ → σ) (forget : α → β) (act : Action τ α) (bare : Action σ β) : Prop :=
  ∀ board, bare (view board) = (forget (act board).1, view (act board).2)

def RunMirrors (view : τ → σ) (forget : α → β) (run : Run τ α) (bare : Run σ β) : Prop :=
  ∀ board, bare (view board) =
    match run board with
    | .ok value after => .ok (forget value) (view after)
    | .error fault after => .error fault (view after)

variable {view : τ → σ} {forget : α → β} {forget' : γ → δ}

theorem Mirrors.pure (value : α) :
    Mirrors view forget (Pure.pure value) (Pure.pure (forget value)) := fun _ => rfl

theorem Mirrors.bind {act : Action τ α} {bare : Action σ β} {next : α → Action τ γ}
    {bareNext : β → Action σ δ} (hact : Mirrors view forget act bare)
    (hnext : ∀ value, Mirrors view forget' (next value) (bareNext (forget value))) :
    Mirrors view forget' (act >>= next) (bare >>= bareNext) := by
  intro board
  rw [Action.bind_apply, Action.bind_apply, hact board]
  exact hnext _ _

theorem RunMirrors.perform {act : Action τ α} {bare : Action σ β}
    (h : Mirrors view forget act bare) :
    RunMirrors view forget (perform act) (perform bare) := by
  intro board
  rw [perform_apply, perform_apply, h board]

theorem RunMirrors.pure (value : α) :
    RunMirrors view forget (Pure.pure value) (Pure.pure (forget value)) := fun _ => rfl

theorem RunMirrors.throw (fault : Fault) :
    RunMirrors view forget (MonadExcept.throw fault) (MonadExcept.throw fault) := fun _ => rfl

theorem RunMirrors.bind {run : Run τ α} {bare : Run σ β} {next : α → Run τ γ}
    {bareNext : β → Run σ δ} (hrun : RunMirrors view forget run bare)
    (hnext : ∀ value, RunMirrors view forget' (next value) (bareNext (forget value))) :
    RunMirrors view forget' (run >>= next) (bare >>= bareNext) := by
  intro board
  have hfirst := hrun board
  cases hresult : run board with
  | ok value after =>
      rw [hresult] at hfirst
      rw [Run.bind_ok hfirst, Run.bind_ok hresult]
      exact hnext value after
  | error fault after =>
      rw [hresult] at hfirst
      rw [Run.bind_error hfirst, Run.bind_error hresult]

theorem RunMirrors.ok {run : Run τ α} {bare : Run σ β} (h : RunMirrors view forget run bare)
    {board after : τ} {value : α} (hrun : run board = .ok value after) :
    bare (view board) = .ok (forget value) (view after) := by
  rw [h board, hrun]

theorem RunMirrors.of_ok {run : Run τ α} {bare : Run σ β} (h : RunMirrors view forget run bare)
    (board : τ) {value : β} {after : σ} (hbare : bare (view board) = .ok value after) :
    ∃ value' after', run board = .ok value' after' ∧ forget value' = value ∧
      view after' = after := by
  rw [h board] at hbare
  cases hrun : run board with
  | ok value' after' =>
      rw [hrun] at hbare
      cases hbare
      exact ⟨value', after', rfl, rfl, rfl⟩
  | error fault after' =>
      rw [hrun] at hbare
      cases hbare

theorem RunMirrors.final {run : Run τ α} {bare : Run σ β} (h : RunMirrors view forget run bare)
    (board : τ) : view (Run.final run board) = Run.final bare (view board) := by
  unfold Run.final
  rw [h board]
  cases run board <;> rfl

end

end BoardControl
