import BoardControl.Log
import BoardControl.Run

namespace BoardControl

-- Two results that are both an error, and the same one, or hold related values.
inductive Likewise {ε α β : Type} (same : α → β → Prop) : Except ε α → Except ε β → Prop where
  | ok {one : α} {other : β} (h : same one other) : Likewise same (.ok one) (.ok other)
  | error (failure : ε) : Likewise same (.error failure) (.error failure)

theorem Likewise.of_eq {ε α : Type} {one other : Except ε α} (h : one = other) :
    Likewise Eq one other := by
  subst h
  cases one with
  | ok _ => exact .ok rfl
  | error failure => exact .error failure

theorem Likewise.bind {ε α β γ δ : Type} {same : α → β → Prop} {same' : γ → δ → Prop}
    {one : Except ε α} {other : Except ε β} {next : α → Except ε γ} {next' : β → Except ε δ}
    (h : Likewise same one other)
    (hnext : ∀ value value', same value value' → Likewise same' (next value) (next' value')) :
    Likewise same' (one >>= next) (other >>= next') := by
  cases h with
  | ok h => exact hnext _ _ h
  | error failure => exact .error failure

namespace Run

variable {σ τ α β γ δ : Type}

-- Two runs that ended alike: with related values, or with the same fault. The
-- boards that they left are related in both cases.
inductive Matches (boards : σ → τ → Prop) (same : α → β → Prop) :
    EStateM.Result Fault σ α → EStateM.Result Fault τ β → Prop where
  | ok {value : α} {value' : β} {left : σ} {right : τ} (hsame : same value value')
      (hboards : boards left right) : Matches boards same (.ok value left) (.ok value' right)
  | error {left : σ} {right : τ} (fault : Fault) (hboards : boards left right) :
      Matches boards same (.error fault left) (.error fault right)

theorem Matches.mono {boards : σ → τ → Prop} {same weaker : α → β → Prop}
    {one : EStateM.Result Fault σ α} {other : EStateM.Result Fault τ β}
    (h : Matches boards same one other)
    (himp : ∀ value value', same value value' → weaker value value') :
    Matches boards weaker one other := by
  cases h with
  | ok hsame hboards => exact .ok (himp _ _ hsame) hboards
  | error fault hboards => exact .error fault hboards

-- From related boards the two runs end alike.
def Parallel (boards : σ → τ → Prop) (same : α → β → Prop) (run : Run σ α) (other : Run τ β) :
    Prop :=
  ∀ left right, boards left right → Matches boards same (run left) (other right)

namespace Parallel

variable {boards : σ → τ → Prop} {same : α → β → Prop} {same' : γ → δ → Prop}

theorem pure {value : α} {value' : β} (h : same value value') :
    Parallel boards same (Pure.pure value) (Pure.pure value') :=
  fun _ _ hboards => .ok h hboards

theorem throw (fault : Fault) :
    Parallel boards same (MonadExcept.throw fault) (MonadExcept.throw fault) :=
  fun _ _ hboards => .error fault hboards

theorem get : Parallel boards boards MonadState.get MonadState.get :=
  fun _ _ hboards => .ok hboards hboards

theorem perform {act : Action σ α} {other : Action τ β}
    (h : ∀ left right, boards left right →
      same (act left).1 (other right).1 ∧ boards (act left).2 (other right).2) :
    Parallel boards same (BoardControl.perform act) (BoardControl.perform other) :=
  fun left right hboards => .ok (h left right hboards).1 (h left right hboards).2

theorem lift {result : Except Fault α} {other : Except Fault β} (h : Likewise same result other) :
    Parallel boards same (liftM result) (liftM other) := by
  intro left right hboards
  cases h with
  | ok h => exact .ok h hboards
  | error fault => exact .error fault hboards

theorem bind {run : Run σ α} {other : Run τ β} {next : α → Run σ γ} {next' : β → Run τ δ}
    (hrun : Parallel boards same run other)
    (hnext : ∀ value value', same value value' →
      Parallel boards same' (next value) (next' value')) :
    Parallel boards same' (run >>= next) (other >>= next') := by
  intro left right hboards
  have hfirst := hrun left right hboards
  generalize hleft : run left = one at hfirst
  generalize hright : other right = two at hfirst
  cases hfirst with
  | ok hsame hafter =>
      rw [bind_ok hleft, bind_ok hright]
      exact hnext _ _ hsame _ _ hafter
  | error fault hafter =>
      rw [bind_error hleft, bind_error hright]
      exact .error fault hafter

end Parallel

end Run

end BoardControl
