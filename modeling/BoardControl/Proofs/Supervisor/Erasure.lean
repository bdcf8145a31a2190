import BoardControl.Proofs.Supervisor.Mirror

namespace BoardControl.Supervisor

open Recorded

-- What a record is kept beside does what it would do without one.
theorem mirror_recorded {σ ε ρ κ η : Type} [Transcript ε] [TickCounter σ] [Logger σ] [Rail σ ρ]
    [Reset σ κ] [Hooks σ η] : Mirror (τ := Recorded σ ε) ρ κ η Recorded.board where
  sleep _ := noting_mirrors _ _
  log := log_mirrors
  railName _ := rfl
  switchOn _ := noting_mirrors _ _
  switchOff _ := noting_mirrors _ _
  isGood _ := noting_mirrors _ _
  isCritical _ := rfl
  isInputSupply _ := rfl
  resetName _ := rfl
  hold _ _ := rfl
  release _ _ := rfl
  isReady _ _ := rfl
  onPowerOn _ := noting_mirrors _ _
  onPowerOff _ := noting_mirrors _ _
  onResetDone _ := noting_mirrors _ _
  onPowerLost _ := noting_mirrors _ _
  onRailDegraded _ _ := noting_mirrors _ _
  onFault _ := notingRun_mirrors _ _

end BoardControl.Supervisor
