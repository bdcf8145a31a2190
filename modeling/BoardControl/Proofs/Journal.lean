import BoardControl.Pin
import BoardControl.Proofs.Bitstream.Watched
import BoardControl.Proofs.Parallel
import BoardControl.Supervisor
import BoardControl.Voltage

namespace BoardControl

open Bitstream (Logged)

-- A log that keeps the records up to its level, oldest first, or none at all.
structure Journal where
  level : Option Severity
  records : List (Severity × String) := []
deriving DecidableEq, Repr

namespace Journal

instance : Logger Journal where
  enabled severity journal := journal.level.any fun limit => severity.rank ≤ limit.rank
  record severity text journal :=
    { journal with records := journal.records ++ [(severity, text)] }

-- No level but the lowest drops an error.
theorem enabled_error (journal : Journal) :
    Logger.enabled .Error journal = journal.level.isSome := by
  cases hlevel : journal.level with
  | none => simp [Logger.enabled, hlevel]
  | some limit => cases limit <;> simp [Logger.enabled, hlevel, Severity.rank]

-- It was recorded that a rail with a sensor did not come up.
def Blames (journal : Journal) : Prop :=
  ∃ (name : String) (window : VoltageWindow) (measured : UInt32),
    (Severity.Error, s!"Rail {name} failed to come up " ++
      s!"(measured {measured} mV, valid range [{window.low}, {window.high}])") ∈ journal.records

-- The only reason for two boards to part: one of them keeps no records, and the
-- other one looked at a rail again to record that it did not come up.
def Excuses (left right : Journal) : Prop :=
  (left.level = none ∧ right.Blames) ∨ (right.level = none ∧ left.Blames)

-- A log keeps its level and its records.
structure Grew (earlier later : Journal) : Prop where
  level_eq : later.level = earlier.level
  kept : ∀ record ∈ earlier.records, record ∈ later.records

theorem Grew.refl (journal : Journal) : Grew journal journal := ⟨rfl, fun _ hmem => hmem⟩

theorem Grew.trans {earlier between later : Journal} (hfirst : Grew earlier between)
    (hsecond : Grew between later) : Grew earlier later :=
  ⟨hsecond.level_eq.trans hfirst.level_eq,
    fun record hmem => hsecond.kept record (hfirst.kept record hmem)⟩

theorem Grew.blames {earlier later : Journal} (h : Grew earlier later) (hblames : earlier.Blames) :
    later.Blames := by
  obtain ⟨name, window, measured, hmem⟩ := hblames
  exact ⟨name, window, measured, h.kept _ hmem⟩

theorem grew_record (severity : Severity) (text : String) (journal : Journal) :
    Grew journal (Logger.record severity text journal) :=
  ⟨rfl, fun _ hmem => List.mem_append_left _ hmem⟩

theorem Excuses.grew {left left' right right' : Journal} (h : Excuses left right)
    (hleft : Grew left left') (hright : Grew right right') : Excuses left' right' := by
  rcases h with ⟨hlevel, hblames⟩ | ⟨hlevel, hblames⟩
  · exact .inl ⟨hleft.level_eq.trans hlevel, hright.blames hblames⟩
  · exact .inr ⟨hright.level_eq.trans hlevel, hleft.blames hblames⟩

end Journal

namespace Bitstream.Logged

variable {σ μ α : Type}

-- A run of the board leaves the log as it is, also when it stops.
def liftRun (run : Run σ α) : Run (Logged σ μ) α := fun logged =>
  match run logged.board with
  | .ok value board => .ok value { logged with board }
  | .error fault board => .error fault { logged with board }

instance {π : Type} [OutputPin σ π] : OutputPin (Logged σ μ) π where
  write pin level := lift (OutputPin.write pin level)

instance {ι : Type} [InputPin σ ι] : InputPin (Logged σ μ) ι where
  read pin := lift (InputPin.read pin)

instance {ς : Type} [VoltageSensor σ ς] : VoltageSensor (Logged σ μ) ς where
  read sensor := lift (VoltageSensor.read sensor)

instance {η : Type} [Hooks σ η] : Hooks (Logged σ μ) η where
  onPowerOn hooks := lift (Hooks.onPowerOn hooks)
  onPowerOff hooks := lift (Hooks.onPowerOff hooks)
  onResetDone hooks := lift (Hooks.onResetDone hooks)
  onPowerLost hooks := lift (Hooks.onPowerLost hooks)
  onRailDegraded name hooks := lift (Hooks.onRailDegraded name hooks)
  onFault hooks := liftRun (Hooks.onFault hooks)

end Bitstream.Logged

open Run

section

variable {σ α β : Type}

-- What an action answers and does to the board is the same beside any two logs,
-- or they have an excuse.
structure Blind (act : Action (Logged σ Journal) α) : Prop where
  grew : ∀ logged : Logged σ Journal, logged.journal.Grew (act logged).2.journal
  alike : ∀ left right : Logged σ Journal, left.board = right.board →
    ((act left).1 = (act right).1 ∧ (act left).2.board = (act right).2.board) ∨
      (act left).2.journal.Excuses (act right).2.journal

-- The same of a run, which may also stop.
structure RunBlind (run : Run (Logged σ Journal) α) : Prop where
  grew : ∀ logged : Logged σ Journal, logged.journal.Grew (final run logged).journal
  alike : ∀ left right : Logged σ Journal, left.board = right.board →
    Matches (fun left right => left.board = right.board) Eq (run left) (run right) ∨
      (final run left).journal.Excuses (final run right).journal

namespace Blind

theorem pure (value : α) : Blind (Pure.pure value : Action (Logged σ Journal) α) where
  grew _ := .refl _
  alike _ _ hboard := .inl ⟨rfl, hboard⟩

theorem lift (act : Action σ α) : Blind (Logged.lift act) where
  grew _ := .refl _
  alike left right hboard := by
    refine .inl ⟨?_, ?_⟩
    · change (act left.board).1 = (act right.board).1
      rw [hboard]
    · change (act left.board).2 = (act right.board).2
      rw [hboard]

theorem log (severity : Severity) (text : String) :
    Blind (BoardControl.log severity text : Action (Logged σ Journal) Unit) where
  grew logged := by
    simp only [BoardControl.log]
    split
    · exact Journal.grew_record severity text logged.journal
    · exact .refl _
  alike left right hboard := by
    refine .inl ⟨rfl, ?_⟩
    rw [Logged.board_log, Logged.board_log, hboard]

theorem bind {act : Action (Logged σ Journal) α} {next : α → Action (Logged σ Journal) β}
    (hact : Blind act) (hnext : ∀ value, Blind (next value)) : Blind (act >>= next) where
  grew logged := (hact.grew logged).trans ((hnext _).grew _)
  alike left right hboard := by
    rw [Action.bind_apply, Action.bind_apply]
    rcases hact.alike left right hboard with ⟨hvalue, hafter⟩ | hexcuse
    · rw [hvalue]
      exact (hnext _).alike _ _ hafter
    · exact .inr (hexcuse.grew ((hnext _).grew _) ((hnext _).grew _))

-- A step that is only sometimes taken.
theorem optional {act : Action (Logged σ Journal) Unit}
    {rest : Action (Logged σ Journal) α} (skip : Bool) (hact : Blind act) (hrest : Blind rest) :
    Blind (do
      unless skip do act
      rest) := by
  cases skip with
  | true => exact hrest
  | false => exact .bind hact fun _ => hrest

end Blind

namespace RunBlind

theorem pure (value : α) : RunBlind (Pure.pure value : Run (Logged σ Journal) α) where
  grew _ := .refl _
  alike _ _ hboard := .inl (.ok rfl hboard)

theorem throw (fault : Fault) :
    RunBlind (MonadExcept.throw fault : Run (Logged σ Journal) α) where
  grew _ := .refl _
  alike _ _ hboard := .inl (.error fault hboard)

theorem perform {act : Action (Logged σ Journal) α} (h : Blind act) :
    RunBlind (BoardControl.perform act) where
  grew := h.grew
  alike left right hboard := by
    rcases h.alike left right hboard with ⟨hvalue, hafter⟩ | hexcuse
    · exact .inl (.ok hvalue hafter)
    · exact .inr hexcuse

theorem lift (run : Run σ α) : RunBlind (Logged.liftRun run) where
  grew logged := by
    simp only [final, Logged.liftRun]
    cases run logged.board with
    | ok value board => exact .refl _
    | error fault board => exact .refl _
  alike left right hboard := by
    refine .inl ?_
    simp only [Logged.liftRun, hboard]
    cases run right.board with
    | ok value board => exact .ok rfl rfl
    | error fault board => exact .error fault rfl

theorem bind {run : Run (Logged σ Journal) α} {next : α → Run (Logged σ Journal) β}
    (hrun : RunBlind run) (hnext : ∀ value, RunBlind (next value)) :
    RunBlind (run >>= next) := by
  -- What follows the first part adds to the log that it left.
  have hlater : ∀ logged,
      (final run logged).journal.Grew (final (run >>= next) logged).journal := by
    intro logged
    cases hfirst : run logged with
    | ok value after =>
        simp only [final, bind_ok hfirst, hfirst]
        exact (hnext value).grew after
    | error fault after =>
        simp only [final, bind_error hfirst, hfirst]
        exact .refl _
  refine ⟨fun logged => (hrun.grew logged).trans (hlater logged), ?_⟩
  intro left right hboard
  rcases hrun.alike left right hboard with hmatches | hexcuse
  · generalize hleft : run left = one at hmatches
    generalize hright : run right = other at hmatches
    cases hmatches with
    | ok hsame hafter =>
        subst hsame
        simp only [final, bind_ok hleft, bind_ok hright]
        exact (hnext _).alike _ _ hafter
    | error fault hafter =>
        refine .inl ?_
        rw [bind_error hleft, bind_error hright]
        exact .error fault hafter
  · exact .inr (hexcuse.grew (hlater left) (hlater right))

end RunBlind

end

end BoardControl
