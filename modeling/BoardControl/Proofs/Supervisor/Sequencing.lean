import BoardControl.Proofs.Supervisor.Trace
import Mathlib.Data.List.Basic

namespace BoardControl.Supervisor

namespace Command

def rail? : Command → Option Nat
  | .SwitchOn rail _ => some rail
  | .SwitchOff rail => some rail
  | _ => none

def reset? : Command → Option Nat
  | .Hold reset => some reset
  | .Release reset => some reset
  | _ => none

def hook? : Command → Option Hook
  | .Called hook => some hook
  | _ => none

end Command

-- The latest command about one place.
def latest (about : Command → Option Nat) (place : Nat) (trace : List Command) : Option Command :=
  trace.reverse.find? fun command => about command = some place

-- Up from a command to switch on, whatever the rail answered, to the next one
-- to switch off.
def Up (rail : Nat) (trace : List Command) : Prop :=
  ∃ came, latest Command.rail? rail trace = some (.SwitchOn rail came)

def Came (rail : Nat) (trace : List Command) : Prop :=
  latest Command.rail? rail trace = some (.SwitchOn rail true)

def Held (reset : Nat) (trace : List Command) : Prop :=
  latest Command.reset? reset trace = some (.Hold reset)

-- The rails that are up are the first `count` ones.
def FirstUp (rails count : Nat) (trace : List Command) : Prop :=
  ∀ rail < rails, Up rail trace ↔ rail < count

-- The next hook that is called. An emergency shutdown ends in the hook for a
-- fault and an orderly one in the hook for power off, so this is what tells the
-- two apart while rails go off.
def endedBy (after : List Command) : Option Hook := after.findSome? Command.hook?

-- What holds of one command, between those given before it and those given
-- after it, on a board with so many rails and resets.
structure Allowed (rails resets : Nat) (before : List Command) (command : Command)
    (after : List Command) : Prop where
  ordered : ∃ count, FirstUp rails count (before ++ [command])
  released : ∀ reset, command = .Release reset → ∀ rail < rails, Came rail before
  shutDown : ∀ rail, command = .SwitchOff rail →
    endedBy after = some .Fault ∨
      (endedBy after = some .PowerOff ∧ ∀ reset < resets, Held reset before)

-- Every command of a trace is allowed where it stands.
def Safe (rails resets : Nat) (trace : List Command) : Prop :=
  ∀ before command after, trace = before ++ command :: after →
    Allowed rails resets before command after

section

variable {about : Command → Option Nat} {place : Nat} {trace script : List Command}

theorem latest_append :
    latest about place (trace ++ script) =
      (latest about place script).or (latest about place trace) := by
  simp only [latest, List.reverse_append, List.find?_append]

theorem latest_append_singleton (command : Command) :
    latest about place (trace ++ [command]) =
      if about command = some place then some command else latest about place trace := by
  rw [latest_append]
  by_cases hmatches : about command = some place
  · simp [latest, hmatches]
  · simp [latest, hmatches]

-- Commands about other places do not count.
theorem latest_append_of_spares (hspares : ∀ command ∈ script, about command ≠ some place) :
    latest about place (trace ++ script) = latest about place trace := by
  have hnone : latest about place script = none := by
    apply List.find?_eq_none.mpr
    intro command hmem
    simpa using hspares command (List.mem_reverse.mp hmem)
  rw [latest_append, hnone, Option.none_or]

-- Commands about nothing of the kind leave every place as it was.
theorem latest_append_of_silent (hsilent : ∀ command ∈ script, about command = none) :
    latest about place (trace ++ script) = latest about place trace := by
  apply latest_append_of_spares
  intro command hmem
  rw [hsilent command hmem]
  exact (Option.some_ne_none place).symm

-- Each place that a command of one kind is given for has it as its latest one.
theorem latest_append_map {command : Nat → Command}
    (habout : ∀ other, about (command other) = some other) {others : List Nat}
    (hmem : place ∈ others) :
    latest about place (trace ++ others.map command) = some (command place) := by
  have hsome : latest about place (others.map command) = some (command place) := by
    have hfind : others.reverse.find? (fun other => other = place) = some place := by
      cases hfind : others.reverse.find? (fun other => other = place) with
      | none => simpa using List.find?_eq_none.mp hfind place (List.mem_reverse.mpr hmem)
      | some found => simpa using List.find?_some hfind
    simp only [latest, ← List.map_reverse, List.find?_map, Function.comp_def, habout,
      Option.some.injEq, hfind, Option.map_some]
  rw [latest_append, hsome, Option.some_or]

end

section

variable {rails resets count rail : Nat} {trace script before after : List Command}

theorem Came.up (h : Came rail trace) : Up rail trace := ⟨true, h⟩

theorem up_append_iff (hspares : ∀ command ∈ script, command.rail? = none) :
    Up rail (trace ++ script) ↔ Up rail trace := by
  simp only [Up, latest_append_of_silent hspares]

theorem up_append_singleton_iff {command : Command} (hother : command.rail? ≠ some rail) :
    Up rail (trace ++ [command]) ↔ Up rail trace := by
  simp only [Up, latest_append_singleton, if_neg hother]

theorem came_append_iff (hspares : ∀ command ∈ script, command.rail? = none) :
    Came rail (trace ++ script) ↔ Came rail trace := by
  simp only [Came, latest_append_of_silent hspares]

theorem firstUp_append_of_spares (h : FirstUp rails count trace)
    (hspares : ∀ command ∈ script, command.rail? = none) :
    FirstUp rails count (trace ++ script) := by
  intro rail hrail
  rw [up_append_iff hspares]
  exact h rail hrail

-- A rail that is switched on right above those that are up, or again among
-- them, leaves no gap.
theorem firstUp_switchOn (h : FirstUp rails count trace) (hrail : rail ≤ count) (came : Bool) :
    FirstUp rails (max count (rail + 1)) (trace ++ [.SwitchOn rail came]) := by
  intro other hother
  by_cases hsame : other = rail
  · subst hsame
    have hup : Up other (trace ++ [.SwitchOn other came]) :=
      ⟨came, by rw [latest_append_singleton, Command.rail?, if_pos rfl]⟩
    exact iff_of_true hup (by omega)
  · have hne : Command.rail? (.SwitchOn rail came) ≠ some other :=
      fun heq => hsame (Option.some.inj heq).symm
    rw [up_append_singleton_iff hne, h other hother]
    omega

-- Only the highest rail that is up can be switched off without a gap. One that
-- is already off may be switched off again.
theorem firstUp_switchOff (h : FirstUp rails count trace) (hrail : count ≤ rail + 1) :
    FirstUp rails (min count rail) (trace ++ [.SwitchOff rail]) := by
  intro other hother
  by_cases hsame : other = rail
  · subst hsame
    have hdown : ¬ Up other (trace ++ [.SwitchOff other]) := by
      intro hup
      obtain ⟨came, hlast⟩ := hup
      rw [latest_append_singleton, Command.rail?, if_pos rfl] at hlast
      cases hlast
    exact iff_of_false hdown (by omega)
  · have hne : Command.rail? (.SwitchOff rail) ≠ some other :=
      fun heq => hsame (Option.some.inj heq).symm
    rw [up_append_singleton_iff hne, h other hother]
    omega

theorem firstUp_nil : FirstUp rails 0 [] := by
  intro rail _
  refine iff_of_false ?_ (Nat.not_lt_zero _)
  intro hup
  obtain ⟨came, hlast⟩ := hup
  cases hlast

-- Once a hook has been called, what comes later does not change which it was.
theorem endedBy_append {hook : Hook} (h : endedBy after = some hook) (later : List Command) :
    endedBy (after ++ later) = some hook := by
  rw [endedBy, List.findSome?_append, ← endedBy, h, Option.some_or]

theorem endedBy_append_of_silent (hsilent : ∀ command ∈ script, command.hook? = none) :
    endedBy (script ++ after) = endedBy after := by
  rw [endedBy, List.findSome?_append, List.findSome?_eq_none_iff.mpr hsilent, Option.none_or,
    endedBy]

theorem Allowed.later {command : Command} (h : Allowed rails resets before command after)
    (later : List Command) : Allowed rails resets before command (after ++ later) := by
  refine ⟨h.ordered, h.released, ?_⟩
  intro rail hcommand
  rcases h.shutDown rail hcommand with hended | ⟨hended, hheld⟩
  · exact .inl (endedBy_append hended later)
  · exact .inr ⟨endedBy_append hended later, hheld⟩

-- Every command of a script is allowed when `before` was given earlier and
-- `after` comes later.
def AllowedFrom (rails resets : Nat) (after : List Command) :
    List Command → List Command → Prop
  | _, [] => True
  | before, command :: script =>
      Allowed rails resets before command (script ++ after) ∧
        AllowedFrom rails resets after (before ++ [command]) script

theorem allowedFrom_append {first second : List Command} :
    AllowedFrom rails resets after before (first ++ second) ↔
      AllowedFrom rails resets (second ++ after) before first ∧
        AllowedFrom rails resets after (before ++ first) second := by
  induction first generalizing before with
  | nil => simp [AllowedFrom]
  | cons command first ih =>
      simp only [List.cons_append, AllowedFrom, ih, List.append_assoc, List.nil_append, and_assoc]

theorem AllowedFrom.later (h : AllowedFrom rails resets after before script)
    (later : List Command) : AllowedFrom rails resets (after ++ later) before script := by
  induction script generalizing before with
  | nil => trivial
  | cons command script ih =>
      refine ⟨?_, ih h.2⟩
      rw [← List.append_assoc]
      exact h.1.later later

theorem allowedFrom_iff :
    AllowedFrom rails resets after before script ↔
      ∀ earlier command later, script = earlier ++ command :: later →
        Allowed rails resets (before ++ earlier) command (later ++ after) := by
  induction script generalizing before with
  | nil => simp [AllowedFrom]
  | cons first script ih =>
      rw [AllowedFrom, ih]
      constructor
      · intro hboth earlier command later hsplit
        obtain ⟨hfirst, hrest⟩ := hboth
        rcases List.cons_eq_append_iff.mp hsplit with ⟨rfl, hcons⟩ | ⟨earlier, rfl, hcons⟩
        · obtain ⟨rfl, rfl⟩ := List.cons.inj hcons
          rwa [List.append_nil]
        · rw [List.append_cons]
          exact hrest earlier command later hcons
      · intro h
        refine ⟨?_, ?_⟩
        · have hfirst := h [] first script rfl
          rwa [List.append_nil] at hfirst
        · intro earlier command later hsplit
          have hrest := h (first :: earlier) command later (by rw [hsplit, List.cons_append])
          rwa [List.append_cons] at hrest

theorem safe_iff : Safe rails resets trace ↔ AllowedFrom rails resets [] [] trace := by
  simp only [Safe, allowedFrom_iff, List.nil_append, List.append_nil]

theorem safe_nil : Safe rails resets [] := safe_iff.mpr trivial

-- A trace stays safe when it goes on with commands that are allowed after it.
theorem Safe.append (h : Safe rails resets trace)
    (hscript : AllowedFrom rails resets [] trace script) : Safe rails resets (trace ++ script) := by
  rw [safe_iff] at h ⊢
  rw [allowedFrom_append]
  exact ⟨h.later (script ++ []), hscript⟩

-- Commands that leave the rails alone are always in order. Those that release a
-- reset need every rail.
theorem allowedFrom_of_spares (h : FirstUp rails count before)
    (hspares : ∀ command ∈ script, command.rail? = none)
    (hreleases : ∀ reset, .Release reset ∈ script → ∀ rail < rails, Came rail before) :
    AllowedFrom rails resets after before script := by
  rw [allowedFrom_iff]
  intro earlier command later hsplit
  subst hsplit
  have hearlier : ∀ other ∈ earlier ++ [command], other.rail? = none := by
    intro other hother
    apply hspares
    rw [List.append_cons]
    exact List.mem_append_left _ hother
  refine ⟨⟨count, ?_⟩, ?_, ?_⟩
  · rw [List.append_assoc]
    exact firstUp_append_of_spares h hearlier
  · rintro reset rfl rail hrail
    rw [came_append_iff fun other hother =>
      hearlier other (List.mem_append_left _ hother)]
    exact hreleases reset (by simp) rail hrail
  · rintro rail rfl
    cases hearlier (.SwitchOff rail) (by simp)

-- Rails are switched on from one that is up, or right above those that are.
theorem allowedFrom_switchOn (start number : Nat) (h : FirstUp rails count before)
    (hstart : start ≤ count) :
    AllowedFrom rails resets after before ((List.range' start number).map (.SwitchOn · true)) ∧
    FirstUp rails (max count (start + number))
      (before ++ (List.range' start number).map (.SwitchOn · true)) := by
  induction number generalizing start count before with
  | zero => simpa [AllowedFrom, Nat.max_eq_left hstart] using h
  | succ number ih =>
      have hnext := firstUp_switchOn h hstart true
      obtain ⟨hallowed, hfirst⟩ := ih (start + 1) hnext (Nat.le_max_right _ _)
      have hcount : max (max count (start + 1)) (start + 1 + number) =
          max count (start + (number + 1)) := by omega
      rw [List.range'_succ, List.map_cons]
      refine ⟨⟨⟨⟨_, hnext⟩, nofun, nofun⟩, hallowed⟩, ?_⟩
      rw [List.append_cons, ← hcount]
      exact hfirst

-- Rails go off from the highest one down, in a shutdown that either ends in the
-- hook for a fault or has held every reset before.
theorem allowedFrom_switchOff (number : Nat) (h : FirstUp rails count before)
    (hcount : count ≤ number)
    (hended : endedBy after = some .Fault ∨
      (endedBy after = some .PowerOff ∧ ∀ reset < resets, Held reset before)) :
    AllowedFrom rails resets after before ((List.range number).reverse.map .SwitchOff) ∧
    FirstUp rails 0 (before ++ (List.range number).reverse.map .SwitchOff) := by
  induction number generalizing count before with
  | zero =>
      obtain rfl : count = 0 := Nat.le_zero.mp hcount
      simpa [AllowedFrom] using h
  | succ number ih =>
      have hnext := firstUp_switchOff h hcount
      have hheld : ∀ reset, Held reset before → Held reset (before ++ [.SwitchOff number]) := by
        intro reset hheld
        rw [Held, latest_append_singleton]
        exact hheld
      obtain ⟨hallowed, hfirst⟩ := ih hnext (Nat.min_le_right _ _) (hended.imp_right fun hoff =>
        ⟨hoff.1, fun reset hreset => hheld reset (hoff.2 reset hreset)⟩)
      have hrest : endedBy ((List.range number).reverse.map .SwitchOff ++ after) =
          endedBy after := by
        apply endedBy_append_of_silent
        simp [Command.hook?]
      rw [List.range_succ, List.reverse_append, List.reverse_singleton, List.singleton_append,
        List.map_cons]
      refine ⟨⟨⟨⟨_, hnext⟩, nofun, ?_⟩, hallowed⟩, ?_⟩
      · intro rail _
        rw [hrest]
        exact hended
      · rw [List.append_cons]
        exact hfirst

end

end BoardControl.Supervisor
