import BoardControl.Pin
import BoardControl.Proofs.Supervisor.Trace
import BoardControl.Voltage

namespace BoardControl.Supervisor

open Recorded

-- What can be seen of a supervisor from outside: the levels that it drives, how
-- long it sleeps, and the hooks that it calls.
inductive PinEvent (π : Type) where
  | Drove (pin : π) (level : Bool)
  | Slept (ticks : UInt32)
  | Called (hook : Hook)
deriving DecidableEq, Repr

namespace PinEvent

variable {π : Type}

def pin? : PinEvent π → Option π
  | .Drove pin _ => some pin
  | .Slept _ | .Called _ => none

def level? [DecidableEq π] (pin : π) : PinEvent π → Option Bool
  | .Drove other level => if other = pin then some level else none
  | .Slept _ | .Called _ => none

end PinEvent

-- The level that a pin was driven to last.
def lastLevel {π : Type} [DecidableEq π] (pin : π) : List (PinEvent π) → Option Bool
  | [] => none
  | event :: rest => (lastLevel pin rest).or (event.level? pin)

section

variable {π : Type} [DecidableEq π] {pin : π}

theorem lastLevel_append (first second : List (PinEvent π)) :
    lastLevel pin (first ++ second) = (lastLevel pin second).or (lastLevel pin first) := by
  induction first with
  | nil => exact Option.or_none.symm
  | cons event rest ih => rw [List.cons_append, lastLevel, ih, Option.or_assoc, lastLevel]

theorem lastLevel_eq_none {events : List (PinEvent π)} (hpin : pin ∉ events.filterMap PinEvent.pin?) :
    lastLevel pin events = none := by
  induction events with
  | nil => rfl
  | cons event rest ih =>
      cases event with
      | Drove other level =>
          change pin ∉ other :: rest.filterMap PinEvent.pin? at hpin
          rw [List.mem_cons, not_or] at hpin
          rw [lastLevel, ih hpin.2, Option.none_or, PinEvent.level?, if_neg (Ne.symm hpin.1)]
      | Slept ticks => exact (congrArg (Option.or · none) (ih hpin)).trans Option.or_none
      | Called hook => exact (congrArg (Option.or · none) (ih hpin)).trans Option.or_none

-- A pin that is driven once stays as it was driven.
theorem lastLevel_of_mem {level : Bool} {events : List (PinEvent π)}
    (hmem : .Drove pin level ∈ events) (hpins : (events.filterMap PinEvent.pin?).Nodup) :
    lastLevel pin events = some level := by
  induction events with
  | nil => cases hmem
  | cons event rest ih =>
      rw [lastLevel]
      rcases List.mem_cons.mp hmem with rfl | hrest
      · change (pin :: rest.filterMap PinEvent.pin?).Nodup at hpins
        rw [List.nodup_cons] at hpins
        rw [lastLevel_eq_none hpins.1, Option.none_or, PinEvent.level?, if_pos rfl]
      · have hpins : (rest.filterMap PinEvent.pin?).Nodup := by
          refine hpins.sublist ?_
          exact (List.sublist_cons_self event rest).filterMap _
        rw [ih hrest hpins, Option.some_or]

end

-- A board whose pins are written down, with the sleeps and the hooks.
abbrev Probed (σ π : Type) := Recorded σ (PinEvent π)

section

variable {σ π : Type}

instance : TickEvents (PinEvent π) where
  slept ticks := [.Slept ticks]

instance : HookEvents (PinEvent π) where
  called := .Called

instance [OutputPin σ π] : OutputPin (Probed σ π) π where
  write pin level := noting (fun _ => [.Drove pin level]) (OutputPin.write pin level)

instance {ι : Type} [InputPin σ ι] : InputPin (Probed σ π) ι where
  read pin := noting (fun _ => []) (InputPin.read pin)

instance {ς : Type} [VoltageSensor σ ς] : VoltageSensor (Probed σ π) ς where
  read sensor := noting (fun _ => []) (VoltageSensor.read sensor)

end

-- What an output pin is like. A broken one cannot be driven.
structure Contact where
  level : Bool
  broken : Bool
deriving DecidableEq, Repr

-- Output pins as they are on a board: a write drives its own pin, unless that one
-- is broken, and only writes change a pin.
structure Panel (σ π η : Type) [Logger σ] [TickCounter σ] [OutputPin σ π] [Hooks σ η] where
  contact : σ → π → Contact
  driven (pin : π) (level : Bool) (board : σ) : (contact board pin).broken = false →
    contact (OutputPin.write pin level board).2 pin = ⟨level, false⟩
  stuck (pin : π) (level : Bool) (board : σ) : (contact board pin).broken = true →
    (contact (OutputPin.write pin level board).2 pin).broken = true
  apart (pin other : π) (level : Bool) (board : σ) : other ≠ pin →
    contact (OutputPin.write pin level board).2 other = contact board other
  logged (severity : Severity) (text : String) (board : σ) :
    contact (Logger.record severity text board) = contact board
  slept (ticks : UInt32) (board : σ) : contact (TickCounter.sleep ticks board).2 = contact board
  onPowerOff (hooks : η) (board : σ) : contact (Hooks.onPowerOff hooks board).2 = contact board
  onFault (hooks value : η) (board after : σ) : Hooks.onFault hooks board = .ok value after →
    contact after = contact board

section

variable {σ π η α β : Type} [Logger σ] [TickCounter σ] [OutputPin σ π] [Hooks σ η]
  [DecidableEq π]

-- The board went on with these events, and the pins that work are as they were
-- driven last.
structure Tracked (panel : Panel σ π η) (events : List (PinEvent π)) (before after : Probed σ π) :
    Prop where
  events_eq : after.events = before.events ++ events
  broken_eq : ∀ pin,
    (panel.contact after.board pin).broken = (panel.contact before.board pin).broken
  level_eq : ∀ pin, (panel.contact before.board pin).broken = false →
    (panel.contact after.board pin).level =
      (lastLevel pin events).getD (panel.contact before.board pin).level

-- An action makes these events, wherever it starts.
def Steers (panel : Panel σ π η) (act : Action (Probed σ π) α) (events : List (PinEvent π)) :
    Prop :=
  ∀ probed, Tracked panel events probed (act probed).2

variable {panel : Panel σ π η} {first second events : List (PinEvent π)}
  {before middle after : Probed σ π}

theorem Tracked.append (h : Tracked panel first before middle)
    (hnext : Tracked panel second middle after) :
    Tracked panel (first ++ second) before after where
  events_eq := by rw [hnext.events_eq, h.events_eq, List.append_assoc]
  broken_eq pin := (hnext.broken_eq pin).trans (h.broken_eq pin)
  level_eq pin hworks := by
    have hstill := (h.broken_eq pin).trans hworks
    rw [hnext.level_eq pin hstill, h.level_eq pin hworks, lastLevel_append]
    cases lastLevel pin second <;> rfl

-- Nothing but a pin that is driven changes one.
theorem Tracked.of_contact_eq
    (hcontact : panel.contact after.board = panel.contact before.board)
    (hevents : after.events = before.events ++ events)
    (hpins : events.filterMap PinEvent.pin? = []) : Tracked panel events before after where
  events_eq := hevents
  broken_eq pin := by rw [hcontact]
  level_eq pin _ := by
    rw [lastLevel_eq_none (by rw [hpins]; exact List.not_mem_nil), hcontact]
    rfl

namespace Steers

theorem pure (value : α) : Steers panel (Pure.pure value : Action (Probed σ π) α) [] :=
  fun _ => .of_contact_eq rfl (List.append_nil _).symm rfl

theorem bind {act : Action (Probed σ π) α} {next : α → Action (Probed σ π) β}
    (hact : Steers panel act first) (hnext : ∀ value, Steers panel (next value) second) :
    Steers panel (act >>= next) (first ++ second) :=
  fun probed => (hact probed).append (hnext _ _)

theorem log (severity : Severity) (text : String) :
    Steers panel (BoardControl.log severity text : Action (Probed σ π) Unit) [] := by
  intro probed
  simp only [BoardControl.log]
  split
  · exact .of_contact_eq (panel.logged severity text probed.board) (List.append_nil _).symm rfl
  · exact .of_contact_eq rfl (List.append_nil _).symm rfl

theorem sleep (ticks : UInt32) :
    Steers panel (TickCounter.sleep ticks : Action (Probed σ π) Unit) [.Slept ticks] :=
  fun probed => .of_contact_eq (panel.slept ticks probed.board) rfl rfl

theorem onPowerOff (hooks : η) :
    Steers panel (Hooks.onPowerOff hooks : Action (Probed σ π) η) [.Called .PowerOff] :=
  fun probed => .of_contact_eq (panel.onPowerOff hooks probed.board) rfl rfl

theorem drive (polarity : Polarity) (pin : π) (asserted : Bool) :
    Steers panel (polarity.drive pin asserted : Action (Probed σ π) Bool)
      [.Drove pin (polarity.level asserted)] := by
  intro probed
  have hcontact (other : π) (hother : other ≠ pin) :=
    panel.apart pin other (polarity.level asserted) probed.board hother
  have hdriven := panel.driven pin (polarity.level asserted) probed.board
  have hstuck := panel.stuck pin (polarity.level asserted) probed.board
  refine ⟨rfl, ?_, ?_⟩
  · intro other
    by_cases hother : other = pin
    · subst hother
      cases hbroken : (panel.contact probed.board other).broken with
      | true => exact hstuck hbroken
      | false => exact congrArg Contact.broken (hdriven hbroken)
    · exact congrArg Contact.broken (hcontact other hother)
  · intro other hworks
    by_cases hother : other = pin
    · subst hother
      simp only [lastLevel, PinEvent.level?, ↓reduceIte, Option.none_or, Option.getD_some]
      exact congrArg Contact.level (hdriven hworks)
    · simp only [lastLevel, PinEvent.level?, if_neg (Ne.symm hother), Option.or_none,
        Option.getD_none]
      exact congrArg Contact.level (hcontact other hother)

-- A complaint about a pin that could not be driven changes nothing.
theorem warned {act : Action (Probed σ π) Bool} {rest : Action (Probed σ π) α}
    (severity : Severity) (text : String) (hact : Steers panel act first)
    (hrest : Steers panel rest second) :
    Steers panel (do
      unless ← act do BoardControl.log severity text
      rest) (first ++ second) := by
  refine hact.bind fun driven => ?_
  cases driven with
  | true => exact hrest
  | false => exact (log severity text).bind fun _ => hrest

end Steers

end

end BoardControl.Supervisor
