import BoardControl.Proofs.Supervisor.Monitoring

namespace BoardControl.Supervisor

-- What passes between a supervisor and its board: the commands it gives, and the
-- answers of the resets and rails that it asks, each by its place.
inductive Exchange where
  | Gave (command : Command)
  | Asked (reset : Nat) (ready : Bool)
  | Measured (rail : Nat) (good : Bool)
deriving DecidableEq, Repr

-- A board with what was exchanged with it.
abbrev Overheard (σ : Type) := Recorded σ Exchange

instance : Transcript Exchange where
  command := .Gave
  measured rail good := [.Measured rail good]
  asked reset ready := [.Asked reset ready]

@[simp] theorem transcript_exchange (command : Command) :
    Transcript.command command = Exchange.Gave command := rfl

@[simp] theorem asked_exchange (reset : Nat) (ready : Bool) :
    Transcript.asked reset ready = [Exchange.Asked reset ready] := rfl

namespace Exchange

def command? : Exchange → Option Command
  | .Gave command => some command
  | _ => none

def answer? (reset : Nat) : Exchange → Option Bool
  | .Asked other ready => if other = reset then some ready else none
  | _ => none

end Exchange

def commandsOf (exchanges : List Exchange) : List Command :=
  exchanges.filterMap Exchange.command?

-- The latest answer of a reset.
def latestAnswer (reset : Nat) (exchanges : List Exchange) : Option Bool :=
  exchanges.reverse.findSome? (Exchange.answer? reset)

section

variable {reset count : Nat} {exchanges : List Exchange}

@[simp] theorem commandsOf_append (first second : List Exchange) :
    commandsOf (first ++ second) = commandsOf first ++ commandsOf second :=
  List.filterMap_append

theorem commandsOf_gave (give : Nat → Command) (places : List Nat) :
    commandsOf (places.map (.Gave <| give ·)) = places.map give := by
  simp [commandsOf, Exchange.command?, Function.comp_def]

@[simp] theorem commandsOf_cons_asked (ready : Bool) :
    commandsOf (.Asked reset ready :: exchanges) = commandsOf exchanges := rfl

@[simp] theorem commandsOf_asked (ready : Bool) (places : List Nat) :
    commandsOf (places.map (.Asked · ready)) = [] := by
  simp [commandsOf, Exchange.command?]

theorem latestAnswer_append (first second : List Exchange) :
    latestAnswer reset (first ++ second) =
      (latestAnswer reset second).or (latestAnswer reset first) := by
  simp only [latestAnswer, List.reverse_append, List.findSome?_append]

theorem latestAnswer_of_silent (hsilent : ∀ exchange ∈ exchanges, exchange.answer? reset = none) :
    latestAnswer reset exchanges = none := by
  rw [latestAnswer, List.findSome?_eq_none_iff]
  intro exchange hmem
  exact hsilent exchange (List.mem_reverse.mp hmem)

-- Commands do not ask.
theorem latestAnswer_gave (give : Nat → Command) (places : List Nat) :
    latestAnswer reset (places.map (.Gave <| give ·)) = none := by
  apply latestAnswer_of_silent
  simp [Exchange.answer?]

theorem latestAnswer_cons_gave (ready : Bool) (give : Nat → Command) (places : List Nat) :
    latestAnswer reset (.Asked count ready :: places.map (.Gave <| give ·)) =
      if count = reset then some ready else none := by
  rw [← List.singleton_append, latestAnswer_append, latestAnswer_gave, Option.none_or]
  by_cases hsame : count = reset <;> simp [latestAnswer, Exchange.answer?, hsame]

-- Resets that were asked in list order and were all ready.
theorem latestAnswer_asked (hreset : reset < count) :
    latestAnswer reset ((List.range count).map (.Asked · true)) = some true := by
  induction count with
  | zero => exact absurd hreset (Nat.not_lt_zero _)
  | succ count ih =>
      rw [List.range_succ, List.map_append, latestAnswer_append]
      by_cases hlast : count = reset
      · simp [latestAnswer, Exchange.answer?, hlast]
      · rw [ih (by omega), latestAnswer_of_silent, Option.none_or]
        simp [Exchange.answer?, hlast]

end

end BoardControl.Supervisor
