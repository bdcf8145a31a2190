import BoardControl.Rail
import BoardControl.Reset

namespace BoardControl.Supervisor

-- Walks over the rail list and the reset list. Lists are always handed back in
-- their own order, whichever way they were walked.
section

variable {σ ρ κ α : Type}

-- Turns rails on in list order and stops at the first one that fails.
def switchOnAll [Rail σ ρ] : List ρ → Action σ Bool
  | [] => pure true
  | rail :: rest => do
      match ← Rail.switchOn rail with
      | .ok () => switchOnAll rest
      | .error _ => pure false

def switchOffEach [Rail σ ρ] : List ρ → Action σ Unit
  | [] => pure ()
  | rail :: rest => do
      Rail.switchOff rail
      switchOffEach rest

-- Turns rails off with a pause after each.
def switchOffPaused [Rail σ ρ] (pause : Action σ Unit) : List ρ → Action σ Unit
  | [] => pure ()
  | rail :: rest => do
      Rail.switchOff rail
      pause
      switchOffPaused pause rest

def holdInOrder [Reset σ κ] : List κ → Action σ (List κ)
  | [] => pure []
  | line :: rest => do
      let line ← Reset.hold line
      let rest ← holdInOrder rest
      pure (line :: rest)

def holdFromLast [Reset σ κ] : List κ → Action σ (List κ)
  | [] => pure []
  | line :: rest => do
      let rest ← holdFromLast rest
      let line ← Reset.hold line
      pure (line :: rest)

-- Uses the line at a position, which has to be there.
def visit (act : κ → Action σ (α × κ)) : Nat → List κ → Run σ (α × List κ)
  | _, [] => throw .OutOfRange
  | 0, line :: rest => do
      let (answer, line) ← perform (act line)
      pure (answer, line :: rest)
  | position + 1, line :: rest => do
      let (answer, rest) ← visit act position rest
      pure (answer, line :: rest)

-- Asks the first `count` lines in order and stops at the first that is not
-- ready, whose position is the answer.
def firstDown [Reset σ κ] : Nat → List κ → Run σ (Option Nat × List κ)
  | 0, lines => pure (none, lines)
  | _ + 1, [] => throw .OutOfRange
  | count + 1, line :: rest => do
      let (ready, line) ← perform (Reset.isReady line)
      if ready then
        let (down, rest) ← firstDown count rest
        pure (down.map (· + 1), line :: rest)
      else
        pure (some 0, line :: rest)

end

end BoardControl.Supervisor
