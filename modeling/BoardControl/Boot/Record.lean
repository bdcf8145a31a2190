namespace BoardControl.Boot

-- What the previous run was doing when it was reset.
inductive BootState where
  | Por
  | App
  | Dfu
  | Crash
deriving DecidableEq, Repr, Inhabited

namespace BootState

-- A word that names no state counts as a cold boot.
def ofWord (word : UInt32) : BootState :=
  match word.toNat with
  | 1 => .App
  | 2 => .Dfu
  | 3 => .Crash
  | _ => .Por

def toWord : BootState → UInt32
  | .Por => 0
  | .App => 1
  | .Dfu => 2
  | .Crash => 3

theorem ofWord_toWord (state : BootState) : ofWord state.toWord = state := by
  cases state <;> rfl

end BootState

-- The handler that caught a crash.
inductive CrashReason where
  | UnusedIsr
  | Nmi
  | HardFault
  | BusFault
  | UsageFault
  | MmuFault
deriving DecidableEq, Repr

namespace CrashReason

def ofWord? (word : UInt32) : Option CrashReason :=
  match word.toNat with
  | 0 => some .UnusedIsr
  | 1 => some .Nmi
  | 2 => some .HardFault
  | 3 => some .BusFault
  | 4 => some .UsageFault
  | 5 => some .MmuFault
  | _ => none

def toWord : CrashReason → UInt32
  | .UnusedIsr => 0
  | .Nmi => 1
  | .HardFault => 2
  | .BusFault => 3
  | .UsageFault => 4
  | .MmuFault => 5

def name : CrashReason → String
  | .UnusedIsr => "Unused ISR called"
  | .Nmi => "NMI"
  | .HardFault => "Hard fault"
  | .BusFault => "Bus fault"
  | .UsageFault => "Usage fault"
  | .MmuFault => "MMU fault"

theorem ofWord?_toWord (reason : CrashReason) : ofWord? reason.toWord = some reason := by
  cases reason <;> rfl

end CrashReason

-- The record that survives a warm reset. The crash word has a meaning after a
-- crash only, and is kept as it is.
structure BootRecord where
  state : BootState := .Por
  crashWord : UInt32 := 0
deriving DecidableEq, Repr, Inhabited

namespace BootRecord

def ofWords (state crash : UInt32) : BootRecord := ⟨BootState.ofWord state, crash⟩

def toWords (record : BootRecord) : UInt32 × UInt32 := (record.state.toWord, record.crashWord)

def crashed (reason : CrashReason) : BootRecord := ⟨.Crash, reason.toWord⟩

def crash? (record : BootRecord) : Option CrashReason := CrashReason.ofWord? record.crashWord

end BootRecord

end BoardControl.Boot
