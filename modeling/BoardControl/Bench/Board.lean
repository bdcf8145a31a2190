import BoardControl.Bench.Event
import BoardControl.Bench.FlashChip
import BoardControl.Bench.Table
import BoardControl.Bitstream.Flash
import BoardControl.Boot.Image
import BoardControl.Boot.Store
import BoardControl.Crc32
import BoardControl.Pin
import BoardControl.Ticks
import BoardControl.Voltage

namespace BoardControl.Bench

-- What the next read of a pin does: it finds a level, or it fails.
inductive PinReading where
  | Level (level : Bool)
  | Failure
deriving DecidableEq, Repr

-- A pin of the bench. A broken pin refuses to be written.
structure PinState where
  level : Bool := false
  broken : Bool := false
  script : List PinReading := []
  reads : Nat := 0
  writes : Nat := 0

structure SensorState where
  millivolts : UInt32 := 0
  script : List UInt32 := []
  reads : Nat := 0

-- A simulated board, on which everything else can be run without hardware. Time
-- moves by `step` ticks at every look at the counter and by what is slept.
structure Board where
  now : UInt32 := 0
  step : UInt32 := 0
  sleeps : Nat := 0
  restarts : Nat := 0
  verbosity : Option Severity := none
  pins : Table PinState := {}
  sensors : Table SensorState := {}
  chip : FlashChip := {}
  objects : Table (List UInt8) := {}
  refusedKeys : List String := []
  events : Array Event := #[]

namespace Board

def emit (event : Event) : Action Board Unit :=
  modify fun board => { board with events := board.events.push event }

def currentTick : Action Board UInt32 := return (← get).now

def pin (board : Board) (name : String) : PinState := (board.pins.find? name).getD {}

def sensor (board : Board) (name : String) : SensorState := (board.sensors.find? name).getD {}

def setPin (name : String) (pin : PinState) (board : Board) : Board :=
  { board with pins := board.pins.insert name pin }

def setSensor (name : String) (sensor : SensorState) (board : Board) : Board :=
  { board with sensors := board.sensors.insert name sensor }

-- Makes a pin or a sensor known to the bench.
def connectPin (name : String) : Action Board Unit :=
  modify fun board => board.setPin name (board.pin name)

def connectSensor (name : String) : Action Board Unit :=
  modify fun board => board.setSensor name (board.sensor name)

instance : TickCounter Board where
  count board := (board.now, { board with now := board.now + board.step })
  sleep ticks board := ((), { board with now := board.now + ticks, sleeps := board.sleeps + 1 })
  restart board := ((), { board with now := 0, restarts := board.restarts + 1 })

instance : Logger Board where
  enabled severity board :=
    match board.verbosity with
    | none => false
    | some limit => severity.rank ≤ limit.rank
  record severity text board :=
    { board with events := board.events.push (.Logged severity text) }

-- The next scripted reading of a pin changes its level before it is read.
def readPin (pin : PinState) : Option Bool × PinState :=
  match pin.script with
  | [] => (some pin.level, { pin with reads := pin.reads + 1 })
  | .Level level :: rest =>
      (some level, { pin with level := level, script := rest, reads := pin.reads + 1 })
  | .Failure :: rest => (none, { pin with script := rest, reads := pin.reads + 1 })

def readSensor (sensor : SensorState) : UInt32 × SensorState :=
  match sensor.script with
  | [] => (sensor.millivolts, { sensor with reads := sensor.reads + 1 })
  | value :: rest =>
      (value, { sensor with millivolts := value, script := rest, reads := sensor.reads + 1 })

instance : InputPin Board String where
  read name board :=
    let (reading, pin) := readPin (board.pin name)
    (reading, board.setPin name pin)

instance : OutputPin Board String where
  write name level := do
    let pin := (← get).pin name
    let pin := { pin with writes := pin.writes + 1 }
    if pin.broken then
      modify (setPin name pin)
      emit (.DriveFailed name level (← currentTick))
      pure false
    else
      modify (setPin name { pin with level := level })
      emit (.Driven name level (← currentTick))
      pure true

instance : VoltageSensor Board String where
  read name board :=
    let (value, sensor) := readSensor (board.sensor name)
    (value, board.setSensor name sensor)

def changeChip (change : FlashChip → FlashChip) (board : Board) : Board :=
  { board with chip := change board.chip }

instance : Flash Board where
  sectorSize board := board.chip.sector
  pageSize board := board.chip.page
  erase addr := do
    let ok := !(← get).chip.failErase.contains addr
    modify fun board => { board with now := board.now + board.chip.eraseTicks }
    modify (changeChip fun chip => { chip with erases := chip.erases + 1 })
    if ok then modify (changeChip (FlashChip.eraseSector addr))
    emit (.Erased addr ok)
    pure ok
  write addr data := do
    let ok := !(← get).chip.failWrite.contains addr
    modify (changeChip fun chip => { chip with writes := chip.writes + 1 })
    if ok then modify (changeChip (FlashChip.writeBytes addr data))
    emit (.Wrote addr data.length ok)
    pure ok
  read addr count := do
    modify (changeChip fun chip => { chip with reads := chip.reads + 1 })
    pure ((← get).chip.readBytes addr.toNat count)

instance : ValueStore Board where
  find? key board := board.objects.find? key
  store key value := do
    let ok := !(← get).refusedKeys.contains key
    if ok then modify fun board => { board with objects := board.objects.insert key value }
    emit (.Stored key value ok)
    pure (if ok then .ok () else .error .WriteFailed)

instance : Boot.Checksum Board where
  ofImage := Crc32.ofBytes

end Board

end BoardControl.Bench
