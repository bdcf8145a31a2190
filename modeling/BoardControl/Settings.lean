namespace BoardControl.Settings

-- The sizes, times and names that the board is configured with. Times are in
-- ticks, voltages in millivolts, sizes in bytes.

def tickRate : UInt32 := 10000

def ticksPerMillisecond : UInt32 := tickRate / 1000

-- The count at which the scheduler restarts the tick counter, six seconds.
def wrapCeiling : UInt32 := 60000

def maxTasks : Nat := 16

def maxTimerTasks : Nat := 8

-- The pause after each rail of an orderly power-off, one millisecond.
def railOffSettle : UInt32 := 10

-- The capacity of the receive buffer and of the write buffer.
def streamBuffer : Nat := 4096

-- The largest flash page that can be read back for a comparison.
def maxPage : Nat := 512

def blankCheckBlock : Nat := 256

-- Addresses at multiples of this are logged while erasing and writing.
def progressInterval : UInt32 := 0x100000

def imageOffset : UInt32 := 0

def imageSize : UInt32 := 0x400000

def deviceName : String := "7a100tfgg484"

def versionKey : String := "firmware.imageVersion"

def checksumKey : String := "firmware.crc"

-- The version text of an application and its terminator take at most this many
-- bytes, from this position of the image.
def versionLength : Nat := 32

def versionOffset : Nat := 0x400

def heartbeatPeriod : UInt32 := 5000

def powerGoodTimeout : UInt16 := 500

def railSettle : UInt16 := 50

def auxiliaryNominal : UInt32 := 1800

def sensedTolerance : UInt32 := 5

def resetSettle : UInt16 := 100

-- Pin names as on the schematic of the board.
namespace Pins

def statusLed : String := "PA5"

def inputGood : String := "PB0"

def enable3V3 : String := "PB1"

def good3V3 : String := "PB2"

def enable1V0 : String := "PB10"

def good1V0 : String := "PB11"

def enable1V8 : String := "PB12"

def sense1V8 : String := "PA0"

def fpgaProgram : String := "PC0"

def fpgaDone : String := "PC1"

def mcuReset : String := "PC2"

def all : List String :=
  [statusLed, inputGood, enable3V3, good3V3, enable1V0, good1V0, enable1V8, sense1V8,
    fpgaProgram, fpgaDone, mcuReset]

end Pins

-- The numbers and the texts of the configuration sheet under their sheet names.
def numbers : List (String × Nat) :=
  [("TICK_HZ", tickRate.toNat),
    ("TICKS_PER_MS", ticksPerMillisecond.toNat),
    ("TIMER_WRAP_CEILING", wrapCeiling.toNat),
    ("MAX_TASKS", maxTasks),
    ("MAX_TIMER_TASKS", maxTimerTasks),
    ("RAIL_OFF_SETTLE_TICKS", railOffSettle.toNat),
    ("BIT_RX_BUFFER_SIZE", streamBuffer),
    ("MAX_READBACK_BLOCK", maxPage),
    ("BLANK_CHECK_BLOCK", blankCheckBlock),
    ("PROGRESS_LOG_INTERVAL", progressInterval.toNat),
    ("DEFAULT_FPGA_IMAGE_OFFSET", imageOffset.toNat),
    ("DEFAULT_FPGA_IMAGE_SIZE", imageSize.toNat),
    ("APP_VERSION_MAX_LEN", versionLength),
    ("APP_VERSION_OFFSET", versionOffset),
    ("HEARTBEAT_PERIOD_TICKS", heartbeatPeriod.toNat),
    ("RAIL_PGOOD_TIMEOUT_TICKS", powerGoodTimeout.toNat),
    ("RAIL_SETTLE_TICKS", railSettle.toNat),
    ("AUX_1V8_NOMINAL_MV", auxiliaryNominal.toNat),
    ("SENSED_RAIL_TOLERANCE_PCT", sensedTolerance.toNat),
    ("RESET_SETTLE_TICKS", resetSettle.toNat)]

def texts : List (String × String) :=
  [("FPGA_DEVICE_NAME", deviceName),
    ("IMAGE_VERSION_KEY", versionKey),
    ("IMAGE_CRC_KEY", checksumKey)]

end BoardControl.Settings
