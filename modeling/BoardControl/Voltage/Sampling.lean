import BoardControl.Voltage.Divider

namespace BoardControl.Voltage

-- A rail measured by averaging samples of a 12-bit converter with a 3300 mV
-- reference, behind a divider.
namespace Sampling

def reference : UInt32 := 3300

def fullScale : UInt32 := 4095

def oversampling : Nat := 8

-- The sum of the samples fits: each has 16 bits.
def sum (samples : Vector UInt16 oversampling) : UInt32 :=
  samples.foldl (fun total sample => total + sample.toUInt32) 0

def average (samples : Vector UInt16 oversampling) : UInt16 :=
  (sum samples / oversampling.toUInt32).toUInt16

def millivolts (divider : Divider) (samples : Vector UInt16 oversampling) :
    Except Fault UInt32 := do
  let pin := (← Word.mul (average samples).toUInt32 reference) / fullScale
  divider.railMillivolts pin

end Sampling

end BoardControl.Voltage
