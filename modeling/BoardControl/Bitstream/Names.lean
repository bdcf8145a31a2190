namespace BoardControl.Bitstream

-- Names of the configuration registers and of the values of the command
-- register, by number.

def registerNames : List String :=
  ["CRC", "FAR", "FDRI", "FDRO", "CMD", "CTL0", "MASK", "STAT", "LOUT", "COR0", "MFWR", "CBC",
    "IDCODE", "AXSS", "COR1", "RSVD_0f", "WBSTAR", "TIMER", "RSVD_12", "RSVD_13", "RSVD_14",
    "RSVD_15", "BOOTSTS", "RSVD_17", "CTL1", "RSVD_19", "RSVD_1a", "RSVD_1b", "RSVD_1c",
    "RSVD_1d", "RSVD_1e", "BSPI"]

def commandNames : List String :=
  ["NULL", "WCFG", "MFW", "DHIGH/LFRM", "RCFG", "START", "RCAP", "RCRC", "AGHIGH", "SWITCH",
    "GRESTORE", "SHUTDOWN", "GCAPTURE", "DESYNC", "RSVD_0e", "IPROG", "CRCC", "LTIMER",
    "BSPI_READ", "FALL_EDGE", "RSVD_14", "RSVD_15", "RSVD_16", "RSVD_17", "RSVD_18", "RSVD_19",
    "RSVD_1a", "RSVD_1b", "RSVD_1c", "RSVD_1d", "RSVD_1e", "RSVD_1f"]

-- A register without a name is shown as a question mark.
def registerName (register : UInt16) : String := registerNames[register.toNat]?.getD "?"

-- Only the low five bits of a command count.
def commandName (command : UInt32) : String := commandNames[(command &&& 0x1f).toNat]?.getD "?"

theorem length_registerNames : registerNames.length = 32 := rfl

theorem length_commandNames : commandNames.length = 32 := rfl

end BoardControl.Bitstream
