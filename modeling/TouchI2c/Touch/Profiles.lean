import TouchI2c.Smbios.Walk

/-!
# Device profiles

The table of known devices, with the constants of each, and the test of a profile against the
identity that SMBIOS gives. A profile's name is only logged and is left out.

A string of the table that may be NULL is an option. A profile asks for an exact product name, or,
without one, for a board name that begins with one of two strings; an empty name matches nothing. A
profile without a fixed controller (`I2cBase` zero, AMD) is found by the sweep only.
-/

namespace TouchI2c

open CMemory

/-! ## Constants -/

def dwI2cFchBase0 : UInt32 := 0xFEDC2000
def dwI2cFchBase1 : UInt32 := 0xFEDC3000
def dwI2cFchBase2 : UInt32 := 0xFEDC4000
def dwI2cFchBase3 : UInt32 := 0xFEDC5000
def dwI2cFchBase4 : UInt32 := 0xFEDC6000

def fchAoacDevI2c0 : UInt8 := 5
def fchAoacDevI2c1 : UInt8 := 6

def nvtkI2cAddr : UInt8 := 0x01
def ftsI2cAddr : UInt8 := 0x38
def goodixI2cAddrA : UInt8 := 0x14
def goodixI2cAddrB : UInt8 := 0x5D
def elanI2cAddr : UInt8 := 0x10
def iltkI2cAddr : UInt8 := 0x10

def amdGpioBankBase : UInt32 := 0xFED81500

/-- `AMD_GPIO_REG (Pin)`. -/
def amdGpioReg (pin : UInt32) : UInt32 := amdGpioBankBase + 4 * pin

/-- `TOUCH_AOAC_SWEEP`. -/
def touchAoacSweep : UInt8 := 0xFF

/-! ## The table -/

/-- `TOUCH_PLATFORM`. -/
inductive TouchPlatform where
  | amdFch
  | intelLpss
  | mtkI2c
  deriving DecidableEq, Repr

/-- `TOUCH_PROFILE`. -/
structure TouchProfile where
  dmiProduct : Option String
  dmiBoardA : Option String
  dmiBoardB : Option String
  i2cBase : UInt32
  slaveAddr : UInt8
  hidDescReg : UInt16
  aoacDev : UInt8
  resetGpioReg : UInt32
  platform : TouchPlatform := .amdFch
  pciDid : UInt16 := 0
  pciDev : UInt8 := 0
  pciFunc : UInt8 := 0
  dmaBase : UInt32 := 0
  acpiHid : String := ""
  acpiUid : UInt32 := 0
  deriving DecidableEq

/-- A sweep profile: identified, but without confirmed panel constants. -/
def sweepProfile (dmiProduct dmiBoardA : Option String) : TouchProfile where
  dmiProduct := dmiProduct
  dmiBoardA := dmiBoardA
  dmiBoardB := none
  i2cBase := 0
  slaveAddr := 0
  hidDescReg := 0
  aoacDev := touchAoacSweep
  resetGpioReg := 0

def rogXboxAllyX : TouchProfile where
  dmiProduct := none
  dmiBoardA := some "RC73XA"
  dmiBoardB := some "RC73YA"
  i2cBase := dwI2cFchBase0
  slaveAddr := nvtkI2cAddr
  hidDescReg := 0x0000
  aoacDev := fchAoacDevI2c0
  resetGpioReg := 0

def gpdWin5 : TouchProfile where
  dmiProduct := some "G1618-05"
  dmiBoardA := none
  dmiBoardB := none
  i2cBase := dwI2cFchBase1
  slaveAddr := nvtkI2cAddr
  hidDescReg := 0x0000
  aoacDev := fchAoacDevI2c1
  resetGpioReg := 0

def steamDeckOled : TouchProfile where
  dmiProduct := some "Galileo"
  dmiBoardA := none
  dmiBoardB := none
  i2cBase := dwI2cFchBase1
  slaveAddr := ftsI2cAddr
  hidDescReg := 0x0000
  aoacDev := fchAoacDevI2c1
  resetGpioReg := amdGpioReg 85

def steamDeckLcd : TouchProfile where
  dmiProduct := some "Jupiter"
  dmiBoardA := none
  dmiBoardB := none
  i2cBase := dwI2cFchBase1
  slaveAddr := ftsI2cAddr
  hidDescReg := 0x0000
  aoacDev := fchAoacDevI2c1
  resetGpioReg := amdGpioReg 69

def zenbookUx8402 : TouchProfile where
  dmiProduct := none
  dmiBoardA := some "UX8402VV"
  dmiBoardB := none
  i2cBase := 0
  slaveAddr := elanI2cAddr
  hidDescReg := 0x0001
  aoacDev := 0
  resetGpioReg := 0
  platform := .intelLpss
  pciDid := 0x51E8
  pciDev := 0x15
  pciFunc := 0x0

def proArtP16 : TouchProfile where
  dmiProduct := none
  dmiBoardA := some "H7607BA"
  dmiBoardB := none
  i2cBase := 0x16BA0000
  slaveAddr := iltkI2cAddr
  hidDescReg := 0x0001
  aoacDev := 0
  resetGpioReg := 0
  platform := .mtkI2c
  dmaBase := 0x16AA0000
  acpiHid := "NVDA0200"
  acpiUid := 2

/-- `mProfiles`. -/
def mProfiles : List TouchProfile :=
  [rogXboxAllyX, gpdWin5, steamDeckOled, steamDeckLcd, zenbookUx8402, proArtP16,
   sweepProfile none (some "RC71L"), sweepProfile none (some "RC72LA"),
   sweepProfile (some "83E1") none]

/-- The table has one MediaTek profile. -/
theorem eq_proArtP16 {prof : TouchProfile} (hprof : prof ∈ mProfiles)
    (hplatform : prof.platform = .mtkI2c) : prof = proArtP16 := by
  simp only [mProfiles, List.mem_cons, List.not_mem_nil, or_false] at hprof
  rcases hprof with rfl | rfl | rfl | rfl | rfl | rfl | rfl | rfl | rfl <;> first
    | rfl
    | contradiction

/-- `TOUCH_PROFILE_COUNT`. -/
def touchProfileCount : ℕ := mProfiles.length

/-- `mCandidateAddrs`. -/
def mCandidateAddrs : List UInt8 :=
  [nvtkI2cAddr, ftsI2cAddr, goodixI2cAddrA, goodixI2cAddrB, elanI2cAddr]

/-- `mCandidateDescRegs`. -/
def mCandidateDescRegs : List UInt16 := [0x0000, 0x0001, 0x0020]

/-- `mSweepBases`. -/
def mSweepBases : List UInt32 :=
  [dwI2cFchBase0, dwI2cFchBase1, dwI2cFchBase2, dwI2cFchBase3, dwI2cFchBase4]

/-! ## Matching -/

/-- `AsciiStrCmp (s, array) == 0`. -/
def asciiStrEq (s : String) (array : List UInt8) : Bool := asciiBytes s == cString array

/-- `AsciiStrnCmp (s, array, AsciiStrLen (s)) == 0`: the string in the array begins with `s`. -/
def asciiStrBegins (s : String) (array : List UInt8) : Bool :=
  (asciiBytes s).isPrefixOf (cString array)

/-- `TouchProfileMatchesIdentity`. -/
def touchProfileMatchesIdentity (dmi : DmiIdentity) (profile : TouchProfile) : Bool :=
  match profile.dmiProduct with
  | some product => dmi.product.getD 0 0 != 0 && asciiStrEq product dmi.product
  | none => dmi.board.getD 0 0 != 0 &&
      (profile.dmiBoardA.any (asciiStrBegins · dmi.board) ||
        profile.dmiBoardB.any (asciiStrBegins · dmi.board))

/-- No profile matches an empty identity. -/
theorem touchProfileMatchesIdentity_of_empty {dmi : DmiIdentity}
    (hproduct : cString dmi.product = []) (hboard : cString dmi.board = [])
    (profile : TouchProfile) : touchProfileMatchesIdentity dmi profile = false := by
  rw [cString_eq_nil_iff, List.head?_eq_getElem?, ← List.getD_eq_getElem?_getD]
    at hproduct hboard
  unfold touchProfileMatchesIdentity
  cases profile.dmiProduct with
  | none => rw [hboard]; rfl
  | some product => rw [hproduct]; rfl

end TouchI2c
