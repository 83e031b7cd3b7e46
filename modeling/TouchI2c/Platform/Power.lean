import TouchI2c.Uefi.Op

/-!
# Powering the controller on

What comes before the first access to a controller's registers: `FchAoacPowerOnI2c` un-gates an AMD
FCH tile, and `IntelLpss.c` finds the PCI function of an Intel Serial IO controller, forces it to D0
and releases its resets. Both report whether this call did it (`Fresh`), because then the firmware
never programmed the bus timing.

The buffer of handles that `LocateHandleBuffer` allocates is left out: the operation answers with
the number of handles, and a handle is its index. A read that reports an error has no value, so a
path that goes on after an error cannot use what was read.
-/

namespace TouchI2c

open Interaction

/-! ## FCH AOAC power gating -/

def fchAoacBase : UInt64 := 0xFED81E00

/-- `FCH_AOAC_DEV_CTL (n)`. -/
def fchAoacDevCtl (n : UInt8) : UInt64 := fchAoacBase + 0x40 + 2 * n.toUInt64

/-- `FCH_AOAC_DEV_STATUS (n)`. -/
def fchAoacDevStatus (n : UInt8) : UInt64 := fchAoacBase + 0x41 + 2 * n.toUInt64

def fchAoacTargetStateMask : UInt8 := 0x03
def fchAoacPwrOnDev : UInt8 := 0x08
def fchAoacStateMask : UInt8 := 0x07
def fchAoacStateD0 : UInt8 := 0x07

/-- Whether a value of the status register reports D0. -/
def reportsD0 (status : UInt8) : Bool := status &&& fchAoacStateMask == fchAoacStateD0

/-- The wait for D0, with `n` reads of the status register left. -/
def waitForD0 (aoacDev : UInt8) : ℕ → Prog Uefi Bool
  | 0 => return false
  | n + 1 => do
    if reportsD0 (← mmioRead8 (fchAoacDevStatus aoacDev)) then return true
    else
      stall 100
      waitForD0 aoacDev n

/-- `FchAoacPowerOnI2c`: the status, and `FreshPowerOn`. -/
def fchAoacPowerOnI2c (aoacDev : UInt8) : Prog Uefi (EfiStatus × Bool) := do
  if reportsD0 (← mmioRead8 (fchAoacDevStatus aoacDev)) then
    return (.success, false)
  else
    let ctl ← mmioRead8 (fchAoacDevCtl aoacDev)
    mmioWrite8 (fchAoacDevCtl aoacDev) (ctl &&& ~~~fchAoacTargetStateMask ||| fchAoacPwrOnDev)
    -- 100 ms in steps of 100 us
    if ← waitForD0 aoacDev 1000 then
      return (.success, true)
    else
      return (.timeout, false)

/-! ## The PCI function of an LPSS controller -/

def pciVendorIdOffset : UInt32 := 0x00
def pciCommandOffset : UInt32 := 0x04
def pciPrimaryStatusOffset : UInt32 := 0x06
def pciBaseAddressregOffset : UInt32 := 0x10
def pciCapbilityPointerOffset : UInt32 := 0x34

def efiPciStatusCapability : UInt16 := 0x10
def efiPciCapabilityIdPmi : UInt8 := 0x01
def efiPciCommandMemorySpace : UInt16 := 0x2

def intelVendorId : UInt32 := 0x8086

/-- Clears the power state of the PMCSR of the capability at `capPtr`. -/
def lpssPmcsrD0 (pciIo : ℕ) (capPtr : UInt8) : Prog Uefi Unit := do
  match ← uefi (.pciRead16 pciIo (capPtr.toUInt32 + 4)) with
  | none => return ()
  | some pmcsr =>
    if pmcsr &&& 0x3 != 0 then
      let _ ← uefi (.pciWrite16 pciIo (capPtr.toUInt32 + 4) (pmcsr &&& ~~~0x3))
      stall 10000
    else
      return ()

/-- The walk of the capability list at `capPtr`, with `n` nodes left. -/
def lpssCapWalk (pciIo : ℕ) : ℕ → UInt8 → Prog Uefi Unit
  | 0, _ => return ()
  | n + 1, capPtr =>
    if capPtr < 0x40 then return ()
    else do
      match ← uefi (.pciRead8 pciIo capPtr.toUInt32) with
      | none => return ()
      | some capId =>
        if capId == efiPciCapabilityIdPmi then lpssPmcsrD0 pciIo capPtr
        else
          match ← uefi (.pciRead8 pciIo (capPtr.toUInt32 + 1)) with
          | none => return ()
          | some next => lpssCapWalk pciIo n next

/-- `LpssForceD0`. -/
def lpssForceD0 (pciIo : ℕ) : Prog Uefi Unit := do
  match ← uefi (.pciRead16 pciIo pciPrimaryStatusOffset) with
  | none => return ()
  | some statusReg =>
    if statusReg &&& efiPciStatusCapability == 0 then return ()
    else
      match ← uefi (.pciRead8 pciIo pciCapbilityPointerOffset) with
      | none => return ()
      | some capPtr => lpssCapWalk pciIo 48 capPtr

/-- Whether the handle is the function at PCI 00:pciDevice.pciFunction. -/
def lpssAtLocation (pciDevice pciFunction : UInt8) (handle : ℕ) : Prog Uefi Bool := do
  if ← uefi (.openPciIo handle) then
    return (← uefi (.pciLocation handle)) == some (0, 0, pciDevice.toNat, pciFunction.toNat)
  else
    return false

/-- The first of the handles that is at the location. -/
def lpssFind (pciDevice pciFunction : UInt8) : List ℕ → Prog Uefi (Option ℕ)
  | [] => return none
  | handle :: handles => do
    if ← lpssAtLocation pciDevice pciFunction handle then return some handle
    else lpssFind pciDevice pciFunction handles

/-- Whether an ID register is that of Intel's device `pciDid`. -/
def lpssIdsMatch (pciDid : UInt16) (ids : UInt32) : Bool :=
  ids &&& 0xFFFF == intelVendorId && ids >>> 16 == pciDid.toUInt32

/-- BAR0; 64-bit if its type says so. `none` if a read fails. -/
def lpssBar (pciIo : ℕ) : Prog Uefi (Option UInt64) := do
  match ← uefi (.pciRead32 pciIo pciBaseAddressregOffset) with
  | none => return none
  | some barLo =>
    let bar := (barLo &&& 0xFFFFFFF0).toUInt64
    if barLo &&& 0x6 == 0x4 then
      match ← uefi (.pciRead32 pciIo (pciBaseAddressregOffset + 4)) with
      | none => return none
      | some barHi => return some (bar ||| barHi.toUInt64 <<< 32)
    else
      return some bar

/-- Turns memory decode on, by the command register if `Attributes` fails. -/
def lpssEnableMemory (pciIo : ℕ) : Prog Uefi Unit := do
  if (← uefi (.pciEnableMemory pciIo)).isError then
    match ← uefi (.pciRead16 pciIo pciCommandOffset) with
    | none => return ()
    | some command =>
      if command &&& efiPciCommandMemorySpace == 0 then
        let _ ← uefi (.pciWrite16 pciIo pciCommandOffset (command ||| efiPciCommandMemorySpace))
      else
        return ()
  else
    return ()

/-! ## The LPSS private registers -/

def lpssPrivClockParams : UInt64 := 0x200
def lpssPrivResets : UInt64 := 0x204
def lpssPrivRemapLo : UInt64 := 0x240
def lpssPrivRemapHi : UInt64 := 0x244

def lpssPrivResetsFunc : UInt32 := 0x3
def lpssPrivResetsIdma : UInt32 := 0x4
def lpssPrivClock1To1 : UInt32 := 0x80010003

/-- Whether a value of the reset register has both function resets released. -/
def resetsReleased (resets : UInt32) : Bool := resets &&& lpssPrivResetsFunc == lpssPrivResetsFunc

/-- Releases the function resets if they are asserted; whether they were. -/
def lpssReleaseResets (bar : UInt64) : Prog Uefi Bool := do
  if resetsReleased (← mmioRead32 (bar + lpssPrivResets)) then
    return false
  else
    mmioWrite32 (bar + lpssPrivResets) (lpssPrivResetsFunc ||| lpssPrivResetsIdma)
    return true

/-- Programs the remap registers, and the clock unless it is programmed. -/
def lpssRemap (bar : UInt64) : Prog Uefi Unit := do
  mmioWrite32 (bar + lpssPrivRemapLo) bar.toUInt32
  mmioWrite32 (bar + lpssPrivRemapHi) (bar >>> 32).toUInt32
  if (← mmioRead32 (bar + lpssPrivClockParams)) == 0 then
    mmioWrite32 (bar + lpssPrivClockParams) lpssPrivClock1To1
  else
    return ()

/-- What `IntelLpssPrepareI2c` does with the function that its IDs confirm. -/
def lpssPrepare (pciIo : ℕ) : Prog Uefi (EfiStatus × UInt64 × Bool) := do
  lpssForceD0 pciIo
  match ← lpssBar pciIo with
  | none => return (.deviceError, 0, false)
  | some bar =>
    if bar == 0 then
      return (.noMapping, 0, false)
    else
      lpssEnableMemory pciIo
      let fresh ← lpssReleaseResets bar
      lpssRemap bar
      return (.success, bar, fresh)

/-- What `IntelLpssPrepareI2c` does with the function at the location. -/
def lpssConfirm (pciDid : UInt16) (pciIo : ℕ) : Prog Uefi (EfiStatus × UInt64 × Bool) := do
  match ← uefi (.pciRead32 pciIo pciVendorIdOffset) with
  | none => return (.notFound, 0, false)
  | some ids =>
    if lpssIdsMatch pciDid ids then lpssPrepare pciIo
    else return (.notFound, 0, false)

/-- `IntelLpssPrepareI2c`: the status, `Base` and `FreshPowerOn`. -/
def intelLpssPrepareI2c (pciDid : UInt16) (pciDevice pciFunction : UInt8) :
    Prog Uefi (EfiStatus × UInt64 × Bool) := do
  match ← uefi .locatePciIo with
  | none => return (.notFound, 0, false)
  | some handleCount =>
    match ← lpssFind pciDevice pciFunction (List.range handleCount) with
    | none => return (.notFound, 0, false)
    | some pciIo => lpssConfirm pciDid pciIo

end TouchI2c
