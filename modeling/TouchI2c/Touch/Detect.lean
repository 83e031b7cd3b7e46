import TouchI2c.Platform.Power
import TouchI2c.Touch.Driver

/-!
# Detection

`TouchResetKick`, `TouchMtkProbe` and `TouchDetect` as the code computes them: the profile pass, and
the fallback sweep over alternate addresses and registers. What the passes note about each profile
(`ProfStatus`) is only logged and is left out.

Every loop of `TouchDetect` goes over a list of candidates and stops at the first that answers, so
each is an instance of `tryEach`; the loops are nested as in the source. The profile pass also finds
out whether any profile matches the identity; if none does there is no sweep, and the sweep skips
the profiles that do not match.
-/

namespace TouchI2c

open CMemory Interaction

/-! ## Probes -/

/-- Tries the elements of a list until one succeeds; whether one did. -/
def tryEach {α : Type} (f : α → Touch Bool) : List α → Touch Bool
  | [] => return false
  | a :: as => do
    if ← f a then return true
    else tryEach f as

def amdGpioOutputVal : UInt32 := 0x400000
def amdGpioOutputEn : UInt32 := 0x800000

/-- Pulses a reset line that is driven high, and releases one that is not driven. -/
def pulseReset (gpio : UInt64) (reg : UInt32) : Prog Uefi Unit :=
  if reg &&& (amdGpioOutputEn ||| amdGpioOutputVal) == amdGpioOutputEn ||| amdGpioOutputVal then do
    mmioWrite32 gpio (reg &&& ~~~amdGpioOutputVal)
    stall 5000
    mmioWrite32 gpio reg
  else
    mmioWrite32 gpio (reg ||| amdGpioOutputEn ||| amdGpioOutputVal)

/-- `TouchResetKick`. -/
def touchResetKick (prof : TouchProfile) : Prog Uefi Unit := do
  let reg ← mmioRead32 prof.resetGpioReg.toUInt64
  pulseReset prof.resetGpioReg.toUInt64 reg
  -- an argument of the log line
  let _ ← mmioRead32 prof.resetGpioReg.toUInt64

/-- `I2cHidReadDescriptor` into `Dev->HidDesc`. -/
def readHidDesc (base : UInt64) (descReg : UInt16) : Touch EfiStatus := do
  let d ← get
  let (status, desc) ← onBus (i2cHidReadDescriptor base descReg d.hidDesc)
  modify fun d ↦ { d with hidDesc := desc }
  return status

/-- What detection fills in for the panel it found. -/
def TouchDev.found (prof : TouchProfile) (base : UInt64) (slaveAddr : UInt8) (d : TouchDev) :
    TouchDev :=
  { d with i2cBase := base, slaveAddr := slaveAddr, profile := some prof }

/-- `DwI2cInit`, and the descriptor read if it succeeds. -/
def dwProbe (base : UInt64) (slaveAddr : UInt8) (descReg : UInt16)
    (timing : Option DwI2cTiming) : Touch EfiStatus := do
  let status ← dwI2cInit base slaveAddr timing
  if status.isError then return status
  else readHidDesc base descReg

/-- The search for the firmware's controller, made once an attempt. -/
def mtkSearchFirmware (prof : TouchProfile) : Touch Unit := do
  if (← get).fwBusSearched then
    return ()
  else
    modify fun d ↦ { d with fwBusSearched := true }
    let (status, fw) ← i2cBusFindFirmwareController prof.acpiHid prof.acpiUid
    modify fun d ↦ { d with fwBusFound := !status.isError, fwBus := fw }

/-- Restores the default transport after a failed probe. -/
def mtkDeselect (status : EfiStatus) : Touch Unit :=
  if status.isError then onBus i2cBusSelectDesignWare else return ()

/-- `TouchMtkProbe` with a selected transport. -/
def mtkReadDescriptor (descReg : UInt16) : Touch EfiStatus := do
  let status ← readHidDesc 0 descReg
  mtkDeselect status
  return status

/-- `TouchMtkProbe`. -/
def touchMtkProbe (prof : TouchProfile) (slaveAddr : UInt8) (descReg : UInt16) :
    Touch EfiStatus := do
  mtkSearchFirmware prof
  let d ← get
  if d.fwBusFound then
    onBus (i2cBusSelectFirmware d.fwBus slaveAddr)
    mtkReadDescriptor descReg
  else
    let status ← onBus
      (onMtk (mtkI2cInit prof.i2cBase.toUInt64 prof.dmaBase.toUInt64 slaveAddr))
    if status.isError then return status
    else
      onBus i2cBusSelectMediaTek
      mtkReadDescriptor descReg

/-! ## The profile pass -/

/-- Fills in a panel if its probe succeeded; whether it did. -/
def noteFound (prof : TouchProfile) (base : UInt64) (slaveAddr : UInt8) (status : EfiStatus) :
    Touch Bool := do
  if status.isError then
    return false
  else
    modify (TouchDev.found prof base slaveAddr)
    return true

/-- An Intel profile: the PCI function, and the DesignWare stack on its BAR. -/
def intelPass (prof : TouchProfile) : Touch Bool := do
  let (status, base, fresh) ← intelLpssPrepareI2c prof.pciDid prof.pciDev prof.pciFunc
  if status.isError then return false
  else if ← dwI2cControllerPresent base then
    let status ← dwProbe base prof.slaveAddr prof.hidDescReg
      (if fresh then some gDwTimingIntelLpss133M else none)
    noteFound prof base prof.slaveAddr status
  else return false

/-- A MediaTek profile. -/
def mtkPass (prof : TouchProfile) : Touch Bool := do
  let status ← touchMtkProbe prof prof.slaveAddr prof.hidDescReg
  noteFound prof prof.i2cBase.toUInt64 prof.slaveAddr status

/-- Kicks the reset line of profile `p` once if its controller answered and the panel did not. -/
def kickOnce (p : ℕ) (prof : TouchProfile) (status : EfiStatus) : Touch Unit := do
  if prof.resetGpioReg != 0 && !(← get).resetKicked.getD p true && status == .noResponse then
    touchResetKick prof
    modify fun d ↦ { d with resetKicked := d.resetKicked.set p true }
  else
    return ()

/-- A fixed AMD profile: its tile, and the DesignWare stack on its base. -/
def amdPass (p : ℕ) (prof : TouchProfile) : Touch Bool := do
  let (status, fresh) ← fchAoacPowerOnI2c prof.aoacDev
  if status.isError then return false
  else if ← dwI2cControllerPresent prof.i2cBase.toUInt64 then
    let status ← dwProbe prof.i2cBase.toUInt64 prof.slaveAddr prof.hidDescReg
      (if fresh then some gDwTimingAmdFch150M else none)
    if ← noteFound prof prof.i2cBase.toUInt64 prof.slaveAddr status then
      return true
    else
      kickOnce p prof status
      return false
  else return false

/-- One profile of the profile pass; whether the panel was found. -/
def profilePass (p : ℕ) (prof : TouchProfile) : Touch Bool :=
  match prof.platform with
  | .intelLpss => intelPass prof
  | .mtkI2c => mtkPass prof
  | .amdFch => if prof.i2cBase == 0 then return false else amdPass p prof

/-- The profile pass from profile `p` on: `none` if it found the panel, else whether a profile
matched the identity. -/
def profilePasses : ℕ → Bool → List TouchProfile → Touch (Option Bool)
  | _, identityMatched, [] => return some identityMatched
  | p, identityMatched, prof :: profs => do
    if touchProfileMatchesIdentity (← get).dmi prof then
      if ← profilePass p prof then return none
      else profilePasses (p + 1) true profs
    else profilePasses (p + 1) identityMatched profs

/-! ## The fallback sweep -/

/-- Tries one descriptor register of a controller. -/
def sweepReg (prof : TouchProfile) (base : UInt64) (slaveAddr : UInt8) (descReg : UInt16) :
    Touch Bool := do
  let status ← readHidDesc base descReg
  noteFound prof base slaveAddr status

/-- Tries one address of a controller. -/
def sweepAddr (prof : TouchProfile) (base : UInt64) (timing : Option DwI2cTiming)
    (slaveAddr : UInt8) : Touch Bool := do
  let status ← dwI2cInit base slaveAddr timing
  if status.isError then return false
  else if ← tryEach (sweepReg prof base slaveAddr) mCandidateDescRegs then return true
  else
    let _ ← dwI2cDisable base
    return false

/-- Tries all addresses of a controller, with the timing it has to be programmed with. -/
def sweepBase (prof : TouchProfile) (target : UInt64 × Option DwI2cTiming) : Touch Bool := do
  if ← dwI2cControllerPresent target.1 then
    tryEach (sweepAddr prof target.1 target.2) mCandidateAddrs
  else return false

/-- Un-gates tiles; which of them are fresh. -/
def sweepPowerOn : List UInt8 → Prog Uefi (List Bool)
  | [] => return []
  | dev :: devs => do
    let (status, fresh) ← fchAoacPowerOnI2c dev
    return (!status.isError && fresh) :: (← sweepPowerOn devs)

/-- The AOAC devices of the four fixed-base tiles. -/
def sweepTiles : List UInt8 := (List.range 4).map fun b ↦ fchAoacDevI2c0 + UInt8.ofNat b

/-- The controllers to sweep for a profile, each with the timing it needs if it is fresh. -/
def sweepTargets (prof : TouchProfile) : Prog Uefi (List (UInt64 × Option DwI2cTiming)) :=
  match prof.platform with
  | .intelLpss => do
    let (status, base, fresh) ← intelLpssPrepareI2c prof.pciDid prof.pciDev prof.pciFunc
    if status.isError then return []
    else return [(base, if fresh then some gDwTimingIntelLpss133M else none)]
  | _ =>
    if prof.i2cBase != 0 then return [(prof.i2cBase.toUInt64, none)]
    else do
      let freshByTile ← sweepPowerOn sweepTiles
      return mSweepBases.zipIdx.map fun (base, b) ↦
        (base.toUInt64, if freshByTile.getD b false then some gDwTimingAmdFch150M else none)

/-- Tries an alternate address and register of a MediaTek profile. -/
def mtkSweepOne (prof : TouchProfile) (candidate : UInt8 × UInt16) : Touch Bool := do
  if candidate.1 == prof.slaveAddr && candidate.2 == prof.hidDescReg then
    -- the profile pass did it
    return false
  else
    let status ← touchMtkProbe prof candidate.1 candidate.2
    noteFound prof prof.i2cBase.toUInt64 candidate.1 status

/-- The alternate addresses and registers. -/
def mCandidates : List (UInt8 × UInt16) :=
  mCandidateAddrs.flatMap fun a ↦ mCandidateDescRegs.map fun r ↦ (a, r)

/-- The sweep of one profile; whether the panel was found. -/
def sweepPass (prof : TouchProfile) : Touch Bool := do
  if touchProfileMatchesIdentity (← get).dmi prof then
    match prof.platform with
    | .mtkI2c => tryEach (mtkSweepOne prof) mCandidates
    | _ =>
      let targets ← sweepTargets prof
      tryEach (sweepBase prof) targets
  else return false

/-- `TouchDetect`. -/
def touchDetect : Touch EfiStatus := do
  onBus i2cBusSelectDesignWare
  match ← profilePasses 0 false mProfiles with
  | none => return .success
  | some false => return .unsupported
  | some true =>
    if ← tryEach sweepPass mProfiles then return .success
    else return .notFound

end TouchI2c
