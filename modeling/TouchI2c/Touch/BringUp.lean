import TouchI2c.Touch.Detect

/-!
# Bring-up, retries and the entry point

`TouchBringUp`, `TouchTryBringUp`, `TouchRetry` and `TouchI2cDxeEntry` as the code computes them,
and the driver as a whole: the entry, and then its handlers in any order. A handler is dispatched
while the event or the protocol it belongs to is there, so a closed event is never dispatched.

`TouchTryBringUp` is cut in two where detection ends: everything behind it is `touchSetUp`, whose
error exits free what it has allocated. The texts of the log and the console are left out, but not
the register reads that the log of the identity makes. Handlers run one after the other; that one of
a higher TPL may interrupt another is not modelled.
-/

namespace TouchI2c

open CMemory HidParse Interaction

/-! ## One attempt -/

def touchResetAckTries : ℕ := 200

/-- The wait for the reset acknowledge, with `n` tries left and the contents of `Ack`. -/
def awaitResetAck (base : UInt64) : ℕ → List UInt8 → Bus Bool
  | 0, _ => return false
  | n + 1, ack => do
    let (status, buf) ← i2cHidRawRead base (some ack) 2
    let ack := buf.getD ack
    if !status.isError && ack == [0, 0] then return true
    else
      stall 1000
      awaitResetAck base n ack

/-- `TouchBringUp`; the stack array `Ack` starts with arbitrary bytes, here zeros. -/
def touchBringUp : Touch Bool := do
  let d ← get
  let _ ← onBus (i2cHidSetPower d.i2cBase d.hidDesc.wCommandRegister i2cHidPowerOn)
  stall 2000
  let status ← onBus (i2cHidReset d.i2cBase d.hidDesc.wCommandRegister)
  if status.isError then return false
  else onBus (awaitResetAck d.i2cBase touchResetAckTries [0, 0])

/-- The state an attempt starts from: what a failed one may have left is cleared. -/
def TouchDev.startAttempt (d : TouchDev) : TouchDev :=
  { d with
    attemptCount := d.attemptCount + 1
    hidDesc := .zero
    layout := .zero
    state := {}
    stateChanged := false
    lastTip := false
    needReinit := false
    profile := none
    fwBusSearched := false }

def goodixVendorId : UInt16 := 0x27C6

/-- The GT7868Q descriptor fixup. -/
def fixGoodixDescriptor (hidDesc : I2cHidDescriptor) (desc : List UInt8) : Checked (List UInt8) :=
  if hidDesc.wVendorID = goodixVendorId ∧ 608 < hidDesc.wReportDescLength then do
    if (← readAt desc 607) = 0x15 then writeAt desc 607 0x25
    else return desc
  else return desc

/-- `AllocateZeroPool`. -/
def allocateZeroPool (size : ℕ) : Prog Uefi (Option PoolBuffer) := do
  match ← uefi (.allocatePool size) with
  | none => return none
  | some address => return some ⟨address, List.replicate size 0⟩

/-- Reads and parses the report descriptor in the buffer `reportDesc`, which is freed. -/
def touchReadLayout (reportDesc : PoolBuffer) : Touch EfiStatus := do
  let d ← get
  let len := d.hidDesc.wReportDescLength.toNat
  let (status, buf) ← onBus (i2cHidReadRegister d.i2cBase d.hidDesc.wReportDescRegister
    (some reportDesc.bytes) len)
  if status.isError then
    uefi (.freePool reportDesc.address)
    return status
  else
    let desc ← fixGoodixDescriptor d.hidDesc (buf.getD reportDesc.bytes)
    let (status, layout) ← hidParseTouchLayout desc d.maxInputLength d.layout
    modify fun d ↦ { d with layout := layout }
    uefi (.freePool reportDesc.address)
    return status

/-- A zero logical maximum would make consumers divide by zero. -/
def nonzeroMax (logicalMax : ℕ) : ℕ := if logicalMax = 0 then 0xFFFF else logicalMax

/-- The layout with its zero maxima replaced. -/
def fixMaxima (layout : HidTouchLayout) : HidTouchLayout :=
  { layout with
    xLogicalMax := nonzeroMax layout.xLogicalMax
    yLogicalMax := nonzeroMax layout.yLogicalMax }

/-- Frees a pool allocation if there is one. -/
def freeBuffer (buf : Option PoolBuffer) : Prog Uefi Unit :=
  match buf with
  | none => return ()
  | some b => uefi (.freePool b.address)

/-- Replaces `InputBuf`; whether there is one. -/
def touchAllocateInput : Touch Bool := do
  let d ← get
  freeBuffer d.inputBuf
  let buf ← allocateZeroPool d.maxInputLength
  modify fun d ↦ { d with inputBuf := buf }
  return buf.isSome

def touchPollPeriod : ℕ := 100000

/-- The poll period: 100 Hz, or what the longest report takes on the wire. -/
def TouchDev.pollPeriod (d : TouchDev) : ℕ := max touchPollPeriod (d.maxInputLength * 250)

/-- Opens the input path: the last step of an attempt. -/
def touchOpenInput : Touch EfiStatus := do
  modify fun d ↦ { d with ready := true }
  let status ← uefi (.setTimer .poll (← get).pollPeriod)
  if status.isError then
    modify fun d ↦ { d with ready := false }
    return status
  else
    return .success

/-- What an attempt does with a layout. -/
def touchStart : Touch EfiStatus := do
  modify fun d ↦ { d with layout := fixMaxima d.layout }
  if ← touchAllocateInput then
    let _ ← touchBringUp
    touchUpdateOrientation
    touchOpenInput
  else
    return .outOfResources

/-- What an attempt does with a panel. -/
def touchSetUp : Touch EfiStatus := do
  match ← allocateZeroPool (← get).hidDesc.wReportDescLength.toNat with
  | none => return .outOfResources
  | some reportDesc =>
    let status ← touchReadLayout reportDesc
    if status.isError then return status
    else touchStart

/-- `TouchTryBringUp`. -/
def touchTryBringUp : Touch EfiStatus := do
  modify TouchDev.startAttempt
  let status ← touchDetect
  if status.isError then return status
  else touchSetUp

/-! ## Retries -/

def touchRetryPeriod : ℕ := 1000 * 1000 * 10
def touchRetryMax : ℕ := 60

/-- Closes the retry event. -/
def touchCloseRetry : Touch Unit := do
  let _ ← uefi (.cancelTimer .retry)
  modify fun d ↦ { d with retryEvent := false }
  let _ ← uefi (.closeEvent .retry)

/-- `TouchRetry`. -/
def touchRetry : Touch Unit := do
  let status ← touchTryBringUp
  let d ← get
  if status.isError && d.attemptCount < touchRetryMax then
    -- the periodic timer fires again
    return ()
  else
    touchCloseRetry

/-! ## The entry point -/

/-- The register reads that the entry makes for its log: the state of a fixed AMD profile. -/
def logProfile (dmi : DmiIdentity) (prof : TouchProfile) : Prog Uefi Unit :=
  if touchProfileMatchesIdentity dmi prof && prof.platform == .amdFch && prof.i2cBase != 0 then do
    let _ ← mmioRead8 (fchAoacDevStatus prof.aoacDev)
    let _ ← mmioRead32 (prof.i2cBase.toUInt64 + dwIcCompType)
  else
    return ()

def logProfiles (dmi : DmiIdentity) : List TouchProfile → Prog Uefi Unit
  | [] => return ()
  | prof :: profs => do
    logProfile dmi prof
    logProfiles dmi profs

/-- The placeholder ranges. -/
def placeholderMode : AbsolutePointerMode := { absoluteMaxX := 0xFFFF, absoluteMaxY := 0xFFFF }

/-- Notes an event that was created. -/
def TouchDev.noteEvent (e : TouchEvent) (d : TouchDev) : TouchDev :=
  match e with
  | .waitForInput => { d with waitForInput := true }
  | .poll => { d with pollEvent := true }
  | .exitBoot => { d with exitBootEvent := true }
  | .retry => { d with retryEvent := true }

/-- Creates an event; whether it was. -/
def touchCreateEvent (e : TouchEvent) : Touch Bool := do
  let status ← uefi (.createEvent e)
  if status.isError then
    return false
  else
    modify (TouchDev.noteEvent e)
    return true

/-- Creates the events and installs the protocol; whether all of it succeeded. -/
def touchInstall : Touch Bool := do
  if ← touchCreateEvent .waitForInput then
    if ← touchCreateEvent .poll then
      if ← touchCreateEvent .exitBoot then
        let status ← uefi .installProtocol
        if status.isError then return false
        else
          modify fun d ↦ { d with installed := true }
          return true
      else return false
    else return false
  else return false

/-- Closes an event if there is one, its timer first if it has one. -/
def closeEventOf (e : TouchEvent) (timer present : Bool) : Prog Uefi Unit :=
  if present then do
    cancelTimerOf e timer
    let _ ← uefi (.closeEvent e)
  else return ()

/-- The `Inert` exit of the entry: everything is closed and freed. -/
def touchInert : Touch Unit := do
  let d ← get
  closeEventOf .retry true d.retryEvent
  closeEventOf .poll true d.pollEvent
  closeEventOf .waitForInput false d.waitForInput
  closeEventOf .exitBoot false d.exitBootEvent
  freeBuffer d.inputBuf
  uefi .freeDev
  set { d with
    retryEvent := false
    pollEvent := false
    waitForInput := false
    exitBootEvent := false
    inputBuf := none }

/-- Arms the retry timer after a failed first attempt. -/
def touchArmRetry : Touch Unit := do
  if ← touchCreateEvent .retry then
    let status ← uefi (.setTimer .retry touchRetryPeriod)
    if status.isError then
      modify fun d ↦ { d with retryEvent := false }
      let _ ← uefi (.closeEvent .retry)
    else return ()
  else return ()

/-- The first attempt. -/
def touchFirstAttempt : Touch Unit := do
  let status ← touchTryBringUp
  if status.isError then touchArmRetry
  else return ()

/-- `TouchI2cDxeEntry` with the identity that SMBIOS gave. -/
def touchEntryAs (dmi : DmiIdentity) : Touch Unit := do
  modify fun d ↦ { d with dmi := dmi }
  logProfiles dmi mProfiles
  modify fun d ↦ { d with mode := placeholderMode }
  if ← touchInstall then touchFirstAttempt
  else touchInert

/-- `TouchI2cDxeEntry`, given the configuration table. -/
def touchI2cDxeEntry (entries : List ConfigurationEntry) : Touch Unit := do
  if ← uefi .allocateDev then
    touchEntryAs (← touchReadDmiIdentity entries)
  else
    return ()

/-! ## The driver -/

/-- What may call into the driver after its entry. -/
inductive Dispatch where
  | retry
  | poll
  | exitBoot
  | waitForInput
  | reset (extendedVerification : Bool)
  | getState (hasState : Bool)
  deriving DecidableEq, Repr

/-- Whether the driver has the event or the protocol of a dispatch. -/
def Dispatch.enabled (d : TouchDev) : Dispatch → Bool
  | .retry => d.retryEvent
  | .poll => d.pollEvent
  | .exitBoot => d.exitBootEvent
  | .waitForInput => d.waitForInput
  | .reset _ | .getState _ => d.installed

/-- The handler of a dispatch. -/
def Dispatch.handler : Dispatch → Touch Unit
  | .retry => touchRetry
  | .poll => touchPoll
  | .exitBoot => touchExitBootServices
  | .waitForInput => touchWaitForInput
  | .reset extendedVerification => do
    let _ ← touchReset extendedVerification
  | .getState hasState => do
    let _ ← touchGetState hasState

/-- One dispatch. -/
def touchDispatch (e : Dispatch) : Touch Unit := do
  if e.enabled (← get) then e.handler
  else return ()

end TouchI2c
