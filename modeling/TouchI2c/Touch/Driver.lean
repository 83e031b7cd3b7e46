import TouchI2c.Bus.I2cHid
import TouchI2c.HidParse.Parser
import TouchI2c.Touch.Profiles

/-!
# The pointer and its state

`TOUCH_DEV`, and the handlers that run once the protocol is installed: `TouchReset`,
`TouchGetState`, `TouchWaitForInput`, `TouchPoll` and `TouchExitBootServices`. The state also holds
the module variables.

An event or a protocol is a flag that tells whether the driver has it, and `InputBuf` is an address
with the bytes there. `TouchPoll` is cut into its three parts: the recovery that is due after a
failed read, the read of a report, and its decoding. The rotation of a position is a subtraction of
unsigned numbers, so it is checked, and so is every access to the buffer.

The log and the console are left out, and with them the fields that only they use.
-/

namespace TouchI2c

open CMemory HidParse Interaction

/-! ## The state -/

/-- `EFI_ABSOLUTE_POINTER_MODE`. -/
structure AbsolutePointerMode where
  absoluteMinX : ℕ := 0
  absoluteMinY : ℕ := 0
  absoluteMinZ : ℕ := 0
  absoluteMaxX : ℕ := 0
  absoluteMaxY : ℕ := 0
  absoluteMaxZ : ℕ := 0
  attributes : ℕ := 0
  deriving DecidableEq, Repr

/-- `EFI_ABSOLUTE_POINTER_STATE`. -/
structure AbsolutePointerState where
  currentX : ℕ := 0
  currentY : ℕ := 0
  currentZ : ℕ := 0
  activeButtons : ℕ := 0
  deriving DecidableEq, Repr

/-- `EFI_ABSP_TouchActive`. -/
def efiAbspTouchActive : ℕ := 1

/-- A pool allocation: its address and the bytes in it. -/
structure PoolBuffer where
  address : UInt64
  bytes : List UInt8
  deriving DecidableEq, Repr

/-- `TOUCH_DEV` and the module variables. -/
structure TouchDev where
  dmi : DmiIdentity := .unread
  bus : I2cBus := {}
  installed : Bool := false
  mode : AbsolutePointerMode := {}
  state : AbsolutePointerState := {}
  ready : Bool := false
  stateChanged : Bool := false
  lastTip : Bool := false
  needReinit : Bool := false
  resetKicked : List Bool := List.replicate touchProfileCount false
  rotateActive : Bool := false
  profile : Option TouchProfile := none
  gop : Bool := false
  i2cBase : UInt64 := 0
  slaveAddr : UInt8 := 0
  hidDesc : I2cHidDescriptor := .zero
  layout : HidTouchLayout := .zero
  inputBuf : Option PoolBuffer := none
  waitForInput : Bool := false
  pollEvent : Bool := false
  exitBootEvent : Bool := false
  retryEvent : Bool := false
  attemptCount : ℕ := 0
  fwBus : I2cFwBus := {}
  fwBusSearched : Bool := false
  fwBusFound : Bool := false
  deriving DecidableEq

/-- A program over the state of the driver. -/
abbrev Touch := StateT TouchDev (Prog Uefi)

/-- A program over the transports. -/
def onBus {α : Type} (p : Bus α) : Touch α := do
  let d ← get
  let (a, bus) ← p.run d.bus
  set { d with bus := bus }
  return a

/-- `Dev->HidDesc.wMaxInputLength`. -/
def TouchDev.maxInputLength (d : TouchDev) : ℕ := d.hidDesc.wMaxInputLength.toNat

/-! ## Orientation -/

/-- Caches the GOP; whether there is one. -/
def touchLocateGop : Touch Bool := do
  if (← get).gop then
    return true
  else
    let found ← uefi .locateGop
    modify fun d ↦ { d with gop := found }
    return found

/-- Whether the current mode of the GOP is landscape. -/
def gopIsLandscape : Touch Bool := do
  if ← touchLocateGop then
    match ← uefi .gopResolution with
    | some (gopW, gopH) => return gopH < gopW
    | none => return false
  else
    return false

/-- Whether reports have to be rotated: a portrait matrix and a landscape mode. -/
def touchWantsRotation : Touch Bool := do
  let d ← get
  if d.layout.xLogicalMax < d.layout.yLogicalMax then gopIsLandscape else return false

/-- Publishes the ranges of an orientation. -/
def TouchDev.orient (rotate : Bool) (d : TouchDev) : TouchDev :=
  { d with
    mode := { d.mode with
      absoluteMaxX := if rotate then d.layout.yLogicalMax else d.layout.xLogicalMax
      absoluteMaxY := if rotate then d.layout.xLogicalMax else d.layout.yLogicalMax }
    rotateActive := rotate }

/-- `TouchUpdateOrientation`. -/
def touchUpdateOrientation : Touch Unit := do
  let rotate ← touchWantsRotation
  modify (TouchDev.orient rotate)

/-! ## The protocol -/

/-- The state after `TouchReset`. -/
def TouchDev.reset (extendedVerification : Bool) (d : TouchDev) : TouchDev :=
  { d with
    state := {}
    stateChanged := false
    lastTip := false
    needReinit := d.needReinit || (extendedVerification && d.ready) }

/-- `TouchReset`. -/
def touchReset (extendedVerification : Bool) : Touch EfiStatus := do
  uefi .raiseTpl
  modify (TouchDev.reset extendedVerification)
  uefi .restoreTpl
  return .success

/-- `TouchGetState` with a buffer for the state, or with NULL. -/
def touchGetState (hasState : Bool) : Touch (EfiStatus × Option AbsolutePointerState) := do
  if !hasState then
    return (.invalidParameter, none)
  else
    uefi .raiseTpl
    let d ← get
    if !d.ready || !d.stateChanged then
      uefi .restoreTpl
      return (.notReady, none)
    else
      set { d with stateChanged := false }
      uefi .restoreTpl
      return (.success, some d.state)

/-- `TouchWaitForInput`. -/
def touchWaitForInput : Touch Unit := do
  let d ← get
  if d.ready && d.stateChanged then
    let _ ← uefi (.signalEvent .waitForInput)
  else
    return ()

/-! ## The poll timer -/

/-- The recovery that a poll starts with if one is due; whether the poll goes on. -/
def touchPollReinit : Touch Bool := do
  let d ← get
  if d.needReinit then
    let status ← onBus (i2cBusReinit d.i2cBase d.slaveAddr)
    if status.isError then
      return false
    else
      let _ ← onBus (i2cHidSetPower d.i2cBase d.hidDesc.wCommandRegister i2cHidPowerOn)
      modify fun d ↦ { d with needReinit := false }
      return true
  else
    return true

/-- The input buffer with what a transfer left in it. -/
def TouchDev.storeInput (buf : Option (List UInt8)) (d : TouchDev) : TouchDev :=
  { d with inputBuf := d.inputBuf.map fun b ↦ { b with bytes := buf.getD b.bytes } }

/-- The read of an input report into `InputBuf`; whether it succeeded. -/
def touchReceive : Touch Bool := do
  let d ← get
  let (status, buf) ← onBus
    (i2cHidRawRead d.i2cBase (d.inputBuf.map (·.bytes)) d.maxInputLength)
  modify (TouchDev.storeInput buf)
  if status == .noResponse then
    return false
  else if status.isError then
    modify fun d ↦ { d with needReinit := true }
    return false
  else
    return true

/-- Where the payload starts and how long it is, unless the buffer holds no report, or another
one. -/
def reportPayload (layout : HidTouchLayout) (maxInputLength : ℕ) (buf : List UInt8) :
    Checked (Option (ℕ × ℕ)) := do
  let lo ← readAt buf 0
  let hi ← readAt buf 1
  let len := lo.toNat ||| hi.toNat <<< 8
  if len < 3 ∨ maxInputLength < len then
    return none
  else if layout.hasReportId then
    if (← readAt buf 2) ≠ layout.reportId then return none
    else return some (3, len - 3)
  else
    return some (2, len - 2)

/-- The tip and the clamped position in a report. -/
def decodeReport (layout : HidTouchLayout) (maxInputLength : ℕ) (buf : List UInt8) :
    Checked (Option (Bool × ℕ × ℕ)) := do
  match ← reportPayload layout maxInputLength buf with
  | none => return none
  | some (payload, payloadLen) =>
    let tip ← hidExtractBits buf payload payloadLen layout.tipBitOffset 1
    let x ← hidExtractBits buf payload payloadLen layout.xBitOffset layout.xBitSize
    let y ← hidExtractBits buf payload payloadLen layout.yBitOffset layout.yBitSize
    return some (tip != 0, min x layout.xLogicalMax, min y layout.yLogicalMax)

/-- The bytes of `InputBuf`. -/
def TouchDev.inputBytes (d : TouchDev) : Checked (List UInt8) :=
  match d.inputBuf with
  | none => .error .nullPointer
  | some buf => .ok buf.bytes

/-- A raw position in the frame of the current orientation. -/
def TouchDev.rotated (d : TouchDev) (x y : ℕ) : Checked (ℕ × ℕ) :=
  if d.rotateActive then do return (y, ← subUnsigned d.layout.xLogicalMax x)
  else return (x, y)

/-- Reports a touch, or the one release after it, which keeps the last position. -/
def TouchDev.publish (tip : Bool) (x y : ℕ) (d : TouchDev) : TouchDev :=
  if tip || d.lastTip then
    { d with
      state :=
        { currentX := if tip then x else d.state.currentX
          currentY := if tip then y else d.state.currentY
          currentZ := 0
          activeButtons := if tip then efiAbspTouchActive else 0 }
      stateChanged := true
      lastTip := tip }
  else d

/-- Decodes the report in `InputBuf` and publishes it. -/
def touchDecode : Touch Unit := do
  let d ← get
  match ← decodeReport d.layout d.maxInputLength (← d.inputBytes) with
  | none => return ()
  | some (tip, x, y) =>
    touchUpdateOrientation
    let (x, y) ← (← get).rotated x y
    modify (TouchDev.publish tip x y)

/-- `TouchPoll`. -/
def touchPoll : Touch Unit := do
  if (← get).ready then
    if ← touchPollReinit then
      if ← touchReceive then touchDecode
      else return ()
    else return ()
  else return ()

/-! ## Leaving boot services -/

/-- Cancels the timer of an event if there is one. -/
def cancelTimerOf (e : TouchEvent) (present : Bool) : Prog Uefi Unit :=
  if present then do
    let _ ← uefi (.cancelTimer e)
  else return ()

/-- `TouchExitBootServices`. -/
def touchExitBootServices : Touch Unit := do
  let d ← get
  cancelTimerOf .poll d.pollEvent
  cancelTimerOf .retry d.retryEvent
  if d.ready then onBus (i2cBusDisable d.i2cBase)
  else return ()

end TouchI2c
