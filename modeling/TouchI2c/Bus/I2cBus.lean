import TouchI2c.Bus.MtkI2c
import TouchI2c.DwI2c.Master

/-!
# The selected transport

`I2cBus.c` as the code computes it: the DesignWare, MediaTek and firmware transports behind one
selection, and the search for a controller that the firmware publishes. The state holds the module
variables together with the MediaTek instance, to which `mMtk` points once it is set.

A device path is the list of its nodes up to the end node, each with its type, its subtype and the
bytes behind its header. A request to a protocol of the firmware carries the bytes to write and the
length to read, and is answered with the status of the call, the status that the protocol writes
back, and the bytes. The census of handles and the path texts for the log are left out.
-/

namespace TouchI2c

open CMemory Interaction

/-- `I2C_BUS_KIND`. -/
inductive I2cBusKind where
  | designWare
  | mediaTek
  | firmware
  deriving DecidableEq, Repr

/-- `I2C_FW_BUS`: the handle with what it publishes. -/
structure I2cFwBus where
  handle : ℕ := 0
  host : Bool := false
  master : Bool := false
  slaveAddr : UInt8 := 0
  deriving DecidableEq, Repr

/-- The state of the transports. -/
structure I2cBus where
  mKind : I2cBusKind := .designWare
  mMtk : Bool := false
  mFw : I2cFwBus := {}
  mtk : MtkI2c := {}
  deriving DecidableEq, Repr

/-- A program over the transports. -/
abbrev Bus := StateT I2cBus (Prog Uefi)

/-- A program over the MediaTek instance. -/
def onMtk {α : Type} (p : Mtk α) : Bus α := do
  let bus ← get
  let (a, mtk) ← p.run bus.mtk
  set { bus with mtk := mtk }
  return a

def i2cBusSelectDesignWare : Bus Unit := modify fun bus ↦ { bus with mKind := .designWare }

def i2cBusSelectMediaTek : Bus Unit := modify fun bus ↦ { bus with mMtk := true, mKind := .mediaTek }

def i2cBusSelectFirmware (fw : I2cFwBus) (slaveAddr : UInt8) : Bus Unit :=
  modify fun bus ↦ { bus with mFw := { fw with slaveAddr := slaveAddr }, mKind := .firmware }

/-! ## Transfers -/

/-- The status of a firmware request in the vocabulary of `DwI2cXfer`. -/
def fwNormalise (status xferStatus : EfiStatus) : EfiStatus :=
  match if status.isError then status else xferStatus with
  | .deviceError => .deviceError
  | .noResponse => .noResponse
  | .timeout => .timeout
  | status => if status.isError then .deviceError else .success

/-- The buffer of a request after the firmware has filled the first `rLen` bytes. -/
def fwFill (rBuf : Option (List UInt8)) (rLen : ℕ) (bytes : Filled rLen) :
    Checked (Option (List UInt8)) :=
  if 0 < rLen then do
    match rBuf with
    | none => .error .nullPointer
    | some buf => return some (← copyMem buf bytes.1 0 rLen)
  else return rBuf

/-- `FwXfer`. The firmware reads `WBuf` and fills `RBuf`. -/
def fwXfer (fw : I2cFwBus) (wBuf : Option (List UInt8)) (wLen : ℕ) (rBuf : Option (List UInt8))
    (rLen : ℕ) : Prog Uefi (EfiStatus × Option (List UInt8)) := do
  let w ← copyMem (List.replicate wLen 0) (wBuf.getD []) 0 wLen
  if fw.host then
    let (status, xferStatus, bytes) ← uefi (.queueRequest fw.handle fw.slaveAddr w rLen)
    return (fwNormalise status xferStatus, ← fwFill rBuf rLen bytes)
  else if fw.master then
    let (status, xferStatus, bytes) ← uefi (.startRequest fw.handle fw.slaveAddr w rLen)
    return (fwNormalise status xferStatus, ← fwFill rBuf rLen bytes)
  else
    return (fwNormalise .notReady .success, rBuf)

/-- `I2cBusXfer`. The result pairs the status with the final contents of `RBuf`. -/
def i2cBusXfer (base : UInt64) (wBuf : Option (List UInt8)) (wLen : ℕ)
    (rBuf : Option (List UInt8)) (rLen : ℕ) : Bus (EfiStatus × Option (List UInt8)) := do
  let bus ← get
  match bus.mKind with
  | .mediaTek => if bus.mMtk then onMtk (mtkI2cXfer wBuf wLen rBuf rLen) else return (.notReady, rBuf)
  | .firmware => fwXfer bus.mFw wBuf wLen rBuf rLen
  | .designWare => dwI2cXfer base wBuf wLen rBuf rLen

/-! ## Finding a controller of the firmware -/

def acpiDevicePath : UInt8 := 0x02
def acpiExtendedDp : UInt8 := 0x02

/-- `sizeof (ACPI_EXTENDED_HID_DEVICE_PATH)` without the header of the node. -/
def acpiExtendedBodySize : ℕ := 12

/-- The offset of `UID` in an extended ACPI node, after the header. -/
def acpiExtendedUidOffset : ℕ := 4

def asciiToUpper (c : UInt8) : UInt8 := if 0x61 ≤ c ∧ c ≤ 0x7A then c - 0x20 else c

/-- `AsciiStriCmp (array, s) == 0`. -/
def asciiStriEq (array : List UInt8) (s : String) : Bool :=
  (cString array).map asciiToUpper == (asciiBytes s).map asciiToUpper

/-- `AsciiStrDecimalToUintn`: the digits after leading blanks; a number that does not fit is the
largest `UINTN`. -/
def asciiStrDecimalToUintn (array : List UInt8) : ℕ :=
  let digits := (((cString array).dropWhile (fun c ↦ c == 0x20 || c == 0x09)).takeWhile
    (fun c ↦ 0x30 ≤ c && c ≤ 0x39)).map fun c ↦ c.toNat - 0x30
  min (digits.foldl (fun n d ↦ 10 * n + d) 0) (2 ^ 64 - 1)

/-- Whether the UID string after the HID string is `acpiUid`; an unterminated or empty one is
not. -/
def uidStringMatches (uidStr : List UInt8) (acpiUid : UInt32) : Bool :=
  let len := (cString uidStr).length
  0 < len && len < uidStr.length && asciiStrDecimalToUintn uidStr == acpiUid.toNat

/-- The test of one node in `PathHasAcpiNode`. -/
def nodeMatches (acpiHid : String) (acpiUid : UInt32) (node : DevicePathNode) : Checked Bool :=
  if node.type ≠ acpiDevicePath ∨ node.subType ≠ acpiExtendedDp ∨
      node.body.length ≤ acpiExtendedBodySize then
    return false
  else do
    let hidStr := node.body.drop acpiExtendedBodySize
    let len := (cString hidStr).length
    if len = hidStr.length ∨ len = 0 ∨ asciiStriEq hidStr acpiHid = false then
      return false
    else
      let uid ← readU32 node.body acpiExtendedUidOffset
      return uid == acpiUid || uidStringMatches (hidStr.drop (len + 1)) acpiUid

/-- The walk of `PathHasAcpiNode`. -/
def anyNodeMatches (acpiHid : String) (acpiUid : UInt32) : List DevicePathNode → Checked Bool
  | [] => return false
  | node :: path => do
    if ← nodeMatches acpiHid acpiUid node then return true
    else anyNodeMatches acpiHid acpiUid path

/-- `PathHasAcpiNode`. -/
def pathHasAcpiNode (path : Option (List DevicePathNode)) (acpiHid : String) (acpiUid : UInt32) :
    Checked Bool :=
  match path with
  | none => return false
  | some path => anyNodeMatches acpiHid acpiUid path

/-- The loop of `I2cBusFindFirmwareController`. -/
def fwSearch (acpiHid : String) (acpiUid : UInt32) (fw : I2cFwBus) :
    List ℕ → Prog Uefi (EfiStatus × I2cFwBus)
  | [] => return (.notFound, fw)
  | handle :: handles => do
    let path ← uefi (.i2cDevicePath handle)
    if ← pathHasAcpiNode path acpiHid acpiUid then
      let master ← uefi (.openI2cMaster handle)
      let host ← uefi (.openI2cHost handle)
      let fw : I2cFwBus := { handle := handle, host := host, master := master }
      if master || host then return (.success, fw)
      else fwSearch acpiHid acpiUid fw handles
    else
      fwSearch acpiHid acpiUid fw handles

/-- `I2cBusFindFirmwareController`: the status and `Fw`. -/
def i2cBusFindFirmwareController (acpiHid : String) (acpiUid : UInt32) :
    Prog Uefi (EfiStatus × I2cFwBus) := do
  match ← uefi .locateI2cMasters with
  | none => return (.notFound, {})
  | some count => fwSearch acpiHid acpiUid {} (List.range count)

/-! ## Recovery and exit -/

/-- `I2cBusReinit`. -/
def i2cBusReinit (base : UInt64) (slaveAddr : UInt8) : Bus EfiStatus := do
  let bus ← get
  match bus.mKind with
  | .mediaTek =>
    if bus.mMtk then onMtk do
      modify fun ctl ↦ { ctl with slaveAddr := slaveAddr }
      mtkI2cReinit
    else return .notReady
  | .firmware =>
    set { bus with mFw := { bus.mFw with slaveAddr := slaveAddr } }
    return .success
  | .designWare => dwI2cInit base slaveAddr none

/-- `I2cBusDisable`. -/
def i2cBusDisable (base : UInt64) : Bus Unit := do
  let bus ← get
  match bus.mKind with
  | .mediaTek => if bus.mMtk then onMtk mtkI2cDisable else return ()
  | .firmware => return ()
  | .designWare => let _ ← dwI2cDisable base

end TouchI2c
