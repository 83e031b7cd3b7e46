import TouchI2c.Uefi.Op

/-!
# The DesignWare I2C master

`DwI2c.c` as the code computes it: probing, disabling and initialising a controller, and the polled
combined transfer that interleaves command queueing with draining the RX FIFO. A register is the
MMIO word at `Base + Off`.

The buffers of a transfer are lists of bytes, `none` being NULL, and every access to one is checked.
The main loop runs under the bound `xferBound`, which is never reached.

The body of the main loop is one pass, `xferPass`, cut where the source has its comments: the abort
check, the queueing of a command, the draining of a byte, the spin counters. A pass leaves the loop
with a status or goes on with the counters of `XferState`.
-/

namespace TouchI2c

open CMemory Interaction

/-! ## Registers -/

def dwIcCon : UInt64 := 0x00
def dwIcTar : UInt64 := 0x04
def dwIcDataCmd : UInt64 := 0x10
def dwIcSsSclHcnt : UInt64 := 0x14
def dwIcSsSclLcnt : UInt64 := 0x18
def dwIcFsSclHcnt : UInt64 := 0x1C
def dwIcFsSclLcnt : UInt64 := 0x20
def dwIcIntrMask : UInt64 := 0x30
def dwIcRawIntrStat : UInt64 := 0x34
def dwIcRxTl : UInt64 := 0x38
def dwIcTxTl : UInt64 := 0x3C
def dwIcClrTxAbrt : UInt64 := 0x54
def dwIcClrStopDet : UInt64 := 0x60
def dwIcEnable : UInt64 := 0x6C
def dwIcStatus : UInt64 := 0x70
def dwIcSdaHold : UInt64 := 0x7C
def dwIcTxAbrtSource : UInt64 := 0x80
def dwIcEnableStatus : UInt64 := 0x9C
def dwIcCompType : UInt64 := 0xFC

/-- `IC_COMP_TYPE` magic identifying a DesignWare I2C block. -/
def dwIcCompTypeValue : UInt32 := 0x44570140

def dwIcConMaster : UInt32 := 0x1
def dwIcConSpeedMask : UInt32 := 0x6
def dwIcConSpeedStd : UInt32 := 0x2
def dwIcConSpeedFast : UInt32 := 0x4
def dwIcConRestartEn : UInt32 := 0x20
def dwIcConSlaveDisable : UInt32 := 0x40

def dwIcDataCmdRead : UInt32 := 0x100
def dwIcDataCmdStop : UInt32 := 0x200
def dwIcDataCmdRestart : UInt32 := 0x400

/-- TX FIFO not full. -/
def dwIcStatusTfnf : UInt32 := 0x2

/-- RX FIFO not empty. -/
def dwIcStatusRfne : UInt32 := 0x8

def dwIcStatusMstActivity : UInt32 := 0x20

def dwIcIntrTxAbrt : UInt32 := 0x40

def dwIcEnableEnable : UInt32 := 0x1

def dwIcEnableStatusEn : UInt32 := 0x1

def dwIcAbrt7bAddrNoack : UInt32 := 0x1

/-! ## Bounds -/

def dwPollLimit : ℕ := 200000

/-- The whole-transfer stall budget. -/
def dwXferSpinBudget : ℕ := 4 * dwPollLimit

/-- How many read commands may be in flight beyond what has been drained. -/
def dwRxInflightMax : ℕ := 8

/-! ## Timing -/

/-- `DW_I2C_TIMING`. -/
structure DwI2cTiming where
  ssHcnt : UInt16
  ssLcnt : UInt16
  fsHcnt : UInt16
  fsLcnt : UInt16
  sdaHold : UInt16
  deriving DecidableEq, Repr

def gDwTimingAmdFch150M : DwI2cTiming := ⟨600, 705, 136, 225, 45⟩

def gDwTimingIntelLpss133M : DwI2cTiming := ⟨569, 664, 117, 212, 40⟩

/-! ## Controller state -/

def regRd (base off : UInt64) : Prog Uefi UInt32 := mmioRead32 (base + off)

def regWr (base off : UInt64) (val : UInt32) : Prog Uefi Unit := mmioWrite32 (base + off) val

/-- `for (Spin = 0; Spin < n; Spin++)` around one register test; whether it was met. -/
def pollReg (base off : UInt64) (test : UInt32 → Bool) : ℕ → Prog Uefi Bool
  | 0 => return false
  | n + 1 => do
    if test (← regRd base off) then return true
    else pollReg base off test n

/-- `DwI2cControllerPresent`. -/
def dwI2cControllerPresent (base : UInt64) : Prog Uefi Bool := do
  return (← regRd base dwIcCompType) == dwIcCompTypeValue

/-- `DwI2cDisable`. -/
def dwI2cDisable (base : UInt64) : Prog Uefi EfiStatus := do
  regWr base dwIcEnable 0
  if ← pollReg base dwIcEnableStatus (fun v ↦ v &&& dwIcEnableStatusEn == 0) dwPollLimit then
    return .success
  else
    return .timeout

/-- Whether the counts of the speed in use have to be programmed: forced, or one of them zero. -/
def countsMissing (base hcntOff lcntOff : UInt64) (force : Bool) : Prog Uefi Bool :=
  if force then return true
  else do
    if (← regRd base hcntOff) == 0 then return true
    else return (← regRd base lcntOff) == 0

def programCounts (base hcntOff lcntOff : UInt64) (force : Bool) (hcnt lcnt : UInt16) :
    Prog Uefi Unit := do
  if ← countsMissing base hcntOff lcntOff force then
    regWr base hcntOff hcnt.toUInt32
    regWr base lcntOff lcnt.toUInt32

/-- The counts of the speed in use; only those of the fast speed are ever forced. -/
def programSpeed (base : UInt64) (speed : UInt32) (force : Bool) (timing : DwI2cTiming) :
    Prog Uefi Unit :=
  if speed == dwIcConSpeedStd then
    programCounts base dwIcSsSclHcnt dwIcSsSclLcnt false timing.ssHcnt timing.ssLcnt
  else
    programCounts base dwIcFsSclHcnt dwIcFsSclLcnt force timing.fsHcnt timing.fsLcnt

/-- The part of `DwI2cInit` that programs speed and timing. The firmware's standard speed is kept
unless timing is forced. -/
def programTiming (base : UInt64) (forceTiming : Option DwI2cTiming) : Prog Uefi Unit := do
  let timing := forceTiming.getD gDwTimingAmdFch150M
  let speed := (← regRd base dwIcCon) &&& dwIcConSpeedMask
  let speed := if forceTiming.isSome || speed != dwIcConSpeedStd then dwIcConSpeedFast else speed
  regWr base dwIcCon (dwIcConMaster ||| speed ||| dwIcConRestartEn ||| dwIcConSlaveDisable)
  programSpeed base speed forceTiming.isSome timing
  if forceTiming.isSome then
    regWr base dwIcSdaHold timing.sdaHold.toUInt32

/-- `DwI2cInit`. -/
def dwI2cInit (base : UInt64) (slaveAddr : UInt8) (forceTiming : Option DwI2cTiming) :
    Prog Uefi EfiStatus := do
  if (← dwI2cDisable base).isError then
    return .deviceError
  else
    programTiming base forceTiming
    regWr base dwIcIntrMask 0
    regWr base dwIcTxTl 0
    regWr base dwIcRxTl 0
    regWr base dwIcTar (slaveAddr.toUInt32 &&& 0x3FF)
    regWr base dwIcEnable dwIcEnableEnable
    if ← pollReg base dwIcEnableStatus (fun v ↦ v &&& dwIcEnableStatusEn != 0) dwPollLimit then
      return .success
    else
      return .timeout

/-- `DwI2cRecover`: the disable flushes both FIFOs. -/
def dwI2cRecover (base : UInt64) : Prog Uefi Unit := do
  if (← dwI2cDisable base).isError then
    return ()
  else
    regWr base dwIcEnable dwIcEnableEnable
    let _ ← pollReg base dwIcEnableStatus (fun v ↦ v &&& dwIcEnableStatusEn != 0) dwPollLimit
    let _ ← regRd base dwIcClrTxAbrt
    let _ ← regRd base dwIcClrStopDet

/-- `ClassifyAbort`. -/
def classifyAbort (base : UInt64) : Prog Uefi EfiStatus := do
  let src ← regRd base dwIcTxAbrtSource
  let _ ← regRd base dwIcClrTxAbrt
  return if src &&& dwIcAbrt7bAddrNoack != 0 then .noResponse else .deviceError

/-- What both loops of the transfer do with a latched abort: an address NAK needs no recovery. -/
def handleAbort (base : UInt64) : Prog Uefi EfiStatus := do
  let status ← classifyAbort base
  if status = .deviceError then
    dwI2cRecover base
  return status

/-! ## Transfers -/

/-- What a transfer is asked to do. -/
structure XferArgs where
  base : UInt64
  wBuf : Option (List UInt8)
  wLen : ℕ
  rLen : ℕ

/-- The locals of `DwI2cXfer`, with the contents of `RBuf`. -/
structure XferState where
  wSent : ℕ
  rQueued : ℕ
  rGot : ℕ
  spin : ℕ
  totalSpin : ℕ
  rBuf : Option (List UInt8)

/-- `Buf[i]`. -/
def readPtr (buf : Option (List UInt8)) (i : ℕ) : Checked UInt8 :=
  match buf with
  | none => .error .nullPointer
  | some bytes => readAt bytes i

/-- `Buf[i] = b`. -/
def writePtr (buf : Option (List UInt8)) (i : ℕ) (b : UInt8) : Checked (Option (List UInt8)) :=
  match buf with
  | none => .error .nullPointer
  | some bytes => do
    let bytes ← writeAt bytes i b
    return some bytes

/-- Queues the next command if there is one and the FIFO takes it; whether it did. -/
def xferQueue (x : XferArgs) (st : XferState) (icStatus : UInt32) :
    Prog Uefi (XferState × Bool) :=
  if st.wSent < x.wLen ∧ icStatus &&& dwIcStatusTfnf ≠ 0 then do
    let byte ← readPtr x.wBuf st.wSent
    let cmd := byte.toUInt32 |||
      if st.wSent = x.wLen - 1 ∧ x.rLen = 0 then dwIcDataCmdStop else 0
    regWr x.base dwIcDataCmd cmd
    return ({ st with wSent := st.wSent + 1 }, true)
  else if st.wSent = x.wLen ∧ st.rQueued < x.rLen ∧ icStatus &&& dwIcStatusTfnf ≠ 0 then do
    let inflight ← subUnsigned st.rQueued st.rGot
    if inflight < dwRxInflightMax then
      let cmd := dwIcDataCmdRead |||
        (if st.rQueued = 0 ∧ 0 < x.wLen then dwIcDataCmdRestart else 0) |||
        (if st.rQueued = x.rLen - 1 then dwIcDataCmdStop else 0)
      regWr x.base dwIcDataCmd cmd
      return ({ st with rQueued := st.rQueued + 1 }, true)
    else
      return (st, false)
  else
    return (st, false)

/-- Drains one byte if one is expected and there; whether it did. -/
def xferDrain (x : XferArgs) (st : XferState) : Prog Uefi (XferState × Bool) :=
  if st.rGot < st.rQueued then do
    if (← regRd x.base dwIcStatus) &&& dwIcStatusRfne ≠ 0 then
      let v ← regRd x.base dwIcDataCmd
      let rBuf ← writePtr st.rBuf st.rGot (v &&& 0xFF).toUInt8
      return ({ st with rGot := st.rGot + 1, rBuf := rBuf }, true)
    else
      return (st, false)
  else
    return (st, false)

/-- One pass of the main loop; `inr` leaves it, with a status if the whole transfer returns. -/
def xferPass (x : XferArgs) (st : XferState) :
    Prog Uefi (XferState ⊕ XferState × Option EfiStatus) := do
  if st.wSent < x.wLen ∨ st.rQueued < x.rLen ∨ st.rGot < x.rLen then
    if (← regRd x.base dwIcRawIntrStat) &&& dwIcIntrTxAbrt ≠ 0 then
      let status ← handleAbort x.base
      return .inr (st, some status)
    else
      let icStatus ← regRd x.base dwIcStatus
      let (st, queued) ← xferQueue x st icStatus
      let (st, drained) ← xferDrain x st
      if queued || drained then
        return .inl { st with spin := 0 }
      else
        let st := { st with spin := st.spin + 1, totalSpin := st.totalSpin + 1 }
        if st.spin > dwPollLimit ∨ st.totalSpin > dwXferSpinBudget then
          dwI2cRecover x.base
          return .inr (st, some .timeout)
        else
          return .inl st
  else
    return .inr (st, none)

/-- The wait for the STOP, with `n` polls left. -/
def xferStop (x : XferArgs) : ℕ → Prog Uefi EfiStatus
  | 0 => do
    dwI2cRecover x.base
    return .timeout
  | n + 1 => do
    if (← regRd x.base dwIcRawIntrStat) &&& dwIcIntrTxAbrt ≠ 0 then
      handleAbort x.base
    else if (← regRd x.base dwIcStatus) &&& dwIcStatusMstActivity = 0 then
      let _ ← regRd x.base dwIcClrStopDet
      return .success
    else
      xferStop x n

/-- More passes than the main loop can make: each queues, drains or uses up stall budget. -/
def xferBound (x : XferArgs) : ℕ := x.wLen + 2 * x.rLen + dwXferSpinBudget + 2

/-- The arguments `DwI2cXfer` refuses. -/
def xferInvalid (wBuf : Option (List UInt8)) (wLen : ℕ) (rBuf : Option (List UInt8)) (rLen : ℕ) :
    Bool :=
  (wLen == 0 && rLen == 0) || (0 < wLen && wBuf.isNone) || (0 < rLen && rBuf.isNone)

/-- `DwI2cXfer`. The result pairs the status with the final contents of `RBuf`. -/
def dwI2cXfer (base : UInt64) (wBuf : Option (List UInt8)) (wLen : ℕ) (rBuf : Option (List UInt8))
    (rLen : ℕ) : Prog Uefi (EfiStatus × Option (List UInt8)) := do
  if xferInvalid wBuf wLen rBuf rLen then
    return (.invalidParameter, rBuf)
  else
    let x : XferArgs := ⟨base, wBuf, wLen, rLen⟩
    let _ ← regRd base dwIcClrTxAbrt
    let _ ← regRd base dwIcClrStopDet
    match ← Prog.iterate (xferPass x) (xferBound x) ⟨0, 0, 0, 0, 0, rBuf⟩ with
    | (st, some status) => return (status, st.rBuf)
    | (st, none) =>
      let status ← xferStop x dwPollLimit
      return (status, st.rBuf)

end TouchI2c
