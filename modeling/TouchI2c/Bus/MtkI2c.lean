import TouchI2c.CMemory.CString
import TouchI2c.Uefi.Op

/-!
# The MediaTek I2C master

`MtkI2c.c` as the code computes it, over the instance `MTK_I2C` as its state. A DMA buffer is the
memory at its physical address: the driver fills one with `storeDma` and reads one with `loadDma`.
Fences and cache maintenance are left out.

The instance holds all that the source keeps between calls: the two windows, the slave address, the
two buffers, the flags of the initialisation, the snapshot of the timing, and the diagnostics of the
last transaction. The long functions are cut where the source has its comments, each part under a
name of its own, in the order in which the source runs them.
-/

namespace TouchI2c

open CMemory Interaction

/-! ## Registers -/

def mtkRegIntrMask : UInt64 := 0x08
def mtkRegIntrStat : UInt64 := 0x0C
def mtkRegControl : UInt64 := 0x10
def mtkRegTransferLen : UInt64 := 0x14
def mtkRegTransacLen : UInt64 := 0x18
def mtkRegDelayLen : UInt64 := 0x1C
def mtkRegTiming : UInt64 := 0x20
def mtkRegStart : UInt64 := 0x24
def mtkRegExtConf : UInt64 := 0x28
def mtkRegLtiming : UInt64 := 0x2C
def mtkRegHs : UInt64 := 0x30
def mtkRegIoConfig : UInt64 := 0x34
def mtkRegFifoAddrClr : UInt64 := 0x38
def mtkRegSdaTiming : UInt64 := 0x3C
def mtkRegTransferLenAux : UInt64 := 0x44
def mtkRegClockDiv : UInt64 := 0x48
def mtkRegSoftreset : UInt64 := 0x50
def mtkRegSclMisCompPoint : UInt64 := 0x90
def mtkRegSlaveAddr : UInt64 := 0x94

def mtkDmaIntFlag : UInt64 := 0x00
def mtkDmaEn : UInt64 := 0x08
def mtkDmaRst : UInt64 := 0x0C
def mtkDmaCon : UInt64 := 0x18
def mtkDmaTxMemAddr : UInt64 := 0x1C
def mtkDmaRxMemAddr : UInt64 := 0x20
def mtkDmaTxLen : UInt64 := 0x24
def mtkDmaRxLen : UInt64 := 0x28
def mtkDmaTx4gMode : UInt64 := 0x54
def mtkDmaRx4gMode : UInt64 := 0x58

def mtkI2cRsTransfer : UInt16 := 0x10
def mtkI2cArbLost : UInt16 := 0x8
def mtkI2cHsNackerr : UInt16 := 0x4
def mtkI2cAckerr : UInt16 := 0x2
def mtkI2cTransacComp : UInt16 := 0x1

def mtkI2cTransacStart : UInt16 := 0x1
def mtkI2cRsMulTrig : UInt16 := 0x4000

def mtkI2cControlRs : UInt16 := 0x2
def mtkI2cControlDmaEn : UInt16 := 0x4
def mtkI2cControlClkExtEn : UInt16 := 0x8
def mtkI2cControlDirChange : UInt16 := 0x10
def mtkI2cControlAckerrDetEn : UInt16 := 0x20

def mtkI2cSoftRst : UInt16 := 0x0001
def mtkI2cHandshakeRst : UInt16 := 0x0020
def mtkI2cFifoAddrClrVal : UInt16 := 0x0001
def mtkI2cDelayLenVal : UInt16 := 0x0002
def mtkI2cIoConfigOpenDrain : UInt16 := 0x0003
def mtkI2cWrrdTranacValue : UInt16 := 0x0002
def mtkI2cSclMisCompValue : UInt16 := 0x0000
def mtkI2cChnClrFlag : UInt16 := 0x0000

def mtkDmaConTx : UInt32 := 0x0000
def mtkDmaConRx : UInt32 := 0x0001
def mtkDmaAsyncMode : UInt32 := 0x0004
def mtkDmaSkipConfig : UInt32 := 0x0010
def mtkDmaDirChange : UInt32 := 0x0200
def mtkDmaStartEn : UInt32 := 0x0001
def mtkDmaIntFlagNone : UInt32 := 0x0000
def mtkDmaClrFlag : UInt32 := 0x0000
def mtkDmaWarmRst : UInt32 := 0x0001
def mtkDmaHardRst : UInt32 := 0x0002
def mtkDmaHandshakeRst : UInt32 := 0x0004

/-- `EFI_PAGE_SIZE`. -/
def efiPageSize : ℕ := 4096

def mtkI2cMaxXfer : ℕ := efiPageSize

def mtkXferBudgetFloorUs : ℕ := 5000
def mtkXferBudgetPerByte : ℕ := 100
def mtkXferBudgetCapUs : ℕ := 250000
def mtkXferPollStepUs : ℕ := 20

/-! ## The instance -/

/-- `MTK_I2C_TIMING`. -/
structure MtkI2cTiming where
  timing : UInt16 := 0
  ltiming : UInt16 := 0
  hs : UInt16 := 0
  extConf : UInt16 := 0
  clockDiv : UInt16 := 0
  sdaTiming : UInt16 := 0
  deriving DecidableEq, Repr

def gMtkTiming124M8Fast : MtkI2cTiming := ⟨0x0419, 0x0123, 0x0000, 0x5801, 0x0000, 0x100A⟩

/-- `MTK_I2C`; a buffer is NULL when its address is 0. -/
structure MtkI2c where
  base : UInt64 := 0
  dmaBase : UInt64 := 0
  slaveAddr : UInt8 := 0
  mapped : Bool := false
  inherited : Bool := false
  irqMaskOn : Bool := false
  initialized : Bool := false
  saved : MtkI2cTiming := {}
  savedIoConfig : UInt16 := 0
  txBuf : UInt64 := 0
  rxBuf : UInt64 := 0
  txPhys : UInt64 := 0
  rxPhys : UInt64 := 0
  lastIntrStat : UInt16 := 0
  lastDmaIntFlag : UInt32 := 0
  deriving DecidableEq, Repr

/-- A program over the instance. -/
abbrev Mtk := StateT MtkI2c (Prog Uefi)

def i2cRd (off : UInt64) : Mtk UInt16 := do mmioRead16 ((← get).base + off)

def i2cWr (off : UInt64) (val : UInt16) : Mtk Unit := do mmioWrite16 ((← get).base + off) val

def dmaRd (off : UInt64) : Mtk UInt32 := do mmioRead32 ((← get).dmaBase + off)

def dmaWr (off : UInt64) (val : UInt32) : Mtk Unit := do mmioWrite32 ((← get).dmaBase + off) val

/-! ## Preparing a controller -/

def efiMemoryUc : UInt64 := 0x1

/-- `MtkMapWindow`. -/
def mtkMapWindow (base length : UInt64) : Prog Uefi EfiStatus := do
  let pageBase := base &&& ~~~0xFFF
  let pageLen := ((base + length + 0xFFF) &&& ~~~0xFFF) - pageBase
  let (status, desc) ← uefi (.getMemorySpace pageBase)
  if status.isError then
    return status
  else if desc.nonExistent then
    let status ← uefi (.addMemorySpace pageBase pageLen)
    if status.isError then return status
    else uefi (.setMemoryAttributes pageBase pageLen efiMemoryUc)
  else if desc.attributes &&& efiMemoryUc == 0 then
    -- a refusal is tolerated
    let _ ← uefi (.setMemoryAttributes pageBase pageLen (desc.attributes ||| efiMemoryUc))
    return .success
  else
    return .success

/-- `MtkSnapshotTiming`. -/
def mtkSnapshotTiming : Mtk Unit := do
  let timing ← i2cRd mtkRegTiming
  let ltiming ← i2cRd mtkRegLtiming
  let hs ← i2cRd mtkRegHs
  let extConf ← i2cRd mtkRegExtConf
  let clockDiv ← i2cRd mtkRegClockDiv
  let sdaTiming ← i2cRd mtkRegSdaTiming
  let ioConfig ← i2cRd mtkRegIoConfig
  modify fun ctl ↦ { ctl with
    saved := ⟨timing, ltiming, hs, extConf, clockDiv, sdaTiming⟩
    savedIoConfig := ioConfig
    inherited := timing != 0 || ltiming != 0 }

/-- The timing that `MtkInitHw` programs. -/
def MtkI2c.timing (ctl : MtkI2c) : MtkI2cTiming :=
  if ctl.inherited then ctl.saved else gMtkTiming124M8Fast

/-- The pad configuration that `MtkInitHw` programs. -/
def MtkI2c.ioConfig (ctl : MtkI2c) : UInt16 :=
  if ctl.inherited then ctl.savedIoConfig else mtkI2cIoConfigOpenDrain

/-- `MtkInitHw`. -/
def mtkInitHw : Mtk Unit := do
  i2cWr mtkRegStart mtkI2cChnClrFlag
  i2cWr mtkRegIntrStat (← i2cRd mtkRegIntrStat)
  dmaWr mtkDmaRst mtkDmaWarmRst
  stall 10
  dmaWr mtkDmaRst mtkDmaClrFlag
  stall 10
  dmaWr mtkDmaRst (mtkDmaHandshakeRst ||| mtkDmaHardRst)
  i2cWr mtkRegSoftreset (mtkI2cHandshakeRst ||| mtkI2cSoftRst)
  stall 10
  dmaWr mtkDmaRst mtkDmaClrFlag
  i2cWr mtkRegSoftreset mtkI2cChnClrFlag
  let ctl ← get
  i2cWr mtkRegIoConfig ctl.ioConfig
  i2cWr mtkRegClockDiv ctl.timing.clockDiv
  i2cWr mtkRegSclMisCompPoint mtkI2cSclMisCompValue
  i2cWr mtkRegSdaTiming ctl.timing.sdaTiming
  i2cWr mtkRegTiming ctl.timing.timing
  i2cWr mtkRegHs ctl.timing.hs
  i2cWr mtkRegLtiming ctl.timing.ltiming
  i2cWr mtkRegExtConf ctl.timing.extConf
  i2cWr mtkRegControl (mtkI2cControlAckerrDetEn ||| mtkI2cControlClkExtEn ||| mtkI2cControlDmaEn)
  i2cWr mtkRegDelayLen mtkI2cDelayLenVal
  i2cWr mtkRegIntrMask 0
  modify fun ctl ↦ { ctl with initialized := true }

/-- The mapping step of `MtkI2cInit`, made once. -/
def mtkMapWindows (base dmaBase : UInt64) : Mtk EfiStatus := do
  if (← get).mapped then
    return .success
  else if (← mtkMapWindow base 0x1000).isError then
    return .noMapping
  else if (← mtkMapWindow dmaBase 0x80).isError then
    return .noMapping
  else
    modify fun ctl ↦ { ctl with mapped := true }
    return .success

/-- Allocates the transmit buffer unless it is there. -/
def mtkAllocateTx : Mtk EfiStatus := do
  if (← get).txBuf != 0 then
    return .success
  else
    let (status, phys) ← uefi .allocatePages
    if status.isError then
      return .outOfResources
    else
      modify fun ctl ↦ { ctl with txPhys := phys, txBuf := phys }
      return .success

/-- Allocates the receive buffer unless it is there. -/
def mtkAllocateRx : Mtk EfiStatus := do
  if (← get).rxBuf != 0 then
    return .success
  else
    let (status, phys) ← uefi .allocatePages
    if status.isError then
      return .outOfResources
    else
      modify fun ctl ↦ { ctl with rxPhys := phys, rxBuf := phys }
      return .success

/-- Takes the snapshot before the first reset, and only then. -/
def mtkSnapshotOnce : Mtk Unit := do
  if (← get).initialized then return ()
  else mtkSnapshotTiming

/-- What `MtkI2cInit` does once windows and buffers are there. -/
def mtkStart : Mtk EfiStatus := do
  mtkSnapshotOnce
  mtkInitHw
  return .success

/-- `MtkI2cInit`. -/
def mtkI2cInit (base dmaBase : UInt64) (slaveAddr : UInt8) : Mtk EfiStatus := do
  let ctl ← get
  if base == 0 || dmaBase == 0 then
    return .invalidParameter
  else if ctl.mapped && (ctl.base != base || ctl.dmaBase != dmaBase) then
    return .invalidParameter
  else
    set { ctl with base := base, dmaBase := dmaBase, slaveAddr := slaveAddr }
    let status ← mtkMapWindows base dmaBase
    if status.isError then return status
    else
      let status ← mtkAllocateTx
      if status.isError then return status
      else
        let status ← mtkAllocateRx
        if status.isError then return status
        else mtkStart

/-- `MtkI2cReinit`. -/
def mtkI2cReinit : Mtk EfiStatus := do
  let ctl ← get
  if !ctl.mapped || ctl.txBuf == 0 || ctl.rxBuf == 0 then
    return .notReady
  else
    mtkInitHw
    return .success

/-! ## Transfers -/

/-- `(UINT32)RShiftU64 (Phys, 32)`. -/
def highHalf (phys : UInt64) : UInt32 := (phys >>> 32).toUInt32

/-- Clears what a poll has seen and accumulates it. -/
def mtkAccumulate (ctl : MtkI2c) (stat acc : UInt16) : Prog Uefi UInt16 :=
  if stat == 0 then return acc
  else do
    mmioWrite16 (ctl.base + mtkRegIntrStat) stat
    return acc ||| stat

/-- One pass of the poll of `INTR_STAT`, with the time waited and the bits seen so far. -/
def mtkPollPass (ctl : MtkI2c) (intrBits : UInt16) (budget : ℕ) (st : ℕ × UInt16) :
    Prog Uefi (ℕ × UInt16 ⊕ UInt16) := do
  let stat := (← mmioRead16 (ctl.base + mtkRegIntrStat)) &&& intrBits
  let acc ← mtkAccumulate ctl stat st.2
  if stat != 0 && acc &&& (mtkI2cTransacComp ||| mtkI2cRsTransfer) != 0 then
    return .inr acc
  else if budget ≤ st.1 then
    return .inr acc
  else
    stall mtkXferPollStepUs
    return .inl (st.1 + mtkXferPollStepUs, acc)

/-- The whole-transfer stall budget. -/
def mtkXferBudget (wLen rLen : ℕ) : ℕ :=
  min (mtkXferBudgetFloorUs + (wLen + rLen) * mtkXferBudgetPerByte) mtkXferBudgetCapUs

/-- The poll of `INTR_STAT`: the bits accumulated until completion or the end of the budget. -/
def mtkPoll (ctl : MtkI2c) (intrBits : UInt16) (budget : ℕ) : Prog Uefi UInt16 :=
  Prog.iterate (mtkPollPass ctl intrBits budget) (budget / mtkXferPollStepUs + 2) (0, 0)

/-- Programs the transfer lengths of a transaction. -/
def mtkProgramLengths (wLen rLen : ℕ) : Mtk Unit := do
  if 0 < wLen ∧ 0 < rLen then
    i2cWr mtkRegTransferLen (UInt16.ofNat wLen)
    i2cWr mtkRegTransferLenAux (UInt16.ofNat rLen)
    i2cWr mtkRegTransacLen mtkI2cWrrdTranacValue
  else
    i2cWr mtkRegTransferLen (UInt16.ofNat (if wLen = 0 then rLen else wLen))
    i2cWr mtkRegTransacLen 1

/-- Programs the DMA channel of a transaction. -/
def mtkProgramDma (wLen rLen : ℕ) : Mtk Unit := do
  let ctl ← get
  let dmaSync := mtkDmaSkipConfig ||| mtkDmaAsyncMode
  if wLen = 0 ∧ 0 < rLen then
    dmaWr mtkDmaIntFlag mtkDmaIntFlagNone
    dmaWr mtkDmaCon (mtkDmaConRx ||| dmaSync)
    dmaWr mtkDmaRx4gMode (highHalf ctl.rxPhys)
    dmaWr mtkDmaRxMemAddr ctl.rxPhys.toUInt32
    dmaWr mtkDmaRxLen (UInt32.ofNat rLen)
  else if ¬(0 < wLen ∧ 0 < rLen) then
    dmaWr mtkDmaIntFlag mtkDmaIntFlagNone
    dmaWr mtkDmaCon (mtkDmaConTx ||| dmaSync)
    dmaWr mtkDmaTx4gMode (highHalf ctl.txPhys)
    dmaWr mtkDmaTxMemAddr ctl.txPhys.toUInt32
    dmaWr mtkDmaTxLen (UInt32.ofNat wLen)
  else
    dmaWr mtkDmaIntFlag mtkDmaClrFlag
    dmaWr mtkDmaCon (mtkDmaClrFlag ||| (dmaSync ||| mtkDmaDirChange))
    dmaWr mtkDmaTx4gMode (highHalf ctl.txPhys)
    dmaWr mtkDmaRx4gMode (highHalf ctl.rxPhys)
    dmaWr mtkDmaTxMemAddr ctl.txPhys.toUInt32
    dmaWr mtkDmaRxMemAddr ctl.rxPhys.toUInt32
    dmaWr mtkDmaTxLen (UInt32.ofNat wLen)
    dmaWr mtkDmaRxLen (UInt32.ofNat rLen)

/-- The interrupt bits a transaction looks at. -/
def mtkIntrBits (wLen rLen : ℕ) : UInt16 :=
  let intrBits := mtkI2cHsNackerr ||| mtkI2cAckerr ||| mtkI2cArbLost ||| mtkI2cTransacComp
  if 0 < wLen ∧ 0 < rLen then intrBits else intrBits ||| mtkI2cRsTransfer

/-- The status of a transaction that latched the bits `acc`. -/
def mtkClassify (acc : UInt16) : EfiStatus :=
  if acc &&& (mtkI2cTransacComp ||| mtkI2cRsTransfer) == 0 then .timeout
  else if acc &&& (mtkI2cHsNackerr ||| mtkI2cAckerr) != 0 then .noResponse
  else if acc &&& mtkI2cArbLost != 0 then .deviceError
  else .success

/-- `MtkDoTransfer`. -/
def mtkDoTransfer (wLen rLen : ℕ) (maskOn : Bool) : Mtk EfiStatus := do
  let wrrd : Bool := 0 < wLen ∧ 0 < rLen
  let read : Bool := wLen = 0 ∧ 0 < rLen
  let intrBits := mtkIntrBits wLen rLen
  let control := (← i2cRd mtkRegControl) &&& ~~~(mtkI2cControlDirChange ||| mtkI2cControlRs)
  i2cWr mtkRegControl
    (if wrrd then control ||| (mtkI2cControlDirChange ||| mtkI2cControlRs) else control)
  i2cWr mtkRegSlaveAddr ((← get).slaveAddr.toUInt16 <<< 1 ||| if read then 1 else 0)
  i2cWr mtkRegIntrStat intrBits
  i2cWr mtkRegFifoAddrClr mtkI2cFifoAddrClrVal
  i2cWr mtkRegIntrMask (if maskOn then intrBits else 0)
  mtkProgramLengths wLen rLen
  mtkProgramDma wLen rLen
  dmaWr mtkDmaEn mtkDmaStartEn
  i2cWr mtkRegStart (if wrrd then mtkI2cTransacStart else mtkI2cTransacStart ||| mtkI2cRsMulTrig)
  let acc ← mtkPoll (← get) intrBits (mtkXferBudget wLen rLen)
  i2cWr mtkRegIntrMask 0
  modify fun ctl ↦ { ctl with lastIntrStat := acc }
  let dmaIntFlag ← dmaRd mtkDmaIntFlag
  modify fun ctl ↦ { ctl with lastDmaIntFlag := dmaIntFlag }
  return mtkClassify acc

/-- Whether nothing at all was latched while polling with the mask off. -/
def mtkUnlatched (ctl : MtkI2c) (status : EfiStatus) : Bool :=
  status == .timeout && !ctl.irqMaskOn && ctl.lastIntrStat == 0

/-- The transaction of `MtkI2cXfer`, tried once more with the mask on if nothing was latched. -/
def mtkTransact (wLen rLen : ℕ) : Mtk EfiStatus := do
  let status ← mtkDoTransfer wLen rLen (← get).irqMaskOn
  if mtkUnlatched (← get) status then
    modify fun ctl ↦ { ctl with irqMaskOn := true }
    mtkInitHw
    mtkDoTransfer wLen rLen true
  else
    return status

/-- The arguments `MtkI2cXfer` refuses. -/
def mtkXferInvalid (wBuf : Option (List UInt8)) (wLen : ℕ) (rBuf : Option (List UInt8))
    (rLen : ℕ) : Bool :=
  (wLen == 0 && rLen == 0) || mtkI2cMaxXfer < wLen || mtkI2cMaxXfer < rLen ||
    (0 < wLen && wBuf.isNone) || (0 < rLen && rBuf.isNone)

/-- Resets the controller after a failed transaction. -/
def mtkRecover (status : EfiStatus) : Mtk Unit :=
  if status.isError then mtkInitHw else return ()

/-- Copies the bytes to write into the transmit buffer. -/
def mtkFill (wBuf : Option (List UInt8)) (wLen : ℕ) : Mtk Unit := do
  if 0 < wLen then
    let bytes ← copyMem (List.replicate wLen 0) (wBuf.getD []) 0 wLen
    uefi (.storeDma (← get).txBuf bytes)
  else
    return ()

/-- Copies the bytes that were read out of the receive buffer. -/
def mtkCollect (rBuf : Option (List UInt8)) (rLen : ℕ) (status : EfiStatus) :
    Mtk (Option (List UInt8)) := do
  if !status.isError && 0 < rLen then
    let bytes ← uefi (.loadDma (← get).rxBuf rLen)
    return some (← copyMem (rBuf.getD []) bytes.1 0 rLen)
  else
    return rBuf

/-- `MtkI2cXfer`. The result pairs the status with the final contents of `RBuf`. -/
def mtkI2cXfer (wBuf : Option (List UInt8)) (wLen : ℕ) (rBuf : Option (List UInt8)) (rLen : ℕ) :
    Mtk (EfiStatus × Option (List UInt8)) := do
  let ctl ← get
  if !ctl.initialized || ctl.txBuf == 0 || ctl.rxBuf == 0 then
    return (.notReady, rBuf)
  else if mtkXferInvalid wBuf wLen rBuf rLen then
    return (.invalidParameter, rBuf)
  else
    mtkFill wBuf wLen
    uefi .raiseTpl
    let status ← mtkTransact wLen rLen
    mtkRecover status
    uefi .restoreTpl
    return (status, ← mtkCollect rBuf rLen status)

/-- `MtkI2cDisable`. -/
def mtkI2cDisable : Mtk Unit := do
  if !(← get).mapped then
    return ()
  else
    i2cWr mtkRegIntrMask 0
    i2cWr mtkRegIntrStat (← i2cRd mtkRegIntrStat)
    dmaWr mtkDmaEn 0
    dmaWr mtkDmaIntFlag mtkDmaClrFlag

end TouchI2c
