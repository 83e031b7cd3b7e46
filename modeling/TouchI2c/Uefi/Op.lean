import TouchI2c.Interaction.Prog
import TouchI2c.Uefi.Status

/-!
# What the driver asks of hardware and firmware

The interface between the driver and everything that is not its own code: MMIO accesses, and the
boot services and protocols it calls. An address is a `UINTN` of a 64-bit platform, so `Base + Off`
wraps as it does in the source. Handles are named by their index in the buffer that located them.

An operation carries all that the driver passes to the call, and its answer all that the driver
looks at afterwards, the status and the values it fills in. The writes of the log and the console
are no operations: nothing that the driver does depends on them.
-/

namespace TouchI2c

open Interaction

/-- The events the driver creates. -/
inductive TouchEvent where
  | waitForInput
  | poll
  | exitBoot
  | retry
  deriving DecidableEq, Repr

/-- A buffer of `n` bytes that the environment has filled. -/
abbrev Filled (n : ℕ) := { bytes : List UInt8 // bytes.length = n }

/-- A `GetMemorySpaceDescriptor` result, as far as the driver looks at it. -/
structure GcdDescriptor where
  nonExistent : Bool
  attributes : UInt64
  deriving DecidableEq, Repr

/-- A node of a device path: its type and subtype, and the bytes after its header. A device path
is its nodes before the end node. -/
structure DevicePathNode where
  type : UInt8
  subType : UInt8
  body : List UInt8
  deriving DecidableEq, Repr

inductive UefiOp where
  | mmioRead8 (a : UInt64)
  | mmioRead16 (a : UInt64)
  | mmioRead32 (a : UInt64)
  | mmioWrite8 (a : UInt64) (v : UInt8)
  | mmioWrite16 (a : UInt64) (v : UInt16)
  | mmioWrite32 (a : UInt64) (v : UInt32)
  | stall (us : ℕ)
  -- PCI
  | locatePciIo
  | openPciIo (handle : ℕ)
  | pciLocation (handle : ℕ)
  | pciRead8 (handle : ℕ) (off : UInt32)
  | pciRead16 (handle : ℕ) (off : UInt32)
  | pciRead32 (handle : ℕ) (off : UInt32)
  | pciWrite16 (handle : ℕ) (off : UInt32) (v : UInt16)
  | pciEnableMemory (handle : ℕ)
  -- the firmware's own I2C controllers
  | locateI2cMasters
  | i2cDevicePath (handle : ℕ)
  | openI2cMaster (handle : ℕ)
  | openI2cHost (handle : ℕ)
  | queueRequest (handle : ℕ) (slave : UInt8) (w : List UInt8) (rLen : ℕ)
  | startRequest (handle : ℕ) (slave : UInt8) (w : List UInt8) (rLen : ℕ)
  -- memory
  | allocateDev
  | freeDev
  | allocatePool (size : ℕ)
  | freePool (p : UInt64)
  | allocatePages
  | storeDma (phys : UInt64) (bytes : List UInt8)
  | loadDma (phys : UInt64) (n : ℕ)
  | getMemorySpace (a : UInt64)
  | addMemorySpace (a len : UInt64)
  | setMemoryAttributes (a len attributes : UInt64)
  -- events, protocols and the display
  | raiseTpl
  | restoreTpl
  | createEvent (e : TouchEvent)
  | closeEvent (e : TouchEvent)
  | signalEvent (e : TouchEvent)
  | setTimer (e : TouchEvent) (period : ℕ)
  | cancelTimer (e : TouchEvent)
  | installProtocol
  | locateGop
  | gopResolution

/-- The type of each answer. A read that reports an error has no value. -/
@[reducible] def UefiOp.Ret : UefiOp → Type
  | mmioRead8 _ => UInt8
  | mmioRead16 _ => UInt16
  | mmioRead32 _ => UInt32
  | mmioWrite8 _ _ | mmioWrite16 _ _ | mmioWrite32 _ _ | stall _ => Unit
  | locatePciIo => Option ℕ
  | openPciIo _ => Bool
  | pciLocation _ => Option (ℕ × ℕ × ℕ × ℕ)
  | pciRead8 _ _ => Option UInt8
  | pciRead16 _ _ => Option UInt16
  | pciRead32 _ _ => Option UInt32
  | pciWrite16 _ _ _ | pciEnableMemory _ => EfiStatus
  | locateI2cMasters => Option ℕ
  | i2cDevicePath _ => Option (List DevicePathNode)
  | openI2cMaster _ | openI2cHost _ => Bool
  | queueRequest _ _ _ n | startRequest _ _ _ n => EfiStatus × EfiStatus × Filled n
  | allocateDev => Bool
  | freeDev => Unit
  | allocatePool _ => Option UInt64
  | freePool _ => Unit
  | allocatePages => EfiStatus × UInt64
  | storeDma _ _ => Unit
  | loadDma _ n => Filled n
  | getMemorySpace _ => EfiStatus × GcdDescriptor
  | addMemorySpace _ _ | setMemoryAttributes _ _ _ => EfiStatus
  | raiseTpl | restoreTpl => Unit
  | createEvent _ | closeEvent _ | signalEvent _ => EfiStatus
  | setTimer _ _ | cancelTimer _ | installProtocol => EfiStatus
  | locateGop => Bool
  | gopResolution => Option (UInt32 × UInt32)

theorem UefiOp.nonempty_ret (e : UefiOp) : Nonempty e.Ret := by
  have hfilled : ∀ n, Nonempty (Filled n) := fun n ↦ ⟨List.replicate n 0, List.length_replicate⟩
  cases e with
  | mmioRead8 | mmioRead16 | mmioRead32 => exact ⟨0⟩
  | mmioWrite8 | mmioWrite16 | mmioWrite32 | stall => exact ⟨()⟩
  | freeDev | freePool | storeDma | raiseTpl | restoreTpl => exact ⟨()⟩
  | locatePciIo | pciLocation | pciRead8 | pciRead16 | pciRead32 => exact ⟨none⟩
  | locateI2cMasters | i2cDevicePath | allocatePool | gopResolution => exact ⟨none⟩
  | openPciIo | openI2cMaster | openI2cHost | allocateDev | locateGop => exact ⟨false⟩
  | queueRequest _ _ _ n | startRequest _ _ _ n =>
    obtain ⟨bytes⟩ := hfilled n
    exact ⟨.success, .success, bytes⟩
  | loadDma _ n => exact hfilled n
  | allocatePages => exact ⟨.success, 0⟩
  | getMemorySpace => exact ⟨.success, ⟨false, 0⟩⟩
  | _ => exact ⟨.success⟩

/-- The answer of a machine on which every service succeeds and every location holds zero. -/
def UefiOp.zeros : (e : UefiOp) → e.Ret
  | mmioRead8 _ => 0
  | mmioRead16 _ => 0
  | mmioRead32 _ => 0
  | mmioWrite8 _ _ | mmioWrite16 _ _ | mmioWrite32 _ _ | stall _ => ()
  | locatePciIo => some 1
  | openPciIo _ => true
  | pciLocation _ => some (0, 0, 0, 0)
  | pciRead8 _ _ => some 0
  | pciRead16 _ _ => some 0
  | pciRead32 _ _ => some 0
  | pciWrite16 _ _ _ | pciEnableMemory _ => .success
  | locateI2cMasters => some 0
  | i2cDevicePath _ => none
  | openI2cMaster _ | openI2cHost _ => true
  | queueRequest _ _ _ n | startRequest _ _ _ n =>
    (.success, .success, ⟨List.replicate n 0, List.length_replicate⟩)
  | allocateDev => true
  | freeDev => ()
  | allocatePool _ => some 0x1000
  | freePool _ => ()
  | allocatePages => (.success, 0x2000)
  | storeDma _ _ => ()
  | loadDma _ n => ⟨List.replicate n 0, List.length_replicate⟩
  | getMemorySpace _ => (.success, ⟨false, 1⟩)
  | addMemorySpace _ _ | setMemoryAttributes _ _ _ => .success
  | raiseTpl | restoreTpl => ()
  | createEvent _ | closeEvent _ | signalEvent _ => .success
  | setTimer _ _ | cancelTimer _ | installProtocol => .success
  | locateGop => false
  | gopResolution => none

/-- Whether an operation writes to a 32-bit register. -/
def UefiOp.writesTo (a : UInt64) : UefiOp → Bool
  | .mmioWrite32 a' _ => a' == a
  | _ => false

/-- The interface of the driver. -/
abbrev Uefi : Interface := ⟨UefiOp, UefiOp.Ret⟩

/-- One operation of the driver. -/
def uefi (e : UefiOp) : Prog Uefi e.Ret := .op e .pure

/-! ## MMIO -/

def mmioRead8 (a : UInt64) : Prog Uefi UInt8 := uefi (.mmioRead8 a)

def mmioRead16 (a : UInt64) : Prog Uefi UInt16 := uefi (.mmioRead16 a)

def mmioRead32 (a : UInt64) : Prog Uefi UInt32 := uefi (.mmioRead32 a)

def mmioWrite8 (a : UInt64) (v : UInt8) : Prog Uefi Unit := uefi (.mmioWrite8 a v)

def mmioWrite16 (a : UInt64) (v : UInt16) : Prog Uefi Unit := uefi (.mmioWrite16 a v)

def mmioWrite32 (a : UInt64) (v : UInt32) : Prog Uefi Unit := uefi (.mmioWrite32 a v)

def stall (us : ℕ) : Prog Uefi Unit := uefi (.stall us)

theorem add_sub_base (base off : UInt64) : base + off - base = off := by
  rw [UInt64.add_comm, UInt64.add_sub_cancel]

end TouchI2c
