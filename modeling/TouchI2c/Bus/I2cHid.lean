import TouchI2c.Bus.I2cBus

/-!
# HID over I2C

`I2cHid.c` as the code computes it: register reads, plain reads and commands on the selected
transport, and the HID descriptor with its checks.

A descriptor is its 30 bytes as they arrived, and a field is read out of them, little-endian, where
the packed structure of the source has it. So a descriptor that has been read in part is still a
value, and the fields that nothing reads need no name.
-/

namespace TouchI2c

open CMemory Interaction

/-! ## The descriptor -/

/-- `sizeof (I2C_HID_DESCRIPTOR)`. -/
def i2cHidDescriptorSize : ℕ := 30

/-- `I2C_HID_DESCRIPTOR`. -/
structure I2cHidDescriptor where
  bytes : List UInt8
  length_bytes : bytes.length = i2cHidDescriptorSize
  deriving DecidableEq

namespace I2cHidDescriptor

/-- The descriptor after `ZeroMem`. -/
def zero : I2cHidDescriptor := ⟨List.replicate i2cHidDescriptorSize 0, List.length_replicate⟩

/-- The little-endian field at `off`. -/
def field (d : I2cHidDescriptor) (off : ℕ) : UInt16 :=
  (d.bytes.getD off 0).toUInt16 ||| (d.bytes.getD (off + 1) 0).toUInt16 <<< 8

variable (d : I2cHidDescriptor)

def wHIDDescLength : UInt16 := d.field 0
def bcdVersion : UInt16 := d.field 2
def wReportDescLength : UInt16 := d.field 4
def wReportDescRegister : UInt16 := d.field 6
def wMaxInputLength : UInt16 := d.field 10
def wCommandRegister : UInt16 := d.field 16
def wVendorID : UInt16 := d.field 20

/-- The checks of `I2cHidReadDescriptor`. -/
def valid : Bool :=
  d.wHIDDescLength.toNat == i2cHidDescriptorSize && d.bcdVersion == 0x0100 &&
    d.wReportDescLength != 0 && d.wReportDescLength ≤ 4096 &&
    3 ≤ d.wMaxInputLength && d.wMaxInputLength ≤ 1024

/-- The descriptor with the bytes `buf`; a buffer of another length is out of range. -/
def ofBytes (buf : Option (List UInt8)) : Checked I2cHidDescriptor :=
  match buf with
  | none => .error .nullPointer
  | some bytes =>
    if h : bytes.length = i2cHidDescriptorSize then .ok ⟨bytes, h⟩ else .error .outOfRange

end I2cHidDescriptor

/-! ## The transport -/

def i2cHidOpcodeReset : UInt8 := 0x01
def i2cHidOpcodeSetPower : UInt8 := 0x08

def i2cHidPowerOn : UInt8 := 0x00

/-- The two bytes of a register address. -/
def regBytes (reg : UInt16) : List UInt8 := [(reg &&& 0xFF).toUInt8, (reg >>> 8).toUInt8]

/-- `I2cHidReadRegister`. -/
def i2cHidReadRegister (base : UInt64) (reg : UInt16) (buf : Option (List UInt8)) (len : ℕ) :
    Bus (EfiStatus × Option (List UInt8)) :=
  i2cBusXfer base (some (regBytes reg)) 2 buf len

/-- `I2cHidRawRead`. -/
def i2cHidRawRead (base : UInt64) (buf : Option (List UInt8)) (len : ℕ) :
    Bus (EfiStatus × Option (List UInt8)) :=
  i2cBusXfer base none 0 buf len

/-- `I2cHidCommand`. -/
def i2cHidCommand (base : UInt64) (cmdReg : UInt16) (arg opcode : UInt8) : Bus EfiStatus := do
  return (← i2cBusXfer base (some (regBytes cmdReg ++ [arg, opcode])) 4 none 0).1

/-- `I2cHidSetPower`. -/
def i2cHidSetPower (base : UInt64) (cmdReg : UInt16) (powerState : UInt8) : Bus EfiStatus :=
  i2cHidCommand base cmdReg powerState i2cHidOpcodeSetPower

/-- `I2cHidReset`. -/
def i2cHidReset (base : UInt64) (cmdReg : UInt16) : Bus EfiStatus :=
  i2cHidCommand base cmdReg 0 i2cHidOpcodeReset

/-- `I2cHidReadDescriptor`: the status, and `Desc` with whatever the transfer left in it. -/
def i2cHidReadDescriptor (base : UInt64) (descReg : UInt16) (desc : I2cHidDescriptor) :
    Bus (EfiStatus × I2cHidDescriptor) := do
  let (status, buf) ← i2cHidReadRegister base descReg (some desc.bytes) i2cHidDescriptorSize
  let desc ← I2cHidDescriptor.ofBytes buf
  if status.isError then return (status, desc)
  else if desc.valid then return (.success, desc)
  else return (.unsupported, desc)

end TouchI2c
