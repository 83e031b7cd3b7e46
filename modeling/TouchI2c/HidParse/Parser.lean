import TouchI2c.CMemory.Checked
import TouchI2c.Uefi.Status

/-!
# The HID report-descriptor parser

`HidParse.c` as the code computes it: one loop over the descriptor bytes, with the global items and
their `Push`/`Pop` stack, the local items that the next main item clears, and one record for each
report ID.

## Representation

`UINT32` values are natural numbers, with `% 2 ^ 32` where the source lets a value wrap and a
checked operation where wrapping would corrupt a bit position. So what is proved about the bit
positions includes that they do not wrap.

A descriptor is the list of its bytes, so `DescLen` is the length of the list and a read at or past
`DescLen` is a fault. The fixed-size arrays `Usages` and `Stack` start uninitialised, `Rids` starts
zeroed. `Layout` is a value that the caller passes in and gets back, changed only on success.

The loop of the source becomes a recursion over the offset, its body one definition for each kind of
item, in the order of the branches of the source.
-/

namespace TouchI2c

open CMemory

namespace HidParse

/-! ## Constants and records -/

/-- Digitizers page / Tip Switch. -/
def usageTipSwitch : ℕ := 0x000D0042

/-- Generic Desktop / X. -/
def usageX : ℕ := 0x00010030

/-- Generic Desktop / Y. -/
def usageY : ℕ := 0x00010031

def maxReportIds : ℕ := 16

def maxLocalUsages : ℕ := 32

def globalStackMax : ℕ := 4

/-- `HID_GLOBALS`. -/
structure HidGlobals where
  usagePage : ℕ
  logicalMin : ℤ
  logicalMaxSigned : ℤ
  logicalMaxRaw : ℕ
  reportSize : ℕ
  reportCount : ℕ
  reportId : UInt8
  deriving DecidableEq, Repr

/-- The globals after `SetMem (&G, sizeof (G), 0)`. -/
def HidGlobals.zero : HidGlobals := ⟨0, 0, 0, 0, 0, 0, 0⟩

/-- `RID_STATE`: where the touch fields of one report ID lie, as far as they have been seen. -/
structure RidState where
  id : UInt8
  used : Bool
  bitPos : ℕ
  tipOff : ℤ
  xOff : ℤ
  yOff : ℤ
  xBits : ℕ
  yBits : ℕ
  xMax : ℕ
  yMax : ℕ
  overflowed : Bool
  deriving DecidableEq, Repr

/-- A record after `SetMem (Rids, sizeof (Rids), 0)`. -/
def RidState.zero : RidState := ⟨0, false, 0, 0, 0, 0, 0, 0, 0, 0, false⟩

end HidParse

/-- `HID_TOUCH_LAYOUT`: bit offsets count from after the report-ID byte. -/
structure HidTouchLayout where
  hasReportId : Bool
  reportId : UInt8
  tipBitOffset : ℕ
  xBitOffset : ℕ
  xBitSize : ℕ
  xLogicalMax : ℕ
  yBitOffset : ℕ
  yBitSize : ℕ
  yLogicalMax : ℕ
  deriving DecidableEq, Repr

/-- The layout after `ZeroMem (&Dev->Layout, sizeof (Dev->Layout))`. -/
def HidTouchLayout.zero : HidTouchLayout := ⟨false, 0, 0, 0, 0, 0, 0, 0, 0⟩

namespace HidParse

/-- The locals of `HidParseTouchLayout`, apart from the read position. -/
structure ParserState where
  g : HidGlobals
  stack : List (Option HidGlobals)
  sp : ℕ
  rids : List RidState
  reportId : UInt8
  anyReportId : Bool
  usages : List (Option ℕ)
  numUsages : ℕ
  usageMin : ℕ
  usageMax : ℕ
  haveUsageMin : Bool
  haveUsageMax : Bool

/-- The state in which the loop starts. -/
def ParserState.init : ParserState where
  g := .zero
  stack := List.replicate globalStackMax none
  sp := 0
  rids := List.replicate maxReportIds .zero
  reportId := 0
  anyReportId := false
  usages := List.replicate maxLocalUsages none
  numUsages := 0
  usageMin := 0
  usageMax := 0
  haveUsageMin := false
  haveUsageMax := false

/-! ## Report records -/

/-- The record that `GetRidState` opens in a free slot. -/
def RidState.opened (r : RidState) (id : UInt8) : RidState :=
  { r with used := true, id := id, bitPos := 0, overflowed := false, tipOff := -1, xOff := -1,
           yOff := -1 }

/-- `GetRidState`: the index of the record of `id`, opened in the first free slot if there is none,
or `none` when all slots are taken by other report IDs. -/
def getRidState (rids : List RidState) (id : UInt8) : Option ℕ × List RidState :=
  match rids.findIdx? fun r ↦ r.used && r.id == id with
  | some i => (some i, rids)
  | none =>
    match rids.findIdx? fun r ↦ !r.used with
    | some i => (some i, rids.modify i (RidState.opened · id))
    | none => (none, rids)

/-- `ResolveLogicalMax`: signed unless the minimum is nonnegative and the raw value reads
negative. -/
def resolveLogicalMax (g : HidGlobals) : ℕ :=
  if g.logicalMaxSigned < 0 ∧ 0 ≤ g.logicalMin then g.logicalMaxRaw
  else if 0 < g.logicalMaxSigned then g.logicalMaxSigned.toNat else 0

/-! ## One Input item -/

/-- The usage of field `k`, or `none` for constant padding. -/
def loopUsage (st : ParserState) (k : ℕ) : Checked (Option ℕ) :=
  if st.haveUsageMin ∧ st.haveUsageMax then
    let usage := (st.usageMin + k) % u32
    .ok (some (if usage > st.usageMax then st.usageMax else usage))
  else if 0 < st.numUsages then do
    let usage ← readSlot st.usages (if k < st.numUsages then k else st.numUsages - 1)
    return some usage
  else
    .ok none

/-- The assignments of the loop body: the first field with a wanted usage is the one kept. -/
def RidState.assign (r : RidState) (g : HidGlobals) (usage off : ℕ) : RidState :=
  if usage = usageTipSwitch ∧ r.tipOff < 0 then
    { r with tipOff := toInt32 off }
  else if usage = usageX ∧ r.xOff < 0 then
    { r with xOff := toInt32 off, xBits := g.reportSize, xMax := resolveLogicalMax g }
  else if usage = usageY ∧ r.yOff < 0 then
    { r with yOff := toInt32 off, yBits := g.reportSize, yMax := resolveLogicalMax g }
  else r

/-- One pass of `for (k = 0; k < G.ReportCount; k++)`. -/
def inputField (st : ParserState) (r : RidState) (k : ℕ) : Checked RidState := do
  let off ← addU32 r.bitPos (← mulU32 k st.g.reportSize)
  match ← loopUsage st k with
  | none => return r
  | some usage => return r.assign st.g usage off

/-- The Input branch for the record `R`; an item that does not fit marks the report. -/
def inputItem (maxReportBits : ℕ) (st : ParserState) (r : RidState) : Checked RidState := do
  if st.g.reportSize = 0 ∨ st.g.reportCount = 0 ∨ st.g.reportSize > maxReportBits ∨
      st.g.reportCount > maxReportBits / st.g.reportSize then
    return { r with overflowed := true }
  else
    let itemBits ← mulU32 st.g.reportSize st.g.reportCount
    if r.bitPos > (← subUnsigned maxReportBits itemBits) then
      return { r with overflowed := true }
    else
      let r ← (List.range st.g.reportCount).foldlM (inputField st) r
      let bitPos ← addU32 r.bitPos itemBits
      return { r with bitPos := bitPos }

/-! ## The three item types -/

/-- A global item. -/
def globalItem (st : ParserState) (tag uVal : ℕ) (sVal : ℤ) : Checked ParserState :=
  match tag with
  | 0x0 => return { st with g.usagePage := uVal }
  | 0x1 => return { st with g.logicalMin := sVal }
  | 0x2 => return { st with g.logicalMaxSigned := sVal, g.logicalMaxRaw := uVal }
  | 0x7 => return { st with g.reportSize := uVal }
  | 0x8 => return { st with reportId := UInt8.ofNat uVal, g.reportId := UInt8.ofNat uVal,
                            anyReportId := true }
  | 0x9 => return { st with g.reportCount := uVal }
  | 0xA =>
    if st.sp < globalStackMax then do
      let stack ← writeAt st.stack st.sp (some st.g)
      return { st with stack := stack, sp := st.sp + 1 }
    else return st
  | 0xB =>
    if 0 < st.sp then do
      let g ← readSlot st.stack (st.sp - 1)
      return { st with g := g, sp := st.sp - 1, reportId := g.reportId }
    else return st
  | _ => return st

/-- `(DSize == 4) ? UVal : ((G.UsagePage << 16) | UVal)`, in `UINT32`. -/
def extendedUsage (g : HidGlobals) (dSize uVal : ℕ) : ℕ :=
  if dSize = 4 then uVal else (g.usagePage <<< 16) % u32 ||| uVal

/-- A local item. -/
def localItem (st : ParserState) (tag dSize uVal : ℕ) : Checked ParserState :=
  match tag with
  | 0x0 =>
    if st.numUsages < maxLocalUsages then do
      let usages ← writeAt st.usages st.numUsages (some (extendedUsage st.g dSize uVal))
      return { st with usages := usages, numUsages := st.numUsages + 1 }
    else return st
  | 0x1 => return { st with usageMin := extendedUsage st.g dSize uVal, haveUsageMin := true }
  | 0x2 => return { st with usageMax := extendedUsage st.g dSize uVal, haveUsageMax := true }
  | _ => return st

/-- The Input branch: the item goes to the record of the current report ID, if it has one. -/
def recordInput (maxReportBits : ℕ) (st : ParserState) : Checked (List RidState) :=
  match getRidState st.rids st.reportId with
  | (some i, rids) => do
    let r ← inputItem maxReportBits st (← readAt rids i)
    writeAt rids i r
  | (none, rids) => return rids

/-- A main item: Input is recorded, and every main item clears the locals. -/
def mainItem (maxReportBits : ℕ) (st : ParserState) (tag : ℕ) : Checked ParserState := do
  let rids ← if tag = 0x8 then recordInput maxReportBits st else pure st.rids
  return { st with rids := rids, numUsages := 0, haveUsageMin := false, haveUsageMax := false }

/-! ## The loop -/

/-- The data size of a short item. -/
def dSizeOf (pfx : ℕ) : ℕ := if pfx &&& 3 = 3 then 4 else pfx &&& 3

/-- `UVal` from the first `n` data bytes of the item whose data starts at `start`. -/
def readUVal (desc : List UInt8) (start : ℕ) : ℕ → Checked ℕ
  | 0 => .ok 0
  | b + 1 => do
    let uVal ← readUVal desc start b
    let byte ← readAt desc (start + b)
    return uVal ||| (byte.toNat <<< (8 * b))

/-- `SVal`, with the sign extension of one- and two-byte data. -/
def sValOf (dSize uVal : ℕ) : ℤ :=
  if dSize = 1 ∧ uVal &&& 0x80 ≠ 0 then toInt32 (uVal ||| 0xFFFFFF00)
  else if dSize = 2 ∧ uVal &&& 0x8000 ≠ 0 then toInt32 (uVal ||| 0xFFFF0000)
  else toInt32 uVal

/-- The item dispatch of the loop body. -/
def shortItem (maxReportBits : ℕ) (st : ParserState) (pfx dSize uVal : ℕ) : Checked ParserState :=
  match (pfx >>> 2) &&& 3 with
  | 1 => globalItem st (pfx >>> 4) uVal (sValOf dSize uVal)
  | 2 => localItem st (pfx >>> 4) dSize uVal
  | 0 => mainItem maxReportBits st (pfx >>> 4)
  | _ => return st

/-- `while (i < DescLen)`. -/
def parseLoop (desc : List UInt8) (maxReportBits : ℕ) (st : ParserState) (i : ℕ) :
    Checked ParserState :=
  if i < desc.length then do
    let pfx ← readAt desc i
    if pfx = 0xFE then
      -- a long item: [0xFE][bDataSize][bLongItemTag][data...]
      if i + 2 ≥ desc.length then return st
      else
        let n ← readAt desc (i + 1)
        parseLoop desc maxReportBits st (i + (3 + n.toNat))
    else
      let dSize := dSizeOf pfx.toNat
      if i + 1 + dSize > desc.length then return st
      else
        let uVal ← readUVal desc (i + 1) dSize
        let st ← shortItem maxReportBits st pfx.toNat dSize uVal
        parseLoop desc maxReportBits st (i + (1 + dSize))
  else return st
termination_by desc.length - i

/-! ## Selecting a report -/

/-- The test of the selection loop; each conjunct guards the ones after it. -/
def RidState.selectable (r : RidState) (payloadBits : ℕ) : Bool :=
  r.used && !r.overflowed && 0 ≤ r.tipOff && 0 ≤ r.xOff && 0 ≤ r.yOff &&
    r.bitPos ≤ payloadBits && r.tipOff.toNat < payloadBits &&
    r.xBits ≤ payloadBits && r.yBits ≤ payloadBits &&
    r.xOff.toNat ≤ payloadBits - r.xBits && r.yOff.toNat ≤ payloadBits - r.yBits

/-- The layout of a selected record. -/
def RidState.layout (r : RidState) (anyReportId : Bool) : HidTouchLayout where
  hasReportId := anyReportId
  reportId := r.id
  tipBitOffset := r.tipOff.toNat
  xBitOffset := r.xOff.toNat
  xBitSize := r.xBits
  xLogicalMax := r.xMax
  yBitOffset := r.yOff.toNat
  yBitSize := r.yBits
  yLogicalMax := r.yMax

/-- The loop over `Rids` after the descriptor has been walked. -/
def selectLayout (rids : List RidState) (anyReportId : Bool) (payloadBits : ℕ)
    (layout : HidTouchLayout) : EfiStatus × HidTouchLayout :=
  match rids.find? (·.selectable payloadBits) with
  | some r => (.success, r.layout anyReportId)
  | none => (.notFound, layout)

/-- `HidParseTouchLayout`. The result pairs the status with the final `*Layout`. -/
def hidParseTouchLayout (desc : List UInt8) (maxInputLength : ℕ) (layout : HidTouchLayout) :
    Checked (EfiStatus × HidTouchLayout) :=
  if desc.length = 0 ∨ maxInputLength < 3 ∨ maxInputLength - 2 > 0xFFFFFFFF / 8 then
    return (.invalidParameter, layout)
  else do
    let maxReportBits ← mulU32 (maxInputLength - 2) 8
    let st ← parseLoop desc maxReportBits .init 0
    let payloadBits ← subUnsigned maxReportBits (if st.anyReportId then 8 else 0)
    return selectLayout st.rids st.anyReportId payloadBits layout

/-! ## Extracting a field from a report -/

/-- The loop of `HidExtractBits`, from bit `b` on with `n` passes left. The payload starts at
`start` in the buffer, and `bufLen` is its declared length. -/
def extractLoop (buf : List UInt8) (start bufLen bitOffset : ℕ) : ℕ → ℕ → ℕ → Checked ℕ
  | _, 0, val => .ok val
  | b, n + 1, val =>
    let bit := (bitOffset + b) % u32
    if bit / 8 ≥ bufLen then .ok val
    else do
      let byte ← readAt buf (start + bit / 8)
      extractLoop buf start bufLen bitOffset (b + 1) n
        (val ||| (((byte.toNat >>> (bit &&& 7)) &&& 1) <<< b))

/-- `HidExtractBits (Buf + start, BufLen, BitOffset, BitCount)`. -/
def hidExtractBits (buf : List UInt8) (start bufLen bitOffset bitCount : ℕ) : Checked ℕ :=
  extractLoop buf start bufLen bitOffset 0 (if bitCount > 32 then 32 else bitCount) 0

end HidParse

end TouchI2c
