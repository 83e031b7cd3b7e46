import TouchI2c.CMemory.CString

/-!
# Reading the DMI identity

`TouchCopySmbiosString` and `TouchReadDmiIdentity` as the code computes them. A pointer into the
SMBIOS table is an index into its bytes and every access is checked. The two names are the arrays
`mDmiProduct` and `mDmiBoard`.
-/

namespace TouchI2c

open CMemory

def smbiosTypeSystemInformation : UInt8 := 1
def smbiosTypeBaseboardInformation : UInt8 := 2
def smbiosTypeEndOfTable : UInt8 := 127

/-- `sizeof (SMBIOS_STRUCTURE)`. -/
def smbiosStructureSize : ℕ := 4

/-- The offset of `ProductName` in both `SMBIOS_TABLE_TYPE1` and `SMBIOS_TABLE_TYPE2`. -/
def smbiosProductNameOffset : ℕ := 5

/-- `mDmiProduct` and `mDmiBoard`. -/
structure DmiIdentity where
  product : List UInt8
  board : List UInt8
  deriving DecidableEq, Repr

/-- Both arrays before anything has been read. -/
def DmiIdentity.unread : DmiIdentity := ⟨List.replicate 32 0, List.replicate 32 0⟩

/-! ## Strings -/

/-- The loop of `TouchCopySmbiosString` over the string set. -/
def copyNthString (table : List UInt8) (stringNumber : UInt8) (destination : List UInt8) :
    ℕ → ℕ → UInt8 → Checked (List UInt8)
  | 0, _, _ => .error .unbounded
  | n + 1, str, number =>
    if str < table.length then do
      if (← readAt table str) ≠ 0 then
        let len ← strLen table str (table.length - str) 0
        if number = stringNumber then
          let len := min len (destination.length - 1)
          writeAt (← copyMem destination table str len) len 0
        else if table.length ≤ str + len then return destination
        else copyNthString table stringNumber destination n (str + len + 1) (number + 1)
      else return destination
    else return destination

/-- `TouchCopySmbiosString`. -/
def touchCopySmbiosString (table : List UInt8) (p : ℕ) (stringNumber : UInt8)
    (destination : List UInt8) : Checked (List UInt8) :=
  if stringNumber = 0 ∨ destination.length = 0 then return destination
  else do
    let length ← readAt table (p + 1)
    if table.length < p + length.toNat then return destination
    else copyNthString table stringNumber destination (table.length + 1) (p + length.toNat) 1

/-- Advances past a string set to its double NUL, with `n` bytes after `Str + 1`. -/
def skipStrings (table : List UInt8) : ℕ → ℕ → Checked ℕ
  | 0, str => return str
  | n + 1, str => do
    if (← readAt table str) = 0 then
      if (← readAt table (str + 1)) = 0 then return str
      else skipStrings table n (str + 1)
    else skipStrings table n (str + 1)

/-! ## The walk -/

/-- Takes a product name from a Type 1 or a Type 2 structure. -/
def copyNames (table : List UInt8) (p : ℕ) (type length : UInt8) (dmi : DmiIdentity) :
    Checked DmiIdentity :=
  if type = smbiosTypeSystemInformation ∧ smbiosProductNameOffset < length.toNat then do
    let number ← readAt table (p + smbiosProductNameOffset)
    return { dmi with product := ← touchCopySmbiosString table p number dmi.product }
  else if type = smbiosTypeBaseboardInformation ∧ smbiosProductNameOffset < length.toNat then do
    let number ← readAt table (p + smbiosProductNameOffset)
    return { dmi with board := ← touchCopySmbiosString table p number dmi.board }
  else return dmi

/-- One pass of the walk: the names, and the next structure unless the walk returns. -/
def walkStructure (table : List UInt8) (p : ℕ) (dmi : DmiIdentity) :
    Checked (DmiIdentity × Option ℕ) := do
  let type ← readAt table p
  let length ← readAt table (p + 1)
  if type = smbiosTypeEndOfTable ∨ length.toNat < smbiosStructureSize ∨
      table.length < p + length.toNat then
    return (dmi, none)
  else
    let dmi ← copyNames table p type length dmi
    let str := p + length.toNat
    let str ← skipStrings table (table.length - (str + 1)) str
    if table.length ≤ str + 1 then
      return (dmi, none)
    else
      let product ← readAt dmi.product 0
      let board ← readAt dmi.board 0
      return (dmi, if product ≠ 0 ∧ board ≠ 0 then none else some (str + 2))

/-- The walk of `TouchReadDmiIdentity` over the structure table. -/
def walkTable (table : List UInt8) : ℕ → ℕ → DmiIdentity → Checked DmiIdentity
  | 0, _, _ => .error .unbounded
  | n + 1, p, dmi =>
    if p + smbiosStructureSize ≤ table.length then do
      match ← walkStructure table p dmi with
      | (dmi, some p) => walkTable table n p dmi
      | (dmi, none) => return dmi
    else return dmi

/-- An entry of the configuration table, with the bytes its entry point leads to; `none` is a NULL
table address. -/
inductive ConfigurationEntry where
  | smbios3 (table : Option (List UInt8))
  | smbios (table : Option (List UInt8))
  | other

/-- The table that `TouchReadDmiIdentity` walks: the first 64-bit entry point wins. -/
def findTable : List ConfigurationEntry → Option (List UInt8) → Option (List UInt8)
  | [], table => table
  | .smbios3 table :: _, _ => table
  | .smbios table :: entries, none => findTable entries table
  | .smbios _ :: entries, some table => findTable entries (some table)
  | .other :: entries, table => findTable entries table

/-- `TouchReadDmiIdentity`. -/
def touchReadDmiIdentity (entries : List ConfigurationEntry) : Checked DmiIdentity :=
  match findTable entries none with
  | none => return .unread
  | some table =>
    if table.length = 0 then return .unread
    else walkTable table (table.length + 1) 0 .unread

end TouchI2c
