import Mathlib.Data.Nat.Digits.Defs
import TouchI2c.Bus.Footprint

/-!
# The firmware's controller for a panel

What an extended ACPI node of a device path says, in terms of the strings that lie in it, and which
nodes `PathHasAcpiNode` takes for the controller it looks for: those with the HID whose numeric UID
or whose UID string is the wanted one.

## Strings in a node

A string of a node starts where the one before it ends, and need not be terminated inside the node;
then there is no such string, and none behind it. `IsString` splits the bytes from there on into a
string, its NUL and the rest. The scans of the source find the end of a string exactly where there
is one (`exists_isString_iff`), so the comparisons are comparisons of strings, and no byte outside
of the node is read.

## Numbers

`AsciiStrDecimalToUintn` reads a number up to 64 bits and saturates. It is only compared with a
32-bit UID, so what it makes of a number that does not fit is never found.
-/

namespace TouchI2c

open CMemory

/-! ## What a node says -/

/-- `s` is the string at the front of `bytes`, and `rest` is what comes after its NUL. -/
structure IsString (bytes s rest : List UInt8) : Prop where
  split : bytes = s ++ 0 :: rest
  nonzero : ∀ b ∈ s, b ≠ 0
  nonempty : s ≠ []

/-- The node is an extended ACPI one with the HID string `hid`, and `rest` lies behind that. -/
structure HasHid (node : DevicePathNode) (hid rest : List UInt8) : Prop where
  type : node.type = acpiDevicePath
  subType : node.subType = acpiExtendedDp
  string : IsString (node.body.drop acpiExtendedBodySize) hid rest

/-- The little-endian `UINT32` at `off`. -/
def u32At (bytes : List UInt8) (off : ℕ) : UInt32 :=
  (bytes.getD off 0).toUInt32 ||| (bytes.getD (off + 1) 0).toUInt32 <<< 8 |||
    (bytes.getD (off + 2) 0).toUInt32 <<< 16 ||| (bytes.getD (off + 3) 0).toUInt32 <<< 24

/-- `UID` of an extended ACPI node. -/
def numericUid (node : DevicePathNode) : UInt32 := u32At node.body acpiExtendedUidOffset

/-- Equality of strings up to the case of ASCII letters. -/
def EqIgnoringCase (s : List UInt8) (t : String) : Prop :=
  s.map asciiToUpper = (asciiBytes t).map asciiToUpper

instance (s : List UInt8) (t : String) : Decidable (EqIgnoringCase s t) :=
  inferInstanceAs (Decidable (_ = _))

def IsBlank (b : UInt8) : Prop := b = 0x20 ∨ b = 0x09

def IsDigit (b : UInt8) : Prop := 0x30 ≤ b ∧ b ≤ 0x39

/-- The number that some digits write. -/
def digitsValue (digits : List UInt8) : ℕ :=
  Nat.ofDigits 10 (digits.map fun b ↦ b.toNat - 0x30).reverse

/-- The string begins with the decimal number `n`, perhaps after blanks; a string that does not
begin with a digit counts as zero. -/
def BeginsWith (s : List UInt8) (n : ℕ) : Prop :=
  ∃ blanks digits rest, s = blanks ++ (digits ++ rest) ∧ (∀ b ∈ blanks, IsBlank b) ∧
    (∀ b ∈ digits, IsDigit b) ∧ (∀ b ∈ (digits ++ rest).head?, ¬IsBlank b) ∧
    (∀ b ∈ rest.head?, ¬IsDigit b) ∧ n = digitsValue digits

/-- The node names the controller by its HID, and by its numeric UID or its UID string. -/
def NamesController (acpiHid : String) (acpiUid : UInt32) (node : DevicePathNode) : Prop :=
  ∃ hid rest, HasHid node hid rest ∧ EqIgnoringCase hid acpiHid ∧
    (numericUid node = acpiUid ∨
      ∃ uid rest', IsString rest uid rest' ∧ BeginsWith uid acpiUid.toNat)

/-! ## Strings -/

section

variable {bytes s rest : List UInt8}

theorem IsString.eq_cString (h : IsString bytes s rest) : cString bytes = s := by
  rw [h.split, cString_append_zero h.nonzero]

theorem isString_iff : IsString bytes s rest ↔
    s = cString bytes ∧ s ≠ [] ∧ s.length < bytes.length ∧ rest = bytes.drop (s.length + 1) := by
  constructor
  · rintro ⟨rfl, hnonzero, hnonempty⟩
    refine ⟨(cString_append_zero hnonzero rest).symm, hnonempty, ?_, ?_⟩
    · rw [List.length_append, List.length_cons]
      omega
    · have hcons : s ++ 0 :: rest = (s ++ [0]) ++ rest := by simp
      have hlen : s.length + 1 = (s ++ [0]).length := by simp
      rw [hcons, hlen, List.drop_left]
  · rintro ⟨rfl, hnonempty, hterminated, rfl⟩
    exact ⟨(cString_split hterminated).symm, fun b ↦ ne_zero_of_mem_cString, hnonempty⟩

/-- There is a string at the front of the bytes exactly if the scan finds its end. -/
theorem exists_isString_iff {P : List UInt8 → List UInt8 → Prop} :
    (∃ s rest, IsString bytes s rest ∧ P s rest) ↔
      0 < (cString bytes).length ∧ (cString bytes).length < bytes.length ∧
        P (cString bytes) (bytes.drop ((cString bytes).length + 1)) := by
  constructor
  · rintro ⟨s, rest, hstring, hP⟩
    obtain ⟨rfl, hnonempty, hterminated, rfl⟩ := isString_iff.mp hstring
    exact ⟨List.length_pos_iff.mpr hnonempty, hterminated, hP⟩
  · rintro ⟨hpos, hterminated, hP⟩
    exact ⟨_, _, isString_iff.mpr ⟨rfl, List.length_pos_iff.mp hpos, hterminated, rfl⟩, hP⟩

/-! ## Numbers -/

private theorem foldl_digits (digits : List ℕ) (n : ℕ) :
    digits.foldl (fun n d ↦ 10 * n + d) n
      = n * 10 ^ digits.length + Nat.ofDigits 10 digits.reverse := by
  induction digits generalizing n with
  | nil => simp
  | cons d digits ih =>
    rw [List.foldl_cons, ih, List.reverse_cons, Nat.ofDigits_append, Nat.ofDigits_singleton,
      List.length_cons, List.length_reverse, pow_succ]
    ring

/-- The digits that a string begins with, perhaps after blanks. -/
def leadingDigits (s : List UInt8) : List UInt8 :=
  (s.dropWhile fun c ↦ c == 0x20 || c == 0x09).takeWhile fun c ↦ 0x30 ≤ c && c ≤ 0x39

private def blankB (c : UInt8) : Bool := c == 0x20 || c == 0x09

private def digitB (c : UInt8) : Bool := 0x30 ≤ c && c ≤ 0x39

private theorem blankB_iff {c : UInt8} : blankB c = true ↔ IsBlank c := by
  unfold blankB IsBlank
  simp

private theorem digitB_iff {c : UInt8} : digitB c = true ↔ IsDigit c := by
  unfold digitB IsDigit
  simp

private theorem scan_append {p : UInt8 → Bool} {front : List UInt8} (hfront : ∀ b ∈ front, p b = true)
    (hrest : ∀ b ∈ rest.head?, ¬p b = true) :
    (front ++ rest).takeWhile p = front ∧ (front ++ rest).dropWhile p = rest := by
  have hstop : rest.takeWhile p = [] ∧ rest.dropWhile p = rest := by
    cases rest with
    | nil => exact ⟨rfl, rfl⟩
    | cons b rest =>
      have hb := hrest b rfl
      exact ⟨List.takeWhile_cons_of_neg hb, List.dropWhile_cons_of_neg hb⟩
  rw [List.takeWhile_append_of_pos hfront, List.dropWhile_append_of_pos hfront, hstop.1, hstop.2,
    List.append_nil]
  exact ⟨rfl, rfl⟩

private theorem not_of_mem_head?_dropWhile {p : UInt8 → Bool} :
    ∀ b ∈ (s.dropWhile p).head?, ¬p b = true := by
  intro b hb
  have hnot := List.head?_dropWhile_not p s
  rw [Option.mem_def.mp hb] at hnot
  simpa using hnot

theorem beginsWith_iff {n : ℕ} : BeginsWith s n ↔ n = digitsValue (leadingDigits s) := by
  constructor
  · rintro ⟨blanks, digits, rest, rfl, hblanks, hdigits, hdigits₀, hrest₀, rfl⟩
    have hdrop := (scan_append (fun b hb ↦ blankB_iff.mpr (hblanks b hb))
      fun b hb ↦ mt blankB_iff.mp (hdigits₀ b hb)).2
    have htake := (scan_append (fun b hb ↦ digitB_iff.mpr (hdigits b hb))
      fun b hb ↦ mt digitB_iff.mp (hrest₀ b hb)).1
    change digitsValue digits
      = digitsValue (((blanks ++ (digits ++ rest)).dropWhile blankB).takeWhile digitB)
    rw [hdrop, htake]
  · rintro rfl
    refine ⟨s.takeWhile blankB, (s.dropWhile blankB).takeWhile digitB,
      (s.dropWhile blankB).dropWhile digitB, ?_, ?_, ?_, ?_, ?_, rfl⟩
    · rw [List.takeWhile_append_dropWhile, List.takeWhile_append_dropWhile]
    · intro b hb
      exact blankB_iff.mp (List.mem_takeWhile_imp hb)
    · intro b hb
      exact digitB_iff.mp (List.mem_takeWhile_imp hb)
    · rw [List.takeWhile_append_dropWhile]
      intro b hb
      exact mt blankB_iff.mpr (not_of_mem_head?_dropWhile b hb)
    · intro b hb
      exact mt digitB_iff.mpr (not_of_mem_head?_dropWhile b hb)

/-- `AsciiStrDecimalToUintn` is only compared with 32-bit numbers, and what it makes of a number
that does not fit is none. -/
theorem asciiStrDecimalToUintn_eq_iff {u : UInt32} :
    asciiStrDecimalToUintn bytes = u.toNat ↔ BeginsWith (cString bytes) u.toNat := by
  have hvalue : asciiStrDecimalToUintn bytes
      = min (digitsValue (leadingDigits (cString bytes))) (2 ^ 64 - 1) := by
    have hfold := foldl_digits ((leadingDigits (cString bytes)).map fun c ↦ c.toNat - 0x30) 0
    rw [Nat.zero_mul, Nat.zero_add] at hfold
    unfold asciiStrDecimalToUintn digitsValue
    rw [← hfold]
    rfl
  have hlt := u.toNat_lt
  rw [hvalue, beginsWith_iff]
  omega

/-! ## The test of a node -/

theorem readU32_eq {off : ℕ} (h : off + 4 ≤ bytes.length) :
    readU32 bytes off = .ok (u32At bytes off) := by
  have hget : ∀ {i} (hi : i < bytes.length), bytes.getD i 0 = bytes[i] := by
    intro i hi
    rw [List.getD_eq_getElem?_getD, List.getElem?_eq_getElem hi, Option.getD_some]
  unfold readU32 u32At
  rw [readAt_getElem (by omega), readAt_getElem (by omega), readAt_getElem (by omega),
    readAt_getElem (by omega), hget (by omega), hget (by omega), hget (by omega), hget (by omega)]
  rfl

theorem uidStringMatches_iff {acpiUid : UInt32} : uidStringMatches bytes acpiUid = true ↔
    ∃ uid rest, IsString bytes uid rest ∧ BeginsWith uid acpiUid.toNat := by
  rw [exists_isString_iff]
  unfold uidStringMatches
  rw [Bool.and_eq_true, Bool.and_eq_true, decide_eq_true_iff, decide_eq_true_iff, beq_iff_eq,
    asciiStrDecimalToUintn_eq_iff, and_assoc]

theorem asciiStriEq_iff {t : String} :
    asciiStriEq bytes t = true ↔ EqIgnoringCase (cString bytes) t := by
  rw [asciiStriEq, beq_iff_eq, EqIgnoringCase]

theorem nodeMatches_iff {acpiHid : String} {acpiUid : UInt32} {node : DevicePathNode} :
    nodeMatches acpiHid acpiUid node = .ok true ↔ NamesController acpiHid acpiUid node := by
  have hnames : NamesController acpiHid acpiUid node ↔ (node.type = acpiDevicePath ∧
      node.subType = acpiExtendedDp) ∧ ∃ hid rest,
        IsString (node.body.drop acpiExtendedBodySize) hid rest ∧ EqIgnoringCase hid acpiHid ∧
          (numericUid node = acpiUid ∨
            ∃ uid rest', IsString rest uid rest' ∧ BeginsWith uid acpiUid.toNat) := by
    constructor
    · rintro ⟨hid, rest, ⟨htype, hsubType, hstring⟩, heq, huid⟩
      exact ⟨⟨htype, hsubType⟩, hid, rest, hstring, heq, huid⟩
    · rintro ⟨⟨htype, hsubType⟩, hid, rest, hstring, heq, huid⟩
      exact ⟨hid, rest, ⟨htype, hsubType, hstring⟩, heq, huid⟩
  rw [hnames, exists_isString_iff]
  unfold nodeMatches
  split
  · next hskip =>
    refine ⟨fun h ↦ Bool.noConfusion (Except.ok.inj h), ?_⟩
    rintro ⟨⟨htype, hsubType⟩, hpos, hterminated, -⟩
    obtain h | h | h := hskip
    · exact absurd htype h
    · exact absurd hsubType h
    · rw [List.length_drop] at hterminated
      omega
  · next hnode =>
    rw [not_or, not_or, not_not, not_not, not_le] at hnode
    obtain ⟨htype, hsubType, hlen⟩ := hnode
    dsimp only
    have hle := ( cString_prefix (node.body.drop acpiExtendedBodySize)).length_le
    split
    · next hstop =>
      refine ⟨fun h ↦ Bool.noConfusion (Except.ok.inj h), ?_⟩
      rintro ⟨-, hpos, hterminated, heq, -⟩
      obtain h | h | h := hstop
      · omega
      · omega
      · rw [asciiStriEq_iff.mpr heq] at h
        contradiction
    · next hgo =>
      rw [not_or, not_or, Bool.not_eq_false, asciiStriEq_iff] at hgo
      obtain ⟨hfull, hempty, heq⟩ := hgo
      -- a node with strings is long enough for the numeric UID before them
      have huid : acpiExtendedUidOffset + 4 ≤ node.body.length := by
        unfold acpiExtendedBodySize at hlen
        unfold acpiExtendedUidOffset
        omega
      rw [readU32_eq huid, ok_bind]
      have hok : ∀ b : Bool, (pure b : Checked Bool) = .ok true ↔ b = true := by
        intro b
        exact Except.ok.injEq b true ▸ Iff.rfl
      rw [hok, Bool.or_eq_true, beq_iff_eq, uidStringMatches_iff]
      constructor
      · intro h
        exact ⟨⟨htype, hsubType⟩, by omega, by omega, heq, h⟩
      · rintro ⟨-, -, -, -, h⟩
        exact h

/-! ## The device path -/

/-- The strings that are read of a node end inside it: what lies behind the node makes no
difference. -/
structure ReadsInside (node : DevicePathNode) : Prop where
  hid : ∀ hid rest, HasHid node hid rest → ∀ after t,
    asciiStriEq (node.body.drop acpiExtendedBodySize ++ after) t
      = asciiStriEq (node.body.drop acpiExtendedBodySize) t
  uid : ∀ hid rest uid rest', HasHid node hid rest → IsString rest uid rest' → ∀ after,
    asciiStrDecimalToUintn (rest ++ after) = asciiStrDecimalToUintn rest

private theorem IsString.cString_append (h : IsString bytes s rest) (after : List UInt8) :
    cString (bytes ++ after) = cString bytes := by
  obtain ⟨rfl, -, hterminated, -⟩ := isString_iff.mp h
  exact CMemory.cString_append hterminated after

theorem readsInside (node : DevicePathNode) : ReadsInside node := by
  constructor
  · intro hid rest hhid after t
    unfold asciiStriEq
    rw [hhid.string.cString_append]
  · intro hid rest uid rest' _ huid after
    unfold asciiStrDecimalToUintn
    rw [huid.cString_append]

theorem anyNodeMatches_iff {acpiHid : String} {acpiUid : UInt32} {path : List DevicePathNode} :
    anyNodeMatches acpiHid acpiUid path = .ok true ↔
      ∃ node ∈ path, NamesController acpiHid acpiUid node := by
  induction path with
  | nil => exact ⟨fun h ↦ Bool.noConfusion (Except.ok.inj h), by simp⟩
  | cons node path ih =>
    obtain ⟨b, hb⟩ := nodeMatches_ok acpiHid acpiUid node
    rw [anyNodeMatches, hb, ok_bind, List.exists_mem_cons_iff, ← nodeMatches_iff, hb, ← ih]
    cases b with
    | true => exact ⟨fun _ ↦ .inl rfl, fun _ ↦ rfl⟩
    | false => exact ⟨.inr, fun h ↦ h.elim (fun hfalse ↦ Bool.noConfusion (Except.ok.inj hfalse)) id⟩

/-- **Which controller is found**: a device path has the node that is looked for exactly if one of
its extended ACPI nodes has the HID string and names the UID by its number or by its string. No
byte outside of a node is read. -/
theorem pathHasAcpiNode_iff (path : Option (List DevicePathNode)) (acpiHid : String)
    (acpiUid : UInt32) :
    (∃ b, pathHasAcpiNode path acpiHid acpiUid = .ok b) ∧
    (pathHasAcpiNode path acpiHid acpiUid = .ok true ↔
      ∃ node ∈ path.getD [], NamesController acpiHid acpiUid node) ∧
    ∀ node ∈ path.getD [], ReadsInside node := by
  refine ⟨pathHasAcpiNode_ok path acpiHid acpiUid, ?_, fun node _ ↦ readsInside node⟩
  cases path with
  | none => exact ⟨fun h ↦ Bool.noConfusion (Except.ok.inj h), by simp⟩
  | some path => exact anyNodeMatches_iff

/-- The UID of a node, if its UID string comes before its numeric UID: the number that the whole
string writes, or without a string the numeric UID. -/
def EffectiveUid (node : DevicePathNode) (rest : List UInt8) (n : UInt32) : Prop :=
  (∃ uid rest', IsString rest uid rest' ∧ (∀ b ∈ uid, IsDigit b) ∧ digitsValue uid = n.toNat) ∨
    (¬∃ uid rest', IsString rest uid rest') ∧ numericUid node = n

/-- A node with the numeric UID 2 and the UID string "5". -/
def twoUidsNode : DevicePathNode :=
  ⟨acpiDevicePath, acpiExtendedDp,
    [0, 0, 0, 0, 2, 0, 0, 0, 0, 0, 0, 0] ++ (asciiBytes "NVDA0200" ++ 0 :: (asciiBytes "5" ++ [0]))⟩

theorem pathHasAcpiNode_iff_twoUids :
    ∃ node ∈ [twoUidsNode], NamesController "nvda0200" 5 node ∧ ReadsInside node := by
  obtain ⟨-, hiff, hinside⟩ := pathHasAcpiNode_iff (some [twoUidsNode]) "nvda0200" 5
  obtain ⟨node, hmem, hnames⟩ := hiff.mp (by decide +kernel)
  exact ⟨node, hmem, hnames, hinside node hmem⟩

/-- The numeric UID counts even if the UID string says otherwise. -/
theorem numeric_uid_counts :
    ¬∀ (path : Option (List DevicePathNode)) (acpiHid : String) (acpiUid : UInt32),
      pathHasAcpiNode path acpiHid acpiUid = .ok true ↔
        ∃ node ∈ path.getD [], ∃ hid rest, HasHid node hid rest ∧ EqIgnoringCase hid acpiHid ∧
          EffectiveUid node rest acpiUid := by
  intro hexact
  have hfound : pathHasAcpiNode (some [twoUidsNode]) "NVDA0200" 2 = .ok true := by decide +kernel
  obtain ⟨node, hmem, hid, rest, hhid, -, huid⟩ := (hexact _ _ _).mp hfound
  obtain rfl : node = twoUidsNode := by simpa using hmem
  have hrest : rest = asciiBytes "5" ++ [0] := by
    obtain ⟨rfl, -, -, rfl⟩ := isString_iff.mp hhid.string
    decide +kernel
  have hfive : IsString (asciiBytes "5" ++ [0]) [0x35] [] :=
    ⟨by decide +kernel, by simp, by decide⟩
  subst hrest
  obtain ⟨uid, rest', hstring, -, hvalue⟩ | ⟨hnone, -⟩ := huid
  · rw [← hstring.eq_cString, hfive.eq_cString] at hvalue
    exact absurd hvalue (by decide +kernel)
  · exact hnone ⟨_, _, hfive⟩

end

end TouchI2c
