import Mathlib.Data.Nat.Bitwise
import Mathlib.Tactic.IntervalCases
import Mathlib.Tactic.NormNum
import Mathlib.Tactic.Ring
import TouchI2c.HidParse.Parser
import TouchI2c.Keyed.Record

/-!
# Descriptors as lists of declared Input items

The same parser over lists: a descriptor is a list of short items, a context carries the global and
local items in force, and each Input main item becomes an `InputItem` that records everything in
force at that point. What the parser does with an Input item is then a function of that item and of
the record of its report ID alone.

## Capacities

The three fixed arrays of the source become lists with a `Capacities` argument. `Capacities.source`
is what the code has; `Capacities.unbounded` is the parser the HID specification describes. Every
statement about what a fixed array costs compares the two.

## What an item says

A short item has a type, a tag and its data bytes. `dataSize`, `uValOf`, `signedValue` and
`usageValue` read it as the HID specification does: a size of 3 in the prefix stands for four bytes,
the data is little-endian and in two's complement, and a usage of four bytes carries its own page.
The parser computes the same values in its own way, with masks and shifts of words, which is shown
here for items of the declared size.
-/

namespace TouchI2c

namespace HidParse

open CMemory

/-! ## Short items -/

/-- A short item: its type, tag, data size and data. -/
structure ShortItem where
  type : ℕ
  tag : ℕ
  dSize : ℕ
  uVal : ℕ
  deriving DecidableEq, Repr

/-- The value of little-endian data. -/
def uValOf (data : List UInt8) : ℕ := data.foldr (fun b v ↦ b.toNat + 256 * v) 0

/-- The item with this prefix byte and data. -/
def ShortItem.ofBytes (pfx : UInt8) (data : List UInt8) : ShortItem where
  type := (pfx.toNat >>> 2) &&& 3
  tag := pfx.toNat >>> 4
  dSize := data.length
  uVal := uValOf data

/-- How many data bytes follow a prefix byte: its size code, of which 3 stands for four. -/
def dataSize (pfx : UInt8) : ℕ :=
  match pfx.toNat % 4 with
  | 3 => 4
  | n => n

/-- The short items of a descriptor, long items skipped, up to the end or a truncated item. -/
def shortItems : List UInt8 → List ShortItem
  | [] => []
  | pfx :: rest =>
    if pfx = 0xFE then
      match rest with
      | n :: _ :: data => shortItems (data.drop n.toNat)
      | _ => []
    else if dataSize pfx ≤ rest.length then
      ShortItem.ofBytes pfx (rest.take (dataSize pfx)) :: shortItems (rest.drop (dataSize pfx))
    else []
termination_by bytes => bytes.length
decreasing_by all_goals simp only [List.length_drop, List.length_cons]; omega

@[simp] theorem uValOf_nil : uValOf [] = 0 := rfl

@[simp] theorem uValOf_cons (b : UInt8) (data : List UInt8) :
    uValOf (b :: data) = b.toNat + 256 * uValOf data := rfl

private theorem two_pow_eight_mul_succ (n : ℕ) : 2 ^ (8 * (n + 1)) = 256 * 2 ^ (8 * n) := by
  rw [show 8 * (n + 1) = 8 + 8 * n from by ring, pow_add]
  norm_num

theorem uValOf_append_singleton (xs : List UInt8) (b : UInt8) :
    uValOf (xs ++ [b]) = uValOf xs + b.toNat * 2 ^ (8 * xs.length) := by
  induction xs with
  | nil => simp
  | cons x xs ih =>
    rw [List.cons_append, uValOf_cons, ih, uValOf_cons, List.length_cons, two_pow_eight_mul_succ]
    ring

theorem uValOf_lt (xs : List UInt8) : uValOf xs < 2 ^ (8 * xs.length) := by
  induction xs with
  | nil => simp
  | cons x xs ih =>
    have hx : x.toNat < 256 := x.toNat_lt
    rw [uValOf_cons, List.length_cons, two_pow_eight_mul_succ]
    omega

theorem mem_dataSize (pfx : UInt8) : dataSize pfx ∈ [0, 1, 2, 4] := by
  have h : pfx.toNat % 4 < 4 := Nat.mod_lt _ (by decide)
  unfold dataSize
  interval_cases pfx.toNat % 4 <;> decide

theorem dSizeOf_toNat (pfx : UInt8) : dSizeOf pfx.toNat = dataSize pfx := by
  have hand : pfx.toNat &&& 3 = pfx.toNat % 4 := Nat.and_two_pow_sub_one_eq_mod _ 2
  have hlt : pfx.toNat % 4 < 4 := Nat.mod_lt _ (by decide)
  rw [dSizeOf, hand, dataSize]
  interval_cases pfx.toNat % 4 <;> rfl

/-! ### One item at a time -/

@[simp] theorem shortItems_nil : shortItems [] = [] := by rw [shortItems]

theorem shortItems_long (n tag : UInt8) (data : List UInt8) :
    shortItems (0xFE :: n :: tag :: data) = shortItems (data.drop n.toNat) := by
  rw [shortItems, if_pos rfl]

theorem shortItems_long_truncated {rest : List UInt8} (h : rest.length < 2) :
    shortItems (0xFE :: rest) = [] := by
  match rest, h with
  | [], _ => rw [shortItems, if_pos rfl]; simp
  | [_], _ => rw [shortItems, if_pos rfl]; simp
  | _ :: _ :: _, h => exact absurd h (by simp)

theorem shortItems_short {pfx : UInt8} {rest : List UInt8} (hpfx : pfx ≠ 0xFE)
    (hfit : dataSize pfx ≤ rest.length) :
    shortItems (pfx :: rest) = ShortItem.ofBytes pfx (rest.take (dataSize pfx)) ::
      shortItems (rest.drop (dataSize pfx)) := by
  rw [shortItems.eq_def]
  exact (if_neg hpfx).trans (if_pos hfit)

theorem shortItems_truncated {pfx : UInt8} {rest : List UInt8} (hpfx : pfx ≠ 0xFE)
    (hfit : ¬dataSize pfx ≤ rest.length) : shortItems (pfx :: rest) = [] := by
  rw [shortItems.eq_def]
  exact (if_neg hpfx).trans (if_neg hfit)

/-! ### What an item holds -/

/-- An item as its bytes give it: the data fits the size, and the size is a possible one. -/
structure ShortItem.Sized (item : ShortItem) : Prop where
  dSize : item.dSize ∈ [0, 1, 2, 4]
  uVal : item.uVal < 2 ^ (8 * item.dSize)

theorem ShortItem.sized_ofBytes {pfx : UInt8} {data : List UInt8}
    (h : data.length = dataSize pfx) : (ShortItem.ofBytes pfx data).Sized where
  dSize := by
    rw [ShortItem.ofBytes, h]
    exact mem_dataSize pfx
  uVal := uValOf_lt data

theorem sized_of_mem_shortItems {bytes : List UInt8} {item : ShortItem}
    (h : item ∈ shortItems bytes) : item.Sized := by
  induction bytes using shortItems.induct with
  | case1 => simp at h
  | case2 n tag data ih => exact ih (by rwa [shortItems_long] at h)
  | case3 rest hrest =>
    rw [shortItems_long_truncated] at h
    · simp at h
    · match rest, hrest with
      | [], _ => simp
      | [_], _ => simp
      | n :: tag :: data, hrest => exact absurd rfl (hrest n tag data)
  | case4 pfx rest hpfx hfit ih =>
    rw [shortItems_short hpfx hfit, List.mem_cons] at h
    rcases h with rfl | h
    · exact ShortItem.sized_ofBytes (List.length_take_of_le hfit)
    · exact ih h
  | case5 pfx rest hpfx hfit =>
    rw [shortItems_truncated hpfx hfit] at h
    simp at h

/-- The signed value of `dSize` bytes of data. -/
def signedValue (dSize uVal : ℕ) : ℤ :=
  if 2 * uVal < 2 ^ (8 * dSize) then uVal else uVal - 2 ^ (8 * dSize)

/-- A usage page and a usage on it as one number. -/
def usageCode (page id : ℕ) : ℕ := page * 2 ^ 16 + id

/-- The usage that a local item gives: four bytes name their own page, fewer are a usage on the
page in force, of which 16 bits count. -/
def usageValue (page dSize uVal : ℕ) : ℕ :=
  if dSize = 4 then uVal else usageCode (page % 2 ^ 16) uVal

section

variable {item : ShortItem}

private theorem ShortItem.Sized.uVal_lt_of_ne (h : item.Sized) (hne : item.dSize ≠ 4) :
    item.uVal < 2 ^ 16 := by
  have hsize := h.dSize
  simp only [List.mem_cons, List.not_mem_nil, or_false] at hsize
  refine h.uVal.trans_le (Nat.pow_le_pow_right two_pos ?_)
  omega

/-- The data of a short item fits in a `UINT32`. -/
theorem ShortItem.Sized.uVal_lt (h : item.Sized) : item.uVal < u32 := by
  by_cases hfour : item.dSize = 4
  · have := h.uVal
    rwa [hfour] at this
  · have := h.uVal_lt_of_ne hfour
    unfold u32
    omega

theorem ShortItem.Sized.usageValue_lt (h : item.Sized) (page : ℕ) :
    usageValue page item.dSize item.uVal < u32 := by
  unfold usageValue usageCode
  split
  · exact h.uVal_lt
  · next hne =>
    have := h.uVal_lt_of_ne hne
    unfold u32
    omega

/-- The parser composes the usage that the item gives. -/
theorem ShortItem.Sized.extendedUsage_eq (h : item.Sized) (g : HidGlobals) :
    extendedUsage g item.dSize item.uVal = usageValue g.usagePage item.dSize item.uVal := by
  unfold extendedUsage usageValue
  split
  · rfl
  · next hne =>
    have hshift : (g.usagePage <<< 16) % u32 = (g.usagePage % 2 ^ 16) <<< 16 := by
      rw [Nat.shiftLeft_eq, Nat.shiftLeft_eq]
      unfold u32
      omega
    rw [hshift, ← Nat.shiftLeft_add_eq_or_of_lt (h.uVal_lt_of_ne hne), Nat.shiftLeft_eq, usageCode]

private theorem and_signBit_ne_zero_iff {k v : ℕ} (h : v < 2 ^ (k + 1)) :
    v &&& 2 ^ k ≠ 0 ↔ 2 ^ k ≤ v := by
  have hbit : v.testBit k = decide (2 ^ k ≤ v) := by
    by_cases hle : 2 ^ k ≤ v
    · rw [decide_eq_true hle, Nat.testBit_of_two_pow_le_and_two_pow_add_one_gt hle h]
    · rw [decide_eq_false hle, Nat.testBit_lt_two_pow (Nat.lt_of_not_le hle)]
  rw [Nat.and_two_pow, hbit]
  by_cases hle : 2 ^ k ≤ v <;> simp [hle]

private theorem or_high {k v high : ℕ} (h : v < 2 ^ k) : v ||| high <<< k = high <<< k + v := by
  rw [Nat.or_comm, Nat.shiftLeft_add_eq_or_of_lt h]

/-- The parser extends the sign that the item gives. -/
theorem ShortItem.Sized.sValOf_eq (h : item.Sized) :
    sValOf item.dSize item.uVal = signedValue item.dSize item.uVal := by
  have hsize := h.dSize
  have hval := h.uVal
  simp only [List.mem_cons, List.not_mem_nil, or_false] at hsize
  generalize item.dSize = n at *
  generalize item.uVal = v at *
  unfold sValOf signedValue
  rcases hsize with rfl | rfl | rfl | rfl
  · obtain rfl : v = 0 := by omega
    rfl
  · have hsign : v &&& 0x80 ≠ 0 ↔ 0x80 ≤ v := @and_signBit_ne_zero_iff 7 v hval
    have hor : v ||| 0xFFFFFF00 = 0xFFFFFF00 + v := @or_high 8 v 0xFFFFFF hval
    rw [hor]
    simp only [hsign, true_and]
    unfold toInt32
    split_ifs <;> omega
  · have hsign : v &&& 0x8000 ≠ 0 ↔ 0x8000 ≤ v := @and_signBit_ne_zero_iff 15 v hval
    have hor : v ||| 0xFFFF0000 = 0xFFFF0000 + v := @or_high 16 v 0xFFFF hval
    rw [hor]
    simp only [hsign, true_and]
    unfold toInt32
    split_ifs <;> omega
  · simp only [show ¬((4 : ℕ) = 1) from by decide, show ¬((4 : ℕ) = 2) from by decide, false_and,
      if_false]
    unfold toInt32
    split_ifs <;> omega

end

/-! ## The context of an item -/

/-- How many slots each fixed array has; `none` is an array without a bound. -/
structure Capacities where
  stack : Option ℕ
  usages : Option ℕ
  reportIds : Option ℕ

/-- The arrays of the source. -/
def Capacities.source : Capacities :=
  ⟨some globalStackMax, some maxLocalUsages, some maxReportIds⟩

/-- No array has a bound. -/
def Capacities.unbounded : Capacities := ⟨none, none, none⟩

/-- Whether an array that holds `n` elements takes another. -/
def room (capacity : Option ℕ) (n : ℕ) : Bool :=
  match capacity with
  | none => true
  | some c => n < c

@[simp] theorem room_none (n : ℕ) : room none n = true := rfl

@[simp] theorem room_some (c n : ℕ) : room (some c) n = true ↔ n < c := by simp [room]

/-- The global and local items in force. The innermost pushed globals come first. -/
structure Context where
  g : HidGlobals
  stack : List HidGlobals
  anyReportId : Bool
  usages : List ℕ
  usageMin : Option ℕ
  usageMax : Option ℕ

/-- Nothing has been declared. -/
def Context.init : Context := ⟨.zero, [], false, [], none, none⟩

/-- The context after a global item. -/
def Context.global (caps : Capacities) (ctx : Context) (item : ShortItem) : Context :=
  match item.tag with
  | 0x0 => { ctx with g.usagePage := item.uVal }
  | 0x1 => { ctx with g.logicalMin := signedValue item.dSize item.uVal }
  | 0x2 => { ctx with g.logicalMaxSigned := signedValue item.dSize item.uVal,
                      g.logicalMaxRaw := item.uVal }
  | 0x7 => { ctx with g.reportSize := item.uVal }
  | 0x8 => { ctx with g.reportId := UInt8.ofNat item.uVal, anyReportId := true }
  | 0x9 => { ctx with g.reportCount := item.uVal }
  | 0xA =>
    if room caps.stack ctx.stack.length then { ctx with stack := ctx.g :: ctx.stack } else ctx
  | 0xB =>
    match ctx.stack with
    | [] => ctx
    | g :: stack => { ctx with g := g, stack := stack }
  | _ => ctx

/-- The context after a local item. -/
def Context.local (caps : Capacities) (ctx : Context) (item : ShortItem) : Context :=
  match item.tag with
  | 0x0 =>
    if room caps.usages ctx.usages.length then
      { ctx with usages := ctx.usages ++ [usageValue ctx.g.usagePage item.dSize item.uVal] }
    else ctx
  | 0x1 => { ctx with usageMin := some (usageValue ctx.g.usagePage item.dSize item.uVal) }
  | 0x2 => { ctx with usageMax := some (usageValue ctx.g.usagePage item.dSize item.uVal) }
  | _ => ctx

/-- The context after a main item: the locals are cleared. -/
def Context.main (ctx : Context) : Context :=
  { ctx with usages := [], usageMin := none, usageMax := none }

/-- The context after one short item. -/
def Context.step (caps : Capacities) (ctx : Context) (item : ShortItem) : Context :=
  match item.type with
  | 1 => ctx.global caps item
  | 2 => ctx.local caps item
  | 0 => ctx.main
  | _ => ctx

/-! ## Input items -/

/-- An Input main item with everything in force where it stands. -/
structure InputItem where
  g : HidGlobals
  usages : List ℕ
  usageMin : Option ℕ
  usageMax : Option ℕ
  flags : ℕ

/-- Whether a short item is an Input main item. -/
def ShortItem.isInput (item : ShortItem) : Bool := item.type == 0 && item.tag == 0x8

/-- The Input item declared by a short item, if it is one. -/
def Context.input? (ctx : Context) (item : ShortItem) : Option InputItem :=
  if item.isInput then some ⟨ctx.g, ctx.usages, ctx.usageMin, ctx.usageMax, item.uVal⟩ else none

/-- The context after a list of items. -/
def contextAfter (caps : Capacities) (ctx : Context) (items : List ShortItem) : Context :=
  items.foldl (Context.step caps) ctx

/-- The Input items that a list of items declares, in order. -/
def inputItems (caps : Capacities) : Context → List ShortItem → List InputItem
  | _, [] => []
  | ctx, item :: items => (ctx.input? item).toList ++ inputItems caps (ctx.step caps item) items

namespace InputItem

variable (d : InputItem)

/-- The report ID an Input item is declared under. -/
def reportId : UInt8 := d.g.reportId

/-- The bits of an Input item. -/
def bits : ℕ := d.g.reportSize * d.g.reportCount

/-- The usage the loop gives field `k`: the range wraps in `UINT32` before it is clamped. -/
def loopUsage (k : ℕ) : Option ℕ :=
  match d.usageMin, d.usageMax with
  | some lo, some hi =>
    some (if (lo + k) % u32 > hi then hi else (lo + k) % u32)
  | _, _ => d.usages[min k (d.usages.length - 1)]?

theorem loopUsage_of_range {d : InputItem} {lo hi : ℕ} (hlo : d.usageMin = some lo)
    (hhi : d.usageMax = some hi) (k : ℕ) :
    d.loopUsage k = some (if (lo + k) % u32 > hi then hi else (lo + k) % u32) := by
  rw [loopUsage, hlo, hhi]

theorem loopUsage_of_no_range {d : InputItem} (h : d.usageMin = none ∨ d.usageMax = none) (k : ℕ) :
    d.loopUsage k = d.usages[min k (d.usages.length - 1)]? := by
  unfold loopUsage
  rcases h with h | h <;> rw [h]
  cases d.usageMin <;> rfl

/-- What one pass of the field loop does to the record. -/
def field (d : InputItem) (r : RidState) (k : ℕ) : RidState :=
  match d.loopUsage k with
  | none => r
  | some usage => r.assign d.g usage (r.bitPos + k * d.g.reportSize)

/-- The test that marks a report instead of recording the item. -/
def Fits (maxReportBits bitPos : ℕ) : Prop :=
  0 < d.g.reportSize ∧ 0 < d.g.reportCount ∧ bitPos + d.bits ≤ maxReportBits

instance (maxReportBits bitPos : ℕ) : Decidable (d.Fits maxReportBits bitPos) :=
  inferInstanceAs (Decidable (_ ∧ _ ∧ _))

end InputItem

/-- What an Input item does to the record of its report ID. -/
def absorb (maxReportBits : ℕ) (r : RidState) (d : InputItem) : RidState :=
  if d.Fits maxReportBits r.bitPos then
    { (List.range d.g.reportCount).foldl d.field r with bitPos := r.bitPos + d.bits }
  else { r with overflowed := true }

/-- The record of a report ID none of whose Input items has been seen. -/
def freshRecord (id : UInt8) : RidState := RidState.zero.opened id

/-- The table after one more Input item: a new report ID needs a free record. -/
def tableStep (caps : Capacities) (maxReportBits : ℕ) (table : List RidState) (d : InputItem) :
    List RidState :=
  if d.reportId ∈ table.map RidState.id ∨ room caps.reportIds table.length then
    Keyed.record InputItem.reportId RidState.id freshRecord (absorb maxReportBits) table d
  else table

/-- The table after a list of Input items. -/
def tableAfter (caps : Capacities) (maxReportBits : ℕ) (table : List RidState)
    (ds : List InputItem) : List RidState :=
  ds.foldl (tableStep caps maxReportBits) table

end HidParse

end TouchI2c
