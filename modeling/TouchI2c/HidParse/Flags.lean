import TouchI2c.HidParse.FirstUse

/-!
# The data of an Input item

The parser never looks at the data of an Input item, so a touch field is whatever first carries its
usage: constant padding, an array or a relative axis as well.

The fields of the returned layout are real absolute fields exactly when the first Input items of the
selected report that carry the touch usages are. The item of a field is found by its bits: the items
of a report lie one behind the other, so the offset of a field lies in one of them only
(`itemAt_of_mem_usesFrom`), and the first field with a usage belongs to the first item that carries
it.
-/

namespace TouchI2c

open CMemory BitField

namespace HidParse

/-! ## The flags of an Input item -/

namespace InputItem

variable (d : InputItem)

/-- Data, not Constant. -/
def IsData : Prop := d.flags.testBit 0 = false

/-- Variable, not Array. -/
def IsVariable : Prop := d.flags.testBit 1 = true

/-- Absolute, not Relative. -/
def IsAbsolute : Prop := d.flags.testBit 2 = false

instance : Decidable d.IsData := inferInstanceAs (Decidable (_ = _))

instance : Decidable d.IsVariable := inferInstanceAs (Decidable (_ = _))

instance : Decidable d.IsAbsolute := inferInstanceAs (Decidable (_ = _))

/-- The loop gives a field of the item the usage of the target. -/
def carries (target : Target) : Bool :=
  (List.range d.g.reportCount).any fun k ↦ d.loopUsage k = some target.usage

end InputItem

/-- The flags of an item that declares the field of a target. -/
def Target.Real (target : Target) (d : InputItem) : Prop :=
  d.IsData ∧ d.IsVariable ∧ (target ≠ .tip → d.IsAbsolute)

instance (target : Target) (d : InputItem) : Decidable (target.Real d) :=
  inferInstanceAs (Decidable (_ ∧ _ ∧ (_ → _)))

/-! ## The item of a bit -/

/-- The Input item whose bits contain bit `off`. -/
def itemAt : List InputItem → ℕ → Option InputItem
  | [], _ => none
  | d :: ds, off => if off < d.bits then some d else itemAt ds (off - d.bits)

theorem itemAt_of_mem_usesFrom {ds : List InputItem} (hsize : ∀ d ∈ ds, 1 ≤ d.g.reportSize)
    {start : ℕ} {u : Use} (h : u ∈ usesFrom start ds) :
    itemAt ds (u.off - start) = some u.item := by
  induction ds generalizing start with
  | nil => exact absurd h List.not_mem_nil
  | cons d ds ih =>
    have htail : ∀ d' ∈ ds, 1 ≤ d'.g.reportSize := fun d' hd' ↦
      hsize d' (List.mem_cons_of_mem _ hd')
    rw [itemAt]
    rcases List.mem_append.mp h with hd | hds
    · obtain ⟨hle, hlt, hitem⟩ := InputItem.off_lt_of_mem_uses (hsize d List.mem_cons_self) hd
      rw [if_pos (by omega), hitem]
    · have hle := (off_lt_of_mem_usesFrom htail hds).1
      rw [if_neg (by omega), Nat.sub_sub]
      exact ih htail hds

/-- The first item that carries the usage of a target. -/
def firstItem (target : Target) (ds : List InputItem) : Option InputItem :=
  ds.find? (·.carries target)

/-- The first field with a usage belongs to the first item that carries it. -/
theorem firstItem_of_firstUse {target : Target} {ds : List InputItem} {start : ℕ} {u : Use}
    (h : firstUse target (usesFrom start ds) = some u) : firstItem target ds = some u.item := by
  induction ds generalizing start with
  | nil => exact absurd h (by simp [usesFrom, firstUse])
  | cons d ds ih =>
    rw [usesFrom, firstUse_append] at h
    rw [firstItem, List.find?_cons]
    cases hd : firstUse target (d.uses start) with
    | none =>
      -- no field of this item has the usage
      have hno : d.carries target = false := by
        rw [InputItem.carries, List.any_eq_false]
        intro k hk
        exact List.find?_eq_none.mp hd _ (List.mem_map_of_mem hk)
      rw [hd, Option.none_or] at h
      rw [hno]
      exact ih h
    | some u' =>
      rw [hd, Option.some_or, Option.some_inj] at h
      subst h
      obtain ⟨k, hk, rfl⟩ := List.mem_map.mp (List.mem_of_find?_eq_some hd)
      have husage := List.find?_some hd
      have hyes : d.carries target = true := List.any_eq_true.mpr ⟨k, hk, husage⟩
      rw [hyes]
      rfl

/-! ## Real fields -/

/-- Each field of a layout belongs to an Input item with the right flags. -/
def RealFields (desc : List UInt8) (layout : HidTouchLayout) : Prop :=
  ∀ target, ∃ d, itemAt (readItemsOf desc layout.reportId) (layout.off target) = some d ∧
    target.Real d

/-- In the selected report the first Input items that carry the touch usages have the right
flags. -/
def DeclaresReal (desc : List UInt8) (maxInputLength : ℕ) : Prop :=
  ∀ id, Selected desc maxInputLength id →
    ∀ target, ∀ d ∈ firstItem target (readItemsOf desc id), target.Real d

/-- **When the touch fields are real**: the fields of a layout that the parser returns are real
absolute fields if and only if the first Input items of the selected report that carry the touch
usages are. -/
theorem realFields_iff {desc : List UInt8} {maxInputLength : ℕ} {layout layout' : HidTouchLayout}
    (h : hidParseTouchLayout desc maxInputLength layout = .ok (.success, layout')) :
    RealFields desc layout' ↔ DeclaresReal desc maxInputLength := by
  obtain ⟨hselected, huses⟩ := selected_of_hidParseTouchLayout h
  have hitem (target : Target) : ∃ d,
      itemAt (readItemsOf desc layout'.reportId) (layout'.off target) = some d ∧
        firstItem target (readItemsOf desc layout'.reportId) = some d := by
    obtain ⟨-, -, -, -, htouch⟩ := id hselected
    obtain ⟨u, hu, hoff, -⟩ := huses target
    have hat := itemAt_of_mem_usesFrom (fun d hd ↦ (htouch.nonempty d hd).1)
      (List.mem_of_find?_eq_some hu)
    rw [Nat.sub_zero, ← hoff] at hat
    exact ⟨u.item, hat, firstItem_of_firstUse hu⟩
  constructor
  · intro hreal id hid target d hd
    obtain rfl := hid.unique hselected
    obtain ⟨d', hat, hfirst⟩ := hitem target
    obtain ⟨d'', hat', hflags⟩ := hreal target
    rw [hat, Option.some_inj] at hat'
    rw [hfirst, Option.mem_def, Option.some_inj] at hd
    rwa [← hd, hat']
  · intro hdeclares target
    obtain ⟨d, hat, hfirst⟩ := hitem target
    exact ⟨d, hat, hdeclares _ hselected target d hfirst⟩

/-! ### A digitizer with relative axes -/

/-- The digitizer, with its axes declared relative. -/
def relativeDescriptor : List UInt8 :=
  [0x05, 0x0D, 0x85, 0x01, 0x25, 0x01, 0x75, 0x01, 0x95, 0x01, 0x09, 0x42, 0x81, 0x02,
   0x95, 0x07, 0x81, 0x03, 0x05, 0x01, 0x26, 0xFF, 0x0F, 0x75, 0x10, 0x95, 0x02, 0x09, 0x30,
   0x09, 0x31, 0x81, 0x06]

private theorem parse_relativeDescriptor : hidParseTouchLayout relativeDescriptor 64 .zero
    = .ok (.success, ⟨true, 1, 0, 8, 16, 4095, 24, 16, 4095⟩) := by decide +kernel

/-- Its axes are taken for the coordinates. -/
theorem not_realFields_relative :
    ¬∀ (desc : List UInt8) (maxInputLength : ℕ) (layout layout' : HidTouchLayout),
      hidParseTouchLayout desc maxInputLength layout = .ok (.success, layout') →
        RealFields desc layout' := by
  intro hall
  obtain ⟨d, hat, -, -, habsolute⟩ := hall _ _ _ _ parse_relativeDescriptor .x
  have hrelative : ∀ d ∈ itemAt (readItemsOf relativeDescriptor 1) 8, ¬d.IsAbsolute := by
    decide +kernel
  exact hrelative d hat (habsolute (by decide))

theorem realFields_iff_relative : ¬DeclaresReal relativeDescriptor 64 := by
  intro hdeclares
  obtain ⟨d, hat, -, -, habsolute⟩ := (realFields_iff parse_relativeDescriptor).mpr hdeclares .x
  have hrelative : ∀ d ∈ itemAt (readItemsOf relativeDescriptor 1) 8, ¬d.IsAbsolute := by
    decide +kernel
  exact hrelative d hat (habsolute (by decide))

end HidParse

end TouchI2c
