import TouchI2c.BitField.Bits
import TouchI2c.HidParse.Refine

/-!
# Where the fields of a record lie

The fields of a report are laid out one after the other, so a field that the loop is about to look
at starts at or past the end of every field seen before.

`RidState.Placed` is that invariant: the fields kept so far end at or before `bound` and have no bit
in common. Every field keeps it while `bound` advances by the width of the field, hence every Input
item keeps it with `bound` the bit position, and every record of the table is placed below its bit
position. The selection test then bounds the bit position by the payload, so a selected layout has
its three fields disjoint and inside the payload of the length it was parsed for.

Offsets are `INT32` in the source and a negative one means "none"; an offset that passes the test is
the offset itself, since the payload is far below `2 ^ 31` bits.
-/

namespace TouchI2c

open CMemory BitField

namespace HidParse

/-! ## The invariant -/

/-- The fields kept in a record end at or before `bound`, are not empty and lie apart. A field
that has not been kept has a negative offset. -/
structure RidState.Placed (r : RidState) (bound : ℕ) : Prop where
  tip : 0 ≤ r.tipOff → r.tipOff.toNat + 1 ≤ bound
  x : 0 ≤ r.xOff → r.xOff.toNat + r.xBits ≤ bound ∧ 1 ≤ r.xBits
  y : 0 ≤ r.yOff → r.yOff.toNat + r.yBits ≤ bound ∧ 1 ≤ r.yBits
  tip_x : 0 ≤ r.tipOff → 0 ≤ r.xOff → Apart r.tipOff.toNat 1 r.xOff.toNat r.xBits
  tip_y : 0 ≤ r.tipOff → 0 ≤ r.yOff → Apart r.tipOff.toNat 1 r.yOff.toNat r.yBits
  x_y : 0 ≤ r.xOff → 0 ≤ r.yOff → Apart r.xOff.toNat r.xBits r.yOff.toNat r.yBits

theorem freshRecord_placed (id : UInt8) (bound : ℕ) : (freshRecord id).Placed bound := by
  constructor <;> intro h <;> exact absurd h (Int.not_le.mpr (Int.negSucc_lt_zero 0))

theorem RidState.Placed.mono {r : RidState} {bound bound' : ℕ} (h : r.Placed bound)
    (hle : bound ≤ bound') : r.Placed bound' :=
  { h with
    tip := fun h0 ↦ (h.tip h0).trans hle
    x := fun h0 ↦ ⟨(h.x h0).1.trans hle, (h.x h0).2⟩
    y := fun h0 ↦ ⟨(h.y h0).1.trans hle, (h.y h0).2⟩ }

/-- An offset that reads as a nonnegative `INT32` is the offset itself. -/
private theorem toNat_toInt32 {off : ℕ} (h : 0 ≤ toInt32 off) : (toInt32 off).toNat ≤ off := by
  unfold toInt32 at *
  split at h <;> split <;> omega

private theorem le_toNat_toInt32 {off : ℕ} (hoff : off < u32) (h : 0 ≤ toInt32 off) :
    off ≤ (toInt32 off).toNat := by
  rw [toInt32_of_lt ((toInt32_nonneg_iff hoff).mp h), Int.toNat_natCast]

/-- A field at or past the end of the fields seen before keeps them placed. -/
theorem RidState.Placed.assign {r : RidState} {off : ℕ} (h : r.Placed off) (hoff : off < u32)
    (g : HidGlobals) (hsize : 1 ≤ g.reportSize) (usage : ℕ) :
    (r.assign g usage off).Placed (off + g.reportSize) := by
  have hwide := h.mono (Nat.le_add_right off g.reportSize)
  unfold RidState.assign
  split_ifs
  · -- Tip Switch: only bit 0 of the field is used
    exact { hwide with
      tip := fun h0 ↦ by have := toNat_toInt32 h0; dsimp only; omega
      tip_x := fun h0 hx ↦ Or.inr ((h.x hx).1.trans (le_toNat_toInt32 hoff h0))
      tip_y := fun h0 hy ↦ Or.inr ((h.y hy).1.trans (le_toNat_toInt32 hoff h0)) }
  · exact { hwide with
      x := fun h0 ↦ ⟨Nat.add_le_add_right (toNat_toInt32 h0) _, hsize⟩
      tip_x := fun ht h0 ↦ Or.inl ((h.tip ht).trans (le_toNat_toInt32 hoff h0))
      x_y := fun h0 hy ↦ Or.inr ((h.y hy).1.trans (le_toNat_toInt32 hoff h0)) }
  · exact { hwide with
      y := fun h0 ↦ ⟨Nat.add_le_add_right (toNat_toInt32 h0) _, hsize⟩
      tip_y := fun ht h0 ↦ Or.inl ((h.tip ht).trans (le_toNat_toInt32 hoff h0))
      x_y := fun hx h0 ↦ Or.inl ((h.x hx).1.trans (le_toNat_toInt32 hoff h0)) }
  · exact hwide

/-! ## One Input item -/

private theorem foldl_field_placed {d : InputItem} (hsize : 1 ≤ d.g.reportSize) {r : RidState}
    (h : r.Placed r.bitPos) {n : ℕ} (hfit : r.bitPos + n * d.g.reportSize < u32) :
    ((List.range n).foldl d.field r).Placed (r.bitPos + n * d.g.reportSize) ∧
      ((List.range n).foldl d.field r).bitPos = r.bitPos := by
  induction n with
  | zero => exact ⟨by simpa using h, rfl⟩
  | succ n ih =>
    rw [Nat.succ_mul] at hfit
    obtain ⟨hplaced, hpos⟩ := ih (by omega)
    rw [List.range_succ, List.foldl_append, List.foldl_cons, List.foldl_nil, InputItem.field_bitPos,
      hpos, Nat.succ_mul, ← Nat.add_assoc]
    refine ⟨?_, rfl⟩
    generalize (List.range n).foldl d.field r = rec at hplaced hpos
    unfold InputItem.field
    split
    · exact hplaced.mono (Nat.le_add_right _ _)
    · rw [hpos]
      exact hplaced.assign (by omega) d.g hsize _

/-- Every Input item keeps the fields placed below the bit position. -/
theorem absorb_placed {maxReportBits : ℕ} (hmax : maxReportBits < u32) {r : RidState}
    (h : r.Placed r.bitPos) (d : InputItem) :
    (absorb maxReportBits r d).Placed (absorb maxReportBits r d).bitPos := by
  unfold absorb
  split
  · next hfits =>
    obtain ⟨hsize, -, hfit⟩ := hfits
    rw [InputItem.bits, Nat.mul_comm] at hfit
    obtain ⟨hplaced, -⟩ := foldl_field_placed hsize h (hfit.trans_lt hmax)
    rw [InputItem.bits, Nat.mul_comm]
    exact { hplaced with }
  · exact { h with }

/-- Every record of the table has its fields placed. -/
theorem tableAfter_placed (caps : Capacities) {maxReportBits : ℕ} (hmax : maxReportBits < u32)
    (ds : List InputItem) {table : List RidState} (h : ∀ r ∈ table, r.Placed r.bitPos) :
    ∀ r ∈ tableAfter caps maxReportBits table ds, r.Placed r.bitPos := by
  induction ds generalizing table with
  | nil => exact h
  | cons d ds ih =>
    refine ih ?_
    unfold tableStep
    split
    · exact Keyed.forall_mem_record h (fun id ↦ freshRecord_placed id _)
        (fun r hr d ↦ absorb_placed hmax hr d) d
    · exact h

/-! ## The selected layout -/

end HidParse

/-- The three fields of a layout are not empty, lie apart and inside a payload of `n` bits. -/
structure HidTouchLayout.FitsIn (l : HidTouchLayout) (n : ℕ) : Prop where
  tip : l.tipBitOffset < n
  xBitSize : 1 ≤ l.xBitSize
  yBitSize : 1 ≤ l.yBitSize
  x : l.xBitOffset + l.xBitSize ≤ n
  y : l.yBitOffset + l.yBitSize ≤ n
  tip_x : Apart l.tipBitOffset 1 l.xBitOffset l.xBitSize
  tip_y : Apart l.tipBitOffset 1 l.yBitOffset l.yBitSize
  x_y : Apart l.xBitOffset l.xBitSize l.yBitOffset l.yBitSize

namespace HidParse

theorem RidState.selectable_iff (r : RidState) (payload : ℕ) :
    r.selectable payload = true ↔
      r.used = true ∧ r.overflowed = false ∧ 0 ≤ r.tipOff ∧ 0 ≤ r.xOff ∧ 0 ≤ r.yOff ∧
        r.bitPos ≤ payload ∧ r.tipOff.toNat < payload ∧
        r.xOff.toNat + r.xBits ≤ payload ∧ r.yOff.toNat + r.yBits ≤ payload := by
  simp only [RidState.selectable, Bool.and_eq_true, Bool.not_eq_true', decide_eq_true_eq]
  constructor
  · rintro ⟨⟨⟨⟨⟨⟨⟨⟨⟨⟨hu, ho⟩, ht⟩, hx⟩, hy⟩, hb⟩, hp⟩, hxb⟩, hyb⟩, hxo⟩, hyo⟩
    exact ⟨hu, ho, ht, hx, hy, hb, hp, by omega, by omega⟩
  · rintro ⟨hu, ho, ht, hx, hy, hb, hp, hxo, hyo⟩
    exact ⟨⟨⟨⟨⟨⟨⟨⟨⟨⟨hu, ho⟩, ht⟩, hx⟩, hy⟩, hb⟩, hp⟩, by omega⟩, by omega⟩, by omega⟩, by omega⟩

/-- The layout of a placed record that passes the selection test. -/
theorem RidState.layout_fitsIn {r : RidState} (hplaced : r.Placed r.bitPos) {payload : ℕ}
    (hsel : r.selectable payload = true) (anyReportId : Bool) :
    (r.layout anyReportId).FitsIn payload := by
  obtain ⟨-, -, ht, hx, hy, -, htip, hxo, hyo⟩ := (r.selectable_iff payload).mp hsel
  exact ⟨htip, (hplaced.x hx).2, (hplaced.y hy).2, hxo, hyo, hplaced.tip_x ht hx,
    hplaced.tip_y ht hy, hplaced.x_y hx hy⟩

/-- A successful selection is the layout of the first selectable record. -/
theorem selectLayout_eq_success {table : List RidState} {anyReportId : Bool} {payload : ℕ}
    {layout layout' : HidTouchLayout}
    (h : selectLayout table anyReportId payload layout = (.success, layout')) :
    ∃ r, table.find? (·.selectable payload) = some r ∧ layout' = r.layout anyReportId := by
  unfold selectLayout at h
  split at h
  · next r hfind => exact ⟨r, hfind, (congrArg Prod.snd h).symm⟩
  · exact absurd (congrArg Prod.fst h) EfiStatus.noConfusion

/-- A layout that the parser accepts fits in the payload of the length it was parsed for. -/
theorem fitsIn_of_hidParseTouchLayout {desc : List UInt8} {maxInputLength : ℕ}
    {layout layout' : HidTouchLayout}
    (h : hidParseTouchLayout desc maxInputLength layout = .ok (.success, layout')) :
    Admitted maxInputLength ∧ layout'.FitsIn (payloadBits maxInputLength layout'.hasReportId) := by
  by_cases hguard : desc = [] ∨ ¬Admitted maxInputLength
  · rw [hidParseTouchLayout_of_not_admitted hguard] at h
    exact absurd h (by simp)
  · obtain ⟨hdesc, hlen⟩ := not_or.mp hguard
    rw [not_not] at hlen
    rw [hidParseTouchLayout_eq hdesc hlen, Except.ok.injEq] at h
    obtain ⟨r, hfind, rfl⟩ := selectLayout_eq_success h
    have hmax : 8 * (maxInputLength - 2) < u32 := by
      unfold u32
      unfold Admitted at hlen
      omega
    have hsel : r.selectable
        (payloadBits maxInputLength (parsedContext .source desc).anyReportId) = true := by
      simpa using List.find?_some hfind
    have hplaced := tableAfter_placed .source hmax (inputItems .source .init (shortItems desc))
      (fun r hr ↦ absurd hr List.not_mem_nil) r (List.mem_of_find?_eq_some hfind)
    exact ⟨hlen, RidState.layout_fitsIn hplaced hsel _⟩

/-- For every byte string and every length the parser ends without a fault. -/
theorem hidParseTouchLayout_ok (desc : List UInt8) (maxInputLength : ℕ)
    (layout : HidTouchLayout) :
    ∃ status layout', hidParseTouchLayout desc maxInputLength layout = .ok (status, layout') := by
  by_cases hguard : desc = [] ∨ ¬Admitted maxInputLength
  · exact ⟨_, _, hidParseTouchLayout_of_not_admitted hguard layout⟩
  · obtain ⟨hdesc, hlen⟩ := not_or.mp hguard
    exact ⟨_, _, hidParseTouchLayout_eq hdesc (not_not.mp hlen) layout⟩

/-- A status of the parser that is not an error is a success. -/
theorem eq_success_of_hidParseTouchLayout {desc : List UInt8} {maxInputLength : ℕ}
    {layout layout' : HidTouchLayout} {status : EfiStatus}
    (h : hidParseTouchLayout desc maxInputLength layout = .ok (status, layout'))
    (hstatus : status.isError = false) : status = .success := by
  by_cases hguard : desc = [] ∨ ¬Admitted maxInputLength
  · rw [hidParseTouchLayout_of_not_admitted hguard] at h
    cases h
    contradiction
  · obtain ⟨hdesc, hlen⟩ := not_or.mp hguard
    rw [hidParseTouchLayout_eq hdesc (not_not.mp hlen), Except.ok.injEq, selectLayout] at h
    split at h
    · cases h
      rfl
    · cases h
      contradiction

/-- **Safety of the parser.** The parser ends without a fault: no read of the descriptor or of an
array is out of range or uninitialised and no bit position wraps. A successful layout fits in the
payload of a report of `maxInputLength` bytes. -/
theorem hidParseTouchLayout_safe (desc : List UInt8) (maxInputLength : ℕ)
    (layout : HidTouchLayout) :
    ∃ status layout', hidParseTouchLayout desc maxInputLength layout = .ok (status, layout') ∧
      (status = .success →
        layout'.FitsIn (payloadBits maxInputLength layout'.hasReportId)) := by
  obtain ⟨status, layout', h⟩ := hidParseTouchLayout_ok desc maxInputLength layout
  refine ⟨status, layout', h, ?_⟩
  rintro rfl
  exact (fitsIn_of_hidParseTouchLayout h).2

end HidParse

end TouchI2c
