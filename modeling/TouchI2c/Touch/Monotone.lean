import TouchI2c.HidParse.Flags
import TouchI2c.Touch.Range

/-!
# The order of positions

A field is extracted as an unsigned number, and the parser keeps only the maximum of its logical
range. So the published position follows the order of the logical values exactly if the range does
not begin below zero: a negative value is extracted as a large number and clamped to the maximum.

The range that counts is the one in force at the Input item the axis is taken from, which is the
first that carries its usage. From zero on a value stands for itself, clamping keeps the order, and
both orientations do or reverse it alike for the two polls that are compared. Below zero the order
fails on any layout: a report with -1 and one with 0 in the axis are published at the far end and at
0. That these reports are received takes a payload with nothing but the tip down, and a machine
without a display.
-/

namespace TouchI2c

open BitField CMemory HidParse Interaction

/-! ## Logical ranges -/

/-- The globals declare a logical range that a field of `n` bits holds, in two's complement if it
begins below zero. -/
structure DeclaresRange (g : HidGlobals) (n : ℕ) : Prop where
  size : n ≤ 32
  lt : g.logicalMin < g.declaredMax
  pos : 0 < g.declaredMax
  unsigned : 0 ≤ g.logicalMin → g.declaredMax < 2 ^ n
  signed : g.logicalMin < 0 → -2 ^ (n - 1) ≤ g.logicalMin ∧ g.declaredMax < 2 ^ (n - 1)

/-- The maximum that the parser keeps is the declared one. -/
theorem resolveLogicalMax_eq {g : HidGlobals} (h : 0 < g.declaredMax) :
    (resolveLogicalMax g : ℤ) = g.declaredMax := by
  rw [resolveLogicalMax_eq_toNat, Int.toNat_of_nonneg h.le]

/-! ## The two axes -/

/-- A coordinate of the layout. -/
inductive Axis where
  | x
  | y
  deriving DecidableEq

def Axis.target : Axis → Target
  | .x => .x
  | .y => .y

/-- The width of the field of an axis. -/
def HidTouchLayout.size (l : HidTouchLayout) : Axis → ℕ
  | .x => l.xBitSize
  | .y => l.yBitSize

/-- The logical maximum of an axis. -/
def HidTouchLayout.logicalMax (l : HidTouchLayout) : Axis → ℕ
  | .x => l.xLogicalMax
  | .y => l.yLogicalMax

/-- The position that the driver has published along an axis of the panel. -/
def TouchDev.along (d : TouchDev) : Axis → ℕ
  | .x => if d.rotateActive then d.state.currentY else d.state.currentX
  | .y => if d.rotateActive then d.state.currentX else d.state.currentY

/-- The first position comes before the second in the direction that an axis of the panel has on
the display: a rotation turns the X axis around. -/
def Before (rotate : Bool) (axis : Axis) (p q : ℕ) : Prop :=
  if rotate = true ∧ axis = .x then q < p else p < q

/-! ## Touching reports -/

section

variable (l : HidTouchLayout) (axis : Axis)

/-- A payload of a report with the tip down, which covers the field of the axis. -/
structure Touching (maxInputLength : ℕ) (payload : List UInt8) : Prop where
  tip : l.tipBitOffset < 8 * payload.length
  touch : readBits payload l.tipBitOffset 1 = 1
  field : l.off axis.target + l.size axis ≤ 8 * payload.length
  length : headerLength l + payload.length ≤ maxInputLength

/-- The report with a logical value in the field of the axis. -/
def reportOf (v : ℤ) (payload : List UInt8) : List UInt8 :=
  inputReport l (writeBits payload (l.off axis.target) (l.size axis)
    (twosComplement (l.size axis) v))

/-- The driver uses the layout, with its zero maxima replaced, for reports up to this length. -/
structure Uses (d : TouchDev) (maxInputLength : ℕ) : Prop where
  layout : d.layout = fixMaxima l
  maxInputLength : d.maxInputLength = maxInputLength

/-- Two polls that receive reports which differ in the logical value of the axis only publish
positions in the order of the values, if they find the same orientation. -/
def KeepsOrder (maxInputLength : ℕ) (lo hi : ℤ) : Prop :=
  ∀ a b, lo ≤ a → a < b → b ≤ hi → ∀ payload pad, Touching l axis maxInputLength payload →
    ∀ desk₁ desk₂ desk₁' desk₂' : Desk, Uses l desk₁.dev maxInputLength →
      Uses l desk₂.dev maxInputLength →
      PointerStep desk₁ (.poll (some (reportOf l axis a payload ++ pad))) desk₁' →
      PointerStep desk₂ (.poll (some (reportOf l axis b payload ++ pad))) desk₂' →
      desk₁'.dev.rotateActive = desk₂'.dev.rotateActive →
        Before desk₁'.dev.rotateActive axis (desk₁'.dev.along axis) (desk₂'.dev.along axis)

end

/-! ## One poll -/

section

variable {l : HidTouchLayout} {axis : Axis} {maxInputLength : ℕ} {payload pad : List UInt8} {v : ℤ}

/-- The position that a logical value stands for. -/
def HidTouchLayout.position (l : HidTouchLayout) (axis : Axis) (v : ℤ) : ℕ :=
  min (twosComplement (l.size axis) v) ((fixMaxima l).logicalMax axis)

/-- The coordinate of an axis. -/
def Axis.pick : Axis → ℕ → ℕ → ℕ
  | .x, p, _ => p
  | .y, _, q => q

private theorem decodeReport_reportOf {n : ℕ} (hfits : l.FitsIn n)
    (hsize : l.size axis ≤ 32) (hmax : maxInputLength < 65536)
    (h : Touching l axis maxInputLength payload) :
    ∃ x y, decodeReport (fixMaxima l) maxInputLength (reportOf l axis v payload ++ pad)
      = .ok (some (true, x, y)) ∧ axis.pick x y = l.position axis v ∧
        x ≤ (fixMaxima l).xLogicalMax := by
  have htip := h.tip
  have hlength := h.length
  have hwritten : ∀ p : List UInt8, inputReport l p = inputReport (fixMaxima l) p := fun _ ↦ rfl
  have hheader : headerLength (fixMaxima l) = headerLength l := rfl
  obtain ⟨written, hw⟩ : ∃ written, written = writeBits payload (l.off axis.target) (l.size axis)
      (twosComplement (l.size axis) v) := ⟨_, rfl⟩
  have hlen : written.length = payload.length := by rw [hw, length_writeBits]
  have hin : headerLength l + written.length ≤ (inputReport l written ++ pad).length := by
    rw [List.length_append, length_inputReport]
    omega
  have hword : 8 * written.length ≤ u32 := by unfold u32; omega
  have hvalue : readBits written (l.off axis.target) (l.size axis)
      = twosComplement (l.size axis) v := by
    rw [hw, readBits_writeBits h.field (twosComplement_lt _ _)]
  have hfield : hidExtractBits (inputReport l written ++ pad) (headerLength l) written.length
      (l.off axis.target) (l.size axis) = .ok (twosComplement (l.size axis) v) := by
    rw [hidExtractBits_eq hin (by rw [hlen]; exact h.field) hsize hword, payloadBytes_inputReport,
      hvalue]
  -- the axis is apart from the tip switch, which therefore stays set
  have hdown : hidExtractBits (inputReport l written ++ pad) (headerLength l) written.length
      l.tipBitOffset 1 = .ok 1 := by
    have hsame : readBits written l.tipBitOffset 1 = readBits payload l.tipBitOffset 1 := by
      rw [hw]
      apply readBits_writeBits_of_apart h.field
      cases axis
      · exact hfits.tip_x.symm
      · exact hfits.tip_y.symm
    rw [hidExtractBits_eq hin (by omega) (by decide) hword, payloadBytes_inputReport, hsame,
      h.touch]
  obtain ⟨x, hx⟩ := hidExtractBits_ok hin l.xBitOffset l.xBitSize
  obtain ⟨y, hy⟩ := hidExtractBits_ok hin l.yBitOffset l.yBitSize
  have hdecode : decodeReport (fixMaxima l) maxInputLength (reportOf l axis v payload ++ pad)
      = .ok (some (true, min x (fixMaxima l).xLogicalMax, min y (fixMaxima l).yLogicalMax)) := by
    rw [reportOf, ← hw, decodeReport, hwritten,
      reportPayload_inputReport (by omega) (by rw [hheader]; omega) hmax, ok_bind]
    dsimp only
    rw [hheader, ← hwritten]
    change (do
      let tip ← hidExtractBits (inputReport l written ++ pad) (headerLength l) written.length
        l.tipBitOffset 1
      let x ← hidExtractBits (inputReport l written ++ pad) (headerLength l) written.length
        l.xBitOffset l.xBitSize
      let y ← hidExtractBits (inputReport l written ++ pad) (headerLength l) written.length
        l.yBitOffset l.yBitSize
      return some (tip != 0, min x (fixMaxima l).xLogicalMax, min y (fixMaxima l).yLogicalMax)) = _
    rw [hdown, ok_bind, hx, ok_bind, hy]
    rfl
  refine ⟨_, _, hdecode, ?_, Nat.min_le_right _ _⟩
  cases axis with
  | x =>
    obtain rfl : x = twosComplement l.xBitSize v := Except.ok.inj (hx.symm.trans hfield)
    rfl
  | y =>
    obtain rfl : y = twosComplement l.yBitSize v := Except.ok.inj (hy.symm.trans hfield)
    rfl

private theorem along_of_step {n : ℕ} (hfits : l.FitsIn n) (hsize : l.size axis ≤ 32)
    (h : Touching l axis maxInputLength payload) {desk desk' : Desk}
    (huses : Uses l desk.dev maxInputLength)
    (hstep : PointerStep desk (.poll (some (reportOf l axis v payload ++ pad))) desk') :
    desk'.dev.rotateActive = desk.dev.wantsRotation desk.screen ∧
      desk'.dev.along axis = if desk'.dev.rotateActive = true ∧ axis = .x
        then (fixMaxima l).xLogicalMax - l.position axis v else l.position axis v := by
  have hmax : maxInputLength < 65536 := by
    rw [← huses.maxInputLength]
    exact desk.dev.hidDesc.wMaxInputLength.toNat_lt
  obtain ⟨x, y, hdecode, hpick, -⟩ := @decodeReport_reportOf l axis maxInputLength payload pad v n
    hfits hsize hmax h
  rw [← huses.layout, ← huses.maxInputLength] at hdecode
  cases hstep with
  | @report d d' screen t bytes hready hret hshow hreceives =>
    obtain ⟨bus, reinit, buf, hreport⟩ := touchPoll_report hready hret hshow hreceives
    rcases hreport with ⟨hnone, -⟩ | ⟨tip, x', y', gop, hsome, rfl⟩
    · rw [hnone] at hdecode
      exact absurd (Except.ok.inj hdecode) (by simp)
    · rw [hsome, Except.ok.injEq, Option.some_inj, Prod.mk.injEq, Prod.mk.injEq] at hdecode
      obtain ⟨rfl, rfl, rfl⟩ := hdecode
      have hrotate : (TouchDev.publish true (d.place (d.wantsRotation screen) x' y').1
          (d.place (d.wantsRotation screen) x' y').2 (TouchDev.orient (d.wantsRotation screen)
            { d.transferred bus reinit buf with gop := gop })).rotateActive
          = d.wantsRotation screen := rfl
      refine ⟨rfl, ?_⟩
      dsimp only
      rw [hrotate, ← hpick]
      have hlayout : d.layout.xLogicalMax = (fixMaxima l).xLogicalMax := by rw [huses.layout]
      cases hrot : d.wantsRotation screen <;> cases axis <;>
        simp [TouchDev.along, TouchDev.publish, TouchDev.orient, TouchDev.place, Axis.pick, hlayout]

/-- A HID descriptor with this `wMaxInputLength`. -/
def hidDescOf (length : UInt16) : I2cHidDescriptor :=
  ⟨List.replicate 10 0 ++ [UInt8.ofNat length.toNat, UInt8.ofNat (length.toNat / 256)] ++
    List.replicate 18 0, rfl⟩

theorem wMaxInputLength_hidDescOf (length : UInt16) :
    (hidDescOf length).wMaxInputLength.toNat = length.toNat := by
  have hfield : (hidDescOf length).wMaxInputLength = (UInt8.ofNat length.toNat).toUInt16 |||
      (UInt8.ofNat (length.toNat / 256)).toUInt16 <<< 8 := rfl
  have hlt : (UInt8.ofNat (length.toNat / 256)).toNat <<< 8 < 2 ^ 16 := by
    have := (UInt8.ofNat (length.toNat / 256)).toNat_lt
    rw [Nat.shiftLeft_eq]
    omega
  rw [hfield, UInt16.toNat_or, UInt16.toNat_shiftLeft, UInt8.toNat_toUInt16, UInt8.toNat_toUInt16]
  exact (congrArg _ (Nat.mod_eq_of_lt hlt)).trans (lengthBytes length.toNat_lt)

/-- A driver that waits for reports over a host protocol of the firmware. -/
def waitingDev (l : HidTouchLayout) (length : UInt16) : TouchDev where
  ready := true
  bus := { mKind := .firmware, mFw := { host := true } }
  hidDesc := hidDescOf length
  layout := fixMaxima l
  inputBuf := some ⟨0x1000, List.replicate length.toNat 0⟩

theorem uses_waitingDev (l : HidTouchLayout) (length : UInt16) :
    Uses l (waitingDev l length) length.toNat :=
  ⟨rfl, wMaxInputLength_hidDescOf length⟩

private theorem wantsRotation_waitingDev (l : HidTouchLayout) (length : UInt16) :
    (waitingDev l length).wantsRotation ⟨false, none⟩ = false := by
  simp [TouchDev.wantsRotation, waitingDev]

/-- On a machine without a GOP it receives and publishes any touching report. -/
private theorem exists_step_reportOf {n : ℕ} {length : UInt16} (hfits : l.FitsIn n)
    (hsize : l.size axis ≤ 32) (h : Touching l axis length.toNat payload)
    (hlength : headerLength l + payload.length = length.toNat) (v : ℤ) :
    ∃ d', PointerStep ⟨waitingDev l length, ⟨false, none⟩⟩
      (.poll (some (reportOf l axis v payload ++ []))) ⟨d', ⟨false, none⟩⟩ := by
  have hmax : (waitingDev l length).maxInputLength = length.toNat :=
    (uses_waitingDev l length).maxInputLength
  have hbytes : (reportOf l axis v payload ++ []).length = (waitingDev l length).maxInputLength := by
    rw [hmax, List.append_nil, reportOf, length_inputReport, length_writeBits, hlength]
  have hbuf : (List.replicate length.toNat (0 : UInt8)).length
      = (waitingDev l length).maxInputLength := by
    rw [hmax, List.length_replicate]
  have hread := @i2cHidRawRead_firmware _ (waitingDev l length).bus 0 _ _ rfl rfl hbuf hbytes
  have hreceive := @touchReceive_returns (waitingDev l length) _ .success _ _ _ rfl rfl hread
  obtain ⟨x, y, hdecode, -, hx⟩ := @decodeReport_reportOf l axis length.toNat payload [] v n
    hfits hsize length.toNat_lt h
  rw [← hmax] at hdecode
  -- decoding does not fault, so it ends in every environment
  have hwithin : Prog.Within NoAccess (touchDecode.run { waitingDev l length with
      inputBuf := some ⟨0x1000, reportOf l axis v payload ++ []⟩ }) (fun _ ↦ True) :=
    World.wp_mono (touchDecode_publishes rfl hdecode hx) fun _ _ _ ↦ trivial
  obtain ⟨⟨_, d'⟩, hsim⟩ := hwithin.simulate (fun (_ : Unit) e ↦ (e.zeros, ())) ()
  refine ⟨d', pointerStep_of_receive rfl rfl hreceive rfl (Prog.returns_simulate hsim) ?_⟩
  intro ev hev
  rcases List.mem_append.mp hev with hev | hev
  · rw [List.mem_singleton.mp hev]
    trivial
  · refine Prog.forall_simulate (J := fun _ ↦ True) (fun _ e _ ↦ ⟨?_, trivial⟩) trivial ev hev
    cases e <;> first | rfl | trivial

end

/-! ## The order of positions -/

section

variable {desc : List UInt8} {length : UInt16} {l₀ l : HidTouchLayout} {axis : Axis}
  {item : InputItem}

/-- The width and the maximum of an axis are those of the first item that carries it. -/
theorem size_logicalMax_of_hidParseTouchLayout {maxInputLength : ℕ}
    (hparse : hidParseTouchLayout desc maxInputLength l₀ = .ok (.success, l))
    (hitem : firstItem axis.target (readItemsOf desc l.reportId) = some item) :
    l.size axis = item.g.reportSize ∧ l.logicalMax axis = resolveLogicalMax item.g := by
  obtain ⟨-, huses⟩ := selected_of_hidParseTouchLayout hparse
  obtain ⟨u, hu, -, hextent⟩ := huses axis.target
  rw [firstItem_of_firstUse hu, Option.some_inj] at hitem
  subst hitem
  cases axis <;> exact Prod.mk.inj (Option.some.inj hextent)

/-- A payload that fills the longest report, with nothing but the tip down. -/
private theorem exists_touching
    (hparse : hidParseTouchLayout desc length.toNat l₀ = .ok (.success, l)) (axis : Axis) :
    ∃ payload, Touching l axis length.toNat payload ∧
      headerLength l + payload.length = length.toNat := by
  obtain ⟨⟨hmin, -⟩, hfits⟩ := fitsIn_of_hidParseTouchLayout hparse
  have hbits : payloadBits length.toNat l.hasReportId = 8 * (length.toNat - headerLength l) := by
    unfold payloadBits headerLength
    split <;> omega
  rw [hbits] at hfits
  have hlen : (writeBits (List.replicate (length.toNat - headerLength l) 0) l.tipBitOffset 1
      1).length = length.toNat - headerLength l := by
    rw [length_writeBits, List.length_replicate]
  have htip := hfits.tip
  have hheader : headerLength l ≤ length.toNat := by
    unfold headerLength
    split <;> omega
  refine ⟨_, ⟨by rwa [hlen], readBits_writeBits ?_ (by decide), ?_, by rw [hlen]; omega⟩, by
    rw [hlen]; omega⟩
  · rw [List.length_replicate]
    omega
  · rw [hlen]
    cases axis
    · exact hfits.x
    · exact hfits.y

private theorem position_of_nonneg (hrange : DeclaresRange item.g (l.size axis))
    (hmax : l.logicalMax axis = resolveLogicalMax item.g) {v : ℤ} (h : 0 ≤ v)
    (hv : v ≤ item.g.declaredMax) (hmin : 0 ≤ item.g.logicalMin) :
    (l.position axis v : ℤ) = v ∧ v ≤ ((fixMaxima l).logicalMax axis : ℤ) := by
  have hresolve := resolveLogicalMax_eq hrange.pos
  have hpos := hrange.pos
  have hfix : (fixMaxima l).logicalMax axis = l.logicalMax axis := by
    have hne : l.logicalMax axis ≠ 0 := by omega
    cases axis <;> exact if_neg hne
  have hcode : twosComplement (l.size axis) v = v.toNat :=
    twosComplement_of_nonneg h (hv.trans_lt (hrange.unsigned hmin))
  rw [HidTouchLayout.position, hcode, hfix, hmax]
  omega

/-- Below zero they do not: the report of -1 is published at the far end, and that of 0 at 0. -/
private theorem not_keepsOrder_of_neg
    (hparse : hidParseTouchLayout desc length.toNat l₀ = .ok (.success, l))
    (hrange : DeclaresRange item.g (l.size axis)) (hneg : item.g.logicalMin < 0) :
    ¬KeepsOrder l axis length.toNat item.g.logicalMin item.g.declaredMax := by
  intro horder
  obtain ⟨-, hfits⟩ := fitsIn_of_hidParseTouchLayout hparse
  have hlower : item.g.logicalMin ≤ -1 := by omega
  have hupper : (0 : ℤ) ≤ item.g.declaredMax := hrange.pos.le
  obtain ⟨payload, htouch, hlength⟩ := exists_touching hparse axis
  obtain ⟨d₁, hstep₁⟩ := exists_step_reportOf hfits hrange.size htouch hlength (-1)
  obtain ⟨d₂, hstep₂⟩ := exists_step_reportOf hfits hrange.size htouch hlength 0
  have huses := uses_waitingDev l length
  obtain ⟨hrotate₁, -⟩ := along_of_step hfits hrange.size htouch huses hstep₁
  obtain ⟨hrotate₂, halong₂⟩ := along_of_step hfits hrange.size htouch huses hstep₂
  have hnot := wantsRotation_waitingDev l length
  have hbefore := horder (-1) 0 hlower (by decide) hupper payload [] htouch _ _ _ _ huses huses
    hstep₁ hstep₂ (hrotate₁.trans hrotate₂.symm)
  have hzero : l.position axis 0 = 0 := by
    rw [HidTouchLayout.position, twosComplement_of_nonneg le_rfl (by positivity)]
    exact Nat.zero_min _
  rw [hrotate₂, hnot, hzero, if_neg (by simp)] at halong₂
  rw [hrotate₁, hnot, Before, if_neg (by simp), halong₂] at hbefore
  exact absurd hbefore (Nat.not_lt_zero _)

/-- **When positions follow the logical values**: exactly if the logical range of the axis does
not begin below zero. -/
theorem keepsOrder_iff (hparse : hidParseTouchLayout desc length.toNat l₀ = .ok (.success, l))
    (hitem : firstItem axis.target (readItemsOf desc l.reportId) = some item)
    (hrange : DeclaresRange item.g (l.size axis)) :
    KeepsOrder l axis length.toNat item.g.logicalMin item.g.declaredMax ↔
      0 ≤ item.g.logicalMin := by
  obtain ⟨-, hfits⟩ := fitsIn_of_hidParseTouchLayout hparse
  obtain ⟨-, hmax⟩ := size_logicalMax_of_hidParseTouchLayout hparse hitem
  constructor
  · intro horder
    by_contra hneg
    exact not_keepsOrder_of_neg hparse hrange (Int.not_le.mp hneg) horder
  · intro hmin a b ha hab hb payload pad htouch desk₁ desk₂ desk₁' desk₂' huses₁ huses₂ hstep₁
      hstep₂ hsame
    obtain ⟨-, halong₁⟩ := along_of_step hfits hrange.size htouch huses₁ hstep₁
    obtain ⟨-, halong₂⟩ := along_of_step hfits hrange.size htouch huses₂ hstep₂
    obtain ⟨hpos₁, -⟩ := position_of_nonneg hrange hmax (hmin.trans ha) (by omega) hmin
    obtain ⟨hpos₂, hle₂⟩ := position_of_nonneg hrange hmax (by omega) hb hmin
    rw [Before, halong₁, halong₂, hsame]
    split
    · next hturned =>
      obtain ⟨-, rfl⟩ := hturned
      have hle : l.position .x b ≤ (fixMaxima l).xLogicalMax := Nat.min_le_right _ _
      omega
    · omega

end

/-! ### Two ranges of X -/

private theorem axes_digitizer : (firstItem .x (readItemsOf digitizerDescriptor 1)).map
    InputItem.g = some ⟨1, 0, 0xFFF, 0xFFF, 16, 2, 1⟩ := by decide +kernel

/-- Two touches from left to right. -/
theorem keepsOrder_iff_digitizer : ∃ payload d₁ d₂,
    PointerStep ⟨waitingDev digitizerLayout 64, ⟨false, none⟩⟩
      (.poll (some (reportOf digitizerLayout .x 0x123 payload ++ []))) ⟨d₁, ⟨false, none⟩⟩ ∧
    PointerStep ⟨waitingDev digitizerLayout 64, ⟨false, none⟩⟩
      (.poll (some (reportOf digitizerLayout .x 0x456 payload ++ []))) ⟨d₂, ⟨false, none⟩⟩ ∧
    d₁.state.currentX < d₂.state.currentX := by
  have hparse : hidParseTouchLayout digitizerDescriptor (64 : UInt16).toNat .zero
      = .ok (.success, digitizerLayout) := by decide +kernel
  obtain ⟨item, hitem, hg⟩ := Option.map_eq_some_iff.mp axes_digitizer
  have hrange : DeclaresRange item.g (digitizerLayout.size .x) := by
    rw [hg]
    exact ⟨by decide, by decide, by decide, fun _ ↦ by decide, fun h ↦ absurd h (by decide)⟩
  have horder := (@keepsOrder_iff _ _ _ _ .x _ hparse hitem hrange).mpr (by rw [hg])
  rw [hg] at horder
  obtain ⟨-, hfits⟩ := fitsIn_of_hidParseTouchLayout hparse
  obtain ⟨payload, htouch, hlength⟩ := exists_touching hparse .x
  obtain ⟨d₁, hstep₁⟩ := exists_step_reportOf hfits hrange.size htouch hlength 0x123
  obtain ⟨d₂, hstep₂⟩ := exists_step_reportOf hfits hrange.size htouch hlength 0x456
  have huses := uses_waitingDev digitizerLayout 64
  have hrotate₁ : d₁.rotateActive = false :=
    (along_of_step hfits hrange.size htouch huses hstep₁).1.trans (wantsRotation_waitingDev _ _)
  have hrotate₂ : d₂.rotateActive = false :=
    (along_of_step hfits hrange.size htouch huses hstep₂).1.trans (wantsRotation_waitingDev _ _)
  have hbefore := horder 0x123 0x456 (by decide) (by decide) (by decide) payload [] htouch _ _ _ _
    huses huses hstep₁ hstep₂ (hrotate₁.trans hrotate₂.symm)
  simp only [Before, TouchDev.along, hrotate₁, hrotate₂, Bool.false_eq_true, false_and,
    if_false] at hbefore
  exact ⟨payload, d₁, d₂, hstep₁, hstep₂, hbefore⟩

/-- The digitizer with axes from -2048 to 2047. -/
def signedDescriptor : List UInt8 :=
  [0x05, 0x0D, 0x85, 0x01, 0x25, 0x01, 0x75, 0x01, 0x95, 0x01, 0x09, 0x42, 0x81, 0x02,
   0x95, 0x07, 0x81, 0x03, 0x05, 0x01, 0x16, 0x00, 0xF8, 0x26, 0xFF, 0x07, 0x75, 0x10, 0x95, 0x02,
   0x09, 0x30, 0x09, 0x31, 0x81, 0x02]

private theorem axes_signed : (firstItem .x (readItemsOf signedDescriptor 1)).map
    InputItem.g = some ⟨1, -2048, 0x7FF, 0x7FF, 16, 2, 1⟩ := by decide +kernel

/-- Its negative positions are published beyond the others. -/
theorem signed_out_of_order :
    ¬∀ (desc : List UInt8) (length : UInt16) (l₀ l : HidTouchLayout) (axis : Axis)
      (item : InputItem), hidParseTouchLayout desc length.toNat l₀ = .ok (.success, l) →
        firstItem axis.target (readItemsOf desc l.reportId) = some item →
          DeclaresRange item.g (l.size axis) →
            KeepsOrder l axis length.toNat item.g.logicalMin item.g.declaredMax := by
  intro hall
  have hparse : hidParseTouchLayout signedDescriptor (64 : UInt16).toNat .zero
      = .ok (.success, ⟨true, 1, 0, 8, 16, 0x7FF, 24, 16, 0x7FF⟩) := by decide +kernel
  obtain ⟨item, hitem, hg⟩ := Option.map_eq_some_iff.mp axes_signed
  have hrange : DeclaresRange item.g 16 := by
    rw [hg]
    exact ⟨by decide, by decide, by decide, fun h ↦ absurd h (by decide), fun _ ↦ by decide⟩
  have hneg : item.g.logicalMin < 0 := by
    rw [hg]
    decide
  exact @not_keepsOrder_of_neg _ _ _ _ .x _ hparse hrange hneg
    (hall _ _ _ _ .x item hparse hitem hrange)

end TouchI2c
