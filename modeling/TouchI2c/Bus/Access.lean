import TouchI2c.Bus.MtkI2c
import TouchI2c.Interaction.Footprint

/-!
# Accesses of the MediaTek master in a world

The four accessors look a base address up in the instance and perform one access there, whatever the
environment is. In a world the rule of an accessor is therefore the rule of its operation.

The worlds of this development are of three kinds: a monitor answers anything and computes its next
state, a world at rest does not drift between two operations, and a world that does is handled
through what its drift keeps. The rules of the three kinds are stated once for any instance and any
offset; the models of the controller only say what their own answer to an access is.
-/

namespace TouchI2c

open Interaction

section

variable {σ : Type} {W : World Uefi σ} {M : Monitor Uefi σ} {c : MtkI2c} {s : σ} {off : UInt64}

/-! ## In any world -/

theorem wpS_i2cRd_iff {Q : UInt16 → MtkI2c → σ → Prop} : W.wpS (i2cRd off) Q c s ↔
    W.wp (uefi (.mmioRead16 (c.base + off))) (fun v s' ↦ Q v c s') s := Iff.rfl

theorem wpS_i2cWr_iff {val : UInt16} {Q : Unit → MtkI2c → σ → Prop} :
    W.wpS (i2cWr off val) Q c s ↔
      W.wp (uefi (.mmioWrite16 (c.base + off) val)) (fun u s' ↦ Q u c s') s := Iff.rfl

theorem wpS_dmaRd_iff {Q : UInt32 → MtkI2c → σ → Prop} : W.wpS (dmaRd off) Q c s ↔
    W.wp (uefi (.mmioRead32 (c.dmaBase + off))) (fun v s' ↦ Q v c s') s := Iff.rfl

theorem wpS_dmaWr_iff {val : UInt32} {Q : Unit → MtkI2c → σ → Prop} :
    W.wpS (dmaWr off val) Q c s ↔
      W.wp (uefi (.mmioWrite32 (c.dmaBase + off) val)) (fun u s' ↦ Q u c s') s := Iff.rfl

/-! ## In a monitor -/

theorem wpS_i2cRd_monitor {Q : UInt16 → MtkI2c → σ → Prop} : M.world.wpS (i2cRd off) Q c s ↔
    M.Allowed s (.mmioRead16 (c.base + off)) ∧
      ∀ v, Q v c (M.update s (.mmioRead16 (c.base + off)) v) := Monitor.wp_op

theorem wpS_i2cWr_monitor {val : UInt16} {Q : Unit → MtkI2c → σ → Prop} :
    M.world.wpS (i2cWr off val) Q c s ↔ M.Allowed s (.mmioWrite16 (c.base + off) val) ∧
      Q () c (M.update s (.mmioWrite16 (c.base + off) val) ()) :=
  Monitor.wp_op.trans (and_congr_right fun _ ↦ ⟨fun h ↦ h (), fun h _ ↦ h⟩)

theorem wpS_dmaRd_monitor {Q : UInt32 → MtkI2c → σ → Prop} : M.world.wpS (dmaRd off) Q c s ↔
    M.Allowed s (.mmioRead32 (c.dmaBase + off)) ∧
      ∀ v, Q v c (M.update s (.mmioRead32 (c.dmaBase + off)) v) := Monitor.wp_op

theorem wpS_dmaWr_monitor {val : UInt32} {Q : Unit → MtkI2c → σ → Prop} :
    M.world.wpS (dmaWr off val) Q c s ↔ M.Allowed s (.mmioWrite32 (c.dmaBase + off) val) ∧
      Q () c (M.update s (.mmioWrite32 (c.dmaBase + off) val) ()) :=
  Monitor.wp_op.trans (and_congr_right fun _ ↦ ⟨fun h ↦ h (), fun h _ ↦ h⟩)

theorem wp_stall_monitor {us : ℕ} {Q : Unit → σ → Prop} : M.world.wp (stall us) Q s ↔
    M.Allowed s (.stall us) ∧ Q () (M.update s (.stall us) ()) :=
  Monitor.wp_op.trans (and_congr_right fun _ ↦ ⟨fun h ↦ h (), fun h _ ↦ h⟩)

/-! ## In a world at rest -/

theorem wp_uefi_still (hstill : ∀ s', W.drift s s' ↔ s' = s) {e : UefiOp} {A : Prop}
    {P : e.Ret → Prop} {s₁ : σ} (hallowed : W.Allowed s e ↔ A)
    (hanswer : ∀ r s', W.answer s e r s' ↔ P r ∧ s' = s₁) {Q : e.Ret → σ → Prop} :
    W.wp (uefi e) Q s ↔ A ∧ ∀ r, P r → Q r s₁ := by
  constructor
  · intro h
    obtain ⟨hop, hreturns⟩ := h s ((hstill s).mpr rfl)
    exact ⟨hallowed.mp hop, fun r hr ↦ hreturns r s₁ ((hanswer r s₁).mpr ⟨hr, rfl⟩)⟩
  · rintro ⟨hA, hQ⟩ s' hdrift
    obtain rfl := (hstill s').mp hdrift
    refine ⟨hallowed.mpr hA, fun r s₂ hreturns ↦ ?_⟩
    obtain ⟨hr, rfl⟩ := (hanswer r s₂).mp hreturns
    exact hQ r hr

theorem wpS_i2cRd_still (hstill : ∀ s', W.drift s s' ↔ s' = s) {A : Prop} {P : UInt16 → Prop}
    {s₁ : σ} (hallowed : W.Allowed s (.mmioRead16 (c.base + off)) ↔ A)
    (hanswer : ∀ v s', W.answer s (.mmioRead16 (c.base + off)) v s' ↔ P v ∧ s' = s₁)
    {Q : UInt16 → MtkI2c → σ → Prop} :
    W.wpS (i2cRd off) Q c s ↔ A ∧ ∀ v, P v → Q v c s₁ :=
  wpS_i2cRd_iff.trans (wp_uefi_still hstill hallowed hanswer)

theorem wpS_i2cWr_still (hstill : ∀ s', W.drift s s' ↔ s' = s) {A : Prop} {val : UInt16} {s₁ : σ}
    (hallowed : W.Allowed s (.mmioWrite16 (c.base + off) val) ↔ A)
    (hanswer : ∀ s', W.answer s (.mmioWrite16 (c.base + off) val) () s' ↔ s' = s₁)
    {Q : Unit → MtkI2c → σ → Prop} : W.wpS (i2cWr off val) Q c s ↔ A ∧ Q () c s₁ :=
  (wp_uefi_still hstill hallowed fun _ s' ↦ (hanswer s').trans (and_iff_right trivial).symm).trans
    (and_congr_right fun _ ↦ ⟨fun h ↦ h () trivial, fun h _ _ ↦ h⟩)

theorem wpS_dmaWr_still (hstill : ∀ s', W.drift s s' ↔ s' = s) {A : Prop} {val : UInt32} {s₁ : σ}
    (hallowed : W.Allowed s (.mmioWrite32 (c.dmaBase + off) val) ↔ A)
    (hanswer : ∀ s', W.answer s (.mmioWrite32 (c.dmaBase + off) val) () s' ↔ s' = s₁)
    {Q : Unit → MtkI2c → σ → Prop} : W.wpS (dmaWr off val) Q c s ↔ A ∧ Q () c s₁ :=
  (wp_uefi_still hstill hallowed fun _ s' ↦ (hanswer s').trans (and_iff_right trivial).symm).trans
    (and_congr_right fun _ ↦ ⟨fun h ↦ h () trivial, fun h _ _ ↦ h⟩)

end

end TouchI2c
