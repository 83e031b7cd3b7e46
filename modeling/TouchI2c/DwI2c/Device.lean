import TouchI2c.DwI2c.Master
import TouchI2c.Interaction.World

/-!
# Devices behind 32-bit registers

A device takes steps on its own and answers the accesses to its registers, each known by its offset
from a base address. Its world is the environment of a driver that accesses nothing else.

The rule of a register access has two parts: what the device does before the access, any number of
steps, and what the access does. A property that every step keeps passes the first part unharmed, so
the rules ask for such a property and for the one access. The same accesses as runs (`runs_rd`,
`runs_wr`) are for the other direction, where a run of the device has to be exhibited.
-/

namespace TouchI2c

open Interaction

/-- A device with 32-bit registers. -/
structure Device (σ : Type) where
  Step : σ → σ → Prop
  Reads : σ → UInt64 → UInt32 → σ → Prop
  Writes : σ → UInt64 → UInt32 → σ → Prop

namespace Device

variable {σ : Type}

/-- What an operation of the driver does to the device at `base`. -/
def Answers (D : Device σ) (base : UInt64) (s : σ) : (e : UefiOp) → e.Ret → σ → Prop
  | .mmioRead32 a, r, s' => D.Reads s (a - base) r s'
  | .mmioWrite32 a v, _, s' => D.Writes s (a - base) v s'
  | _, _, s' => s' = s

/-- The device at `base` as the environment of the driver. -/
def world (D : Device σ) (base : UInt64) : World Uefi σ where
  drift := Relation.ReflTransGen D.Step
  Allowed _ _ := True
  answer := D.Answers base

end Device

/-- A world in which `D` answers the accesses at `base`, whatever it allows. -/
structure Device.Behind {σ : Type} (D : Device σ) (base : UInt64) (W : World Uefi σ) : Prop where
  drift : ∀ s s', W.drift s s' → Relation.ReflTransGen D.Step s s'
  reads : ∀ s off (r : UInt32) s', W.answer s (.mmioRead32 (base + off)) r s' → D.Reads s off r s'
  writes : ∀ s off val s', W.answer s (.mmioWrite32 (base + off) val) () s' → D.Writes s off val s'

namespace Device

variable {σ : Type} {D : Device σ} {W : World Uefi σ} {base off : UInt64} {s s₁ s' : σ}
  {P : σ → Prop}

namespace Behind

theorem stable (hW : D.Behind base W) (hstep : ∀ s s', P s → D.Step s s' → P s') : W.Stable P := by
  intro s s' hs hdrift
  have hsteps := hW.drift s s' hdrift
  clear hdrift
  induction hsteps with
  | refl => exact hs
  | tail _ h ih => exact hstep _ _ ih h

/-- The rule of a register read. -/
theorem wp_rd (hW : D.Behind base W) (hstep : ∀ s s', P s → D.Step s s' → P s') (hs : P s)
    (hallowed : ∀ s, P s → W.Allowed s (.mmioRead32 (base + off))) {Q : UInt32 → σ → Prop}
    (h : ∀ s r s', P s → D.Reads s off r s' → Q r s') : W.wp (regRd base off) Q s :=
  World.wp_op_of_stable (hW.stable hstep) hs hallowed fun s₁ r s₂ hs₁ hanswer ↦
    h s₁ r s₂ hs₁ (hW.reads s₁ off r s₂ hanswer)

/-- The rule of a register write. -/
theorem wp_wr (hW : D.Behind base W) (hstep : ∀ s s', P s → D.Step s s' → P s') (hs : P s)
    {val : UInt32} (hallowed : ∀ s, P s → W.Allowed s (.mmioWrite32 (base + off) val))
    {Q : Unit → σ → Prop} (h : ∀ s s', P s → D.Writes s off val s' → Q () s') :
    W.wp (regWr base off val) Q s :=
  World.wp_op_of_stable (hW.stable hstep) hs hallowed fun s₁ _ s₂ hs₁ hanswer ↦
    h s₁ s₂ hs₁ (hW.writes s₁ off val s₂ hanswer)

end Behind

theorem behind_world (D : Device σ) (base : UInt64) : D.Behind base (D.world base) where
  drift _ _ h := h
  reads s off r s' h := by
    change D.Reads s (base + off - base) r s' at h
    rwa [add_sub_base] at h
  writes s off val s' h := by
    change D.Writes s (base + off - base) val s' at h
    rwa [add_sub_base] at h

theorem stable (hstep : ∀ s s', P s → D.Step s s' → P s') : (D.world base).Stable P :=
  (D.behind_world base).stable hstep

theorem wp_rd (hstep : ∀ s s', P s → D.Step s s' → P s') (hs : P s) {Q : UInt32 → σ → Prop}
    (h : ∀ s r s', P s → D.Reads s off r s' → Q r s') : (D.world base).wp (regRd base off) Q s :=
  (D.behind_world base).wp_rd hstep hs (fun _ _ ↦ trivial) h

theorem wp_wr (hstep : ∀ s s', P s → D.Step s s' → P s') (hs : P s) {val : UInt32}
    {Q : Unit → σ → Prop} (h : ∀ s s', P s → D.Writes s off val s' → Q () s') :
    (D.world base).wp (regWr base off val) Q s :=
  (D.behind_world base).wp_wr hstep hs (fun _ _ ↦ trivial) h

theorem runs_rd {r : UInt32} (hdrift : Relation.ReflTransGen D.Step s s₁)
    (h : D.Reads s₁ off r s') : (D.world base).Runs (regRd base off) s r s' := by
  refine World.runs_perform hdrift ?_
  change D.Reads s₁ (base + off - base) r s'
  rwa [add_sub_base]

theorem runs_wr {val : UInt32} (hdrift : Relation.ReflTransGen D.Step s s₁)
    (h : D.Writes s₁ off val s') : (D.world base).Runs (regWr base off val) s () s' := by
  refine World.runs_perform hdrift ?_
  change D.Writes s₁ (base + off - base) val s'
  rwa [add_sub_base]

end Device

end TouchI2c
