import TouchI2c.Bus.Footprint
import TouchI2c.Platform.Power

/-!
# The footprint of powering on

The AOAC layer accesses the two registers of its tile. The LPSS layer asks every PCI function for
its location, and accesses the configuration space of the one it has chosen and the private
registers behind its BAR. No loop of either is unbounded.

The two accesses of the LPSS layer depend on what was read before: the function is chosen by its
location and confirmed by its IDs, and the registers lie behind the BAR0 that was read from it.
`LpssRules` names what a world has to say at each of these steps, and `wp_intelLpssPrepareI2c` is
the preparation in any world that says it. The search for a controller of the firmware asks for
device paths and protocols only.
-/

namespace TouchI2c

open Interaction

/-- A question about the handles of PCI functions. -/
def HandleQuery : UefiOp → Prop
  | .locatePciIo | .openPciIo _ | .pciLocation _ => True
  | _ => False

theorem HandleQuery.noAccess {e : UefiOp} (h : HandleQuery e) : NoAccess e := by
  cases e <;> first | exact h | exact trivial

/-- An access to the AOAC registers of a tile, or a stall. -/
def AoacAccess (aoacDev : UInt8) : UefiOp → Prop
  | .mmioRead8 a => a = fchAoacDevStatus aoacDev ∨ a = fchAoacDevCtl aoacDev
  | .mmioWrite8 a _ => a = fchAoacDevCtl aoacDev
  | .stall _ => True
  | _ => False

/-- An access to the configuration space of a PCI function, or a stall. -/
def PciAccess (pciIo : ℕ) : UefiOp → Prop
  | .pciRead8 h _ | .pciRead16 h _ | .pciRead32 h _ | .pciWrite16 h _ _ => h = pciIo
  | .pciEnableMemory h => h = pciIo
  | .stall _ => True
  | _ => False

/-- The LPSS private registers that are accessed. -/
def lpssOffsets : List UInt64 :=
  [lpssPrivClockParams, lpssPrivResets, lpssPrivRemapLo, lpssPrivRemapHi]

/-- Those that are written behind the release of the resets. -/
def remapOffsets : List UInt64 := [lpssPrivClockParams, lpssPrivRemapLo, lpssPrivRemapHi]

theorem mem_lpssOffsets_of_remap {off : UInt64} (h : off ∈ remapOffsets) : off ∈ lpssOffsets := by
  simp only [remapOffsets, List.mem_cons, List.not_mem_nil, or_false] at h
  obtain rfl | rfl | rfl := h <;> simp [lpssOffsets]

variable {P : UefiOp → Prop}

/-! ## AOAC -/

section

variable {aoacDev : UInt8} (hP : ∀ e, AoacAccess aoacDev e → P e)

include hP

private theorem wp_aoac {e : UefiOp} {Q : e.Ret → Unit → Prop} (he : AoacAccess aoacDev e)
    (h : ∀ r, Q r ()) : (within P).world.wp (uefi e) Q () := wp_uefi.mpr ⟨hP e he, h⟩

private theorem waitForD0_within (n : ℕ) : (waitForD0 aoacDev n).Within P fun _ ↦ True := by
  induction n with
  | zero => exact trivial
  | succ n ih =>
    rw [waitForD0, Prog.Within, World.wp_bind]
    refine wp_aoac hP (.inl rfl) fun status ↦ ?_
    split
    · exact trivial
    · rw [World.wp_bind]
      exact wp_aoac hP trivial fun _ ↦ ih

theorem fchAoacPowerOnI2c_within : (fchAoacPowerOnI2c aoacDev).Within P fun _ ↦ True := by
  rw [fchAoacPowerOnI2c, Prog.Within, World.wp_bind]
  refine wp_aoac hP (.inl rfl) fun status ↦ ?_
  split
  · exact trivial
  · rw [World.wp_bind]
    refine wp_aoac hP (.inr rfl) fun ctl ↦ ?_
    rw [World.wp_bind]
    refine wp_aoac hP rfl fun _ ↦ ?_
    rw [World.wp_bind]
    refine World.wp_mono (waitForD0_within hP _) fun done _ _ ↦ ?_
    cases done <;> exact trivial

end

/-! ## The PCI function -/

section

variable {pciIo : ℕ} (hP : ∀ e, PciAccess pciIo e → P e)

include hP

private theorem wp_pci {e : UefiOp} {Q : e.Ret → Unit → Prop} (he : PciAccess pciIo e)
    (h : ∀ r, Q r ()) : (within P).world.wp (uefi e) Q () := wp_uefi.mpr ⟨hP e he, h⟩

private theorem lpssPmcsrD0_within (capPtr : UInt8) :
    (lpssPmcsrD0 pciIo capPtr).Within P fun _ ↦ True := by
  rw [lpssPmcsrD0, Prog.Within, World.wp_bind]
  refine wp_pci hP rfl fun pmcsr ↦ ?_
  cases pmcsr with
  | none => exact trivial
  | some pmcsr =>
    dsimp only
    split
    · rw [World.wp_bind]
      exact wp_pci hP rfl fun _ ↦ wp_pci hP trivial fun _ ↦ trivial
    · exact trivial

private theorem lpssCapWalk_within (n : ℕ) (capPtr : UInt8) :
    (lpssCapWalk pciIo n capPtr).Within P fun _ ↦ True := by
  induction n generalizing capPtr with
  | zero => exact trivial
  | succ n ih =>
    rw [lpssCapWalk]
    split
    · exact trivial
    rw [Prog.Within, World.wp_bind]
    refine wp_pci hP rfl fun capId ↦ ?_
    cases capId with
    | none => exact trivial
    | some capId =>
      dsimp only
      split
      · exact lpssPmcsrD0_within hP capPtr
      · rw [World.wp_bind]
        refine wp_pci hP rfl fun next ↦ ?_
        cases next with
        | none => exact trivial
        | some next => exact ih next

theorem lpssForceD0_within : (lpssForceD0 pciIo).Within P fun _ ↦ True := by
  rw [lpssForceD0, Prog.Within, World.wp_bind]
  refine wp_pci hP rfl fun statusReg ↦ ?_
  cases statusReg with
  | none => exact trivial
  | some statusReg =>
    dsimp only
    split
    · exact trivial
    · rw [World.wp_bind]
      refine wp_pci hP rfl fun capPtr ↦ ?_
      cases capPtr with
      | none => exact trivial
      | some capPtr => exact lpssCapWalk_within hP 48 capPtr

theorem lpssEnableMemory_within : (lpssEnableMemory pciIo).Within P fun _ ↦ True := by
  rw [lpssEnableMemory, Prog.Within, World.wp_bind]
  refine wp_pci hP rfl fun status ↦ ?_
  split
  · rw [World.wp_bind]
    refine wp_pci hP rfl fun command ↦ ?_
    cases command with
    | none => exact trivial
    | some command =>
      dsimp only
      split
      · rw [World.wp_bind]
        exact wp_pci hP rfl fun _ ↦ trivial
      · exact trivial
  · exact trivial

theorem lpssBar_within : (lpssBar pciIo).Within P fun _ ↦ True := by
  rw [lpssBar, Prog.Within, World.wp_bind]
  refine wp_pci hP rfl fun barLo ↦ ?_
  cases barLo with
  | none => exact trivial
  | some barLo =>
    dsimp only
    split
    · rw [World.wp_bind]
      refine wp_pci hP rfl fun barHi ↦ ?_
      cases barHi <;> exact trivial
    · exact trivial

end

/-! ## The private registers -/

section

variable {bar : UInt64} {R : UInt64 → Prop}

theorem lpssReleaseResets_within (hR : R lpssPrivResets) :
    (lpssReleaseResets bar).Within (RegAccess bar R) fun _ ↦ True := by
  rw [lpssReleaseResets, Prog.Within, World.wp_bind]
  refine wp_uefi.mpr ⟨⟨lpssPrivResets, hR, rfl⟩, fun resets ↦ ?_⟩
  split
  · exact trivial
  · rw [World.wp_bind]
    exact wp_uefi.mpr ⟨⟨lpssPrivResets, hR, rfl⟩, fun _ ↦ trivial⟩

theorem lpssRemap_within (hR : ∀ off ∈ remapOffsets, R off) :
    (lpssRemap bar).Within (RegAccess bar R) fun _ ↦ True := by
  rw [lpssRemap, Prog.Within, World.wp_bind]
  refine wp_uefi.mpr ⟨⟨lpssPrivRemapLo, hR _ (by decide), rfl⟩, fun _ ↦ ?_⟩
  rw [World.wp_bind]
  refine wp_uefi.mpr ⟨⟨lpssPrivRemapHi, hR _ (by decide), rfl⟩, fun _ ↦ ?_⟩
  rw [World.wp_bind]
  refine wp_uefi.mpr ⟨⟨lpssPrivClockParams, hR _ (by decide), rfl⟩, fun clock ↦ ?_⟩
  split
  · exact wp_uefi.mpr ⟨⟨lpssPrivClockParams, hR _ (by decide), rfl⟩, fun _ ↦ trivial⟩
  · exact trivial

end

/-! ## Finding the function -/

theorem lpssFind_within (hP : ∀ e, HandleQuery e → P e) (pciDevice pciFunction : UInt8)
    (handles : List ℕ) : (lpssFind pciDevice pciFunction handles).Within P fun _ ↦ True := by
  have hlocation : ∀ handle, (lpssAtLocation pciDevice pciFunction handle).Within P
      fun _ ↦ True := by
    intro handle
    rw [lpssAtLocation, Prog.Within, World.wp_bind]
    refine wp_uefi.mpr ⟨hP _ trivial, fun opened ↦ ?_⟩
    split
    · rw [World.wp_bind]
      exact wp_uefi.mpr ⟨hP _ trivial, fun _ ↦ trivial⟩
    · exact trivial
  induction handles with
  | nil => exact trivial
  | cons handle handles ih =>
    rw [lpssFind, Prog.Within, World.wp_bind]
    refine World.wp_mono (hlocation handle) fun atLocation _ _ ↦ ?_
    split
    · exact trivial
    · exact ih

/-! ## The preparation in any world -/

/-- What the preparation of an LPSS controller is built from. `J` holds until the resets of the
controller behind a BAR in `Usable` have been looked at, and then `Mapped bar fresh`, where `fresh`
tells whether they were released. -/
structure LpssRules {σ : Type} (W : World Uefi σ) (Usable : UInt64 → Prop) (J : σ → Prop)
    (Mapped : UInt64 → Bool → σ → Prop) : Prop where
  find : W.Keeps HandleQuery J
  pci : ∀ pciIo, W.Keeps (PciAccess pciIo) J
  bar : ∀ {pciIo s}, J s →
    W.wp (lpssBar pciIo) (fun r s' ↦ J s' ∧ ∀ bar, r = some bar → Usable bar) s
  release : ∀ {bar s}, Usable bar → J s →
    W.wp (lpssReleaseResets bar) (fun fresh s' ↦ Mapped bar fresh s') s
  remap : ∀ {bar fresh s}, Usable bar → Mapped bar fresh s →
    W.wp (lpssRemap bar) (fun _ s' ↦ Mapped bar fresh s') s

namespace LpssRules

variable {σ : Type} {W : World Uefi σ} {Usable : UInt64 → Prop} {J : σ → Prop}
  {Mapped : UInt64 → Bool → σ → Prop} {s : σ}

private theorem wp_lpssPrepare (rules : LpssRules W Usable J Mapped) (pciIo : ℕ) (hs : J s) :
    W.wp (lpssPrepare pciIo) (fun r s' ↦
      if r.1.isError then J s' else Usable r.2.1 ∧ Mapped r.2.1 r.2.2 s') s := by
  rw [lpssPrepare, World.wp_bind]
  refine World.wp_mono ((rules.pci pciIo).wp (lpssForceD0_within fun _ h ↦ h) hs)
    fun _ s₁ h₁ ↦ ?_
  rw [World.wp_bind]
  refine World.wp_mono (rules.bar h₁.2) fun bar s₂ h₂ ↦ ?_
  cases bar with
  | none => exact h₂.1
  | some bar =>
    have husable := h₂.2 bar rfl
    dsimp only
    split
    · exact h₂.1
    · rw [World.wp_bind]
      refine World.wp_mono ((rules.pci pciIo).wp (lpssEnableMemory_within fun _ h ↦ h) h₂.1)
        fun _ s₃ h₃ ↦ ?_
      rw [World.wp_bind]
      refine World.wp_mono (rules.release husable h₃.2) fun fresh s₄ h₄ ↦ ?_
      rw [World.wp_bind]
      exact World.wp_mono (rules.remap husable h₄) fun _ s₅ h₅ ↦ ⟨husable, h₅⟩

/-- **`IntelLpssPrepareI2c`.** -/
theorem wp_intelLpssPrepareI2c (rules : LpssRules W Usable J Mapped) (pciDid : UInt16)
    (pciDevice pciFunction : UInt8) (hs : J s) :
    W.wp (intelLpssPrepareI2c pciDid pciDevice pciFunction) (fun r s' ↦
      if r.1.isError then J s' else Usable r.2.1 ∧ Mapped r.2.1 r.2.2 s') s := by
  rw [intelLpssPrepareI2c, World.wp_bind]
  refine rules.find.perform trivial hs fun count s₁ h₁ ↦ ?_
  cases count with
  | none => exact h₁
  | some count =>
    dsimp only
    rw [World.wp_bind]
    refine World.wp_mono (rules.find.wp (lpssFind_within (fun _ h ↦ h) pciDevice pciFunction _) h₁)
      fun handle s₂ h₂ ↦ ?_
    cases handle with
    | none => exact h₂.2
    | some pciIo =>
      dsimp only
      rw [lpssConfirm, World.wp_bind]
      refine (rules.pci pciIo).perform rfl h₂.2 fun ids s₃ h₃ ↦ ?_
      cases ids with
      | none => exact h₃
      | some ids =>
        dsimp only
        split
        · exact rules.wp_lpssPrepare pciIo h₃
        · exact h₃

end LpssRules

/-- An operation of the LPSS layer: a question about handles, or an access to the configuration
space of a PCI function or to the private registers behind a BAR. -/
def LpssAccess (e : UefiOp) : Prop :=
  HandleQuery e ∨ (∃ pciIo, PciAccess pciIo e) ∨ ∃ bar, RegAccess bar (· ∈ lpssOffsets) e

/-- The preparation of an LPSS controller always ends. -/
theorem intelLpssPrepareI2c_within (hP : ∀ e, LpssAccess e → P e) (pciDid : UInt16)
    (pciDevice pciFunction : UInt8) :
    (intelLpssPrepareI2c pciDid pciDevice pciFunction).Within P fun _ ↦ True := by
  have hrules : LpssRules (within P).world (fun _ ↦ True) (fun _ ↦ True) fun _ _ _ ↦ True :=
    { find := fun e _ he _ ↦ wp_uefi.mpr ⟨hP e (.inl he), fun _ ↦ trivial⟩
      pci := fun pciIo e _ he _ ↦ wp_uefi.mpr ⟨hP e (.inr (.inl ⟨pciIo, he⟩)), fun _ ↦ trivial⟩
      bar := fun _ ↦ World.wp_mono (lpssBar_within fun e he ↦ hP e (.inr (.inl ⟨_, he⟩)))
        fun _ _ _ ↦ ⟨trivial, fun _ _ ↦ trivial⟩
      release := fun _ _ ↦ (lpssReleaseResets_within (R := (· ∈ lpssOffsets))
        (by simp [lpssOffsets])).mono fun e he ↦ hP e (.inr (.inr ⟨_, he⟩))
      remap := fun _ _ ↦ (lpssRemap_within fun _ ↦ mem_lpssOffsets_of_remap).mono
        fun e he ↦ hP e (.inr (.inr ⟨_, he⟩)) }
  exact World.wp_mono (hrules.wp_intelLpssPrepareI2c pciDid pciDevice pciFunction trivial)
    fun _ _ _ ↦ trivial

/-! ## Finding a controller of the firmware -/

/-- A question about the I2C controllers of the firmware. -/
def FirmwareQuery : UefiOp → Prop
  | .locateI2cMasters | .i2cDevicePath _ | .openI2cMaster _ | .openI2cHost _ => True
  | _ => False

theorem FirmwareQuery.noAccess {e : UefiOp} (h : FirmwareQuery e) : NoAccess e := by
  cases e <;> first | exact h | exact trivial

/-- The search asks for device paths and protocols only. -/
theorem i2cBusFindFirmwareController_within (hP : ∀ e, FirmwareQuery e → P e) (acpiHid : String)
    (acpiUid : UInt32) :
    (i2cBusFindFirmwareController acpiHid acpiUid).Within P fun _ ↦ True := by
  have hsearch : ∀ fw handles, (fwSearch acpiHid acpiUid fw handles).Within P fun _ ↦ True := by
    intro fw handles
    induction handles generalizing fw with
    | nil => exact trivial
    | cons handle handles ih =>
      rw [fwSearch, Prog.Within, World.wp_bind]
      refine wp_uefi.mpr ⟨hP _ trivial, fun path ↦ ?_⟩
      obtain ⟨found, hfound⟩ := pathHasAcpiNode_ok path acpiHid acpiUid
      rw [World.wp_bind]
      refine World.wp_liftChecked.mpr ⟨found, hfound, ?_⟩
      split
      · rw [World.wp_bind]
        refine wp_uefi.mpr ⟨hP _ trivial, fun master ↦ ?_⟩
        rw [World.wp_bind]
        refine wp_uefi.mpr ⟨hP _ trivial, fun host ↦ ?_⟩
        dsimp only
        split
        · exact trivial
        · exact ih _
      · exact ih _
  rw [i2cBusFindFirmwareController, Prog.Within, World.wp_bind]
  refine wp_uefi.mpr ⟨hP _ trivial, fun count ↦ ?_⟩
  cases count with
  | none => exact trivial
  | some count => exact hsearch _ _

end TouchI2c
