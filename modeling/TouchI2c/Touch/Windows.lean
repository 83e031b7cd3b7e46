import TouchI2c.Interaction.Recording
import TouchI2c.Touch.Probes
import TouchI2c.Touch.Runs

/-!
# Outside of the controllers

What the driver does outside of the DesignWare functions, and the transports other than DesignWare,
access no register of a controller. So whatever such accesses keep is kept by those parts of the
driver.

## Windows

A controller has a window of 4 KiB, and `IsController` are the bases that the driver may take for
one: those of the table, and a BAR0 that is aligned and is not the window of the MediaTek DMA
engine. The AOAC and GPIO registers lie below the windows of the table, and the private registers of
an LPSS controller behind its own. A BAR0 comes from the hardware and could lie anywhere, so that it
is the window of a controller is a condition on the trace (`UnusableBar`).

## One rule for runs

`MasterRules` says what the functions of the DesignWare master do to a property of the trace, with
one more state of a controller for a recovery that is due. With a rule for detection they give the
rules of a whole run (`MasterRules.driverRules`): behind detection the driver only makes
transfers over the DesignWare transport, or accesses no controller at all.
-/

namespace TouchI2c

open CMemory Interaction

/-! ## Operations -/

/-- Registers behind the first one of the block and before the private ones. -/
structure InBlock (R : UInt64 → Prop) : Prop where
  pos : ∀ off, R off → 0 < off
  lt : ∀ off, R off → off < 0x200

section

variable {R : UInt64 → Prop} {e : UefiOp}

theorem InBlock.window (hR : InBlock R) {off : UInt64} (h : R off) : off < 0x1000 :=
  UInt64.lt_trans (hR.lt off h) (by decide)

theorem NoAccess.elsewhere (h : NoAccess e) : Elsewhere R e := by
  intro base _ hreg
  cases e with
  | mmioRead32 | mmioWrite32 => exact h
  | _ => exact hreg

theorem AoacAccess.elsewhere {dev : UInt8} (h : AoacAccess dev e) : Elsewhere R e := by
  intro base _ hreg
  cases e with
  | mmioRead32 | mmioWrite32 => exact h
  | _ => exact hreg

theorem PciAccess.elsewhere {pciIo : ℕ} (h : PciAccess pciIo e) : Elsewhere R e := by
  intro base _ hreg
  cases e with
  | mmioRead32 | mmioWrite32 => exact h
  | _ => exact hreg

theorem offset_mod {base off : UInt64} (hbase : base % 0x1000 = 0) (hoff : off < 0x1000) :
    (base + off) % 0x1000 = off := by
  rw [UInt64.lt_iff_toNat_lt] at hoff
  rw [← UInt64.toNat_inj] at hbase ⊢
  simp only [UInt64.toNat_mod, UInt64.toNat_add, UInt64.reduceToNat] at hbase hoff ⊢
  omega

/-- The GPIO registers are behind the private ones, or at zero where a profile has none. -/
theorem GpioAccess.elsewhere (hR : InBlock R) {prof : TouchProfile} (hprof : prof ∈ mProfiles)
    (h : GpioAccess prof.resetGpioReg.toUInt64 e) : Elsewhere R e := by
  have hgpio : prof.resetGpioReg.toUInt64 % 0x1000 = 0 ∨
      0x200 ≤ prof.resetGpioReg.toUInt64 % 0x1000 := by
    simp only [mProfiles, List.mem_cons, List.not_mem_nil, or_false] at hprof
    rcases hprof with rfl | rfl | rfl | rfl | rfl | rfl | rfl | rfl | rfl <;> decide
  have hapart : ∀ {base off : UInt64}, base % 0x1000 = 0 → R off →
      prof.resetGpioReg.toUInt64 ≠ base + off := by
    intro base off hbase hoff heq
    rw [heq, offset_mod hbase (hR.window hoff)] at hgpio
    rcases hgpio with rfl | hle
    · exact absurd (hR.pos 0 hoff) (by decide)
    · exact absurd (hR.lt off hoff) (UInt64.not_lt.mpr hle)
  intro base hbase hreg
  cases e with
  | mmioRead32 a | mmioWrite32 a v =>
    obtain ⟨off, hoff, rfl⟩ := hreg
    exact hapart hbase.1 hoff h.symm
  | _ => exact hreg

/-- The 32-bit registers of the MediaTek master are in the window of its DMA engine. -/
theorem MtkAccess.elsewhere (hR : InBlock R) {mtkBase : UInt64}
    (h : MtkAccess mtkBase mtkDmaWindow e) : Elsewhere R e := by
  have hapart : ∀ {base off off' : UInt64}, IsController base → R off → off' < 0x80 →
      base + off ≠ mtkDmaWindow + off' := by
    intro base off off' hbase hoff hoff' heq
    have hlt : off' < 0x1000 := UInt64.lt_trans hoff' (by decide)
    exact hbase.2 (register_inj hbase.1 (by decide) (hR.window hoff) hlt heq).1
  intro base hbase hreg
  cases e with
  | mmioRead32 a | mmioWrite32 a v =>
    obtain ⟨off, hoff, rfl⟩ := hreg
    obtain ⟨off', hoff', heq⟩ := h
    exact hapart hbase hoff hoff' heq
  | _ => exact hreg

theorem elsewhere_of_lpss (hR : InBlock R) {bar : UInt64} (hbar : IsController bar)
    (h : RegAccess bar (· ∈ lpssOffsets) e) : Elsewhere R e := by
  refine elsewhere_of_regAccess hbar.1 (fun _ ↦ hR.window) (fun off hoff ↦ ?_) h
  have hprivate : 0x200 ≤ off ∧ off < 0x1000 := by
    simp only [lpssOffsets, List.mem_cons, List.not_mem_nil, or_false] at hoff
    rcases hoff with rfl | rfl | rfl | rfl <;> decide
  exact ⟨hprivate.2, fun hin ↦ absurd (hR.lt off hin) (UInt64.not_lt.mpr hprivate.1)⟩

end

/-! ## The controllers of the table -/

theorem isController_fixed {prof : TouchProfile} (hprof : prof ∈ mProfiles) :
    IsController prof.i2cBase.toUInt64 := by
  simp only [mProfiles, List.mem_cons, List.not_mem_nil, or_false] at hprof
  rcases hprof with rfl | rfl | rfl | rfl | rfl | rfl | rfl | rfl | rfl <;> decide

theorem isController_sweep {base : UInt32} (hbase : base ∈ mSweepBases) :
    IsController base.toUInt64 := by
  simp only [mSweepBases, List.mem_cons, List.not_mem_nil, or_false] at hbase
  rcases hbase with rfl | rfl | rfl | rfl | rfl <;> decide

/-! ## The other transports -/

/-- A set of operations with all that are no access, and with the accesses of a MediaTek master. -/
structure Outside (F : UefiOp → Prop) : Prop where
  noAccess : ∀ {e}, NoAccess e → F e
  mtk : ∀ {mtkBase e}, MtkAccess mtkBase mtkDmaWindow e → F e

theorem outside_elsewhere {R : UInt64 → Prop} (hR : InBlock R) : Outside (Elsewhere R) :=
  ⟨NoAccess.elsewhere, MtkAccess.elsewhere hR⟩

/-- The selected transport is not DesignWare. -/
structure OffDesignWare (bus : I2cBus) : Prop where
  mKind : bus.mKind ≠ .designWare
  dmaBase : bus.mKind = .mediaTek → bus.mtk.dmaBase = mtkDmaWindow

section

variable {F : UefiOp → Prop} {bus bus' : I2cBus} {base : UInt64}

theorem OffDesignWare.windows (h : OffDesignWare bus) (hbus : SameWindows bus bus') :
    OffDesignWare bus' where
  mKind := hbus.mKind ▸ h.mKind
  dmaBase hk := hbus.dmaBase.trans (h.dmaBase (hbus.mKind ▸ hk))

theorem OffDesignWare.outside (hF : Outside F) (h : OffDesignWare bus)
    {R : UInt64 → Prop} {e : UefiOp} (he : BusAccess bus base R e) : F e := by
  unfold BusAccess at he
  cases hk : bus.mKind with
  | designWare => exact absurd hk h.mKind
  | mediaTek =>
    rw [hk, h.dmaBase hk] at he
    exact hF.mtk he
  | firmware =>
    rw [hk] at he
    exact hF.noAccess he.noAccess

variable {σ : Type} {W : World Uefi σ} {J : σ → Prop} (hF : Outside F) (hJ : W.Keeps F J)

include hF hJ

theorem quietKeeps_of_outside : QuietKeeps W J := fun e s he ↦ hJ e s (hF.noAccess he)

theorem OffDesignWare.pollRules (h : OffDesignWare bus) (slaveAddr : UInt8) :
    PollRules W (fun _ ↦ J) bus base slaveAddr :=
  pollRules_of_access (quietKeeps_of_outside hF hJ).panel (hJ.mono fun _ ↦ h.outside hF) slaveAddr

theorem OffDesignWare.routeRules (h : OffDesignWare bus) : RouteRules W J bus base :=
  (h.pollRules hF hJ 0).toRouteRules

/-- The disable that leaves the transport to the operating system. -/
theorem OffDesignWare.wpS_i2cBusDisable (h : OffDesignWare bus) {s : σ} (hs : J s) :
    W.wpS (i2cBusDisable base) (fun _ _ s' ↦ J s') bus s :=
  World.wpS_mono (hJ.wpS (i2cBusDisable_within (R := fun _ ↦ True)
    (fun _ he ↦ h.outside hF he) fun _ _ ↦ trivial) hs) fun _ _ _ h' ↦ h'.2

end

/-! ## The probe of a MediaTek controller -/

section

variable {F : UefiOp → Prop} {d : TouchDev} (hF : Outside F)

/-- What the probe of a MediaTek controller leaves alone. -/
def TouchDev.known (d : TouchDev) : DmiIdentity × List Bool := (d.dmi, d.resetKicked)

include hF

/-- The read over a transport other than DesignWare. A failure restores the default. -/
private theorem mtkReadDescriptor_outside (h : OffDesignWare d.bus) (descReg : UInt16) :
    (within F).world.wpS (mtkReadDescriptor descReg) (fun status d' _ ↦
      d'.known = d.known ∧
        if status.isError then d'.bus.mKind = .designWare else OffDesignWare d'.bus) d () := by
  rw [mtkReadDescriptor, World.wpS_bind, wpS_readHidDesc]
  refine World.wpS_mono (i2cHidReadDescriptor_within (R := fun _ ↦ True)
    (fun e he ↦ h.outside hF he) (fun _ _ ↦ trivial) descReg d.hidDesc) fun r bus _ h' ↦ ?_
  rw [World.wpS_bind, mtkDeselect]
  split
  · next herr =>
    rw [wpS_onBus, i2cBusSelectDesignWare, World.wpS_modify, World.wpS_pure, if_pos herr]
    exact ⟨rfl, rfl⟩
  · next hok =>
    rw [World.wpS_pure, World.wpS_pure, if_neg hok]
    exact ⟨rfl, h.windows h'.1.windows⟩

/-- **`TouchMtkProbe`** accesses no register of a controller. Unless it finds the panel it leaves
the DesignWare transport selected, and it kicks no reset line. -/
theorem touchMtkProbe_outside (hkind : d.bus.mKind = .designWare) (slaveAddr : UInt8)
    (descReg : UInt16) :
    (within F).world.wpS (touchMtkProbe proArtP16 slaveAddr descReg)
      (fun status d' _ ↦ d'.known = d.known ∧
        if status.isError then d'.bus.mKind = .designWare else OffDesignWare d'.bus) d () := by
  have hsearch : (within F).world.wpS (mtkSearchFirmware proArtP16)
      (fun _ d' _ ↦ d'.known = d.known ∧ d'.bus = d.bus) d () := by
    rw [mtkSearchFirmware, World.wpS_bind, World.wpS_get]
    split
    · exact ⟨rfl, rfl⟩
    · rw [World.wpS_bind, World.wpS_modify, World.wpS_bind, World.wpS_lift]
      exact World.wp_mono (i2cBusFindFirmwareController_within
        (fun _ he ↦ hF.noAccess he.noAccess) _ _) fun _ _ _ ↦ ⟨rfl, rfl⟩
  rw [touchMtkProbe, World.wpS_bind]
  refine World.wpS_mono hsearch fun _ d₁ _ h₁ ↦ ?_
  obtain ⟨hknown₁, hbus₁⟩ := h₁
  rw [World.wpS_bind, World.wpS_get]
  split
  · rw [World.wpS_bind, wpS_onBus, i2cBusSelectFirmware, World.wpS_modify]
    refine World.wpS_mono (mtkReadDescriptor_outside hF ?_ descReg)
      fun status d₂ _ h₂ ↦ ⟨h₂.1.trans hknown₁, h₂.2⟩
    exact ⟨I2cBusKind.noConfusion, I2cBusKind.noConfusion⟩
  · rw [World.wpS_bind, wpS_onBus, wpS_onMtk]
    refine World.wpS_mono (wpS_within_mono (mtkI2cInit_within slaveAddr)
      fun _ he ↦ hF.mtk he) fun status c _ htarget ↦ ?_
    split
    · next herr =>
      rw [World.wpS_pure, if_pos herr]
      exact ⟨hknown₁, (congrArg I2cBus.mKind hbus₁).trans hkind⟩
    · next hok =>
      rw [World.wpS_bind, wpS_onBus, i2cBusSelectMediaTek, World.wpS_modify]
      refine World.wpS_mono (mtkReadDescriptor_outside hF ?_ descReg)
        fun status d₂ _ h₂ ↦ ⟨h₂.1.trans hknown₁, h₂.2⟩
      exact ⟨I2cBusKind.noConfusion, fun _ ↦ (htarget (by simpa using hok)).2.1⟩

end

/-! ## Powering on and logging -/

section

variable {R : UInt64 → Prop} {σ : Type} {W : World Uefi σ} {J : σ → Prop} (hR : InBlock R)
  (hJ : W.Keeps (Elsewhere R) J) {s : σ} (hs : J s)

include hJ hs

theorem wp_fchAoacPowerOnI2c_elsewhere (dev : UInt8) :
    W.wp (fchAoacPowerOnI2c dev) (fun _ s' ↦ J s') s :=
  World.wp_mono (hJ.wp (fchAoacPowerOnI2c_within fun _ ↦ AoacAccess.elsewhere) hs) fun _ _ h ↦ h.2

include hR in
theorem wpS_kickOnce_elsewhere {p : ℕ} {prof : TouchProfile} (hprof : prof ∈ mProfiles)
    (status : EfiStatus) {d : TouchDev} : W.wpS (kickOnce p prof status)
      (fun _ d' s' ↦ d'.dmi = d.dmi ∧ d'.bus = d.bus ∧ J s') d s := by
  refine World.wpS_mono (hJ.wpS (kickOnce_within (fun _ he ↦ GpioAccess.elsewhere hR hprof he) p
    status) hs) fun _ d' s' h ↦ ?_
  obtain ⟨⟨kicked, rfl⟩, hs'⟩ := h
  exact ⟨rfl, rfl, hs'⟩

end

theorem logProfile_elsewhere {R : UInt64 → Prop} (hR : InBlock R) (hcomp : ¬R dwIcCompType)
    {prof : TouchProfile} (hprof : prof ∈ mProfiles) (dmi : DmiIdentity) :
    (logProfile dmi prof).Within (Elsewhere R) fun _ ↦ True := by
  have hread : Elsewhere R (.mmioRead32 (prof.i2cBase.toUInt64 + dwIcCompType)) := by
    refine @elsewhere_of_regAccess _ R (· = dwIcCompType) (isController_fixed hprof).1
      (fun _ ↦ hR.window) ?_ _ ⟨dwIcCompType, rfl, rfl⟩
    rintro off rfl
    exact ⟨by decide, hcomp⟩
  have hstatus : AoacAccess prof.aoacDev (.mmioRead8 (fchAoacDevStatus prof.aoacDev)) := .inl rfl
  unfold logProfile
  split
  · rw [Prog.Within, World.wp_bind]
    refine wp_uefi.mpr ⟨hstatus.elsewhere, fun _ ↦ ?_⟩
    rw [World.wp_bind]
    exact wp_uefi.mpr ⟨hread, fun _ ↦ trivial⟩
  · exact trivial

/-! ## BAR0 -/

/-- A BAR0 that is not one of the bases. -/
def BarOutside (Usable : UInt64 → Prop) (t : List (Event Uefi)) : Prop :=
  ∃ pciIo bar, (lpssBar pciIo).Returns t (some bar) ∧ ¬Usable bar

/-- A BAR0 that is not a window of its own. -/
def UnusableBar (t : List (Event Uefi)) : Prop :=
  ∃ pciIo bar, (lpssBar pciIo).Returns t (some bar) ∧ ¬IsController bar

/-- A trace without reads of BAR0. -/
theorem avoids_unusableBar {t : List (Event Uefi)}
    (h : ∀ ev ∈ t, ∀ pciIo, ev.op ≠ .pciRead32 pciIo pciBaseAddressregOffset) :
    Avoids UnusableBar t := by
  rintro t₁ t₂ t₃ rfl ⟨pciIo, bar, hret, -⟩
  obtain ⟨t₄, t₅, r, rfl, hread, -⟩ := Prog.returns_bind.mp hret
  obtain rfl : t₄ = [⟨.pciRead32 pciIo pciBaseAddressregOffset, r⟩] := Prog.returns_perform.mp hread
  exact h ⟨.pciRead32 pciIo pciBaseAddressregOffset, r⟩ (by simp) pciIo rfl

/-- Whether an operation reads a 32-bit register of a PCI function. -/
def UefiOp.readsPci : UefiOp → Bool
  | .pciRead32 _ _ => true
  | _ => false

theorem avoids_unusableBar_of_all {t : List (Event Uefi)}
    (h : t.all (fun ev ↦ !ev.op.readsPci) = true) : Avoids UnusableBar t := by
  refine avoids_unusableBar fun ev hev pciIo heq ↦ ?_
  have hread := List.all_eq_true.mp h ev hev
  rw [heq] at hread
  contradiction

section

variable {A : List (Event Uefi) → UefiOp → Prop} {C J : List (Event Uefi) → Prop}
  {F : UefiOp → Prop} {Usable : UInt64 → Prop} (hpci : ∀ {pciIo e}, PciAccess pciIo e → F e)
  (hJ : (recording A C).Keeps F J) (hC : ∀ s, J s → C s)
  (hbar : ∀ s, C s → Avoids (BarOutside Usable) s)

include hpci hJ hC hbar

/-- Where no BAR0 is outside of `Usable`, the one that is read is in it. -/
theorem wp_lpssBar_usable {pciIo : ℕ} {s : List (Event Uefi)} (hs : J s) :
    (recording A C).wp (lpssBar pciIo) (fun r s' ↦ J s' ∧ ∀ bar, r = some bar → Usable bar) s := by
  have hwithin : (lpssBar pciIo).Within F fun _ ↦ True := lpssBar_within fun _ ↦ hpci
  refine World.wp_mono (wp_avoidsAfter (B := fun _ ↦ BarOutside Usable) hbar (hJ.wp hwithin hs)
    (hC s hs)) fun r s' h' ↦ ?_
  obtain ⟨⟨-, hs'⟩, t, -, hret, husable⟩ := h'
  refine ⟨hs', fun bar heq ↦ ?_⟩
  subst heq
  by_contra hnot
  exact husable ⟨pciIo, bar, hret, hnot⟩

/-- The preparation of an LPSS controller, where BAR0 is one of the bases. -/
theorem lpssRules_of_keeps (hfind : ∀ {e}, HandleQuery e → F e)
    (hregs : ∀ {bar e}, Usable bar → RegAccess bar (· ∈ lpssOffsets) e → F e) :
    LpssRules (recording A C) Usable J fun _ _ s ↦ J s where
  find e s he hs := hJ e s (hfind he) hs
  pci _ e s he hs := hJ e s (hpci he) hs
  bar hs := wp_lpssBar_usable hpci hJ hC hbar hs
  release hbase hs := World.wp_mono (hJ.wp ((lpssReleaseResets_within (R := (· ∈ lpssOffsets))
    (by decide)).mono fun _ ↦ hregs hbase) hs) fun _ _ h ↦ h.2
  remap hbase hs := World.wp_mono (hJ.wp ((lpssRemap_within fun _ ↦ mem_lpssOffsets_of_remap).mono
    fun _ ↦ hregs hbase) hs) fun _ _ h ↦ h.2

end

theorem lpssRules_of_elsewhere {A : List (Event Uefi) → UefiOp → Prop}
    {C J : List (Event Uefi) → Prop} {R : UInt64 → Prop} (hR : InBlock R)
    (hJ : (recording A C).Keeps (Elsewhere R) J) (hC : ∀ s, J s → C s)
    (hbar : ∀ s, C s → Avoids UnusableBar s) :
    LpssRules (recording A C) IsController J fun _ _ s ↦ J s :=
  lpssRules_of_keeps PciAccess.elsewhere hJ hC hbar (fun h ↦ h.noAccess.elsewhere)
    (elsewhere_of_lpss hR)

/-! ## The driver from its DesignWare functions -/

/-- Where a panel is: behind a controller, of which `On` holds, or behind another transport. -/
inductive Routed {σ : Type} (J : σ → Prop) (On : UInt64 → σ → Prop) (bus : I2cBus)
    (base : UInt64) (s : σ) : Prop
  | designWare (hkind : bus.mKind = .designWare) (hbase : IsController base) (h : On base s)
  | other (h : OffDesignWare bus) (hs : J s)

/-- What a property `J` of the environment, and a property `On` of a controller that has been
initialised, have to satisfy to be kept by whatever the driver does with a panel. `On` may be
weaker while a recovery is due. Both are kept by the operations in `F`, which are those outside of
the controllers. -/
structure MasterRules {σ : Type} (W : World Uefi σ) (F : UefiOp → Prop) (J : σ → Prop)
    (On : Bool → UInt64 → σ → Prop) : Prop where
  outside : Outside F
  log : ∀ {prof}, prof ∈ mProfiles → ∀ dmi, (logProfile dmi prof).Within F fun _ ↦ True
  keeps : W.Keeps F J
  keepsOn : ∀ {due base}, IsController base → W.Keeps F (On due base)
  due : ∀ {base s}, On false base s → On true base s
  xfer : ∀ {base wBuf wLen rBuf rLen s}, IsController base → XferBuffers wBuf wLen rBuf rLen →
    On false base s → W.wp (dwI2cXfer base wBuf wLen rBuf rLen)
      (fun r s' ↦ On false base s' ∧ SameSize rBuf r.2) s
  reinit : ∀ {due base s} (slaveAddr : UInt8), IsController base → On due base s →
    W.wp (dwI2cInit base slaveAddr none)
      (fun status s' ↦ if status.isError then On true base s' else On false base s') s

section

variable {σ : Type} {W : World Uefi σ} {F : UefiOp → Prop} {J : σ → Prop} {bus bus' : I2cBus}
  {base : UInt64} {s : σ}

theorem Routed.windows {On : UInt64 → σ → Prop} (h : Routed J On bus base s)
    (hbus : SameWindows bus bus') : Routed J On bus' base s := by
  cases h with
  | designWare hkind hbase h => exact .designWare (hbus.mKind.trans hkind) hbase h
  | other h hs => exact .other (h.windows hbus) hs

variable {On : Bool → UInt64 → σ → Prop} (rules : MasterRules W F J On)

namespace MasterRules

include rules

theorem quietRouted (due : Bool) : QuietKeeps W (Routed J (On due) bus base) := by
  intro e s he h
  cases h with
  | designWare hkind hbase h =>
    exact World.wp_mono (rules.keepsOn hbase e s (rules.outside.noAccess he) h) fun _ _ h' ↦
      .designWare hkind hbase h'
  | other h hs =>
    exact World.wp_mono (rules.keeps e s (rules.outside.noAccess he) hs) fun _ _ h' ↦ .other h h'

private theorem wpS_xfer (hkind : bus.mKind = .designWare) (hbase : IsController base)
    {wBuf rBuf : Option (List UInt8)} {wLen rLen : ℕ} (hbuf : XferBuffers wBuf wLen rBuf rLen)
    (h : On false base s) : W.wpS (i2cBusXfer base wBuf wLen rBuf rLen)
      (fun r bus' s' ↦ (SameTransport bus bus' ∧ SameSize rBuf r.2) ∧ On false base s') bus s := by
  unfold i2cBusXfer
  rw [World.wpS_bind, World.wpS_get, hkind]
  dsimp only
  rw [World.wpS_lift]
  exact World.wp_mono (rules.xfer hbase hbuf h) fun _ _ h' ↦ ⟨⟨SameTransport.refl _, h'.2⟩, h'.1⟩

theorem routeRules : PanelRules W (Routed J (On false) bus base) bus base where
  quiet := (rules.quietRouted false).panel
  service := (rules.quietRouted false).service
  xfer {bus' _ _ _ _ _} hbus hbuf h := by
    cases h with
    | designWare hkind hbase h =>
      exact World.wpS_mono (rules.wpS_xfer (hbus.mKind.trans hkind) hbase hbuf h)
        fun _ _ _ h' ↦ ⟨h'.1, .designWare hkind hbase h'.2⟩
    | other h hs =>
      exact World.wpS_mono ((h.routeRules rules.outside rules.keeps).xfer hbus hbuf hs)
        fun _ _ _ h' ↦ ⟨h'.1, .other h h'.2⟩

theorem pollRules (slaveAddr : UInt8) :
    PollRules W (fun due ↦ Routed J (On due) bus base) bus base slaveAddr where
  toRouteRules := rules.routeRules.toRouteRules
  due h := by
    cases h with
    | designWare hkind hbase h => exact .designWare hkind hbase (rules.due h)
    | other h hs => exact .other h hs
  reinit {bus' s} hbus h := by
    cases h with
    | designWare hkind hbase h =>
      unfold i2cBusReinit
      rw [World.wpS_bind, World.wpS_get, hbus.mKind.trans hkind]
      dsimp only
      rw [World.wpS_lift]
      refine World.wp_mono (rules.reinit slaveAddr hbase h) fun status s' h' ↦
        ⟨SameWindows.refl _, ?_⟩
      split
      · next herr =>
        rw [if_pos herr] at h'
        exact .designWare hkind hbase h'
      · next hok =>
        rw [if_neg hok] at h'
        exact .designWare hkind hbase h'
    | other h hs =>
      refine World.wpS_mono ((h.pollRules rules.outside rules.keeps slaveAddr).reinit hbus hs)
        fun status bus'' s' h' ↦ ⟨h'.1, ?_⟩
      have hs' : J s' := by
        obtain ⟨-, h'⟩ := h'
        split at h' <;> exact h'
      split <;> exact .other h hs'

/-- The read of a descriptor from a controller that has been initialised. -/
theorem wpS_readHidDesc {d : TouchDev} (hkind : d.bus.mKind = .designWare)
    (hbase : IsController base) (descReg : UInt16) (h : On false base s) :
    W.wpS (readHidDesc base descReg) (fun _ d' s' ↦
      d'.dmi = d.dmi ∧ d'.bus.mKind = .designWare ∧ On false base s') d s := by
  rw [TouchI2c.wpS_readHidDesc]
  refine World.wpS_mono (rules.routeRules.wpS_readDescriptor descReg d.hidDesc
    (.designWare hkind hbase h)) fun r bus s' h' ↦ ?_
  obtain ⟨⟨hroute, -⟩, hrouted⟩ := h'
  have hkind' : bus.mKind = .designWare := hroute.mKind.trans hkind
  cases hrouted with
  | designWare _ _ h => exact ⟨rfl, hkind', h⟩
  | other h _ => exact absurd hkind h.mKind

theorem wpS_touchMtkProbe {d : TouchDev} (hkind : d.bus.mKind = .designWare) (hs : J s)
    (slaveAddr : UInt8) (descReg : UInt16) :
    W.wpS (touchMtkProbe proArtP16 slaveAddr descReg) (fun status d' s' ↦ d'.dmi = d.dmi ∧
      J s' ∧ if status.isError then d'.bus.mKind = .designWare else OffDesignWare d'.bus) d s :=
  World.wpS_mono (rules.keeps.wpS (touchMtkProbe_outside rules.outside hkind slaveAddr descReg) hs)
    fun _ _ _ h ↦ ⟨congrArg Prod.fst h.1.1, h.2, h.1.2⟩

end MasterRules

end

/-- **The rules of a run** from those of detection and of the rest of an attempt. What holds between
two attempts may be weaker than what the rules of the master keep. -/
theorem MasterRules.driverRules {σ : Type} {W : World Uefi σ} {F : UefiOp → Prop}
    {Rest J : σ → Prop} {On : Bool → UInt64 → σ → Prop} {dmi : DmiIdentity}
    (rules : MasterRules W F J On) (keepsRest : W.Keeps F Rest)
    (detect : ∀ {d : TouchDev} {s}, d.dmi = dmi → Rest s → W.wpS touchDetect (fun status d' s' ↦
      d'.dmi = dmi ∧ if status.isError then Rest s' else Routed J (On false) d'.bus d'.i2cBase s')
      d.startAttempt s)
    (setUp : ∀ {d : TouchDev} {s}, Routed J (On false) d.bus d.i2cBase s →
      d.hidDesc.valid = true → d.ready = false → W.wpS touchSetUp (fun status d' s' ↦
        (SetUpPost d status d' ∧ Routed J (On false) d.bus d.i2cBase s') ∧
          (status.isError = true → Rest s')) d s) :
    DriverRules W dmi (fun d s ↦ d.dmi = dmi ∧ Rest s)
      (fun d s ↦ d.dmi = dmi ∧ Routed J (On false) d.bus d.i2cBase s)
      (fun d s ↦ d.dmi = dmi ∧ Routed J (On d.needReinit) d.bus d.i2cBase s) where
  identity h := h.1
  rest {d d' s} h heq := by
    have hdmi : d'.dmi = d.dmi := congrArg (·.1) heq
    exact ⟨hdmi.trans h.1, h.2⟩
  restService d e s he h :=
    World.wp_mono (keepsRest e s (rules.outside.noAccess he.noAccess) h.2) fun _ _ h' ↦ ⟨h.1, h'⟩
  live {d d' s} h heq := by
    have hrest : d'.atRest = d.atRest := congrArg (·.1) heq
    have hdmi : d'.dmi = d.dmi := congrArg (·.1) hrest
    have hbus : d'.bus = d.bus := congrArg (·.2.1) hrest
    have hbase : d'.i2cBase = d.i2cBase := congrArg (·.2.1) heq
    have hdue : d'.needReinit = d.needReinit := congrArg (·.2.2.2.1) heq
    refine ⟨hdmi.trans h.1, ?_⟩
    rw [hbus, hbase, hdue]
    exact h.2
  liveService d e s he h :=
    World.wp_mono (rules.quietRouted _ e s he.noAccess h.2) fun _ _ h' ↦ ⟨h.1, h'⟩
  due {d s} h := by
    refine ⟨h.1, ?_⟩
    have hdue := h.2
    cases hneed : d.needReinit with
    | true => rwa [hneed] at hdue
    | false =>
      rw [hneed] at hdue
      exact (rules.pollRules d.slaveAddr).due hdue
  log {prof} hprof d s h :=
    World.wp_mono (keepsRest.wp (rules.log hprof dmi) h.2) fun _ _ h' ↦ ⟨h.1, h'.2⟩
  detect h := by
    refine World.wpS_mono (detect h.1 h.2) fun status d' s' h' ↦ ?_
    obtain ⟨hdmi, h'⟩ := h'
    split
    · next herr =>
      rw [if_pos herr] at h'
      exact ⟨hdmi, h'⟩
    · next hok =>
      rw [if_neg hok] at h'
      exact ⟨hdmi, h'⟩
  setUp {d s} h hvalid hready := by
    refine World.wpS_mono (setUp h.2 hvalid hready) fun status d' s' h' ↦ ?_
    obtain ⟨⟨hpost, hrouted⟩, hfail⟩ := h'
    have hdmi : d'.dmi = d.dmi := (congrArg TouchDev.dmi hpost.frame :)
    have hbase : d'.i2cBase = d.i2cBase := (congrArg TouchDev.i2cBase hpost.frame :)
    refine ⟨hpost, ?_⟩
    split
    · next herr => exact ⟨hdmi.trans h.1, hfail herr⟩
    · refine ⟨hdmi.trans h.1, ?_⟩
      rw [hbase]
      cases hneed : d'.needReinit with
      | false => exact hrouted.windows hpost.windows
      -- `On` is weakened to what holds of a controller whose reinitialisation is due
      | true => exact (rules.pollRules d.slaveAddr).due hrouted |>.windows hpost.windows
  poll {d s} h := by
    refine ⟨fun due ↦ Routed J (On due) d.bus d.i2cBase, rules.pollRules d.slaveAddr, h.2,
      fun {d' s'} hpost hrouted ↦ ?_⟩
    have hdmi : d'.dmi = d.dmi := (congrArg TouchDev.dmi hpost.frame :)
    have hbase : d'.i2cBase = d.i2cBase := (congrArg TouchDev.i2cBase hpost.frame :)
    refine ⟨hdmi.trans h.1, ?_⟩
    rw [hbase]
    exact hrouted.windows hpost.windows

end TouchI2c
