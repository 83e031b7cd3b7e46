import TouchI2c.Bus.Apdma
import TouchI2c.Touch.Windows

/-!
# DMA never leaves the pages of the driver

The DMA engine of a MediaTek controller is started only over pages that the driver has allocated and
never frees, and only while it is at rest; meanwhile the driver keeps away from the pages. A
transfer that fails, for whatever reason, ends with a reset of the engine, so it is at rest between
any two transfers of a run.

`Guarded` is the invariant between two calls: the engine of the profile is at rest and the buffers
of the instance are pages that were allocated. `Housed` says what the selected transport drives, so
every register access is outside of the channel or one of the functions of `Bus.Apdma`. The
registers of a DesignWare controller and of an AOAC tile lie in other windows than the channel. A
BAR0 comes from the hardware, so it is a condition on the trace that it is the window of a
controller.
-/

namespace TouchI2c

open CMemory Interaction

/-- The window of the MediaTek controller. -/
abbrev mtkWindow : UInt64 := proArtP16.i2cBase.toUInt64

/-! ## Off the channel -/

section

variable {e : UefiOp} {base : UInt64} {R : UInt64 → Prop}

private theorem offChannel_of_regAccess (hbase : IsController base) (hR : ∀ off, R off → off < 0x1000)
    (h : RegAccess base R e) : OffChannel mtkDmaWindow e := by
  cases e with
  | mmioWrite32 a v =>
    obtain ⟨off, hoff, rfl⟩ := h
    intro off' hoff' heq
    have hlt : off' < 0x1000 := UInt64.lt_trans hoff' (by decide)
    exact hbase.2 (register_inj hbase.1 (by decide) (hR off hoff) hlt heq).1
  | storeDma | loadDma => exact h.elim
  | _ => exact trivial

private theorem offChannel_of_dwOffset (hbase : IsController base) (hR : ∀ off, R off → IsDwOffset off)
    (h : RegAccess base R e) : OffChannel mtkDmaWindow e :=
  offChannel_of_regAccess hbase (fun off hoff ↦ UInt64.lt_trans (hR off hoff) (by decide)) h

private theorem offChannel_of_lpss (hbase : IsController base)
    (h : RegAccess base (· ∈ lpssOffsets) e) : OffChannel mtkDmaWindow e := by
  refine offChannel_of_regAccess hbase (fun off hoff ↦ ?_) h
  simp only [lpssOffsets, List.mem_cons, List.not_mem_nil, or_false] at hoff
  rcases hoff with rfl | rfl | rfl | rfl <;> decide

private theorem AoacAccess.offChannel {dev : UInt8} (h : AoacAccess dev e) :
    OffChannel mtkDmaWindow e := by
  cases e <;> first | exact h.elim | exact trivial

private theorem PciAccess.offChannel {pciIo : ℕ} (h : PciAccess pciIo e) :
    OffChannel mtkDmaWindow e := by
  cases e <;> first | exact h.elim | exact trivial

private theorem HandleQuery.offChannel (h : HandleQuery e) : OffChannel mtkDmaWindow e := by
  cases e <;> first | exact h.elim | exact trivial

private theorem FirmwareQuery.offChannel (h : FirmwareQuery e) : OffChannel mtkDmaWindow e := by
  cases e <;> first | exact h.elim | exact trivial

private theorem FwRequest.offChannel {handle : ℕ} (h : FwRequest handle e) :
    OffChannel mtkDmaWindow e := by
  cases e <;> first | exact h.elim | exact trivial

private theorem DriverService.offChannel (h : DriverService e) : OffChannel mtkDmaWindow e := by
  cases e <;> first | exact h.elim | exact trivial

private theorem PanelService.offChannel (h : PanelService e) : OffChannel mtkDmaWindow e := by
  cases e <;> first | exact h.elim | exact trivial

private theorem GpioAccess.offChannel {prof : TouchProfile} (hprof : prof ∈ mProfiles)
    (h : GpioAccess prof.resetGpioReg.toUInt64 e) : OffChannel mtkDmaWindow e := by
  have hgpio : 0x80 ≤ prof.resetGpioReg.toUInt64 - mtkDmaWindow := by
    simp only [mProfiles, List.mem_cons, List.not_mem_nil, or_false] at hprof
    rcases hprof with rfl | rfl | rfl | rfl | rfl | rfl | rfl | rfl | rfl <;> decide
  cases e with
  | mmioWrite32 a v =>
    obtain rfl : a = prof.resetGpioReg.toUInt64 := h
    intro off hoff heq
    rw [heq, add_sub_base] at hgpio
    exact absurd hoff (UInt64.not_lt.mpr hgpio)
  | storeDma | loadDma => exact h.elim
  | _ => exact trivial

end

/-! ## The world -/

/-- The world of the MediaTek machine, where every BAR0 is the window of a controller. -/
private abbrev dmaSafety : World Uefi (List (Event Uefi)) :=
  dmaWorld mtkWindow mtkDmaWindow (Avoids UnusableBar)

/-- Between two calls. -/
private structure Guarded (c : MtkI2c) (s : List (Event Uefi)) : Prop
    extends AtRest mtkWindow mtkDmaWindow c s where
  bars : Avoids UnusableBar s

/-- What the selected transport of a bus drives. -/
private structure Housed (bus : I2cBus) (base : UInt64) : Prop where
  designWare : bus.mKind = .designWare → IsController base
  window : bus.mKind = .mediaTek → bus.mtk.base = mtkWindow
  dmaWindow : bus.mKind = .mediaTek → bus.mtk.dmaBase = mtkDmaWindow

section

variable {c c' : MtkI2c} {s : List (Event Uefi)} {bus bus' : I2cBus} {base : UInt64}
  {d d' : TouchDev} {prof : TouchProfile} {dmi : DmiIdentity} {α : Type}

private theorem Guarded.congr (h : Guarded c s) (hbuf : c'.buffers = c.buffers) : Guarded c' s :=
  ⟨h.toAtRest.congr hbuf, h.bars⟩

private theorem Housed.windows (h : Housed bus base) (hbus : SameWindows bus bus') :
    Housed bus' base where
  designWare hk := h.designWare (hbus.mKind ▸ hk)
  window hk := hbus.base.trans (h.window (hbus.mKind ▸ hk))
  dmaWindow hk := hbus.dmaBase.trans (h.dmaWindow (hbus.mKind ▸ hk))

private theorem keeps_guarded : dmaSafety.Keeps (OffChannel mtkDmaWindow) (Guarded c) := by
  intro e s he h
  refine wp_perform_recording.mpr ⟨he.lawful, fun r hbars ↦ ⟨⟨h.toOwnsBuffers.append _, ?_⟩, hbars⟩⟩
  exact he.rest r h.rest

private theorem wpS_guarded {p : Mtk α} {Q : α → MtkI2c → Prop} {P : UefiOp → Prop}
    (hwithin : (within P).world.wpS p (fun a c' _ ↦ Q a c') c ())
    (h : dmaSafety.wpS p (fun _ c' s' ↦ AtRest mtkWindow mtkDmaWindow c' s') c s)
    (hs : Avoids UnusableBar s) :
    dmaSafety.wpS p (fun a c' s' ↦ Q a c' ∧ Guarded c' s') c s := by
  refine World.wpS_mono (World.wpS_and_within (wpS_trace h hs) hwithin) fun a c' s' h' ↦ ?_
  obtain ⟨⟨hrest, hbars, -⟩, hQ⟩ := h'
  exact ⟨hQ, hrest, hbars⟩

/-! ## The selected transport -/

private theorem wpS_i2cBusXfer_guarded (hhoused : Housed bus base) {wBuf rBuf : Option (List UInt8)}
    {wLen rLen : ℕ} (hbuf : XferBuffers wBuf wLen rBuf rLen) (h : Guarded bus.mtk s) :
    dmaSafety.wpS (i2cBusXfer base wBuf wLen rBuf rLen) (fun r bus' s' ↦
      (SameTransport bus bus' ∧ SameSize rBuf r.2) ∧ Guarded bus'.mtk s') bus s := by
  have hsame := SameTransport.refl bus
  unfold i2cBusXfer
  rw [World.wpS_bind, World.wpS_get]
  cases hkind : bus.mKind with
  | mediaTek =>
    dsimp only
    split
    · rw [wpS_onMtk]
      have hbase := hhoused.window hkind
      have hdma := hhoused.dmaWindow hkind
      refine World.wpS_mono (wpS_guarded (mtkI2cXfer_within rfl rfl hbuf)
        (wpS_mtkI2cXfer_atRest hbase hdma hbuf h.toAtRest) h.bars) fun r c s' h' ↦ ?_
      obtain ⟨⟨hinst, hsize⟩, h'⟩ := h'
      exact ⟨⟨⟨⟨hkind.symm ▸ rfl, rfl, rfl, hinst.toSameTarget⟩, hinst.buffers⟩, hsize⟩, h'⟩
    · exact ⟨⟨hsame, rfl⟩, h⟩
  | firmware =>
    dsimp only
    rw [World.wpS_lift]
    exact World.wp_mono (keeps_guarded.wp (fwXfer_within (fun _ ↦ FwRequest.offChannel) hbuf) h)
      fun _ _ h' ↦ ⟨⟨hsame, h'.1⟩, h'.2⟩
  | designWare =>
    dsimp only
    rw [World.wpS_lift]
    refine World.wp_mono (keeps_guarded.wp ((dwI2cXfer_within (R := IsDwOffset)
      (fun _ ↦ isDwOffset_of_mem_xfer) hbuf).mono fun _ ↦
        offChannel_of_dwOffset (hhoused.designWare hkind) fun _ h ↦ h) h) fun _ _ h' ↦ ?_
    exact ⟨⟨hsame, h'.1⟩, h'.2⟩

private theorem wpS_i2cBusReinit_guarded (hhoused : Housed bus base) (slaveAddr : UInt8)
    (h : Guarded bus.mtk s) : dmaSafety.wpS (i2cBusReinit base slaveAddr)
      (fun _ bus' s' ↦ SameWindows bus bus' ∧ Guarded bus'.mtk s') bus s := by
  have hsame := SameWindows.refl bus
  unfold i2cBusReinit
  rw [World.wpS_bind, World.wpS_get]
  cases hkind : bus.mKind with
  | mediaTek =>
    dsimp only
    split
    · rw [wpS_onMtk, World.wpS_bind, World.wpS_modify]
      have hdma := hhoused.dmaWindow hkind
      have h : Guarded { bus.mtk with slaveAddr := slaveAddr } s := h.congr rfl
      refine World.wpS_mono (wpS_guarded (mtkI2cReinit_within rfl rfl)
        (wpS_mtkI2cReinit_atRest hdma h.toAtRest) h.bars) fun r c s' h' ↦ ?_
      exact ⟨⟨hkind.symm ▸ rfl, rfl, h'.1.base, h'.1.dmaBase, h'.1.buffers, rfl⟩, h'.2⟩
    · exact ⟨hsame, h⟩
  | firmware =>
    dsimp only
    rw [World.wpS_bind, World.wpS_set]
    exact ⟨⟨hkind.symm, rfl, rfl, rfl, rfl, rfl⟩, h⟩
  | designWare =>
    dsimp only
    rw [World.wpS_lift]
    exact World.wp_mono (keeps_guarded.wp ((dwI2cInit_within (R := IsDwOffset) (fun _ h ↦ h) slaveAddr
      none).mono fun _ ↦ offChannel_of_dwOffset (hhoused.designWare hkind) fun _ h ↦ h) h)
      fun _ _ h' ↦ ⟨hsame, h'.2⟩

private theorem wpS_i2cBusDisable_guarded (hhoused : Housed bus base) (h : Guarded bus.mtk s) :
    dmaSafety.wpS (i2cBusDisable base) (fun _ _ _ ↦ True) bus s := by
  unfold i2cBusDisable
  rw [World.wpS_bind, World.wpS_get]
  cases hkind : bus.mKind with
  | mediaTek =>
    dsimp only
    split
    · rw [wpS_onMtk]
      exact World.wpS_mono (wpS_mtkI2cDisable_atRest (hhoused.dmaWindow hkind) h.toAtRest)
        fun _ _ _ _ ↦ trivial
    · exact trivial
  | firmware => exact trivial
  | designWare =>
    dsimp only
    rw [World.wpS_bind, World.wpS_lift]
    exact World.wp_mono (keeps_guarded.wp ((dwI2cDisable_within (R := IsDwOffset)
      fun _ ↦ isDwOffset_of_mem_disable).mono fun _ ↦
        offChannel_of_dwOffset (hhoused.designWare hkind) fun _ h ↦ h) h) fun _ _ _ ↦ trivial

private theorem panelRules_guarded (hhoused : Housed bus base) :
    PanelRules dmaSafety (Guarded bus.mtk) bus base where
  quiet := keeps_guarded.mono fun _ ↦ PanelService.offChannel
  service := keeps_guarded.mono fun _ ↦ DriverService.offChannel
  xfer {bus' _ _ _ _ _} hbus hbuf h := by
    refine World.wpS_mono (wpS_i2cBusXfer_guarded (hhoused.windows hbus) hbuf
      (h.congr hbus.buffers)) fun r bus'' s' h' ↦ ⟨h'.1, h'.2.congr ?_⟩
    exact (h'.1.1.buffers.trans hbus.buffers).symm

private theorem pollRules_guarded (hhoused : Housed bus base) (slaveAddr : UInt8) :
    PollRules dmaSafety (fun _ ↦ Guarded bus.mtk) bus base slaveAddr where
  toRouteRules := (panelRules_guarded hhoused).toRouteRules
  due h := h
  reinit {bus' s} hbus h := by
    refine World.wpS_mono (wpS_i2cBusReinit_guarded (hhoused.windows hbus) slaveAddr
      (h.congr hbus.buffers)) fun status bus'' s' h' ↦ ⟨h'.1, ?_⟩
    have hguarded : Guarded bus.mtk s' := h'.2.congr (h'.1.buffers.trans hbus.buffers).symm
    split <;> exact hguarded

private theorem lpssRules_guarded : LpssRules dmaSafety IsController (Guarded c)
    fun _ _ ↦ Guarded c :=
  lpssRules_of_keeps PciAccess.offChannel keeps_guarded (fun _ h ↦ h.bars) (fun _ h ↦ h)
    HandleQuery.offChannel offChannel_of_lpss

/-! ## Detection -/

/-- Between the passes of detection the DesignWare transport is selected. -/
private structure Scanning (dmi : DmiIdentity) (d : TouchDev) (s : List (Event Uefi)) : Prop where
  identity : d.dmi = dmi
  mKind : d.bus.mKind = .designWare
  guarded : Guarded d.bus.mtk s

/-- A panel that has been found. -/
private structure Driven (dmi : DmiIdentity) (d : TouchDev) (s : List (Event Uefi)) : Prop where
  identity : d.dmi = dmi
  housed : Housed d.bus d.i2cBase
  guarded : Guarded d.bus.mtk s

private theorem Scanning.keeps {p : Prog Uefi α} {Q : α → Prop} (h : Scanning dmi d s)
    (hp : p.Within (OffChannel mtkDmaWindow) Q) :
    dmaSafety.wp p (fun a s' ↦ Q a ∧ Scanning dmi d s') s :=
  World.wp_mono (keeps_guarded.wp hp h.guarded) fun _ _ h' ↦ ⟨h'.1, h.identity, h.mKind, h'.2⟩

private theorem Scanning.keepsRegs {p : Prog Uefi α} {Q : α → Prop} {R : UInt64 → Prop}
    (h : Scanning dmi d s) (hbase : IsController base) (hR : ∀ off, R off → IsDwOffset off)
    (hp : p.Within (RegAccess base R) Q) :
    dmaSafety.wp p (fun a s' ↦ Q a ∧ Scanning dmi d s') s :=
  h.keeps (hp.mono fun _ ↦ offChannel_of_dwOffset hbase hR)

private theorem Housed.ofController (hbase : IsController base) (hkind : bus.mKind = .designWare) :
    Housed bus base where
  designWare _ := hbase
  window hk := absurd (hk.symm.trans hkind) (by decide)
  dmaWindow hk := absurd (hk.symm.trans hkind) (by decide)

private theorem wpS_readHidDesc_guarded (hhoused : Housed d.bus base) (descReg : UInt16)
    (h : Guarded d.bus.mtk s) : dmaSafety.wpS (readHidDesc base descReg) (fun _ d' s' ↦
      d'.dmi = d.dmi ∧ SameWindows d.bus d'.bus ∧ Guarded d'.bus.mtk s') d s := by
  rw [wpS_readHidDesc]
  refine World.wpS_mono ((panelRules_guarded hhoused).wpS_readDescriptor descReg d.hidDesc h)
    fun r bus s' h' ↦ ?_
  obtain ⟨⟨hroute, -⟩, hguarded⟩ := h'
  exact ⟨rfl, hroute.windows, hguarded.congr hroute.buffers⟩

private theorem controllerRules_guarded (dmi : DmiIdentity) (prof : TouchProfile)
    (hbase : IsController base) (timing : Option DwI2cTiming) :
    ControllerRules dmaSafety prof base timing (Scanning dmi) (Scanning dmi) (Scanning dmi)
      (Scanning dmi) (Driven dmi) fun _ ↦ Scanning dmi where
  present {d s} h := by
    refine World.wp_mono (h.keepsRegs hbase (fun _ h ↦ h)
      (dwI2cControllerPresent_within (by decide))) fun ok s' h' ↦ ?_
    split <;> exact h'.2
  init {d s} a h := by
    refine World.wp_mono (h.keepsRegs hbase (fun _ h ↦ h) (dwI2cInit_within (fun _ h ↦ h) a timing))
      fun status s' h' ↦ ?_
    split <;> exact h'.2
  read {d s a} descReg h := by
    have hhoused := Housed.ofController hbase h.mKind
    refine World.wpS_mono (wpS_readHidDesc_guarded hhoused descReg h.guarded)
      fun status d' s' h' ↦ ?_
    obtain ⟨hdmi, hwindows, hguarded⟩ := h'
    split
    · exact ⟨hdmi.trans h.identity, hwindows.mKind.trans h.mKind, hguarded⟩
    · exact ⟨hdmi.trans h.identity, hhoused.windows hwindows, hguarded⟩
  again h := h
  leave h := h

private theorem wpS_mtkReadDescriptor_guarded (hdmi : d.dmi = dmi) (hother : d.bus.mKind ≠ .designWare)
    (hhoused : Housed d.bus 0) (h : Guarded d.bus.mtk s) (descReg : UInt16) :
    dmaSafety.wpS (mtkReadDescriptor descReg) (fun status d' s' ↦
      if status.isError then Scanning dmi d' s'
      else ∀ i2cBase slaveAddr, Driven dmi (TouchDev.found prof i2cBase slaveAddr d') s') d s := by
  rw [mtkReadDescriptor, World.wpS_bind]
  refine World.wpS_mono (wpS_readHidDesc_guarded hhoused descReg h) fun status d' s' h' ↦ ?_
  obtain ⟨hdmi', hwindows, hguarded⟩ := h'
  rw [World.wpS_bind, mtkDeselect]
  split
  · next herr =>
    rw [wpS_onBus, i2cBusSelectDesignWare, World.wpS_modify, World.wpS_pure, if_pos herr]
    exact ⟨hdmi'.trans hdmi, rfl, hguarded⟩
  · next hok =>
    rw [World.wpS_pure, World.wpS_pure, if_neg hok]
    have hhoused' := hhoused.windows hwindows
    refine fun _ _ ↦ ⟨hdmi'.trans hdmi, ⟨fun hk ↦ ?_, hhoused'.window, hhoused'.dmaWindow⟩, hguarded⟩
    exact absurd (hwindows.mKind.symm.trans hk) hother

/-- **`TouchMtkProbe`.** -/
private theorem wpS_touchMtkProbe_guarded (h : Scanning dmi d s) (slaveAddr : UInt8)
    (descReg : UInt16) : dmaSafety.wpS (touchMtkProbe proArtP16 slaveAddr descReg)
      (fun status d' s' ↦ if status.isError then Scanning dmi d' s' else ∀ i2cBase slaveAddr,
        Driven dmi (TouchDev.found proArtP16 i2cBase slaveAddr d') s') d s := by
  have hsearch : dmaSafety.wpS (mtkSearchFirmware proArtP16)
      (fun _ d' s' ↦ Scanning dmi d' s') d s := by
    rw [mtkSearchFirmware, World.wpS_bind, World.wpS_get]
    split
    · exact h
    · rw [World.wpS_bind, World.wpS_modify, World.wpS_bind, World.wpS_lift]
      refine World.wp_mono (h.keeps (i2cBusFindFirmwareController_within
        (fun _ ↦ FirmwareQuery.offChannel) _ _)) fun _ _ h' ↦ ?_
      exact ⟨h.identity, h.mKind, h'.2.guarded⟩
  rw [touchMtkProbe, World.wpS_bind]
  refine World.wpS_mono hsearch fun _ d₁ s₁ h₁ ↦ ?_
  rw [World.wpS_bind, World.wpS_get]
  split
  · rw [World.wpS_bind, wpS_onBus, i2cBusSelectFirmware, World.wpS_modify]
    refine wpS_mtkReadDescriptor_guarded ?_ I2cBusKind.noConfusion
      ⟨I2cBusKind.noConfusion, I2cBusKind.noConfusion, I2cBusKind.noConfusion⟩ ?_ descReg
    · exact h₁.identity
    · exact h₁.guarded
  · rw [World.wpS_bind, wpS_onBus, wpS_onMtk]
    refine World.wpS_mono (wpS_guarded (mtkI2cInit_within slaveAddr)
      (wpS_mtkI2cInit_atRest slaveAddr h₁.guarded.toAtRest) h₁.guarded.bars) fun status c s₂ h₂ ↦ ?_
    obtain ⟨htarget, hguarded⟩ := h₂
    split
    · next herr =>
      rw [World.wpS_pure, if_pos herr]
      exact ⟨h₁.identity, h₁.mKind, hguarded⟩
    · next hok =>
      obtain ⟨hbase, hdma, -⟩ := htarget (by simpa using hok)
      rw [World.wpS_bind, wpS_onBus, i2cBusSelectMediaTek, World.wpS_modify]
      refine wpS_mtkReadDescriptor_guarded ?_ I2cBusKind.noConfusion
        ⟨I2cBusKind.noConfusion, fun _ ↦ hbase, fun _ ↦ hdma⟩ hguarded descReg
      exact h₁.identity

private theorem probeRules_guarded (dmi : DmiIdentity) :
    ProbeRules dmaSafety dmi IsController (Scanning dmi) (Driven dmi)
      fun _ _ ↦ Scanning dmi where
  identity h := h.identity
  fixed hprof _ _ := isController_fixed hprof
  sweep hbase := isController_sweep hbase
  controller _ _ _ _ hbase timing := controllerRules_guarded dmi _ hbase timing
  disable hbase h := World.wp_mono (h.keepsRegs hbase (fun _ ↦ isDwOffset_of_mem_disable)
    (dwI2cDisable_within fun _ h ↦ h)) fun _ _ h' ↦ h'.2
  giveUp h := h
  power dev h := World.wp_mono (h.keeps (fchAoacPowerOnI2c_within fun _ ↦ AoacAccess.offChannel))
    fun _ _ h' ↦ h'.2
  lpss {prof} _ _ _ d s h := by
    refine World.wp_mono (lpssRules_guarded.wp_intelLpssPrepareI2c prof.pciDid prof.pciDev
      prof.pciFunc h.guarded) fun r s' h' ↦ ?_
    split at h'
    · next herr =>
      exact ⟨⟨h.identity, h.mKind, h'⟩, fun hok ↦ absurd herr (by rw [hok]; decide)⟩
    · exact ⟨⟨h.identity, h.mKind, h'.2⟩, fun _ ↦ h'.1⟩
  mtk {prof} hprof _ hplatform d s slaveAddr descReg h := by
    obtain rfl := eq_proArtP16 hprof hplatform
    refine World.wpS_mono (wpS_touchMtkProbe_guarded h slaveAddr descReg) fun status d' s' h' ↦ ?_
    split
    · next herr => rwa [if_pos herr] at h'
    · next hok =>
      rw [if_neg hok] at h'
      exact h' _ _
  kick {p prof} hp _ d s status h := by
    have hprof : prof ∈ mProfiles := List.mem_of_getElem? hp
    refine World.wpS_mono (keeps_guarded.wpS (kickOnce_within (fun _ ↦ GpioAccess.offChannel hprof)
      p status) h.guarded) fun _ d' s' h' ↦ ?_
    obtain ⟨⟨kicked, rfl⟩, hguarded⟩ := h'
    exact ⟨h.identity, h.mKind, hguarded⟩

/-! ## Runs -/

private theorem driverRules_guarded (dmi : DmiIdentity) :
    DriverRules dmaSafety dmi (fun d s ↦ d.dmi = dmi ∧ Guarded d.bus.mtk s) (Driven dmi)
      (Driven dmi) where
  identity h := h.1
  rest {d d' s} h heq := by
    have hbus : d'.bus = d.bus := congrArg (·.2.1) heq
    exact ⟨(congrArg (·.1) heq).trans h.1, hbus ▸ h.2⟩
  restService d e s he h := World.wp_mono (keeps_guarded e s he.offChannel h.2)
    fun _ _ h' ↦ ⟨h.1, h'⟩
  live {d d' s} h heq := by
    have hrest : d'.atRest = d.atRest := congrArg (·.1) heq
    have hbus : d'.bus = d.bus := congrArg (·.2.1) hrest
    have hbase : d'.i2cBase = d.i2cBase := congrArg (·.2.1) heq
    refine ⟨(congrArg (·.1) hrest).trans h.identity, ?_, hbus ▸ h.guarded⟩
    rw [hbus, hbase]
    exact h.housed
  liveService d e s he h := World.wp_mono (keeps_guarded e s he.offChannel h.guarded)
    fun _ _ h' ↦ ⟨h.identity, h.housed, h'⟩
  due h := ⟨h.identity, h.housed, h.guarded⟩
  log {prof} hprof d s h := by
    -- the log reads registers of the AOAC and of a controller, none of the channel
    have hlog : (logProfile dmi prof).Within (OffChannel mtkDmaWindow) fun _ ↦ True := by
      unfold logProfile
      split
      · rw [Prog.Within, World.wp_bind]
        refine wp_uefi.mpr ⟨trivial, fun _ ↦ ?_⟩
        rw [World.wp_bind]
        exact wp_uefi.mpr ⟨trivial, fun _ ↦ trivial⟩
      · exact trivial
    exact World.wp_mono (keeps_guarded.wp hlog h.2) fun _ _ h' ↦ ⟨h.1, h'.2⟩
  detect {d s} h := by
    have hstart : Scanning dmi
        { d.startAttempt with bus := { d.startAttempt.bus with mKind := .designWare } } s :=
      ⟨h.1, rfl, h.2⟩
    refine World.wpS_mono ((probeRules_guarded dmi).detectRules.wpS_touchDetect hstart)
      fun _ _ _ h' ↦ ?_
    split
    · next herr =>
      rw [if_pos herr] at h'
      exact ⟨h'.identity, h'.guarded⟩
    · next hok => rwa [if_neg hok] at h'
  setUp {d s} h hvalid hready := by
    refine World.wpS_mono (wpS_touchSetUp (panelRules_guarded h.housed) hvalid hready h.guarded)
      fun status d' s' h' ↦ ?_
    obtain ⟨hpost, hguarded⟩ := h'
    have hdmi : d'.dmi = dmi := (congrArg TouchDev.dmi hpost.frame :).trans h.identity
    have hbase : d'.i2cBase = d.i2cBase := (congrArg TouchDev.i2cBase hpost.frame :)
    have hguarded' := hguarded.congr hpost.windows.buffers
    refine ⟨hpost, ?_⟩
    split
    · exact ⟨hdmi, hguarded'⟩
    · refine ⟨hdmi, ?_, hguarded'⟩
      rw [hbase]
      exact h.housed.windows hpost.windows
  poll {d s} h := by
    refine ⟨_, pollRules_guarded h.housed d.slaveAddr, h.guarded, fun {d' s'} hpost hguarded ↦ ?_⟩
    have hdmi : d'.dmi = dmi := (congrArg TouchDev.dmi hpost.frame :).trans h.identity
    have hbase : d'.i2cBase = d.i2cBase := (congrArg TouchDev.i2cBase hpost.frame :)
    refine ⟨hdmi, ?_, hguarded.congr hpost.windows.buffers⟩
    rw [hbase]
    exact h.housed.windows hpost.windows

/-- What `TouchExitBootServices` does to a driver. -/
private theorem wpS_exit_guarded (hhoused : d.ready = true → Housed d.bus d.i2cBase) {c : MtkI2c}
    (hc : d.ready = true → d.bus.mtk = c) (h : Guarded c s) :
    dmaSafety.wpS touchExitBootServices (fun _ _ _ ↦ True) d s := by
  refine wpS_touchExitBootServices (keeps_guarded.mono fun _ ↦ DriverService.offChannel) h
    (fun hready s' h' ↦ ?_) fun _ _ _ ↦ trivial
  have hguarded : Guarded d.bus.mtk s' := hc hready ▸ h'
  exact World.wpS_mono (wpS_i2cBusDisable_guarded (hhoused hready) hguarded) fun _ _ _ _ ↦ trivial

end

/-- **DMA never leaves the pages of the driver**, where every BAR0 is the window of a controller:
whatever is performed in a run up to and including `TouchExitBootServices`, the engine is started
only at rest and over allocated pages, and DMA memory is accessed only in such a page and at rest. -/
theorem dmaLawful_of_performs {entries : List ConfigurationEntry} {t : List (Event Uefi)}
    {e : UefiOp} (h : PerformsUntilExit (touchI2cDxeEntry entries) t e)
    (hbar : Avoids UnusableBar t) : DmaLawful mtkWindow mtkDmaWindow t e := by
  obtain ⟨dmi, hread, -⟩ := touchReadDmiIdentity_ok entries
  have hfresh : Guarded {} [] :=
    ⟨⟨⟨fun hne ↦ absurd rfl hne, fun hne ↦ absurd rfl hne⟩, rfl⟩, prefixClosed_avoids [] t hbar⟩
  refine allowed_of_performsUntilExit hread (driverRules_guarded dmi) ⟨rfl, hfresh⟩
    (fun {d s} hready h ↦ wpS_exit_guarded (fun _ ↦ h.housed) (fun _ ↦ rfl) h.guarded)
    (fun {d d' s} hready h ↦ wpS_exit_guarded (fun hready' ↦ ?_) (fun hready' ↦ ?_) h.2) h
    (path_recording prefixClosed_avoids hbar) rfl
  · exact absurd hready' (by rw [hready]; decide)
  · exact absurd hready' (by rw [hready]; decide)

/-- A machine whose firmware has no I2C controller, and that has memory. -/
def apdmaMachine (_ : Unit) (e : UefiOp) : e.Ret × Unit :=
  match e with
  | .allocatePages => ((.success, 0x7F000000), ())
  | e => (e.zeros, ())

/-- A Type 2 structure with the board of the MediaTek profile. -/
def proArtTable : List UInt8 := [2, 6, 0, 0, 0, 1] ++ asciiBytes "H7607BA" ++ [0, 0]

/-- The driver on that machine. -/
def proArtEntry : Touch Unit := touchI2cDxeEntry [.smbios3 proArtTable]

theorem dmaLawful_of_performs_proArt : ∃ t v,
    PerformsUntilExit proArtEntry t (.mmioWrite32 (mtkDmaWindow + mtkDmaEn) v) ∧
      DmaLawful mtkWindow mtkDmaWindow t (.mmioWrite32 (mtkDmaWindow + mtkDmaEn) v) := by
  -- the engine is started after 59 operations
  have hstart : (((proArtEntry.run {}).simulate apdmaMachine ()).1[59]?).any
      (fun ev ↦ ev.op.writesTo (mtkDmaWindow + mtkDmaEn)) = true := by decide +kernel
  have hpci : (((proArtEntry.run {}).simulate apdmaMachine ()).1.take 59).all
      (fun ev ↦ !ev.op.readsPci) = true := by decide +kernel
  have hperforms : ∀ ev, ((proArtEntry.run {}).simulate apdmaMachine ()).1[59]? = some ev →
      Performs proArtEntry (((proArtEntry.run {}).simulate apdmaMachine ()).1.take 59) ev.op := by
    intro ev hev
    obtain ⟨k, hreach⟩ := Prog.performs_simulate hev
    exact .entry hreach
  generalize ((proArtEntry.run {}).simulate apdmaMachine ()).1 = trace at hstart hpci hperforms
  obtain ⟨⟨e, r⟩, hev, hwrites⟩ := (Option.any_eq_true _ _).mp hstart
  cases e with
  | mmioWrite32 a v =>
    obtain rfl : a = mtkDmaWindow + mtkDmaEn := beq_iff_eq.mp hwrites
    have hruns := PerformsUntilExit.before (hperforms _ hev)
    exact ⟨_, v, hruns, dmaLawful_of_performs hruns (avoids_unusableBar_of_all hpci)⟩
  | _ => contradiction

end TouchI2c
