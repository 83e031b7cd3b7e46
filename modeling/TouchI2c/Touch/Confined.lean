import TouchI2c.Touch.Kick

/-!
# Hardware access is confined by identity

Whatever the environment answers, the driver accesses nothing but the resources of a profile that
matches the identity of the machine, besides the services that concern no device (its events,
buffers, protocol and TPL) and the display.

## Resources with a history

For an AMD profile the resources are constants of the table: tiles, controllers and a reset line.
For the other platforms they are found out on the way, so what a profile entitles to depends on the
trace so far:

- Intel: the function at the location of the profile may be asked for its IDs; once they are
  confirmed, its configuration space may be accessed; and once BAR0 has been read, the registers
  behind it. All three are lost when the PCI functions are located anew.
- MediaTek: the firmware may be searched for a controller. If the last search has found one
  (`Served`), requests may go to that handle and to no other; if it has found none (`Unserved`), the
  windows of the profile, its DMA pages and the memory map may be accessed.

`ResourceOf` lists these cases, each with its evidence.

## The invariant

What is known stays known until something is located anew (`Steady`, `Since.concat`). So between two
operations the driver keeps what its own variables say: the last search of this attempt
(`SearchKnown`), the controllers of the profile that are swept (`OnBlocks`), and, once a panel is
found, that its transport is a resource of a profile that matches (`Entitled`).

None of this is carried from one attempt to the next, so what an attempt performs is permitted by
its own trace as well: a search or a confirmation of an earlier attempt entitles it to nothing. With
the law of the reset lines (`FirstKickOf`) this is the whole of the confinement.
-/

namespace TouchI2c

open CMemory Interaction

/-! ## Resources -/

/-- The handles of the PCI functions are located anew. -/
def Relocates (ev : Event Uefi) : Prop := ev.op = .locatePciIo

/-- The firmware's controllers are located anew. -/
def Searches (ev : Event Uefi) : Prop := ev.op = .locateI2cMasters

/-- The handle is that of the function at the location of the profile. -/
def AtLocation (prof : TouchProfile) (pciIo : ℕ) : List (Event Uefi) → Prop :=
  Since (fun _ t ↦
    t = [⟨.pciLocation pciIo, some (0, 0, prof.pciDev.toNat, prof.pciFunc.toNat)⟩]) Relocates

/-- The function at the location of the profile has the IDs of the profile. -/
def Confirmed (prof : TouchProfile) (pciIo : ℕ) : List (Event Uefi) → Prop :=
  Since (fun s t ↦ AtLocation prof pciIo s ∧ ∃ ids, lpssIdsMatch prof.pciDid ids = true ∧
    t = [⟨.pciRead32 pciIo pciVendorIdOffset, some ids⟩]) Relocates

/-- BAR0 has been read from a function with the IDs of the profile. -/
def Mapped (prof : TouchProfile) (bar : UInt64) : List (Event Uefi) → Prop :=
  Since (fun s t ↦ ∃ pciIo, Confirmed prof pciIo s ∧ (lpssBar pciIo).Returns t (some bar)) Relocates

/-- The last search has found no controller of the firmware. -/
def Unserved (prof : TouchProfile) : List (Event Uefi) → Prop :=
  Since (fun _ t ↦ ∃ status fw, status.isError = true ∧
    (i2cBusFindFirmwareController prof.acpiHid prof.acpiUid).Returns t (status, fw)) Searches

/-- The last search has found the firmware's controller behind the handle. -/
def Served (prof : TouchProfile) (handle : ℕ) : List (Event Uefi) → Prop :=
  Since (fun _ t ↦ ∃ status fw, status.isError = false ∧ fw.handle = handle ∧
    (i2cBusFindFirmwareController prof.acpiHid prof.acpiUid).Returns t (status, fw)) Searches

/-- The tiles of a profile: its own, or all four if it has no fixed controller. -/
inductive Tile (prof : TouchProfile) : UInt8 → Prop
  | fixed (hplatform : prof.platform = .amdFch) (hbase : prof.i2cBase ≠ 0) : Tile prof prof.aoacDev
  | sweep (hplatform : prof.platform = .amdFch) (hbase : prof.i2cBase = 0) {dev : UInt8}
      (hdev : dev ∈ sweepTiles) : Tile prof dev

/-- The DesignWare controllers of a profile. -/
inductive Block (prof : TouchProfile) (t : List (Event Uefi)) : UInt64 → Prop
  | fixed (hplatform : prof.platform = .amdFch) (hbase : prof.i2cBase ≠ 0) :
      Block prof t prof.i2cBase.toUInt64
  | sweep (hplatform : prof.platform = .amdFch) (hbase : prof.i2cBase = 0) {base : UInt32}
      (hmem : base ∈ mSweepBases) : Block prof t base.toUInt64
  | mapped (hplatform : prof.platform = .intelLpss) {bar : UInt64} (h : Mapped prof bar t) :
      Block prof t bar

/-- Behind the trace `t` the operation accesses a resource of the profile. -/
inductive ResourceOf (prof : TouchProfile) (t : List (Event Uefi)) (e : UefiOp) : Prop
  | tile {dev : UInt8} (h : Tile prof dev) (he : AoacAccess dev e)
  | block {base : UInt64} (h : Block prof t base) (he : RegAccess base IsDwOffset e)
  | reset (h : prof.resetGpioReg ≠ 0) (he : GpioAccess prof.resetGpioReg.toUInt64 e)
  | handles (hplatform : prof.platform = .intelLpss) (he : HandleQuery e)
  | ids (hplatform : prof.platform = .intelLpss) {pciIo : ℕ} (h : AtLocation prof pciIo t)
      (he : e = .pciRead32 pciIo pciVendorIdOffset)
  | config (hplatform : prof.platform = .intelLpss) {pciIo : ℕ} (h : Confirmed prof pciIo t)
      (he : PciAccess pciIo e)
  | bar (hplatform : prof.platform = .intelLpss) {bar : UInt64} (h : Mapped prof bar t)
      (he : RegAccess bar (· ∈ lpssOffsets) e)
  | search (hplatform : prof.platform = .mtkI2c) (he : FirmwareQuery e)
  | request (hplatform : prof.platform = .mtkI2c) {handle : ℕ} (h : Served prof handle t)
      (he : FwRequest handle e)
  | windows (hplatform : prof.platform = .mtkI2c) (h : Unserved prof t)
      (he : MtkAccess prof.i2cBase.toUInt64 prof.dmaBase.toUInt64 e)

/-- Behind the trace `t` the operation has to do with no device but the display, or with a resource
of a profile that matches the identity. -/
def Permitted (dmi : DmiIdentity) (t : List (Event Uefi)) (e : UefiOp) : Prop :=
  (PanelService e ∨ DriverService e) ∨
    ∃ prof ∈ mProfiles, touchProfileMatchesIdentity dmi prof = true ∧ ResourceOf prof t e

/-! ## What is known stays known -/

/-- Nothing is located anew. -/
def Steady : UefiOp → Prop
  | .locatePciIo | .locateI2cMasters => False
  | _ => True

section

variable {e : UefiOp} {base : UInt64} {R : UInt64 → Prop}

private theorem RegAccess.steady (h : RegAccess base R e) : Steady e := by
  cases e <;> first | exact h | exact trivial

private theorem AoacAccess.steady {dev : UInt8} (h : AoacAccess dev e) : Steady e := by
  cases e <;> first | exact h | exact trivial

private theorem PciAccess.steady {pciIo : ℕ} (h : PciAccess pciIo e) : Steady e := by
  cases e <;> first | exact h | exact trivial

private theorem GpioAccess.steady {gpio : UInt64} (h : GpioAccess gpio e) : Steady e := by
  cases e <;> first | exact h | exact trivial

private theorem FwRequest.steady {handle : ℕ} (h : FwRequest handle e) : Steady e := by
  cases e <;> first | exact h | exact trivial

private theorem MtkAccess.steady {dmaBase : UInt64} (h : MtkAccess base dmaBase e) : Steady e := by
  cases e <;> first | exact h | exact trivial

private theorem PanelService.steady (h : PanelService e) : Steady e := by
  cases e <;> first | exact h | exact trivial

private theorem DriverService.steady (h : DriverService e) : Steady e := by
  cases e <;> first | exact h | exact trivial

private theorem BusAccess.steady {bus : I2cBus} (h : BusAccess bus base R e) : Steady e := by
  unfold BusAccess at h
  cases hkind : bus.mKind with
  | designWare =>
    rw [hkind] at h
    exact RegAccess.steady h
  | mediaTek =>
    rw [hkind] at h
    exact MtkAccess.steady h
  | firmware =>
    rw [hkind] at h
    exact FwRequest.steady h

private theorem Steady.relocates (h : Steady e) (r : e.Ret) : ¬Relocates ⟨e, r⟩ := by
  rintro rfl
  exact h

private theorem Steady.searches (h : Steady e) (r : e.Ret) : ¬Searches ⟨e, r⟩ := by
  rintro rfl
  exact h

private theorem HandleQuery.searches (h : HandleQuery e) (r : e.Ret) : ¬Searches ⟨e, r⟩ := by
  rintro rfl
  exact h

end

section

variable {dmi : DmiIdentity} {prof : TouchProfile} {s : List (Event Uefi)} {d d' : TouchDev}
  {base : UInt64} {bus bus' : I2cBus} {ev : Event Uefi}

private theorem Block.concat (h : Block prof s base) (hev : ¬Relocates ev) :
    Block prof (s ++ [ev]) base := by
  cases h with
  | fixed hplatform hbase => exact .fixed hplatform hbase
  | sweep hplatform hbase hmem => exact .sweep hplatform hbase hmem
  | mapped hplatform h => exact .mapped hplatform (h.concat hev)

/-- What the last search has come to. -/
private structure SearchKnown (d : TouchDev) (s : List (Event Uefi)) : Prop where
  served : d.fwBusFound = true → Served proArtP16 d.fwBus.handle s
  unserved : d.fwBusFound = false → Unserved proArtP16 s

private theorem SearchKnown.concat (h : SearchKnown d s) (hev : ¬Searches ev) :
    SearchKnown d (s ++ [ev]) :=
  ⟨fun hfound ↦ (h.served hfound).concat hev, fun hfound ↦ (h.unserved hfound).concat hev⟩

/-- Between the passes of detection the DesignWare transport is selected, and a search of this
attempt is the last one. -/
private structure Undetected (dmi : DmiIdentity) (d : TouchDev) (s : List (Event Uefi)) :
    Prop where
  identity : d.dmi = dmi
  mKind : d.bus.mKind = .designWare
  search : d.fwBusSearched = true → SearchKnown d s

private theorem Undetected.concat (h : Undetected dmi d s) (hev : ¬Searches ev) :
    Undetected dmi d (s ++ [ev]) :=
  ⟨h.identity, h.mKind, fun hsearched ↦ (h.search hsearched).concat hev⟩

/-- What the selected transport accesses is a resource of the profile. -/
private inductive Entitled (prof : TouchProfile) (bus : I2cBus) (base : UInt64)
    (s : List (Event Uefi)) : Prop
  | designWare (hkind : bus.mKind = .designWare) (h : Block prof s base)
  | mediaTek (hkind : bus.mKind = .mediaTek) (hplatform : prof.platform = .mtkI2c)
      (hbase : bus.mtk.base = prof.i2cBase.toUInt64)
      (hdma : bus.mtk.dmaBase = prof.dmaBase.toUInt64) (h : Unserved prof s)
  | firmware (hkind : bus.mKind = .firmware) (hplatform : prof.platform = .mtkI2c)
      (h : Served prof bus.mFw.handle s)

private theorem Entitled.windows (h : Entitled prof bus base s) (hbus : SameWindows bus bus') :
    Entitled prof bus' base s := by
  cases h with
  | designWare hkind h => exact .designWare (hbus.mKind.trans hkind) h
  | mediaTek hkind hplatform hbase hdma h =>
    exact .mediaTek (hbus.mKind.trans hkind) hplatform (hbus.base.trans hbase)
      (hbus.dmaBase.trans hdma) h
  | firmware hkind hplatform h =>
    exact .firmware (hbus.mKind.trans hkind) hplatform (hbus.handle ▸ h)

private theorem Entitled.concat (h : Entitled prof bus base s) {e : UefiOp} (he : Steady e)
    (r : e.Ret) : Entitled prof bus base (s ++ [⟨e, r⟩]) := by
  cases h with
  | designWare hkind h => exact .designWare hkind (h.concat (he.relocates r))
  | mediaTek hkind hplatform hbase hdma h =>
    exact .mediaTek hkind hplatform hbase hdma (h.concat (he.searches r))
  | firmware hkind hplatform h => exact .firmware hkind hplatform (h.concat (he.searches r))

/-! ## The world -/

/-- The world in which the permitted operations are allowed. -/
private abbrev confinement (dmi : DmiIdentity) : World Uefi (List (Event Uefi)) :=
  recording (Permitted dmi) fun _ ↦ True

private theorem keeps_service {F : UefiOp → Prop} {J : List (Event Uefi) → Prop}
    (hF : ∀ e, F e → PanelService e ∨ DriverService e) (hJ : ∀ s e r, F e → J s → J (s ++ [⟨e, r⟩])) :
    (confinement dmi).Keeps F J := keeps_recording (fun _ e he _ ↦ .inl (hF e he)) hJ

section

variable (hprof : prof ∈ mProfiles) (hmatch : touchProfileMatchesIdentity dmi prof = true)

include hprof hmatch

private theorem keeps_resource {F : UefiOp → Prop} {J : List (Event Uefi) → Prop}
    (hF : ∀ s e, F e → J s → ResourceOf prof s e)
    (hJ : ∀ s e r, F e → J s → J (s ++ [⟨e, r⟩])) : (confinement dmi).Keeps F J :=
  keeps_recording (fun s e he hs ↦ .inr ⟨prof, hprof, hmatch, hF s e he hs⟩) hJ

/-! ## A panel that has been found -/

private theorem keeps_entitled : (confinement dmi).Keeps (BusAccess bus base IsDwOffset)
    (Entitled prof bus base) := by
  refine keeps_recording (fun s e he h ↦ ?_) fun s e r he h ↦ h.concat (BusAccess.steady he) r
  unfold BusAccess at he
  cases h with
  | designWare hkind h =>
    rw [hkind] at he
    exact .inr ⟨prof, hprof, hmatch, .block h he⟩
  | mediaTek hkind hplatform hbase hdma h =>
    rw [hkind] at he
    dsimp only at he
    rw [hbase, hdma] at he
    exact .inr ⟨prof, hprof, hmatch, .windows hplatform h he⟩
  | firmware hkind hplatform h =>
    rw [hkind] at he
    exact .inr ⟨prof, hprof, hmatch, .request hplatform h he⟩

private theorem pollRules_entitled (slaveAddr : UInt8) : PollRules (confinement dmi)
    (fun _ ↦ Entitled prof bus base) bus base slaveAddr :=
  pollRules_of_access (keeps_service (fun _ ↦ .inl) fun _ _ r he h ↦ h.concat he.steady r)
    (keeps_entitled hprof hmatch) slaveAddr

private theorem panelRules_entitled :
    PanelRules (confinement dmi) (Entitled prof bus base) bus base where
  toRouteRules := (pollRules_entitled hprof hmatch 0).toRouteRules
  service := keeps_service (fun _ ↦ .inr) fun _ _ r he h ↦ h.concat he.steady r

/-! ## Controllers -/

/-- During detection, `bases` are controllers of the profile. -/
private def OnBlocks (dmi : DmiIdentity) (prof : TouchProfile) (bases : List UInt64) (d : TouchDev)
    (s : List (Event Uefi)) : Prop := Undetected dmi d s ∧ ∀ base ∈ bases, Block prof s base

/-- What detection leaves when it has found the panel. -/
private def Detected (dmi : DmiIdentity) (d : TouchDev) (s : List (Event Uefi)) : Prop :=
  d.dmi = dmi ∧ ∃ prof ∈ mProfiles, touchProfileMatchesIdentity dmi prof = true ∧
    Entitled prof d.bus d.i2cBase s

private theorem keeps_block {bases : List UInt64} (hbase : base ∈ bases) :
    (confinement dmi).Keeps (RegAccess base IsDwOffset) (OnBlocks dmi prof bases d) := by
  refine keeps_resource hprof hmatch (fun s e he h ↦ .block (h.2 base hbase) he)
    fun s e r he h ↦ ⟨h.1.concat (he.steady.searches r), fun base' hbase' ↦ ?_⟩
  exact (h.2 base' hbase').concat (he.steady.relocates r)

private theorem controllerRules_confined {bases : List UInt64} (hbase : base ∈ bases)
    (timing : Option DwI2cTiming) {Left : TouchDev → List (Event Uefi) → Prop}
    (hleft : ∀ {d s}, OnBlocks dmi prof bases d s → Left d s) :
    ControllerRules (confinement dmi) prof base timing (OnBlocks dmi prof bases)
      (OnBlocks dmi prof bases) (OnBlocks dmi prof bases) Left (Detected dmi)
      fun _ ↦ OnBlocks dmi prof bases where
  present h := by
    refine World.wp_mono ((keeps_block hprof hmatch hbase).wp
      (dwI2cControllerPresent_within (by decide)) h) fun ok s' h' ↦ ?_
    split
    · exact h'.2
    · exact hleft h'.2
  init a h := by
    refine World.wp_mono ((keeps_block hprof hmatch hbase).wp
      (dwI2cInit_within (fun _ h ↦ h) a timing) h) fun status s' h' ↦ ?_
    split <;> exact h'.2
  read {d s a} descReg h := by
    have hread := i2cHidReadDescriptor_within (fun e (he : BusAccess d.bus base IsDwOffset e) ↦ he)
      (fun _ ↦ isDwOffset_of_mem_xfer) descReg d.hidDesc
    rw [BusAccess, h.1.mKind] at hread
    rw [wpS_readHidDesc]
    refine World.wpS_mono ((keeps_block hprof hmatch hbase).wpS hread h) fun r bus s' h' ↦ ?_
    obtain ⟨⟨hroute, -⟩, hidle, hblocks⟩ := h'
    have hkind : bus.mKind = .designWare := hroute.mKind.trans h.1.mKind
    split
    · exact ⟨⟨hidle.identity, hkind, fun h ↦ { hidle.search h with }⟩, hblocks⟩
    · exact ⟨hidle.identity, prof, hprof, hmatch, .designWare hkind (hblocks base hbase)⟩
  again h := h
  leave h := hleft h

/-! ## Tiles and reset lines -/

private theorem keeps_tile {dev : UInt8} (hdev : Tile prof dev) :
    (confinement dmi).Keeps (AoacAccess dev) (Undetected dmi d) :=
  keeps_resource hprof hmatch (fun _ _ he _ ↦ .tile hdev he)
    fun _ _ r he h ↦ h.concat (he.steady.searches r)

private theorem wp_sweepPowerOn_confined (hplatform : prof.platform = .amdFch)
    (hbase : prof.i2cBase = 0) {devs : List UInt8} (hdevs : ∀ dev ∈ devs, dev ∈ sweepTiles)
    (h : Undetected dmi d s) :
    (confinement dmi).wp (sweepPowerOn devs) (fun _ s' ↦ Undetected dmi d s') s := by
  induction devs generalizing s with
  | nil => exact h
  | cons dev devs ih =>
    have hdev : Tile prof dev := .sweep hplatform hbase (hdevs dev List.mem_cons_self)
    rw [sweepPowerOn, World.wp_bind]
    refine World.wp_mono ((keeps_tile hprof hmatch hdev).wp
      (fchAoacPowerOnI2c_within fun _ h ↦ h) h) fun r s₁ h₁ ↦ ?_
    rw [World.wp_bind]
    exact World.wp_mono (ih (fun dev' hdev' ↦ hdevs dev' (List.mem_cons_of_mem _ hdev')) h₁.2)
      fun _ _ h₂ ↦ h₂

private theorem wpS_kickOnce_confined {p : ℕ} (status : EfiStatus) (h : Undetected dmi d s) :
    (confinement dmi).wpS (kickOnce p prof status) (fun _ d' s' ↦ Undetected dmi d' s') d s := by
  rw [kickOnce, World.wpS_bind, World.wpS_get]
  split
  · next hkick =>
    have hreset : prof.resetGpioReg ≠ 0 := by
      rw [Bool.and_eq_true, Bool.and_eq_true] at hkick
      simpa using hkick.1.1
    have hkeeps : (confinement dmi).Keeps (GpioAccess prof.resetGpioReg.toUInt64)
        (Undetected dmi d) :=
      keeps_resource hprof hmatch (fun _ _ he _ ↦ .reset hreset he)
        fun _ _ r he h ↦ h.concat (he.steady.searches r)
    rw [World.wpS_bind, World.wpS_lift]
    refine World.wp_mono (hkeeps.wp (touchResetKick_within fun _ h ↦ h) h) fun _ s' h' ↦ ?_
    exact ⟨h'.2.identity, h'.2.mKind, fun h ↦ { h'.2.search h with }⟩
  · exact h

/-! ## The function of an Intel profile -/

/-- The operations of the LPSS layer search for no controller of the firmware. -/
private theorem keeps_config {pciIo : ℕ} (hplatform : prof.platform = .intelLpss)
    {J : List (Event Uefi) → Prop} (hJ : ∀ s, J s → Confirmed prof pciIo s)
    (hstay : ∀ s ev, ¬Relocates ev → ¬Searches ev → J s → J (s ++ [ev])) :
    (confinement dmi).Keeps (PciAccess pciIo) J :=
  keeps_resource hprof hmatch (fun s _ he h ↦ .config hplatform (hJ s h) he)
    fun s _ r he h ↦ hstay s _ (he.steady.relocates r) (he.steady.searches r) h

private theorem wp_lpssPrepare_confined {pciIo : ℕ} (hplatform : prof.platform = .intelLpss)
    (h : Undetected dmi d s) (hconfirmed : Confirmed prof pciIo s) :
    (confinement dmi).wp (lpssPrepare pciIo) (fun r s' ↦
      Undetected dmi d s' ∧ (r.1.isError = false → Block prof s' r.2.1)) s := by
  have hpci : (confinement dmi).Keeps (PciAccess pciIo)
      (fun s ↦ Undetected dmi d s ∧ Confirmed prof pciIo s) :=
    keeps_config hprof hmatch hplatform (fun _ h ↦ h.2) fun _ ev hre hse h ↦
      ⟨h.1.concat hse, h.2.concat hre⟩
  rw [lpssPrepare, World.wp_bind]
  refine World.wp_mono (hpci.wp (lpssForceD0_within fun _ h ↦ h) ⟨h, hconfirmed⟩) fun _ s₁ h₁ ↦ ?_
  rw [World.wp_bind]
  refine World.wp_mono (wp_trace (hpci.wp (lpssBar_within fun _ h ↦ h) h₁.2) trivial)
    fun r s₂ h₂ ↦ ?_
  obtain ⟨⟨-, h₂⟩, -, t, rfl, hret⟩ := h₂
  cases r with
  | none => exact ⟨h₂.1, fun hok ↦ by contradiction⟩
  | some bar =>
    have hmapped : Mapped prof bar (s₁ ++ t) := since_of_last ⟨pciIo, h₁.2.2, hret⟩
    have henable : (confinement dmi).Keeps (PciAccess pciIo)
        (fun s ↦ (Undetected dmi d s ∧ Mapped prof bar s) ∧ Confirmed prof pciIo s) :=
      keeps_config hprof hmatch hplatform (fun _ h ↦ h.2) fun _ ev hre hse h ↦
        ⟨⟨h.1.1.concat hse, h.1.2.concat hre⟩, h.2.concat hre⟩
    have hregs : (confinement dmi).Keeps (RegAccess bar (· ∈ lpssOffsets))
        (fun s ↦ Undetected dmi d s ∧ Mapped prof bar s) :=
      keeps_resource hprof hmatch (fun _ _ he h ↦ .bar hplatform h.2 he) fun _ _ r he h ↦
        ⟨h.1.concat (he.steady.searches r), h.2.concat (he.steady.relocates r)⟩
    dsimp only
    split
    · exact ⟨h₂.1, fun hok ↦ by contradiction⟩
    · rw [World.wp_bind]
      refine World.wp_mono (henable.wp (lpssEnableMemory_within fun _ h ↦ h)
        ⟨⟨h₂.1, hmapped⟩, h₂.2⟩) fun _ s₃ h₃ ↦ ?_
      rw [World.wp_bind]
      refine World.wp_mono (hregs.wp (lpssReleaseResets_within (by decide)) h₃.2.1)
        fun fresh s₄ h₄ ↦ ?_
      rw [World.wp_bind]
      refine World.wp_mono (hregs.wp (lpssRemap_within fun _ ↦ mem_lpssOffsets_of_remap) h₄.2)
        fun _ s₅ h₅ ↦ ?_
      exact ⟨h₅.2.1, fun _ ↦ .mapped hplatform h₅.2.2⟩

private theorem wp_lpssFind_confined (hplatform : prof.platform = .intelLpss) (handles : List ℕ)
    (h : Undetected dmi d s) :
    (confinement dmi).wp (lpssFind prof.pciDev prof.pciFunc handles) (fun r s' ↦
      Undetected dmi d s' ∧ ∀ pciIo, r = some pciIo → AtLocation prof pciIo s') s := by
  induction handles generalizing s with
  | nil => exact ⟨h, fun _ heq ↦ by contradiction⟩
  | cons handle handles ih =>
    rw [lpssFind, World.wp_bind]
    have hone : (confinement dmi).wp (lpssAtLocation prof.pciDev prof.pciFunc handle)
        (fun found s' ↦ Undetected dmi d s' ∧ (found = true → AtLocation prof handle s')) s := by
      have hquery : ∀ {e s}, HandleQuery e → Permitted dmi s e := fun he ↦
        .inr ⟨prof, hprof, hmatch, .handles hplatform he⟩
      rw [lpssAtLocation, World.wp_bind]
      refine wp_perform_recording.mpr ⟨hquery trivial, fun opened _ ↦ ?_⟩
      have h₁ : Undetected dmi d (s ++ [⟨.openPciIo handle, opened⟩]) :=
        h.concat UefiOp.noConfusion
      split
      · rw [World.wp_bind]
        refine wp_perform_recording.mpr ⟨hquery trivial, fun location _ ↦ ?_⟩
        refine ⟨h₁.concat UefiOp.noConfusion, fun hfound ↦ since_of_last ?_⟩
        rw [beq_iff_eq.mp hfound]
      · exact ⟨h₁, fun hnot ↦ by contradiction⟩
    refine World.wp_mono hone fun found s₁ h₁ ↦ ?_
    split
    · next hfound =>
      refine ⟨h₁.1, fun pciIo heq ↦ ?_⟩
      obtain rfl := Option.some.inj heq
      exact h₁.2 hfound
    · exact ih h₁.1

/-- **`IntelLpssPrepareI2c`** for a profile that matches. -/
private theorem wp_prepare_confined (hplatform : prof.platform = .intelLpss)
    (h : Undetected dmi d s) :
    (confinement dmi).wp (intelLpssPrepareI2c prof.pciDid prof.pciDev prof.pciFunc) (fun r s' ↦
      Undetected dmi d s' ∧ (r.1.isError = false → Block prof s' r.2.1)) s := by
  have hnone : ∀ {status : EfiStatus} {base : UInt64} {s}, status.isError = true →
      Undetected dmi d s → Undetected dmi d s ∧ (status.isError = false → Block prof s base) :=
    fun herr h ↦ ⟨h, fun hok ↦ absurd herr (by rw [hok]; decide)⟩
  rw [intelLpssPrepareI2c, World.wp_bind]
  refine wp_perform_recording.mpr
    ⟨.inr ⟨prof, hprof, hmatch, .handles hplatform trivial⟩, fun count _ ↦ ?_⟩
  have h₁ : Undetected dmi d (s ++ [⟨.locatePciIo, count⟩]) := h.concat UefiOp.noConfusion
  cases count with
  | none => exact hnone rfl h₁
  | some count =>
    dsimp only
    rw [World.wp_bind]
    refine World.wp_mono (wp_lpssFind_confined hprof hmatch hplatform _ h₁) fun handle s₂ h₂ ↦ ?_
    cases handle with
    | none => exact hnone rfl h₂.1
    | some pciIo =>
      have hlocated := h₂.2 pciIo rfl
      dsimp only
      rw [lpssConfirm, World.wp_bind]
      refine wp_perform_recording.mpr ⟨?_, fun ids _ ↦ ?_⟩
      · exact .inr ⟨prof, hprof, hmatch, .ids hplatform hlocated rfl⟩
      have h₃ : Undetected dmi d (s₂ ++ [⟨.pciRead32 pciIo pciVendorIdOffset, ids⟩]) :=
        h₂.1.concat UefiOp.noConfusion
      cases ids with
      | none => exact hnone rfl h₃
      | some ids =>
        dsimp only
        split
        · next hids =>
          refine wp_lpssPrepare_confined hprof hmatch hplatform h₃ (since_of_last ?_)
          exact ⟨hlocated, ids, hids, rfl⟩
        · exact hnone rfl h₃

end

/-! ## The MediaTek profile -/

private theorem Entitled.rebase (h : Entitled prof bus base s) (hkind : bus.mKind ≠ .designWare)
    (base' : UInt64) : Entitled prof bus base' s := by
  cases h with
  | designWare hkind' _ => exact absurd hkind' hkind
  | mediaTek hkind hplatform hbase hdma h => exact .mediaTek hkind hplatform hbase hdma h
  | firmware hkind hplatform h => exact .firmware hkind hplatform h

private theorem wpS_mtkSearchFirmware_confined
    (hmatch : touchProfileMatchesIdentity dmi proArtP16 = true) (h : Undetected dmi d s) :
    (confinement dmi).wpS (mtkSearchFirmware proArtP16)
      (fun _ d' s' ↦ d'.bus.mKind = .designWare ∧ d'.dmi = dmi ∧ SearchKnown d' s') d s := by
  rw [mtkSearchFirmware, World.wpS_bind, World.wpS_get]
  split
  · next hsearched => exact ⟨h.mKind, h.identity, h.search hsearched⟩
  · have hquery : (confinement dmi).Keeps FirmwareQuery fun _ ↦ True :=
      keeps_resource (by decide : proArtP16 ∈ mProfiles) hmatch (fun _ _ he _ ↦ .search rfl he)
        fun _ _ _ _ _ ↦ trivial
    rw [World.wpS_bind, World.wpS_modify, World.wpS_bind, World.wpS_lift]
    refine World.wp_mono (wp_trace (hquery.wp (i2cBusFindFirmwareController_within (fun _ h ↦ h)
      proArtP16.acpiHid proArtP16.acpiUid) trivial) trivial) fun r s' h' ↦ ?_
    obtain ⟨-, -, t, rfl, hret⟩ := h'
    refine ⟨h.mKind, h.identity, fun hfound ↦ since_of_last ⟨r.1, r.2, ?_, rfl, hret⟩,
      fun hfound ↦ since_of_last ⟨r.1, r.2, ?_, hret⟩⟩
    · simpa using hfound
    · simpa using hfound

/-- A read over a transport that has been selected for the profile. -/
private theorem wpS_mtkReadDescriptor_confined
    (hmatch : touchProfileMatchesIdentity dmi proArtP16 = true) (hdmi : d.dmi = dmi)
    (hsearch : SearchKnown d s) (hkind : d.bus.mKind ≠ .designWare)
    (h : Entitled proArtP16 d.bus 0 s) (descReg : UInt16) :
    (confinement dmi).wpS (mtkReadDescriptor descReg) (fun status d' s' ↦
      if status.isError then Undetected dmi d' s'
      else d'.dmi = dmi ∧ d'.bus.mKind ≠ .designWare ∧ Entitled proArtP16 d'.bus 0 s') d s := by
  have hprof : proArtP16 ∈ mProfiles := by decide
  have hkeeps : (confinement dmi).Keeps (BusAccess d.bus 0 IsDwOffset)
      (fun s ↦ Entitled proArtP16 d.bus 0 s ∧ SearchKnown d s) := by
    refine keeps_recording (fun s e he h ↦ ?_) fun s e r he h ↦ ?_
    · exact (World.wp_perform.mp (keeps_entitled hprof hmatch e s he h.1) s rfl).1
    · have hsteady := BusAccess.steady he
      exact ⟨h.1.concat hsteady r, h.2.concat (hsteady.searches r)⟩
  rw [mtkReadDescriptor, World.wpS_bind, wpS_readHidDesc]
  refine World.wpS_mono (hkeeps.wpS (i2cHidReadDescriptor_within (fun _ h ↦ h)
    (fun _ ↦ isDwOffset_of_mem_xfer) descReg d.hidDesc) ⟨h, hsearch⟩) fun r bus s' h' ↦ ?_
  obtain ⟨⟨hroute, -⟩, hentitled, hsearch'⟩ := h'
  rw [World.wpS_bind, mtkDeselect]
  split
  · next herr =>
    rw [wpS_onBus, i2cBusSelectDesignWare, World.wpS_modify, World.wpS_pure, if_pos herr]
    exact ⟨hdmi, rfl, fun _ ↦ { hsearch' with }⟩
  · next hok =>
    rw [World.wpS_pure, World.wpS_pure, if_neg hok]
    refine ⟨hdmi, ?_, hentitled.windows hroute.windows⟩
    rw [hroute.mKind]
    exact hkind

/-- **`TouchMtkProbe`** accesses the windows only if the firmware has no controller. -/
private theorem wpS_touchMtkProbe_confined
    (hmatch : touchProfileMatchesIdentity dmi proArtP16 = true) (h : Undetected dmi d s)
    (slaveAddr : UInt8) (descReg : UInt16) :
    (confinement dmi).wpS (touchMtkProbe proArtP16 slaveAddr descReg) (fun status d' s' ↦
      if status.isError then Undetected dmi d' s'
      else Detected dmi (TouchDev.found proArtP16 proArtP16.i2cBase.toUInt64 slaveAddr d') s')
      d s := by
  have hprof : proArtP16 ∈ mProfiles := by decide
  have hdetected : ∀ {status : EfiStatus} {d' s'}, (if status.isError then Undetected dmi d' s'
      else d'.dmi = dmi ∧ d'.bus.mKind ≠ .designWare ∧ Entitled proArtP16 d'.bus 0 s') →
      if status.isError then Undetected dmi d' s'
      else Detected dmi (TouchDev.found proArtP16 proArtP16.i2cBase.toUInt64 slaveAddr d') s' := by
    intro status d' s' h'
    split
    · next herr => rwa [if_pos herr] at h'
    · next hok =>
      rw [if_neg hok] at h'
      exact ⟨h'.1, proArtP16, hprof, hmatch, h'.2.2.rebase h'.2.1 _⟩
  rw [touchMtkProbe, World.wpS_bind]
  refine World.wpS_mono (wpS_mtkSearchFirmware_confined hmatch h) fun _ d₁ s₁ h₁ ↦ ?_
  obtain ⟨hkind, hdmi, hsearch⟩ := h₁
  rw [World.wpS_bind, World.wpS_get]
  split
  · next hfound =>
    rw [World.wpS_bind, wpS_onBus, i2cBusSelectFirmware, World.wpS_modify]
    refine World.wpS_mono (wpS_mtkReadDescriptor_confined hmatch ?_ ?_ I2cBusKind.noConfusion
      (.firmware rfl rfl ?_) descReg) fun _ _ _ ↦ hdetected
    · exact hdmi
    · exact { hsearch with }
    · exact hsearch.served hfound
  · next hnone =>
    have hnone : d₁.fwBusFound = false := by simpa using hnone
    have hunserved : Unserved proArtP16 s₁ := hsearch.unserved hnone
    -- a controller that the search has not found stays unserved while it is accessed directly
    have hstay : ∀ {d' s}, d'.fwBusFound = d₁.fwBusFound → Unserved proArtP16 s →
        SearchKnown d' s := fun heq hs ↦
      ⟨fun hfound ↦ absurd (heq.symm.trans hfound) (by rw [hnone]; decide), fun _ ↦ hs⟩
    have hwindows : (confinement dmi).Keeps
        (MtkAccess proArtP16.i2cBase.toUInt64 proArtP16.dmaBase.toUInt64) (Unserved proArtP16) :=
      keeps_resource hprof hmatch (fun _ _ he h ↦ .windows rfl h he)
        fun _ _ r he h ↦ h.concat (he.steady.searches r)
    rw [World.wpS_bind, wpS_onBus, wpS_onMtk]
    refine World.wpS_mono (hwindows.wpS (mtkI2cInit_within slaveAddr) hunserved)
      fun status c s₂ h₂ ↦ ?_
    obtain ⟨htarget, hunserved⟩ := h₂
    split
    · next herr =>
      rw [World.wpS_pure, if_pos herr]
      exact ⟨hdmi, hkind, fun _ ↦ hstay rfl hunserved⟩
    · next hok =>
      obtain ⟨hbase, hwindow, -⟩ := htarget (by simpa using hok)
      rw [World.wpS_bind, wpS_onBus, i2cBusSelectMediaTek, World.wpS_modify]
      refine World.wpS_mono (wpS_mtkReadDescriptor_confined hmatch ?_ ?_ I2cBusKind.noConfusion
        (.mediaTek rfl rfl hbase hwindow hunserved) descReg) fun _ _ _ ↦ hdetected
      · exact hdmi
      · exact hstay rfl hunserved

/-! ## Detection -/

private theorem wp_sweepTargets_confined (hprof : prof ∈ mProfiles)
    (hmatch : touchProfileMatchesIdentity dmi prof = true) (hplatform : prof.platform ≠ .mtkI2c)
    (h : Undetected dmi d s) : (confinement dmi).wp (sweepTargets prof)
      (fun targets s' ↦ OnBlocks dmi prof (targets.map Prod.fst) d s') s := by
  unfold sweepTargets
  cases hp : prof.platform with
  | intelLpss =>
    dsimp only
    rw [World.wp_bind]
    refine World.wp_mono (wp_prepare_confined hprof hmatch hp h) fun r s₁ h₁ ↦ ?_
    obtain ⟨status, base, fresh⟩ := r
    dsimp only
    split
    · exact ⟨h₁.1, fun _ hbase ↦ absurd hbase List.not_mem_nil⟩
    · next hok =>
      refine ⟨h₁.1, fun base' hbase ↦ ?_⟩
      obtain rfl := List.mem_singleton.mp hbase
      exact h₁.2 (by simpa using hok)
  | mtkI2c => exact absurd hp hplatform
  | amdFch =>
    dsimp only
    split
    · next hbase =>
      refine ⟨h, fun base' hmem ↦ ?_⟩
      obtain rfl := List.mem_singleton.mp hmem
      exact .fixed hp (by simpa using hbase)
    · next hbase =>
      have hbase : prof.i2cBase = 0 := by simpa using hbase
      rw [World.wp_bind]
      refine World.wp_mono (wp_sweepPowerOn_confined hprof hmatch hp hbase (fun _ h ↦ h) h)
        fun fresh s₁ h₁ ↦ ⟨h₁, fun base' hmem ↦ ?_⟩
      obtain ⟨target, htarget, rfl⟩ := List.mem_map.mp hmem
      obtain ⟨⟨base, b⟩, hzip, rfl⟩ := List.mem_map.mp htarget
      exact .sweep hp hbase (List.fst_mem_of_mem_zipIdx hzip)

private theorem detectRules_confined (dmi : DmiIdentity) :
    DetectRules (confinement dmi) dmi (Undetected dmi) (Detected dmi) where
  identity h := h.identity
  profile {p prof} hp hmatch d s h := by
    have hprof : prof ∈ mProfiles := List.mem_of_getElem? hp
    have hrules := fun base timing ↦ controllerRules_confined hprof hmatch
      (List.mem_singleton.mpr (rfl : base = base)) timing fun {d s} h ↦ (h.1 : Undetected dmi d s)
    unfold profilePass
    cases hplatform : prof.platform with
    | intelLpss =>
      refine wpS_intelPass hrules (World.wp_mono
        (wp_prepare_confined hprof hmatch hplatform h) fun r s₁ h₁ ↦ ?_) fun h₁ ↦ h₁.1
      split
      · exact h₁.1
      · next hok =>
        refine ⟨h₁.1, fun base hbase ↦ ?_⟩
        obtain rfl := List.mem_singleton.mp hbase
        exact h₁.2 (by simpa using hok)
    | mtkI2c =>
      obtain rfl := eq_proArtP16 hprof hplatform
      dsimp only
      rw [mtkPass, World.wpS_bind]
      exact World.wpS_mono (wpS_touchMtkProbe_confined hmatch h _ _) fun _ _ _ ↦ wpS_noteFound
    | amdFch =>
      dsimp only
      split
      · exact h
      · next hbase =>
        have hbase : prof.i2cBase ≠ 0 := by simpa using hbase
        refine wpS_amdPass hrules (World.wp_mono ((keeps_tile hprof hmatch
          (.fixed hplatform hbase)).wp (fchAoacPowerOnI2c_within fun _ h ↦ h) h) fun r s₁ h₁ ↦ ?_)
          fun h₁ ↦ wpS_kickOnce_confined hprof hmatch _ (h₁.elim And.left And.left)
        split
        · exact h₁.2
        · refine ⟨h₁.2, fun base hmem ↦ ?_⟩
          obtain rfl := List.mem_singleton.mp hmem
          exact .fixed hplatform hbase
  mtkSweep {prof} hprof hmatch hplatform candidate _ d s h := by
    obtain rfl := eq_proArtP16 hprof hplatform
    rw [mtkSweepOne]
    split
    · exact h
    · rw [World.wpS_bind]
      exact World.wpS_mono (wpS_touchMtkProbe_confined hmatch h _ _) fun _ _ _ ↦ wpS_noteFound
  dwSweep {prof} hprof hmatch hplatform d s h := by
    rw [World.wpS_bind, World.wpS_lift]
    refine World.wp_mono (wp_sweepTargets_confined hprof hmatch hplatform h) fun targets s₁ h₁ ↦ ?_
    refine World.wpS_mono (wpS_tryEach (Q := Detected dmi)
      (OnBlocks dmi prof (targets.map Prod.fst)) (fun target htarget d s h ↦ ?_) h₁)
      fun found d' s' h' ↦ ?_
    · have hbase : target.1 ∈ targets.map Prod.fst := List.mem_map_of_mem htarget
      refine (controllerRules_confined hprof hmatch hbase target.2 fun h ↦ h).wpS_sweepBase
        (fun h ↦ ?_) h
      refine World.wp_mono ((keeps_block hprof hmatch hbase).wp
        (dwI2cDisable_within fun _ ↦ isDwOffset_of_mem_disable) h) fun _ _ h' ↦ h'.2
    · cases found with
      | true => exact h'
      | false => exact h'.1

/-! ## Runs -/

private theorem driverRules_confined (dmi : DmiIdentity) :
    DriverRules (confinement dmi) dmi (fun d _ ↦ d.dmi = dmi) (Detected dmi) (Detected dmi) where
  identity h := h
  rest {d d' s} h heq := (congrArg (·.1) heq).trans h
  restService d := keeps_service (fun _ ↦ .inr) fun _ _ _ _ h ↦ h
  live {d d' s} h heq := by
    obtain ⟨hdmi, prof, hprof, hmatch, h⟩ := h
    have hrest : d'.atRest = d.atRest := congrArg (·.1) heq
    refine ⟨(congrArg (·.1) hrest).trans hdmi, prof, hprof, hmatch, ?_⟩
    rwa [show d'.bus = d.bus from congrArg (·.2.1) hrest,
      show d'.i2cBase = d.i2cBase from congrArg (·.2.1) heq]
  liveService d := by
    refine keeps_service (fun _ ↦ .inr) fun s e r he h ↦ ?_
    obtain ⟨hdmi, prof, hprof, hmatch, h⟩ := h
    exact ⟨hdmi, prof, hprof, hmatch, h.concat he.steady r⟩
  due h := h
  log {prof} hprof d s h := by
    unfold logProfile
    split
    · next hlog =>
      simp only [Bool.and_eq_true, beq_iff_eq, bne_iff_ne] at hlog
      obtain ⟨⟨hmatch, hplatform⟩, hbase⟩ := hlog
      rw [World.wp_bind]
      refine wp_perform_recording.mpr ⟨?_, fun _ _ ↦ ?_⟩
      · exact .inr ⟨prof, hprof, hmatch, .tile (.fixed hplatform hbase) (.inl rfl)⟩
      rw [World.wp_bind]
      refine wp_perform_recording.mpr ⟨?_, fun _ _ ↦ h⟩
      exact .inr ⟨prof, hprof, hmatch, .block (.fixed hplatform hbase) ⟨dwIcCompType, by decide, rfl⟩⟩
    · exact h
  detect {d s} h := by
    have hstart : Undetected dmi
        { d.startAttempt with bus := { d.startAttempt.bus with mKind := .designWare } } s :=
      ⟨h, rfl, fun hsearched ↦ by contradiction⟩
    refine World.wpS_mono ((detectRules_confined dmi).wpS_touchDetect hstart) fun _ _ _ h' ↦ ?_
    split
    · next herr =>
      rw [if_pos herr] at h'
      exact h'.identity
    · next hok => rwa [if_neg hok] at h'
  setUp {d s} h hvalid hready := by
    obtain ⟨hdmi, prof, hprof, hmatch, h⟩ := h
    refine World.wpS_mono (wpS_touchSetUp (panelRules_entitled hprof hmatch) hvalid hready h)
      fun status d' s' h' ↦ ?_
    obtain ⟨hpost, h'⟩ := h'
    have hdmi' : d'.dmi = dmi := (congrArg TouchDev.dmi hpost.frame :).trans hdmi
    have hbase : d'.i2cBase = d.i2cBase := (congrArg TouchDev.i2cBase hpost.frame :)
    refine ⟨hpost, ?_⟩
    split
    · exact hdmi'
    · refine ⟨hdmi', prof, hprof, hmatch, ?_⟩
      rw [hbase]
      exact h'.windows hpost.windows
  poll {d s} h := by
    obtain ⟨hdmi, prof, hprof, hmatch, h⟩ := h
    refine ⟨_, pollRules_entitled hprof hmatch d.slaveAddr, h, fun {d' s'} hpost h' ↦ ?_⟩
    have hdmi' : d'.dmi = dmi := (congrArg TouchDev.dmi hpost.frame :).trans hdmi
    have hbase : d'.i2cBase = d.i2cBase := (congrArg TouchDev.i2cBase hpost.frame :)
    refine ⟨hdmi', prof, hprof, hmatch, ?_⟩
    rw [hbase]
    exact h'.windows hpost.windows

/-- `TouchExitBootServices` uses the transport of a driver that is ready. -/
private theorem wpS_exit_confined (_ : d.ready = true) (h : Detected dmi d s) :
    (confinement dmi).wpS touchExitBootServices (fun _ _ _ ↦ True) d s := by
  obtain ⟨-, prof, hprof, hmatch, h⟩ := h
  refine wpS_touchExitBootServices (panelRules_entitled hprof hmatch).service h (fun _ s' h' ↦ ?_)
    fun _ _ _ ↦ trivial
  exact World.wpS_mono ((keeps_entitled hprof hmatch).wpS (i2cBusDisable_within (fun _ h ↦ h)
    fun _ ↦ isDwOffset_of_mem_disable) h') fun _ _ _ _ ↦ trivial

end

/-- Whatever is performed is permitted. -/
private theorem permitted_of_run {entries : List ConfigurationEntry} {dmi : DmiIdentity}
    {t : List (Event Uefi)} {e : UefiOp} (hread : touchReadDmiIdentity entries = .ok dmi)
    (h : PerformsUntilExit (touchI2cDxeEntry entries) t e) : Permitted dmi t e := by
  have hservice : (confinement dmi).Keeps DriverService fun _ ↦ True :=
    keeps_service (fun _ ↦ .inr) fun _ _ _ _ h ↦ h
  refine allowed_of_performsUntilExit hread (driverRules_confined dmi) rfl wpS_exit_confined
    (fun hready _ ↦ ?_) h (path_recording (fun _ _ _ ↦ trivial) (s := []) trivial) rfl
  exact wpS_touchExitBootServices hservice trivial
    (fun hready' ↦ absurd hready' (by rw [hready]; decide)) fun _ _ _ ↦ trivial

/-- **Hardware access is confined by identity**: at every moment of a run up to and including
`TouchExitBootServices`, what the driver performs has to do with no device but the display, or with
a resource of a profile that matches what SMBIOS says. -/
theorem permitted_of_performs {entries : List ConfigurationEntry} {dmi : DmiIdentity}
    {t : List (Event Uefi)} {e : UefiOp} (hread : touchReadDmiIdentity entries = .ok dmi)
    (h : PerformsUntilExit (touchI2cDxeEntry entries) t e) : Permitted dmi t e :=
  permitted_of_run hread h

/-- A machine with the Serial IO controller of a profile, whose registers are at `bar`. -/
def serialIoMachine (bar : UInt32) (_ : Unit) (e : UefiOp) : e.Ret × Unit :=
  match e with
  | .pciLocation _ => (some (0, 0, 0x15, 0), ())
  | .pciRead32 _ off => (some (if off = pciVendorIdOffset then 0x51E88086 else bar), ())
  | e => (e.zeros, ())

/-- A Type 2 structure with the board of that profile. -/
def serialIoTable : List UInt8 := [2, 6, 0, 0, 0, 1] ++ asciiBytes "UX8402VV" ++ [0, 0]

/-- The driver on the machine. -/
def serialIoEntry : Touch Unit := touchI2cDxeEntry [.smbios3 serialIoTable]

/-- The identity of the machine. -/
def serialIoIdentity : DmiIdentity :=
  ⟨List.replicate 32 0, asciiBytes "UX8402VV" ++ List.replicate 24 0⟩

theorem touchReadDmiIdentity_serialIo :
    touchReadDmiIdentity [.smbios3 serialIoTable] = .ok serialIoIdentity := by decide

theorem permitted_of_performs_serialIo : ∃ t v,
    PerformsUntilExit serialIoEntry t (.mmioWrite32 (0xFE010000 + lpssPrivResets) v) ∧
      Permitted serialIoIdentity t (.mmioWrite32 (0xFE010000 + lpssPrivResets) v) := by
  -- the resets are released after 13 operations
  have hrelease : (((serialIoEntry.run {}).simulate (serialIoMachine 0xFE010000) ()).1[13]?).any
      (fun ev ↦ ev.op.writesTo (0xFE010000 + lpssPrivResets)) = true := by decide +kernel
  have hperforms : ∀ ev,
      ((serialIoEntry.run {}).simulate (serialIoMachine 0xFE010000) ()).1[13]? = some ev →
      ∃ t, PerformsUntilExit serialIoEntry t ev.op := by
    intro ev hev
    obtain ⟨k, hreach⟩ := Prog.performs_simulate hev
    exact ⟨_, .before (.entry hreach)⟩
  generalize ((serialIoEntry.run {}).simulate (serialIoMachine 0xFE010000) ()).1 = trace
    at hrelease hperforms
  obtain ⟨⟨e, r⟩, hev, hwrites⟩ := (Option.any_eq_true _ _).mp hrelease
  cases e with
  | mmioWrite32 a v =>
    obtain rfl : a = 0xFE010000 + lpssPrivResets := beq_iff_eq.mp hwrites
    obtain ⟨t, hruns⟩ := hperforms _ hev
    exact ⟨t, v, hruns, permitted_of_performs touchReadDmiIdentity_serialIo hruns⟩
  | _ => contradiction

/-! ## The whole of the confinement -/

/-- What an attempt performs is permitted by what the attempt itself has found out. -/
private theorem permitted_of_attempt {dmi : DmiIdentity} {d : TouchDev} {u : List (Event Uefi)}
    {e : UefiOp} {k : e.Ret → Prog Uefi (EfiStatus × TouchDev)} (hdmi : d.dmi = dmi)
    (hready : d.ready = false) (hreach : (touchTryBringUp.run d).Reaches u (.op e k)) :
    Permitted dmi u e := by
  have hattempt := (driverRules_confined dmi).wpS_touchTryBringUp (s := []) hready hdmi
  exact World.wp_allowed hattempt hreach
    (path_recording (fun _ _ _ ↦ trivial) (s := []) trivial) rfl

/-- **Confinement**: what is performed is permitted, in an attempt by what this attempt has found
out; that is no access to hardware unless a profile matches; and a reset line is written to only in
the first kick, that of its own profile, where no BAR0 puts the registers of a controller on it. -/
theorem confined_of_performs {entries : List ConfigurationEntry} {dmi : DmiIdentity}
    {t : List (Event Uefi)} {e : UefiOp} (hread : touchReadDmiIdentity entries = .ok dmi)
    (h : PerformsUntilExit (touchI2cDxeEntry entries) t e) :
    Permitted dmi t e ∧
    (∀ d u k, d.dmi = dmi → d.ready = false → (touchTryBringUp.run d).Reaches u (.op e k) →
      Permitted dmi u e) ∧
    ((∀ prof ∈ mProfiles, touchProfileMatchesIdentity dmi prof = false) → NoAccess e) ∧
    (Avoids (BarOutside MissesResets) t → ∀ prof ∈ mProfiles, WritesReset prof e →
      touchProfileMatchesIdentity dmi prof = true ∧ FirstKickOf prof t e ∧
        ∀ prof' ∈ mProfiles, ∀ ev ∈ t, WritesReset prof' ev.op → prof' = prof) := by
  refine ⟨permitted_of_run hread h, fun d u k hdmi hready ↦ permitted_of_attempt hdmi hready,
    fun hnone ↦ ?_, fun hbar prof hprof hwrites ↦ ?_⟩
  · rcases permitted_of_run hread h with (hpanel | hdriver) | ⟨prof, hprof, hmatch, -⟩
    · exact hpanel.noAccess
    · exact hdriver.noAccess
    · exact absurd hmatch (by rw [hnone prof hprof]; decide)
  · obtain ⟨prof₀, hprof₀, hmatch, hkick⟩ :=
      firstKick_of_missesResets hread h hbar ⟨prof, hprof, hwrites⟩
    obtain rfl := hkick.own hprof₀ hprof (.inl hwrites)
    exact ⟨hmatch, hkick, fun prof' hprof' ev hev hwrites' ↦
      hkick.own hprof hprof' (.inr ⟨ev, hev, hwrites'⟩)⟩

theorem confined_of_performs_oled : ∃ t v,
    PerformsUntilExit oledEntry t (.mmioWrite32 steamDeckOled.resetGpioReg.toUInt64 v) ∧
      Permitted oledIdentity t (.mmioWrite32 steamDeckOled.resetGpioReg.toUInt64 v) ∧
      FirstKickOf steamDeckOled t (.mmioWrite32 steamDeckOled.resetGpioReg.toUInt64 v) := by
  obtain ⟨t, v, hruns, hbar⟩ := performs_kick_oled
  obtain ⟨hpermitted, -, -, hown⟩ := confined_of_performs touchReadDmiIdentity_oled hruns
  obtain ⟨-, hkick, -⟩ :=
    hown (avoids_barOutside hbar) steamDeckOled (by decide) ⟨by decide, v, rfl⟩
  exact ⟨t, v, hruns, hpermitted, hkick⟩

/-- A BAR0 that puts the reset register of the LPSS controller on that of a reset line: the driver
writes to the line of a profile that does not match. -/
theorem not_confined_of_performs : ¬∀ (entries : List ConfigurationEntry) (dmi : DmiIdentity)
    (t : List (Event Uefi)) (e : UefiOp), touchReadDmiIdentity entries = .ok dmi →
    PerformsUntilExit (touchI2cDxeEntry entries) t e →
    ∀ prof ∈ mProfiles, WritesReset prof e → touchProfileMatchesIdentity dmi prof = true := by
  intro h
  have hrelease : (((serialIoEntry.run {}).simulate (serialIoMachine 0xFED81410) ()).1[13]?).any
      (fun ev ↦ ev.op.writesTo steamDeckLcd.resetGpioReg.toUInt64) = true := by decide +kernel
  have hperforms : ∀ ev,
      ((serialIoEntry.run {}).simulate (serialIoMachine 0xFED81410) ()).1[13]? = some ev →
      ∃ t, PerformsUntilExit serialIoEntry t ev.op := by
    intro ev hev
    obtain ⟨k, hreach⟩ := Prog.performs_simulate hev
    exact ⟨_, .before (.entry hreach)⟩
  generalize ((serialIoEntry.run {}).simulate (serialIoMachine 0xFED81410) ()).1 = trace
    at hrelease hperforms
  obtain ⟨⟨e, r⟩, hev, hwrites⟩ := (Option.any_eq_true _ _).mp hrelease
  obtain ⟨t, hruns⟩ := hperforms _ hev
  cases e with
  | mmioWrite32 a v =>
    obtain rfl : a = steamDeckLcd.resetGpioReg.toUInt64 := beq_iff_eq.mp hwrites
    have hmatch := h _ _ _ _ touchReadDmiIdentity_serialIo hruns steamDeckLcd (by decide)
      ⟨by decide, v, rfl⟩
    exact absurd hmatch (by decide)
  | _ => contradiction

end TouchI2c
