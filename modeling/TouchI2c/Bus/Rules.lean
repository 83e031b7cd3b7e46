import TouchI2c.Bus.Footprint

/-!
# Rules for the transports

What a property `J` of the environment has to satisfy to be kept by whatever the driver does with
the panel it has found: every operation that is no access keeps it, and so does a transfer over the
selected transport.

A transfer may change the bus, but not its windows, so the rules are stated for every bus with the
windows of the one that was selected (`SameWindows`). Everything above a transfer, the HID layer and
the driver, is then a sequence of transfers and operations that are no access, and keeps `J` by its
syntax. `RouteRules` are what transfers and the queries about the display need, `PanelRules` what
everything the driver does with its panel needs.
-/

namespace TouchI2c

open CMemory Interaction

variable {σ : Type} {W : World Uefi σ} {J : σ → Prop} {bus bus' : I2cBus} {base : UInt64} {s : σ}

/-- Operations that are no access keep `J`. -/
def QuietKeeps (W : World Uefi σ) (J : σ → Prop) : Prop :=
  ∀ e s, NoAccess e → J s → W.wp (uefi e) (fun _ s' ↦ J s') s

/-- What the driver asks for besides transfers once it has found a panel: time, and the
display. -/
def PanelService : UefiOp → Prop
  | .stall _ | .locateGop | .gopResolution => True
  | _ => False

theorem PanelService.noAccess {e : UefiOp} (h : PanelService e) : NoAccess e := by
  cases e <;> first | exact h | exact trivial

/-- A question to the display. -/
def DisplayQuery : UefiOp → Prop
  | .locateGop | .gopResolution => True
  | _ => False

theorem DisplayQuery.panel {e : UefiOp} (h : DisplayQuery e) : PanelService e := by
  cases e <;> first | exact h | exact trivial

/-- What the driver asks for itself: events and timers, pool memory, its state, its protocol and the
TPL. -/
def DriverService : UefiOp → Prop
  | .allocateDev | .freeDev | .allocatePool _ | .freePool _ => True
  | .createEvent _ | .closeEvent _ | .signalEvent _ | .setTimer _ _ | .cancelTimer _ => True
  | .installProtocol | .raiseTpl | .restoreTpl => True
  | _ => False

theorem DriverService.noAccess {e : UefiOp} (h : DriverService e) : NoAccess e := by
  cases e <;> first | exact h | exact trivial

theorem QuietKeeps.service (h : QuietKeeps W J) : W.Keeps DriverService J :=
  fun e s he ↦ h e s he.noAccess

theorem QuietKeeps.panel (h : QuietKeeps W J) : W.Keeps PanelService J :=
  fun e s he ↦ h e s he.noAccess

/-- Transfers over the transport that `bus` selects keep `J`. -/
structure RouteRules (W : World Uefi σ) (J : σ → Prop) (bus : I2cBus) (base : UInt64) : Prop where
  quiet : W.Keeps PanelService J
  xfer : ∀ {bus' wBuf wLen rBuf rLen s}, SameWindows bus bus' → XferBuffers wBuf wLen rBuf rLen →
    J s → W.wpS (i2cBusXfer base wBuf wLen rBuf rLen)
      (fun r bus'' s' ↦ (SameTransport bus' bus'' ∧ SameSize rBuf r.2) ∧ J s') bus' s

/-- Everything that the driver does with a panel keeps `J`. -/
structure PanelRules (W : World Uefi σ) (J : σ → Prop) (bus : I2cBus) (base : UInt64) : Prop
    extends RouteRules W J bus base where
  service : W.Keeps DriverService J

theorem QuietKeeps.wp (h : QuietKeeps W J) {e : UefiOp} {Q : e.Ret → σ → Prop} (he : NoAccess e)
    (hs : J s) (hQ : ∀ r s', J s' → Q r s') : W.wp (uefi e) Q s :=
  World.wp_mono (h e s he hs) fun r s' h' ↦ hQ r s' h'

namespace RouteRules

theorem windows (rules : RouteRules W J bus base) (h : SameWindows bus bus') :
    RouteRules W J bus' base := ⟨rules.quiet, fun h' ↦ rules.xfer (h.trans h')⟩

theorem wpS_readRegister (rules : RouteRules W J bus base) (reg : UInt16)
    {buf : Option (List UInt8)} {len : ℕ} (hbuf : len ≤ (buf.getD []).length) (hs : J s) :
    W.wpS (i2cHidReadRegister base reg buf len)
      (fun r bus' s' ↦ (SameTransport bus bus' ∧ SameSize buf r.2) ∧ J s') bus s :=
  rules.xfer (SameWindows.refl bus) ⟨le_rfl, hbuf⟩ hs

theorem wpS_rawRead (rules : RouteRules W J bus base) {buf : Option (List UInt8)} {len : ℕ}
    (hbuf : len ≤ (buf.getD []).length) (hs : J s) :
    W.wpS (i2cHidRawRead base buf len)
      (fun r bus' s' ↦ (SameTransport bus bus' ∧ SameSize buf r.2) ∧ J s') bus s :=
  rules.xfer (SameWindows.refl bus) ⟨Nat.zero_le _, hbuf⟩ hs

theorem wpS_command (rules : RouteRules W J bus base) (cmdReg : UInt16) (arg opcode : UInt8)
    (hs : J s) : W.wpS (i2cHidCommand base cmdReg arg opcode)
      (fun _ bus' s' ↦ SameTransport bus bus' ∧ J s') bus s := by
  rw [i2cHidCommand, World.wpS_bind]
  exact World.wpS_mono (rules.xfer (SameWindows.refl bus) ⟨le_rfl, Nat.zero_le _⟩ hs)
    fun _ _ _ h ↦ ⟨h.1.1, h.2⟩

/-- A descriptor that is read successfully has passed its checks. -/
theorem wpS_readDescriptor (rules : RouteRules W J bus base) (descReg : UInt16)
    (desc : I2cHidDescriptor) (hs : J s) :
    W.wpS (i2cHidReadDescriptor base descReg desc) (fun r bus' s' ↦
      (SameTransport bus bus' ∧ (r.1.isError = false → r.2.valid = true)) ∧ J s') bus s := by
  rw [i2cHidReadDescriptor, World.wpS_bind]
  refine World.wpS_mono (rules.wpS_readRegister descReg desc.length_bytes.ge hs)
    fun r bus' s' h ↦ ?_
  obtain ⟨status, buf⟩ := r
  obtain ⟨⟨hroute, hsize⟩, hs'⟩ := h
  obtain ⟨desc', hdesc'⟩ := ofBytes_ok hsize
  rw [World.wpS_bind, World.wpS_liftChecked]
  refine ⟨desc', hdesc', ?_⟩
  split
  · next herr => exact ⟨⟨hroute, fun h ↦ absurd herr (by rw [h]; decide)⟩, hs'⟩
  split
  · next hvalid => exact ⟨⟨hroute, fun _ ↦ hvalid⟩, hs'⟩
  · exact ⟨⟨hroute, fun h ↦ by contradiction⟩, hs'⟩

end RouteRules

/-! ## Footprints -/

theorem quietKeeps_within {P : UefiOp → Prop} (hP : ∀ e, NoAccess e → P e) :
    QuietKeeps (within P).world fun _ ↦ True :=
  fun e _ he _ ↦ wp_uefi.mpr ⟨hP e he, fun _ ↦ trivial⟩

theorem routeRules_within {P : UefiOp → Prop} {R : UInt64 → Prop}
    (hquiet : ∀ e, PanelService e → P e)
    (hP : ∀ e, BusAccess bus base R e → P e) (hR : ∀ off ∈ xferOffsets, R off) :
    RouteRules (within P).world (fun _ ↦ True) bus base where
  quiet e _ he _ := wp_uefi.mpr ⟨hquiet e he, fun _ ↦ trivial⟩
  xfer {bus' _ _ _ _ _} hbus hbuf _ := by
    refine World.wpS_mono (i2cBusXfer_within (fun e he ↦ hP e ?_) hR hbuf) fun _ _ _ h ↦ ⟨h, trivial⟩
    rwa [hbus.access] at he

end TouchI2c
