import TouchI2c.Platform.Footprint
import TouchI2c.Touch.Footprint

/-!
# The footprint of the probes

What detection does outside of the DesignWare controllers: un-gating tiles, finding PCI functions,
kicking a reset line, and the probe of a MediaTek controller. Each is shown to end, within the
operations that it makes, together with what it leaves of the state.

`Work` is everything that an attempt may do, a transfer over any transport included; it is closed
under what the bus may access, so a footprint in it needs no case for the transport. A probe of the
MediaTek profile has a footprint of its own for each of its parts, because the search for a
controller of the firmware decides which of the two transports it uses.
-/

namespace TouchI2c

open CMemory Interaction

variable {d : TouchDev} {P : UefiOp → Prop}

/-! ## Work -/

/-- Everything but the management of events, timers, pool memory and the protocol. -/
def Work : UefiOp → Prop
  | .allocateDev | .freeDev | .allocatePool _ | .freePool _ => False
  | .createEvent _ | .closeEvent _ | .signalEvent _ | .setTimer _ _ | .cancelTimer _ => False
  | .installProtocol => False
  | _ => True

section

variable {e : UefiOp} {base : UInt64} {R : UInt64 → Prop}

theorem RegAccess.work (h : RegAccess base R e) : Work e := by
  cases e <;> first | exact h | exact trivial

theorem FwRequest.work {handle : ℕ} (h : FwRequest handle e) : Work e := by
  cases e <;> first | exact h | exact trivial

theorem MtkAccess.work {dmaBase : UInt64} (h : MtkAccess base dmaBase e) : Work e := by
  cases e <;> first | exact h | exact trivial

theorem HandleQuery.work (h : HandleQuery e) : Work e := by
  cases e <;> first | exact h | exact trivial

theorem AoacAccess.work {dev : UInt8} (h : AoacAccess dev e) : Work e := by
  cases e <;> first | exact h | exact trivial

theorem LpssAccess.work (h : LpssAccess e) : Work e := by
  rcases h with h | ⟨pciIo, h⟩ | ⟨bar, h⟩
  · exact h.work
  · cases e <;> first | exact h | exact trivial
  · exact h.work

theorem FirmwareQuery.work (h : FirmwareQuery e) : Work e := by
  cases e <;> first | exact h | exact trivial

/-- What the selected transport may access is work. -/
theorem BusAccess.work {bus : I2cBus} (h : BusAccess bus base R e) : Work e := by
  unfold BusAccess at h
  cases hkind : bus.mKind with
  | designWare =>
    rw [hkind] at h
    exact RegAccess.work h
  | mediaTek =>
    rw [hkind] at h
    exact MtkAccess.work h
  | firmware =>
    rw [hkind] at h
    exact FwRequest.work h

end

theorem PanelService.work {e : UefiOp} (h : PanelService e) : Work e := by
  cases e <;> first | exact h | exact trivial

theorem i2cBusDisable_work {bus : I2cBus} {base : UInt64} :
    (within Work).world.wpS (i2cBusDisable base) (fun _ bus' _ ↦ SameWindows bus bus') bus () :=
  i2cBusDisable_within (R := fun _ ↦ True) (fun _ he ↦ he.work) fun _ _ ↦ trivial

theorem logProfiles_work (dmi : DmiIdentity) (profs : List TouchProfile) :
    (logProfiles dmi profs).Within Work fun _ ↦ True := by
  induction profs with
  | nil => exact trivial
  | cons prof profs ih =>
    have hone : (logProfile dmi prof).Within Work fun _ ↦ True := by
      unfold logProfile
      split
      · rw [Prog.Within, World.wp_bind]
        refine wp_uefi.mpr ⟨trivial, fun _ ↦ ?_⟩
        rw [World.wp_bind]
        exact wp_uefi.mpr ⟨trivial, fun _ ↦ trivial⟩
      · exact trivial
    rw [logProfiles, Prog.Within, World.wp_bind]
    exact World.wp_mono hone fun _ _ _ ↦ ih

section

variable {σ : Type} {W : World Uefi σ} {J : σ → Prop} (hJ : W.Keeps Work J)

include hJ

theorem keeps_panel : W.Keeps PanelService J := fun e s he ↦ hJ e s he.work

/-- Transfers, and what the driver asks for besides, are work. -/
theorem pollRules_work {bus : I2cBus} {base : UInt64} {slaveAddr : UInt8} :
    PollRules W (fun _ ↦ J) bus base slaveAddr :=
  pollRules_of_access (keeps_panel hJ) (hJ.mono fun _ he ↦ he.work) slaveAddr

theorem routeRules_work {bus : I2cBus} {base : UInt64} : RouteRules W J bus base :=
  (@pollRules_work _ W J hJ bus base 0).toRouteRules

end

/-! ## Reset lines -/

/-- An access to a GPIO register, or a stall. -/
def GpioAccess (gpio : UInt64) : UefiOp → Prop
  | .mmioRead32 a | .mmioWrite32 a _ => a = gpio
  | .stall _ => True
  | _ => False

theorem GpioAccess.work {gpio : UInt64} {e : UefiOp} (h : GpioAccess gpio e) : Work e := by
  cases e <;> first | exact h | exact trivial

theorem touchResetKick_within {prof : TouchProfile}
    (hP : ∀ e, GpioAccess prof.resetGpioReg.toUInt64 e → P e) :
    (touchResetKick prof).Within P fun _ ↦ True := by
  have hpulse : ∀ reg, (pulseReset prof.resetGpioReg.toUInt64 reg).Within P fun _ ↦ True := by
    intro reg
    unfold pulseReset
    split
    · rw [Prog.Within, World.wp_bind]
      refine wp_uefi.mpr ⟨hP _ rfl, fun _ ↦ ?_⟩
      rw [World.wp_bind]
      exact wp_uefi.mpr ⟨hP _ trivial, fun _ ↦ wp_uefi.mpr ⟨hP _ rfl, fun _ ↦ trivial⟩⟩
    · exact wp_uefi.mpr ⟨hP _ rfl, fun _ ↦ trivial⟩
  rw [touchResetKick, Prog.Within, World.wp_bind]
  refine wp_uefi.mpr ⟨hP _ rfl, fun reg ↦ ?_⟩
  rw [World.wp_bind]
  refine World.wp_mono (hpulse reg) fun _ _ _ ↦ ?_
  rw [World.wp_bind]
  exact wp_uefi.mpr ⟨hP _ rfl, fun _ ↦ trivial⟩

theorem kickOnce_within {prof : TouchProfile}
    (hP : ∀ e, GpioAccess prof.resetGpioReg.toUInt64 e → P e) (p : ℕ) (status : EfiStatus) :
    (within P).world.wpS (kickOnce p prof status)
      (fun _ d' _ ↦ ∃ kicked, d' = { d with resetKicked := kicked }) d () := by
  rw [kickOnce, World.wpS_bind, World.wpS_get]
  split
  · rw [World.wpS_bind, World.wpS_lift]
    exact World.wp_mono (touchResetKick_within hP) fun _ _ _ ↦ ⟨_, rfl⟩
  · exact ⟨d.resetKicked, rfl⟩

/-! ## Targets of the sweep -/

theorem sweepPowerOn_within (hP : ∀ dev e, AoacAccess dev e → P e) (devs : List UInt8) :
    (sweepPowerOn devs).Within P fun _ ↦ True := by
  induction devs with
  | nil => exact trivial
  | cons dev devs ih =>
    rw [sweepPowerOn, Prog.Within, World.wp_bind]
    refine World.wp_mono (fchAoacPowerOnI2c_within (hP dev)) fun r _ _ ↦ ?_
    rw [World.wp_bind]
    exact World.wp_mono ih fun _ _ _ ↦ trivial

theorem sweepTargets_within (hP : ∀ dev e, AoacAccess dev e → P e) (hlpss : ∀ e, LpssAccess e → P e)
    (prof : TouchProfile) : (sweepTargets prof).Within P fun _ ↦ True := by
  unfold sweepTargets
  split
  · rw [Prog.Within, World.wp_bind]
    refine World.wp_mono (intelLpssPrepareI2c_within hlpss _ _ _) fun r _ _ ↦ ?_
    obtain ⟨status, base, fresh⟩ := r
    dsimp only
    split <;> exact trivial
  · split
    · exact trivial
    · rw [Prog.Within, World.wp_bind]
      exact World.wp_mono (sweepPowerOn_within hP _) fun _ _ _ ↦ trivial

end TouchI2c
