import TouchI2c.Touch.Windows

/-!
# Reset lines

A profile may know the GPIO register of its panel's reset line. The driver writes to it only after
the controller of that profile has answered and the panel behind it has not, and it does so in one
attempt at most: before the first write no reset line has been touched, and behind it comes only the
rest of that pulse.

## First and only

`FirstKick` says of a write that it belongs to the first pulse of the trace, and of what stands
directly before the pulse: a probe of the controller that answered, and a descriptor probe that did
not. The flag `ResetKicked` of a profile is set with its kick and never cleared, so a second attempt
does not repeat it. That no other profile kicks either is a fact about the table: no machine matches
two profiles with a reset line.

Until then the trace is `Unkicked`: as long as the line of a profile that matches is not noted as
kicked, no line has been written to. Every register access of a controller keeps it, the windows of
the reset lines lying elsewhere.

## BAR0 again

The controllers of the table miss the reset lines, and so does every window of 4 KiB that is aligned.
A BAR0 need not: the driver masks its flags only, so the private registers behind it can lie on the
register of a line. `MissesResets` is what is asked of a BAR0, and no more is (`BarOutside`).
-/

namespace TouchI2c

open CMemory Interaction

/-! ## The law -/

/-- A write to the register of a reset line. -/
def ResetWrite (e : UefiOp) : Prop :=
  ∃ prof ∈ mProfiles, prof.resetGpioReg ≠ 0 ∧ ∃ v, e = .mmioWrite32 prof.resetGpioReg.toUInt64 v

/-- Behind the trace `t` the operation belongs to the first kick of all, that of the reset line of
the profile: its controller has just answered, and its panel has not acknowledged its address. -/
def FirstKickOf (prof : TouchProfile) (t : List (Event Uefi)) (e : UefiOp) : Prop :=
  prof.platform = .amdFch ∧ ∃ s t₁ t₂ u timing d d' k, t = s ++ t₁ ++ t₂ ++ u ∧
    (∀ ev ∈ s ++ t₁ ++ t₂, ¬ResetWrite ev.op) ∧
    (dwI2cControllerPresent prof.i2cBase.toUInt64).Returns t₁ true ∧
    ((dwProbe prof.i2cBase.toUInt64 prof.slaveAddr prof.hidDescReg timing).run d).Returns t₂
      (.noResponse, d') ∧
    (touchResetKick prof).Reaches u (.op e k)

/-- The first kick is that of a profile that matches. -/
def FirstKick (dmi : DmiIdentity) (t : List (Event Uefi)) (e : UefiOp) : Prop :=
  ∃ prof ∈ mProfiles, touchProfileMatchesIdentity dmi prof = true ∧ FirstKickOf prof t e

/-! ## Reset registers -/

/-- Everything but a write to a reset line. -/
def NoReset (e : UefiOp) : Prop := ¬ResetWrite e

section

variable {dmi : DmiIdentity} {prof prof' : TouchProfile} {p q : ℕ} {e : UefiOp} {base : UInt64}
  {R : UInt64 → Prop}

private theorem reset_profiles (hprof : prof ∈ mProfiles) (hreset : prof.resetGpioReg ≠ 0) :
    prof = steamDeckOled ∨ prof = steamDeckLcd := by
  simp only [mProfiles, List.mem_cons, List.not_mem_nil, or_false] at hprof
  rcases hprof with rfl | rfl | rfl | rfl | rfl | rfl | rfl | rfl | rfl
  case inr.inr.inl => exact .inl rfl
  case inr.inr.inr.inl => exact .inr rfl
  all_goals exact absurd rfl hreset

/-- No machine matches two profiles with a reset line. -/
private theorem reset_unique (hp : mProfiles[p]? = some prof) (hq : mProfiles[q]? = some prof')
    (hreset : prof.resetGpioReg ≠ 0) (hreset' : prof'.resetGpioReg ≠ 0)
    (hmatch : touchProfileMatchesIdentity dmi prof = true)
    (hmatch' : touchProfileMatchesIdentity dmi prof' = true) : p = q := by
  have hproduct : ∀ {prof name}, prof.dmiProduct = some name →
      touchProfileMatchesIdentity dmi prof = true → asciiBytes name = cString dmi.product := by
    intro prof name hname h
    rw [touchProfileMatchesIdentity, hname, Bool.and_eq_true] at h
    exact beq_iff_eq.mp h.2
  have hnames : asciiBytes "Galileo" ≠ asciiBytes "Jupiter" := by decide
  have heq : prof = prof' := by
    rcases reset_profiles (List.mem_of_getElem? hp) hreset with rfl | rfl <;>
      rcases reset_profiles (List.mem_of_getElem? hq) hreset' with rfl | rfl
    · rfl
    · exact absurd ((hproduct rfl hmatch).trans (hproduct rfl hmatch').symm) hnames
    · exact absurd ((hproduct rfl hmatch').trans (hproduct rfl hmatch).symm) hnames
    · rfl
  subst heq
  have hlt : p < mProfiles.length := (List.getElem?_eq_some_iff.mp hp).1
  exact (List.getElem?_inj hlt (by decide)).mp (hp.trans hq.symm)

/-- The registers of a window that are before those of the reset lines. -/
private theorem noReset_of_regAccess (hbase : base % 0x1000 = 0) (hR : ∀ off, R off → off < 0x600)
    (h : RegAccess base R e) : NoReset e := by
  rintro ⟨prof, hprof, hreset, v, rfl⟩
  obtain ⟨off, hoff, heq⟩ := h
  have hlt := hR off hoff
  have hmod : prof.resetGpioReg.toUInt64 % 0x1000 = off := by
    rw [heq, offset_mod hbase (UInt64.lt_trans hlt (by decide))]
  subst hmod
  rcases reset_profiles hprof hreset with rfl | rfl <;> exact absurd hlt (by decide)

/-- The registers that the driver accesses of a controller, private ones included, are not those of
the reset lines. -/
def MissesResets (base : UInt64) : Prop :=
  ∀ e, RegAccess base (fun off ↦ IsDwOffset off ∨ off ∈ lpssOffsets) e → NoReset e

theorem IsController.missesResets (hbase : IsController base) : MissesResets base := by
  refine fun e ↦ noReset_of_regAccess hbase.1 fun off hoff ↦ ?_
  rcases hoff with hoff | hoff
  · exact UInt64.lt_trans hoff (by decide)
  · simp only [lpssOffsets, List.mem_cons, List.not_mem_nil, or_false] at hoff
    rcases hoff with rfl | rfl | rfl | rfl <;> decide

theorem avoids_barOutside {t : List (Event Uefi)} (h : Avoids UnusableBar t) :
    Avoids (BarOutside MissesResets) t := by
  intro t₁ t₂ t₃ heq hout
  obtain ⟨pciIo, bar, hret, hnot⟩ := hout
  exact h t₁ t₂ t₃ heq ⟨pciIo, bar, hret, fun hbase ↦ hnot hbase.missesResets⟩

private theorem noReset_of_dwOffset (hbase : MissesResets base) (hR : ∀ off, R off → IsDwOffset off)
    (h : RegAccess base R e) : NoReset e :=
  hbase e (RegAccess.mono (fun off hoff ↦ .inl (hR off hoff)) h)

private theorem noReset_of_lpss (hbase : MissesResets base)
    (h : RegAccess base (· ∈ lpssOffsets) e) : NoReset e := hbase e (RegAccess.mono (fun _ ↦ .inr) h)

private theorem AoacAccess.noReset {dev : UInt8} (h : AoacAccess dev e) : NoReset e := by
  rintro ⟨prof, -, -, v, rfl⟩
  exact h

private theorem PciAccess.noReset {pciIo : ℕ} (h : PciAccess pciIo e) : NoReset e := by
  rintro ⟨prof, -, -, v, rfl⟩
  exact h

private theorem outside_noReset : Outside NoReset where
  noAccess h := by
    rintro ⟨prof, -, -, v, rfl⟩
    exact h
  mtk {mtkBase e} h := by
    have hwindow : ∀ {a v}, MtkAccess mtkBase mtkDmaWindow (.mmioWrite32 a v) →
        RegAccess mtkDmaWindow (· < 0x80) (.mmioWrite32 a v) := id
    intro hreset
    obtain ⟨prof, hprof, hne, v, rfl⟩ := hreset
    exact noReset_of_regAccess (by decide) (fun off hoff ↦ UInt64.lt_trans hoff (by decide))
      (hwindow h) ⟨prof, hprof, hne, v, rfl⟩

private theorem logProfile_noReset (hprof : prof ∈ mProfiles) (dmi : DmiIdentity) :
    (logProfile dmi prof).Within NoReset fun _ ↦ True := by
  have hread : RegAccess prof.i2cBase.toUInt64 IsDwOffset
      (.mmioRead32 (prof.i2cBase.toUInt64 + dwIcCompType)) := ⟨dwIcCompType, by decide, rfl⟩
  have hstatus : AoacAccess prof.aoacDev (.mmioRead8 (fchAoacDevStatus prof.aoacDev)) := .inl rfl
  unfold logProfile
  split
  · rw [Prog.Within, World.wp_bind]
    refine wp_uefi.mpr ⟨hstatus.noReset, fun _ ↦ ?_⟩
    rw [World.wp_bind]
    exact wp_uefi.mpr ⟨noReset_of_dwOffset (isController_fixed hprof).missesResets (fun _ h ↦ h) hread,
      fun _ ↦ trivial⟩
  · exact trivial

end

/-! ## The world -/

/-- A reset line is written to only in its first kick. -/
private abbrev resetWorld (dmi : DmiIdentity) : World Uefi (List (Event Uefi)) :=
  recording (fun t e ↦ ResetWrite e → FirstKick dmi t e) (Avoids (BarOutside MissesResets))

/-- While the reset line of a profile that matches has not been kicked, none has been written to. -/
private structure Unkicked (dmi : DmiIdentity) (kicked : List Bool) (s : List (Event Uefi)) :
    Prop where
  bars : Avoids (BarOutside MissesResets) s
  untouched : ∀ {p prof}, mProfiles[p]? = some prof →
    touchProfileMatchesIdentity dmi prof = true → prof.resetGpioReg ≠ 0 →
    kicked.getD p true = false → ∀ ev ∈ s, ¬ResetWrite ev.op

section

variable {dmi : DmiIdentity} {kicked : List Bool} {prof : TouchProfile} {d : TouchDev}
  {s : List (Event Uefi)} {base : UInt64}

private theorem keeps_unkicked : (resetWorld dmi).Keeps NoReset (Unkicked dmi kicked) := by
  intro e s he h
  refine wp_perform_recording.mpr ⟨fun hreset ↦ absurd hreset he, fun r hbars ↦ ⟨hbars, ?_⟩⟩
  intro p prof hp hmatch hreset hnot ev hev
  rcases List.mem_append.mp hev with hev | hev
  · exact h.untouched hp hmatch hreset hnot ev hev
  · obtain rfl := List.mem_singleton.mp hev
    exact he

private theorem keeps_unkicked_regs {R : UInt64 → Prop} (hbase : MissesResets base)
    (hR : ∀ off, R off → IsDwOffset off) :
    (resetWorld dmi).Keeps (RegAccess base R) (Unkicked dmi kicked) :=
  keeps_unkicked.mono fun _ ↦ noReset_of_dwOffset hbase hR

private theorem keeps_unkicked_service : (resetWorld dmi).Keeps DriverService (Unkicked dmi kicked) :=
  keeps_unkicked.mono fun _ he ↦ outside_noReset.noAccess he.noAccess

/-- The transport of a panel, where it accesses no reset line. -/
private theorem panelPoll_unkicked {bus : I2cBus}
    (haccess : ∀ e, BusAccess bus base IsDwOffset e → NoReset e) (slaveAddr : UInt8) :
    PollRules (resetWorld dmi) (fun _ ↦ Unkicked dmi kicked) bus base slaveAddr :=
  pollRules_of_access (keeps_unkicked.mono fun _ he ↦ outside_noReset.noAccess he.noAccess)
    (keeps_unkicked.mono haccess) slaveAddr

private theorem lpssRules_unkicked : LpssRules (resetWorld dmi) MissesResets (Unkicked dmi kicked)
    fun _ _ ↦ Unkicked dmi kicked :=
  lpssRules_of_keeps PciAccess.noReset keeps_unkicked (fun _ h ↦ h.bars) (fun _ h ↦ h)
    (fun h ↦ outside_noReset.noAccess h.noAccess) noReset_of_lpss

/-! ## Detection -/

/-- Between the passes of detection the DesignWare transport is selected. -/
private structure Awaiting (dmi : DmiIdentity) (d : TouchDev) (s : List (Event Uefi)) : Prop where
  identity : d.dmi = dmi
  mKind : d.bus.mKind = .designWare
  unkicked : Unkicked dmi d.resetKicked s

/-- A panel that has been found: its transport accesses no reset line. -/
private structure Attached (dmi : DmiIdentity) (d : TouchDev) (s : List (Event Uefi)) : Prop where
  identity : d.dmi = dmi
  access : ∀ e, BusAccess d.bus d.i2cBase IsDwOffset e → NoReset e
  unkicked : Unkicked dmi d.resetKicked s

private theorem Awaiting.keeps {α : Type} {p : Prog Uefi α} {Q : α → Prop} (h : Awaiting dmi d s)
    (hp : p.Within NoReset Q) :
    (resetWorld dmi).wp p (fun a s' ↦ Q a ∧ Awaiting dmi d s') s :=
  World.wp_mono (keeps_unkicked.wp hp h.unkicked) fun _ _ h' ↦ ⟨h'.1, h.identity, h.mKind, h'.2⟩

private theorem controllerRules_unkicked (dmi : DmiIdentity) (prof : TouchProfile)
    (hbase : MissesResets base) (timing : Option DwI2cTiming) :
    ControllerRules (resetWorld dmi) prof base timing (Awaiting dmi) (Awaiting dmi) (Awaiting dmi)
      (Awaiting dmi) (Attached dmi) fun _ ↦ Awaiting dmi where
  present {d s} h := by
    refine World.wp_mono (h.keeps ((dwI2cControllerPresent_within (R := IsDwOffset)
      (by decide)).mono fun _ ↦ noReset_of_dwOffset hbase fun _ h ↦ h)) fun ok s' h' ↦ ?_
    split <;> exact h'.2
  init {d s} a h := by
    refine World.wp_mono (h.keeps ((dwI2cInit_within (R := IsDwOffset) (fun _ h ↦ h) a
      timing).mono fun _ ↦ noReset_of_dwOffset hbase fun _ h ↦ h)) fun status s' h' ↦ ?_
    split <;> exact h'.2
  read {d s a} descReg h := by
    have hread := i2cHidReadDescriptor_within (fun e (he : BusAccess d.bus base IsDwOffset e) ↦ he)
      (fun _ ↦ isDwOffset_of_mem_xfer) descReg d.hidDesc
    rw [BusAccess, h.mKind] at hread
    rw [wpS_readHidDesc]
    refine World.wpS_mono ((keeps_unkicked_regs hbase fun _ h ↦ h).wpS hread h.unkicked)
      fun r bus s' h' ↦ ?_
    obtain ⟨⟨hroute, -⟩, hunkicked⟩ := h'
    have hkind : bus.mKind = .designWare := hroute.mKind.trans h.mKind
    split
    · exact ⟨h.identity, hkind, hunkicked⟩
    · refine ⟨h.identity, fun e he ↦ noReset_of_dwOffset hbase (fun _ h ↦ h) ?_, hunkicked⟩
      have haccess : BusAccess bus base IsDwOffset e := he
      rwa [BusAccess, hkind] at haccess
  again h := h
  leave h := h

private theorem passRules_unkicked (dmi : DmiIdentity) :
    PassRules (resetWorld dmi) dmi MissesResets (Awaiting dmi) (Attached dmi)
      fun _ _ ↦ Awaiting dmi where
  identity h := h.identity
  fixed hprof _ _ := (isController_fixed hprof).missesResets
  sweep hbase := (isController_sweep hbase).missesResets
  controller _ _ _ _ hbase timing := controllerRules_unkicked dmi _ hbase timing
  disable {base a d s} hbase h := World.wp_mono (h.keeps ((dwI2cDisable_within (R := IsDwOffset)
    fun _ ↦ isDwOffset_of_mem_disable).mono fun _ ↦ noReset_of_dwOffset hbase fun _ h ↦ h))
    fun _ _ h' ↦ h'.2
  giveUp h := h
  power dev h := World.wp_mono (h.keeps (fchAoacPowerOnI2c_within fun _ ↦ AoacAccess.noReset))
    fun _ _ h' ↦ h'.2
  lpss {prof} _ _ _ d s h := by
    refine World.wp_mono (lpssRules_unkicked.wp_intelLpssPrepareI2c prof.pciDid prof.pciDev
      prof.pciFunc h.unkicked) fun r s' h' ↦ ?_
    split at h'
    · next herr =>
      exact ⟨⟨h.identity, h.mKind, h'⟩, fun hok ↦ absurd herr (by rw [hok]; decide)⟩
    · exact ⟨⟨h.identity, h.mKind, h'.2⟩, fun _ ↦ h'.1⟩
  mtk {prof} hprof _ hplatform d s slaveAddr descReg h := by
    obtain rfl := eq_proArtP16 hprof hplatform
    refine World.wpS_mono (keeps_unkicked.wpS (touchMtkProbe_outside outside_noReset h.mKind
      slaveAddr descReg) h.unkicked) fun status d' s' h' ↦ ?_
    obtain ⟨⟨hknown, hbus⟩, hunkicked⟩ := h'
    have hdmi : d'.dmi = dmi := (congrArg Prod.fst hknown).trans h.identity
    have hkicked : d'.resetKicked = d.resetKicked := congrArg Prod.snd hknown
    rw [← hkicked] at hunkicked
    split
    · next herr =>
      rw [if_pos herr] at hbus
      exact ⟨hdmi, hbus, hunkicked⟩
    · next hok =>
      rw [if_neg hok] at hbus
      exact ⟨hdmi, fun _ he ↦ hbus.outside outside_noReset he, hunkicked⟩

/-! ## The kick -/

/-- **A kick** comes behind a controller that has answered and a panel that has not. -/
private theorem wpS_kickOnce_first {p : ℕ} {timing : Option DwI2cTiming} {status : EfiStatus}
    {d₁ : TouchDev} {t₁ t₂ : List (Event Uefi)} (hp : mProfiles[p]? = some prof)
    (hmatch : touchProfileMatchesIdentity dmi prof = true) (hplatform : prof.platform = .amdFch)
    (hpresent : (dwI2cControllerPresent prof.i2cBase.toUInt64).Returns t₁ true)
    (hprobe : ((dwProbe prof.i2cBase.toUInt64 prof.slaveAddr prof.hidDescReg timing).run
      d₁).Returns t₂ (status, d))
    (h : Awaiting dmi d (s ++ t₁ ++ t₂)) :
    (resetWorld dmi).wpS (kickOnce p prof status) (fun _ d' s' ↦ Awaiting dmi d' s') d
      (s ++ t₁ ++ t₂) := by
  rw [kickOnce, World.wpS_bind, World.wpS_get]
  split
  · next hkick =>
    simp only [Bool.and_eq_true, bne_iff_ne, Bool.not_eq_true', beq_iff_eq] at hkick
    obtain ⟨⟨hreset, hnot⟩, rfl⟩ := hkick
    have huntouched := h.unkicked.untouched hp hmatch hreset hnot
    have hallowed : ∀ u e k, (touchResetKick prof).Reaches u (.op e k) →
        ResetWrite e → FirstKick dmi (s ++ t₁ ++ t₂ ++ u) e :=
      fun u e k hreach _ ↦ ⟨prof, List.mem_of_getElem? hp, hmatch, hplatform, s, t₁, t₂, u, timing,
        d₁, d, k, rfl, huntouched, hpresent, hprobe, hreach⟩
    rw [World.wpS_bind, World.wpS_lift]
    refine World.wp_mono (wp_trace (wp_of_reaches (touchResetKick_within fun _ h ↦ h) hallowed)
      h.unkicked.bars) fun _ s' h' ↦ ?_
    obtain ⟨-, hbars, -⟩ := h'
    refine ⟨h.identity, h.mKind, hbars, fun {q prof'} hq hmatch' hreset' hnot' ↦ ?_⟩
    -- the line that has been kicked is the only one
    obtain rfl := reset_unique hp hq hreset hreset' hmatch hmatch'
    rw [List.getD_eq_getElem?_getD, List.getElem?_set_self'] at hnot'
    cases hold : d.resetKicked[p]? <;> rw [hold] at hnot' <;> contradiction
  · exact h

private theorem wpS_amdPass_unkicked {p : ℕ} (hp : mProfiles[p]? = some prof)
    (hmatch : touchProfileMatchesIdentity dmi prof = true) (hplatform : prof.platform = .amdFch)
    (h : Awaiting dmi d s) : (resetWorld dmi).wpS (amdPass p prof)
      (fun found d' s' ↦ if found then Attached dmi d' s' else Awaiting dmi d' s') d s := by
  have hbase := (isController_fixed (List.mem_of_getElem? hp)).missesResets
  rw [amdPass, World.wpS_bind, World.wpS_lift]
  refine World.wp_mono (h.keeps (fchAoacPowerOnI2c_within fun _ ↦ AoacAccess.noReset))
    fun r s₁ h₁ ↦ ?_
  obtain ⟨status, fresh⟩ := r
  dsimp only
  split
  · exact h₁.2
  · have hrules := controllerRules_unkicked dmi prof hbase
      (if fresh then some gDwTimingAmdFch150M else none)
    rw [World.wpS_bind, World.wpS_lift]
    refine World.wp_mono (wp_trace (hrules.present h₁.2) h₁.2.unkicked.bars) fun ok s₂ h₂ ↦ ?_
    obtain ⟨h₂, hbars₂, t₁, rfl, hpresent⟩ := h₂
    cases ok with
    | false => exact h₂
    | true =>
      rw [if_pos rfl, World.wpS_bind]
      refine World.wpS_mono (wpS_trace (hrules.wpS_dwProbe prof.slaveAddr prof.hidDescReg h₂)
        hbars₂) fun status d₃ s₃ h₃ ↦ ?_
      obtain ⟨h₃, -, t₂, rfl, hprobe⟩ := h₃
      unfold noteFound
      split
      · next herr =>
        rw [if_pos herr] at h₃
        rw [World.wpS_bind, World.wpS_pure, if_neg Bool.false_ne_true, World.wpS_bind]
        exact World.wpS_mono (wpS_kickOnce_first hp hmatch hplatform hpresent hprobe
          (h₃.elim id id)) fun _ d₄ s₄ h₄ ↦ h₄
      · next hok =>
        rw [if_neg hok] at h₃
        exact h₃

/-! ## Runs -/

private theorem driverRules_unkicked (dmi : DmiIdentity) : DriverRules (resetWorld dmi) dmi
    (fun d s ↦ d.dmi = dmi ∧ Unkicked dmi d.resetKicked s) (Attached dmi) (Attached dmi) where
  identity h := h.1
  rest {d d' s} h heq := by
    have hdmi : d'.dmi = d.dmi := congrArg (·.1) heq
    have hkicked : d'.resetKicked = d.resetKicked := congrArg (·.2.2) heq
    exact ⟨hdmi.trans h.1, hkicked ▸ h.2⟩
  restService d e s he h :=
    World.wp_mono (keeps_unkicked_service e s he h.2) fun _ _ h' ↦ ⟨h.1, h'⟩
  live {d d' s} h heq := by
    have hrest : d'.atRest = d.atRest := congrArg (·.1) heq
    have hdmi : d'.dmi = d.dmi := congrArg (·.1) hrest
    have hbus : d'.bus = d.bus := congrArg (·.2.1) hrest
    have hkicked : d'.resetKicked = d.resetKicked := congrArg (·.2.2) hrest
    have hbase : d'.i2cBase = d.i2cBase := congrArg (·.2.1) heq
    refine ⟨hdmi.trans h.identity, ?_, hkicked ▸ h.unkicked⟩
    rw [hbus, hbase]
    exact h.access
  liveService d e s he h :=
    World.wp_mono (keeps_unkicked_service e s he h.unkicked) fun _ _ h' ↦ ⟨h.identity, h.access, h'⟩
  due h := ⟨h.identity, h.access, h.unkicked⟩
  log {prof} hprof d s h :=
    World.wp_mono (keeps_unkicked.wp (logProfile_noReset hprof dmi) h.2) fun _ _ h' ↦ ⟨h.1, h'.2⟩
  detect {d s} h := by
    have hrules := (passRules_unkicked dmi).detectRules
      fun {_ _} hp hmatch hplatform _ {_ _} h ↦ wpS_amdPass_unkicked hp hmatch hplatform h
    have hstart : Awaiting dmi
        { d.startAttempt with bus := { d.startAttempt.bus with mKind := .designWare } } s :=
      ⟨h.1, rfl, h.2⟩
    refine World.wpS_mono (hrules.wpS_touchDetect hstart) fun status d' s' h' ↦ ?_
    split at h'
    · next herr =>
      rw [if_pos herr]
      exact ⟨h'.identity, h'.unkicked⟩
    · next hok => rwa [if_neg hok]
  setUp {d s} h hvalid hready := by
    have hrules : PanelRules (resetWorld dmi) (Unkicked dmi d.resetKicked) d.bus d.i2cBase :=
      ⟨(panelPoll_unkicked h.access 0).toRouteRules, keeps_unkicked_service⟩
    refine World.wpS_mono (wpS_touchSetUp hrules hvalid hready h.unkicked) fun status d' s' h' ↦ ?_
    obtain ⟨hpost, hunkicked⟩ := h'
    have hdmi : d'.dmi = d.dmi := (congrArg TouchDev.dmi hpost.frame :)
    have hbase : d'.i2cBase = d.i2cBase := (congrArg TouchDev.i2cBase hpost.frame :)
    have hkicked : d'.resetKicked = d.resetKicked := (congrArg TouchDev.resetKicked hpost.frame :)
    rw [← hkicked] at hunkicked
    refine ⟨hpost, ?_⟩
    split
    · exact ⟨hdmi.trans h.identity, hunkicked⟩
    · exact ⟨hdmi.trans h.identity, hbase ▸ hpost.windows.access _ _ ▸ h.access, hunkicked⟩
  poll {d s} h := by
    refine ⟨_, panelPoll_unkicked h.access d.slaveAddr, h.unkicked, fun {d' s'} hpost hunkicked ↦ ?_⟩
    have hdmi : d'.dmi = d.dmi := (congrArg TouchDev.dmi hpost.frame :)
    have hbase : d'.i2cBase = d.i2cBase := (congrArg TouchDev.i2cBase hpost.frame :)
    have hkicked : d'.resetKicked = d.resetKicked := (congrArg TouchDev.resetKicked hpost.frame :)
    rw [← hkicked] at hunkicked
    exact ⟨hdmi.trans h.identity, hbase ▸ hpost.windows.access _ _ ▸ h.access, hunkicked⟩

private theorem wpS_exit_unkicked
    (haccess : d.ready = true → ∀ e, BusAccess d.bus d.i2cBase IsDwOffset e → NoReset e)
    (hs : Unkicked dmi kicked s) :
    (resetWorld dmi).wpS touchExitBootServices (fun _ _ _ ↦ True) d s := by
  refine wpS_touchExitBootServices keeps_unkicked_service hs (fun hready s' h' ↦ ?_)
    fun _ _ _ ↦ trivial
  exact World.wpS_mono (keeps_unkicked.wpS (i2cBusDisable_within (haccess hready)
    fun _ ↦ isDwOffset_of_mem_disable) h') fun _ _ _ _ ↦ trivial

end

/-- **A reset line is kicked once**, where no BAR0 puts the registers of a controller on it: a write
to the register of a reset line belongs to the first kick. -/
theorem firstKick_of_missesResets {entries : List ConfigurationEntry} {dmi : DmiIdentity}
    {t : List (Event Uefi)} {e : UefiOp} (hread : touchReadDmiIdentity entries = .ok dmi)
    (h : PerformsUntilExit (touchI2cDxeEntry entries) t e)
    (hbar : Avoids (BarOutside MissesResets) t) (hreset : ResetWrite e) : FirstKick dmi t e := by
  have hnil : Unkicked dmi ({} : TouchDev).resetKicked [] :=
    ⟨prefixClosed_avoids [] t hbar, fun _ _ _ _ ev hev ↦ absurd hev List.not_mem_nil⟩
  refine allowed_of_performsUntilExit hread (driverRules_unkicked dmi) ⟨rfl, hnil⟩
    (fun {d s} hready h ↦ wpS_exit_unkicked (fun _ ↦ h.access) h.unkicked)
    (fun {d d' s} hready h ↦ wpS_exit_unkicked (fun hready' ↦ ?_) h.2) h
    (path_recording prefixClosed_avoids hbar) rfl hreset
  exact absurd hready' (by rw [hready]; decide)

private theorem reset_inj {prof prof' : TouchProfile} (hprof : prof ∈ mProfiles)
    (hprof' : prof' ∈ mProfiles) (hreset : prof.resetGpioReg ≠ 0) (hreset' : prof'.resetGpioReg ≠ 0)
    (heq : prof.resetGpioReg.toUInt64 = prof'.resetGpioReg.toUInt64) : prof = prof' := by
  rcases reset_profiles hprof hreset with rfl | rfl <;>
    rcases reset_profiles hprof' hreset' with rfl | rfl <;> first
    | rfl
    | exact absurd heq (by decide)

/-- A write to the register of the reset line of the profile. -/
def WritesReset (prof : TouchProfile) (e : UefiOp) : Prop :=
  prof.resetGpioReg ≠ 0 ∧ ∃ v, e = .mmioWrite32 prof.resetGpioReg.toUInt64 v

/-- What a kick writes to a reset line goes to its own. -/
private theorem WritesReset.own {prof prof' : TouchProfile} {e : UefiOp} (hprof : prof ∈ mProfiles)
    (hprof' : prof' ∈ mProfiles) (h : WritesReset prof' e)
    (he : GpioAccess prof.resetGpioReg.toUInt64 e) : prof' = prof := by
  obtain ⟨hreset, v, rfl⟩ := h
  have heq : prof'.resetGpioReg.toUInt64 = prof.resetGpioReg.toUInt64 := he
  refine reset_inj hprof' hprof hreset (fun hzero ↦ hreset ?_) heq
  rw [hzero] at heq
  exact UInt32.toUInt64_inj.mp heq

/-- **Own and only**: the first kick writes to the line of its profile, and behind it no other line
is written to. -/
theorem FirstKickOf.own {prof prof' : TouchProfile} {t : List (Event Uefi)} {e : UefiOp}
    (hprof : prof ∈ mProfiles) (h : FirstKickOf prof t e) (hprof' : prof' ∈ mProfiles)
    (hwrites : WritesReset prof' e ∨ ∃ ev ∈ t, WritesReset prof' ev.op) : prof' = prof := by
  obtain ⟨-, s, t₁, t₂, u, -, -, -, k, rfl, hnone, -, -, hreach⟩ := h
  have hwithin : (touchResetKick prof).Within (GpioAccess prof.resetGpioReg.toUInt64) fun _ ↦ True :=
    touchResetKick_within fun _ he ↦ he
  rcases hwrites with hwrites | ⟨ev, hev, hwrites⟩
  · exact hwrites.own hprof hprof' (World.wp_allowed hwithin hreach (Monitor.path_after () u) rfl)
  · rcases List.mem_append.mp hev with hev | hev
    · exact absurd ⟨prof', hprof', hwrites⟩ (hnone ev hev)
    · exact hwrites.own hprof hprof' (Prog.Within.events hwithin hreach ev hev)

/-- **A reset line is kicked once**, where every BAR0 is the window of a controller: whatever is
performed in a run up to and including `TouchExitBootServices`, a write to the register of a reset
line belongs to the first kick, of a profile that matches what SMBIOS says, behind a controller that
has answered and a panel that has not. -/
theorem firstKick_of_performs {entries : List ConfigurationEntry} {dmi : DmiIdentity}
    {t : List (Event Uefi)} {e : UefiOp} (hread : touchReadDmiIdentity entries = .ok dmi)
    (h : PerformsUntilExit (touchI2cDxeEntry entries) t e) (hbar : Avoids UnusableBar t)
    (hreset : ResetWrite e) : FirstKick dmi t e :=
  firstKick_of_missesResets hread h (avoids_barOutside hbar) hreset

/-- A machine on whose controllers no address is acknowledged; its state is what was written to
`IC_ENABLE` last. -/
def nakMachine (enabled : UInt32) (e : UefiOp) : e.Ret × UInt32 :=
  match e with
  | .mmioRead8 _ => (fchAoacStateD0, enabled)
  | .mmioRead32 a =>
    (if a % 0x1000 = dwIcCompType then dwIcCompTypeValue
      else if a % 0x1000 = dwIcEnableStatus then enabled
      else if a % 0x1000 = dwIcStatus then dwIcStatusTfnf
      else if a % 0x1000 = dwIcRawIntrStat then dwIcIntrTxAbrt
      else if a % 0x1000 = dwIcTxAbrtSource then 1
      else 0, enabled)
  | .mmioWrite32 a v => ((), if a % 0x1000 = dwIcEnable then v else enabled)
  | e => (e.zeros, enabled)

/-- A Type 1 structure with the product of a profile with a reset line. -/
def oledTable : List UInt8 := [1, 6, 0, 0, 0, 1] ++ asciiBytes "Galileo" ++ [0, 0]

/-- The driver on that machine. -/
def oledEntry : Touch Unit := touchI2cDxeEntry [.smbios3 oledTable]

/-- The identity of the machine. -/
def oledIdentity : DmiIdentity := ⟨asciiBytes "Galileo" ++ List.replicate 25 0, List.replicate 32 0⟩

theorem touchReadDmiIdentity_oled : touchReadDmiIdentity [.smbios3 oledTable] = .ok oledIdentity := by
  decide

/-- On that machine the reset line is kicked. -/
theorem performs_kick_oled : ∃ t v,
    PerformsUntilExit oledEntry t (.mmioWrite32 steamDeckOled.resetGpioReg.toUInt64 v) ∧
      Avoids UnusableBar t := by
  -- the line is kicked after 28 operations
  have hkick : (((oledEntry.run {}).simulate nakMachine 0).1[28]?).any
      (fun ev ↦ ev.op.writesTo steamDeckOled.resetGpioReg.toUInt64) = true := by decide +kernel
  have hpci : (((oledEntry.run {}).simulate nakMachine 0).1.take 28).all
      (fun ev ↦ !ev.op.readsPci) = true := by decide +kernel
  have hperforms : ∀ ev, ((oledEntry.run {}).simulate nakMachine 0).1[28]? = some ev →
      Performs oledEntry (((oledEntry.run {}).simulate nakMachine 0).1.take 28) ev.op := by
    intro ev hev
    obtain ⟨k, hreach⟩ := Prog.performs_simulate hev
    exact .entry hreach
  generalize ((oledEntry.run {}).simulate nakMachine 0).1 = trace at hkick hpci hperforms
  obtain ⟨⟨e, r⟩, hev, hwrites⟩ := (Option.any_eq_true _ _).mp hkick
  cases e with
  | mmioWrite32 a v =>
    obtain rfl : a = steamDeckOled.resetGpioReg.toUInt64 := beq_iff_eq.mp hwrites
    exact ⟨_, v, .before (hperforms _ hev), avoids_unusableBar_of_all hpci⟩
  | _ => contradiction

theorem firstKick_of_performs_oled : ∃ t v,
    PerformsUntilExit oledEntry t (.mmioWrite32 steamDeckOled.resetGpioReg.toUInt64 v) ∧
      FirstKick oledIdentity t (.mmioWrite32 steamDeckOled.resetGpioReg.toUInt64 v) := by
  obtain ⟨t, v, hruns, hbar⟩ := performs_kick_oled
  exact ⟨t, v, hruns, firstKick_of_performs touchReadDmiIdentity_oled hruns hbar
    ⟨steamDeckOled, by decide, by decide, v, rfl⟩⟩

end TouchI2c
