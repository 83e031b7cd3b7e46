import TouchI2c.Interaction.History
import TouchI2c.Touch.Ready

/-!
# Detection and the transport agree

The transport is one module variable, which the probes of a MediaTek profile switch and restore. A
detection that fails leaves the DesignWare transport selected; one that succeeds leaves the
transport of the profile's platform, aimed at the panel whose descriptor it has read last; and the
passes of the other profiles never leave the DesignWare transport.

## What agreement means

Over DesignWare the last write of the target register at `I2cBase` is the slave address of the
driver, and the trace ends with a descriptor read there. Anything may happen before the write that
counts, writes to other registers do not count, and a descriptor read leaves the target alone. Over
the MediaTek transports the instance or the firmware's controller is aimed at the slave address;
which of the two is selected depends on what the search of this attempt has found, so the search is
part of the history that the rules carry.

## The passes

A run of detection is split into its passes (`DetectPasses`): those that have not found the panel,
and the one that has, which is the last. Each starts with the DesignWare transport selected, because
a MediaTek probe that fails restores it, and a pass of an AMD or Intel profile has no operation of
another transport.
-/

namespace TouchI2c

open CMemory Interaction

private theorem any_op {P : UefiOp → Prop} : ∀ e, P e → AnyOp e := fun _ _ ↦ trivial

/-! ## What a trace shows -/

/-- The last value that is written to a 32-bit register. -/
def lastWritten (a : UInt64) : Monitor Uefi (Option UInt32) where
  Allowed _ _ := True
  update s e _ := match e with
    | .mmioWrite32 a' v => if a' = a then some v else s
    | _ => s

/-- The last value that a trace writes to a 32-bit register. -/
def lastWrite (a : UInt64) (t : List (Event Uefi)) : Option UInt32 := (lastWritten a).after none t

/-- A trace ends with a successful read of the descriptor in `d` over the transport in `d`. -/
def EndsWithRead (t : List (Event Uefi)) (base : UInt64) (d : TouchDev) : Prop :=
  ∃ t₁ t₂ bus descReg desc, t = t₁ ++ t₂ ∧
    ((i2cHidReadDescriptor base descReg desc).run bus).Returns t₂ ((.success, d.hidDesc), d.bus) ∧
    SameRoute bus d.bus

/-- The firmware's controller has been searched for, with the result in `d`. -/
def Searched (prof : TouchProfile) (t : List (Event Uefi)) (d : TouchDev) : Prop :=
  ∃ t₁ t₂ t₃ status, t = t₁ ++ t₂ ++ t₃ ∧
    (i2cBusFindFirmwareController prof.acpiHid prof.acpiUid).Returns t₂ (status, d.fwBus) ∧
    d.fwBusFound = !status.isError

/-! ## Agreement -/

/-- The panel is behind the DesignWare controller at `I2cBase`. -/
structure OverDesignWare (t : List (Event Uefi)) (d : TouchDev) : Prop where
  mKind : d.bus.mKind = .designWare
  target : lastWrite (d.i2cBase + dwIcTar) t = some (d.slaveAddr.toUInt32 &&& 0x3FF)
  read : EndsWithRead t d.i2cBase d

/-- The panel is behind a MediaTek controller: the firmware's if there is one, else the one at
`I2cBase`. -/
structure OverMediaTek (prof : TouchProfile) (t : List (Event Uefi)) (d : TouchDev) : Prop where
  searched : Searched prof t d
  firmware : d.fwBusFound = true →
    d.bus.mKind = .firmware ∧ d.bus.mFw = { d.fwBus with slaveAddr := d.slaveAddr }
  direct : d.fwBusFound = false → d.bus.mKind = .mediaTek ∧ d.bus.mMtk = true ∧
    d.bus.mtk.base = d.i2cBase ∧ d.bus.mtk.dmaBase = prof.dmaBase.toUInt64 ∧
    d.bus.mtk.slaveAddr = d.slaveAddr
  read : EndsWithRead t 0 d

/-- The transport is that of the profile, and the descriptor came over it. -/
structure Agrees (t : List (Event Uefi)) (d : TouchDev) : Prop where
  profile : ∃ prof ∈ mProfiles, touchProfileMatchesIdentity d.dmi prof = true ∧
    d.profile = some prof ∧
    if prof.platform = .mtkI2c then OverMediaTek prof t d else OverDesignWare t d
  valid : d.hidDesc.valid = true

/-! ## Passes -/

/-- The passes that detection makes over the profiles. -/
inductive DetectPhase where
  | profile (p : ℕ)
  | sweep

/-- What a phase runs for a profile. -/
def DetectPhase.pass : DetectPhase → TouchProfile → Touch Bool
  | .profile p, prof => profilePass p prof
  | .sweep, prof => sweepPass prof

/-- A pass of a run of detection. -/
structure DetectPass where
  phase : DetectPhase
  prof : TouchProfile
  before : TouchDev
  trace : List (Event Uefi)
  found : Bool
  after : TouchDev

/-- The pass is a run of its phase. -/
def DetectPass.Runs (r : DetectPass) : Prop :=
  ((r.phase.pass r.prof).run r.before).Returns r.trace (r.found, r.after)

/-- Passes one after the other; the last may find the panel. -/
inductive DetectPasses : TouchDev → List DetectPass → TouchDev → Prop
  | nil (d : TouchDev) : DetectPasses d [] d
  | found {r : DetectPass} (hruns : r.Runs) (hfound : r.found = true) :
      DetectPasses r.before [r] r.after
  | cons {r : DetectPass} {rs : List DetectPass} {d : TouchDev} (hruns : r.Runs)
      (hleft : r.found = false) (h : DetectPasses r.after rs d) : DetectPasses r.before (r :: rs) d

/-- An operation that neither the MediaTek master nor the firmware's transport is for. -/
def DesignWareOp : UefiOp → Prop
  | .mmioRead16 _ | .mmioWrite16 _ _ => False
  | .storeDma _ _ | .loadDma _ _ => False
  | .queueRequest _ _ _ _ | .startRequest _ _ _ _ => False
  | _ => True

/-! ## The last target -/

section

variable {a : UInt64} {v : UInt32} {base : UInt64} {α δ : Type}

private theorem lastWrite_append (t t' : List (Event Uefi)) :
    lastWrite a (t ++ t') = (lastWritten a).after (lastWrite a t) t' := Monitor.after_append none t t'

private theorem lastWritten_any {P : UefiOp → Prop} {p : Prog Uefi α} {Q : α → Prop}
    (h : p.Within P Q) {s : Option UInt32} :
    (lastWritten a).world.wp p (fun b _ ↦ Q b) s :=
  World.wp_mono (Monitor.wp_of_within h (J := fun _ ↦ True) (fun _ _ _ _ ↦ ⟨trivial, fun _ ↦ trivial⟩)
    trivial) fun _ _ h ↦ h.1

private theorem lastWritten_keep {off : UInt64} {p : Prog Uefi α} {Q : α → Prop}
    (h : p.Within (RegAccess base (· ≠ off)) Q) {s : Option UInt32} :
    (lastWritten (base + off)).world.wp p (fun b s' ↦ Q b ∧ s' = s) s := by
  refine Monitor.wp_of_within h (J := fun s' ↦ s' = s) (fun s' e hs he ↦ ⟨trivial, fun r ↦ ?_⟩) rfl
  subst hs
  cases e with
  | mmioWrite32 a w =>
    obtain ⟨off', hoff, rfl⟩ := he
    exact if_neg fun heq ↦ hoff ((UInt64.add_right_inj base).mp heq)
  | _ => rfl

/-- After `DwI2cInit` the controller targets the address it was given. -/
private theorem dwI2cInit_target (addr : UInt8) (timing : Option DwI2cTiming)
    (s : Option UInt32) : (lastWritten (base + dwIcTar)).world.wp (dwI2cInit base addr timing)
      (fun status s' ↦ status.isError = false → s' = some (addr.toUInt32 &&& 0x3FF)) s := by
  have htar : ∀ s, (lastWritten (base + dwIcTar)).update s
      (.mmioWrite32 (base + dwIcTar) (addr.toUInt32 &&& 0x3FF)) ()
        = some (addr.toUInt32 &&& 0x3FF) := fun s ↦ if_pos rfl
  rw [dwI2cInit, World.wp_bind]
  refine World.wp_mono (lastWritten_any (dwI2cDisable_within (R := fun _ ↦ True) fun _ _ ↦ trivial))
    fun status s₁ _ ↦ ?_
  split
  · exact fun h ↦ by contradiction
  · rw [World.wp_bind]
    refine World.wp_mono (lastWritten_any (programTiming_within (R := fun _ ↦ True)
      (fun _ _ ↦ trivial) timing)) fun _ s₂ _ ↦ ?_
    rw [World.wp_bind, wp_regWr]
    refine ⟨trivial, ?_⟩
    rw [World.wp_bind, wp_regWr]
    refine ⟨trivial, ?_⟩
    rw [World.wp_bind, wp_regWr]
    refine ⟨trivial, ?_⟩
    rw [World.wp_bind, wp_regWr, htar]
    refine ⟨trivial, ?_⟩
    -- what follows writes the enable register only
    rw [World.wp_bind]
    refine World.wp_mono (lastWritten_keep (regWr_within (by decide) _)) fun _ s₃ h₃ ↦ ?_
    rw [World.wp_bind]
    refine World.wp_mono (lastWritten_keep (pollReg_within (by decide) _ _)) fun done s₄ h₄ ↦ ?_
    have hs₄ : s₄ = some (addr.toUInt32 &&& 0x3FF) := h₄.2.trans h₃.2
    cases done
    · exact fun h ↦ by contradiction
    · exact fun _ ↦ hs₄

/-- A descriptor read over the DesignWare transport leaves the target alone. -/
private theorem i2cHidReadDescriptor_target {descReg : UInt16} {desc : I2cHidDescriptor}
    {bus bus' : I2cBus} {r : EfiStatus × I2cHidDescriptor} {t : List (Event Uefi)}
    (hkind : bus.mKind = .designWare)
    (hret : ((i2cHidReadDescriptor base descReg desc).run bus).Returns t (r, bus'))
    (s : List (Event Uefi)) :
    lastWrite (base + dwIcTar) (s ++ t) = lastWrite (base + dwIcTar) s := by
  have hread : (within (RegAccess base (· ≠ dwIcTar))).world.wpS
      (i2cHidReadDescriptor base descReg desc) (fun _ _ _ ↦ True) bus () := by
    have hxfer : dwIcTar ∉ xferOffsets := by decide
    refine World.wpS_mono (i2cHidReadDescriptor_within (R := (· ≠ dwIcTar)) (fun e he ↦ ?_)
      (fun off hoff htar ↦ hxfer (htar ▸ hoff)) descReg desc) fun _ _ _ _ ↦ trivial
    rwa [BusAccess, hkind] at he
  rw [lastWrite_append]
  exact (Monitor.post_of_wp (lastWritten_keep hread) hret).2

end

private theorem i2cHidReadDescriptor_success {base : UInt64} {descReg : UInt16}
    {desc desc' : I2cHidDescriptor} {bus bus' : I2cBus} {status : EfiStatus}
    {t : List (Event Uefi)}
    (hret : ((i2cHidReadDescriptor base descReg desc).run bus).Returns t ((status, desc'), bus'))
    (hok : status.isError = false) : status = .success := by
  obtain ⟨_, _, ⟨status', buf⟩, _, rfl, -, hret⟩ := Prog.returnsS_bind.mp hret
  obtain ⟨_, _, desc'', _, rfl, -, hret⟩ := Prog.returnsS_bind.mp hret
  split at hret
  · next herr =>
    obtain ⟨-, heq, -⟩ := Prog.returnsS_pure.mp hret
    cases heq
    exact absurd herr (by rw [hok]; decide)
  split at hret
  · obtain ⟨-, heq, -⟩ := Prog.returnsS_pure.mp hret
    cases heq
    rfl
  · obtain ⟨-, heq, -⟩ := Prog.returnsS_pure.mp hret
    cases heq
    contradiction

/-! ## Detection and its history -/

/-- Between the passes the DesignWare transport is selected, and the history has the search for
the firmware's controller if it was made. -/
private structure Unselected (dmi : DmiIdentity) (d : TouchDev) (s : List (Event Uefi)) : Prop where
  identity : d.dmi = dmi
  mKind : d.bus.mKind = .designWare
  searched : d.fwBusSearched = true → Searched proArtP16 s d

/-- While a controller is probed it targets the address that is tried. -/
private structure Aimed (dmi : DmiIdentity) (base : UInt64) (a : UInt8) (d : TouchDev)
    (s : List (Event Uefi)) : Prop extends Unselected dmi d s where
  target : lastWrite (base + dwIcTar) s = some (a.toUInt32 &&& 0x3FF)

section

variable {dmi : DmiIdentity} {prof : TouchProfile} {base : UInt64} {d d' : TouchDev}
  {s : List (Event Uefi)} {α : Type}

private theorem Searched.append (h : Searched prof s d) (hfw : d'.fwBus = d.fwBus)
    (hfound : d'.fwBusFound = d.fwBusFound) (t : List (Event Uefi)) :
    Searched prof (s ++ t) d' := by
  obtain ⟨t₁, t₂, t₃, status, rfl, hret, hstatus⟩ := h
  refine ⟨t₁, t₂, t₃ ++ t, status, (List.append_assoc _ _ _), ?_, hfound.trans hstatus⟩
  rwa [hfw]

private theorem Unselected.append (h : Unselected dmi d s) (t : List (Event Uefi)) :
    Unselected dmi d (s ++ t) :=
  ⟨h.identity, h.mKind, fun hs ↦ (h.searched hs).append rfl rfl t⟩

private theorem Unselected.wp (h : Unselected dmi d s) {P : UefiOp → Prop} {p : Prog Uefi α}
    {Q : α → Prop} (hp : p.Within P Q) :
    history.world.wp p (fun _ s' ↦ Unselected dmi d s') s := by
  refine World.wp_mono hp.history fun _ s' h' ↦ ?_
  obtain ⟨-, t, rfl, -⟩ := h'
  exact h.append t

private theorem controllerRules_agrees (hprof : prof ∈ mProfiles)
    (hmatch : touchProfileMatchesIdentity dmi prof = true) (hplatform : prof.platform ≠ .mtkI2c)
    (base : UInt64) (timing : Option DwI2cTiming) :
    ControllerRules history.world prof base timing (Unselected dmi) (Unselected dmi)
      (Unselected dmi) (Unselected dmi) (fun d s ↦ Agrees s d) (Aimed dmi base) where
  present {d s} h := by
    refine World.wp_mono (h.wp (dwI2cControllerPresent_within (R := fun _ ↦ True) trivial))
      fun ok s' h' ↦ ?_
    split <;> exact h'
  init {d s} a h := by
    refine World.wp_mono (dwI2cInit_within (R := fun _ ↦ True) (fun _ _ ↦ trivial) a timing).history
      fun status s' h' ↦ ?_
    obtain ⟨-, t, rfl, hret⟩ := h'
    split
    · exact h.append t
    · next hok =>
      refine ⟨h.append t, ?_⟩
      rw [lastWrite_append]
      exact Monitor.post_of_wp (dwI2cInit_target a timing _) hret (by simpa using hok)
  read {d s a} descReg h := by
    rw [wpS_readHidDesc]
    refine World.wpS_mono (wpS_history (i2cHidReadDescriptor_within any_op (fun _ h ↦ h) descReg
      d.hidDesc)) fun r bus s' h' ↦ ?_
    obtain ⟨⟨hroute, hvalid⟩, t, rfl, hret⟩ := h'
    have htarget := (i2cHidReadDescriptor_target h.mKind hret s).trans h.target
    have hkind : bus.mKind = .designWare := hroute.mKind.trans h.mKind
    obtain ⟨status, desc⟩ := r
    split
    · exact ⟨⟨h.identity, hkind, fun hs ↦ (h.searched hs).append rfl rfl t⟩, htarget⟩
    · next hok =>
      refine ⟨⟨prof, hprof, ?_, rfl, ?_⟩, hvalid (by simpa using hok)⟩
      · rwa [← h.identity] at hmatch
      · rw [if_neg hplatform]
        refine ⟨hkind, htarget, s, t, d.bus, descReg, d.hidDesc, rfl, ?_,
          hroute.toSameRoute⟩
        obtain rfl : status = .success := i2cHidReadDescriptor_success hret (by simpa using hok)
        exact hret
  again h := h
  leave h := h

/-! ### The MediaTek profile -/

/-- The search for the firmware's controller becomes part of the history. -/
private theorem mtkSearchFirmware_agrees (h : Unselected dmi d s) :
    history.world.wpS (mtkSearchFirmware proArtP16)
      (fun _ d' s' ↦ Unselected dmi d' s' ∧ d'.fwBusSearched = true) d s := by
  rw [mtkSearchFirmware, World.wpS_bind, World.wpS_get]
  split
  · next hsearched => exact ⟨h, hsearched⟩
  · rw [World.wpS_bind, World.wpS_modify, World.wpS_bind, World.wpS_lift]
    refine World.wp_mono (i2cBusFindFirmwareController_within any_op _ _).history fun r s' h' ↦ ?_
    obtain ⟨-, t, rfl, hret⟩ := h'
    exact ⟨⟨h.identity, h.mKind, fun _ ↦ ⟨s, t, [], r.1, (List.append_nil _).symm, hret, rfl⟩⟩, rfl⟩

/-- A read over a transport that was selected for it. A failure restores the default. -/
private theorem mtkReadDescriptor_agrees (hdmi : d.dmi = dmi) (hsearched : Searched proArtP16 s d)
    (descReg : UInt16) :
    history.world.wpS (mtkReadDescriptor descReg) (fun status d' s' ↦
      if status.isError then Unselected dmi d' s'
      else ∃ t bus desc, s' = s ++ t ∧ d' = { d with bus := bus, hidDesc := desc } ∧
        SameRoute d.bus bus ∧ desc.valid = true ∧ EndsWithRead s' 0 d') d s := by
  rw [mtkReadDescriptor, World.wpS_bind, wpS_readHidDesc]
  refine World.wpS_mono (wpS_history (i2cHidReadDescriptor_within any_op (fun _ h ↦ h) descReg
    d.hidDesc)) fun r bus s' h' ↦ ?_
  obtain ⟨⟨hroute, hvalid⟩, t, rfl, hret⟩ := h'
  obtain ⟨status, desc⟩ := r
  rw [World.wpS_bind, mtkDeselect]
  split
  · next herr =>
    rw [wpS_onBus, i2cBusSelectDesignWare, World.wpS_modify, World.wpS_pure, if_pos herr]
    exact ⟨hdmi, rfl, fun _ ↦ hsearched.append rfl rfl t⟩
  · next hok =>
    obtain rfl : status = .success := i2cHidReadDescriptor_success hret (by simpa using hok)
    rw [World.wpS_pure, World.wpS_pure, if_neg hok]
    exact ⟨t, bus, desc, rfl, rfl, hroute.toSameRoute, hvalid rfl, s, t, d.bus, descReg, d.hidDesc,
      rfl, hret, hroute.toSameRoute⟩

private theorem touchMtkProbe_agrees (hmatch : touchProfileMatchesIdentity dmi proArtP16 = true)
    (h : Unselected dmi d s) (slaveAddr : UInt8) (descReg : UInt16) :
    history.world.wpS (touchMtkProbe proArtP16 slaveAddr descReg) (fun status d' s' ↦
      if status.isError then Unselected dmi d' s'
      else Agrees s' (TouchDev.found proArtP16 proArtP16.i2cBase.toUInt64 slaveAddr d')) d s := by
  have hprof : proArtP16 ∈ mProfiles := by decide
  rw [touchMtkProbe, World.wpS_bind]
  refine World.wpS_mono (mtkSearchFirmware_agrees h) fun _ d₁ s₁ h₁ ↦ ?_
  obtain ⟨hidle, hflag⟩ := h₁
  have hsearched := hidle.searched hflag
  rw [World.wpS_bind, World.wpS_get]
  split
  · next hfound =>
    rw [World.wpS_bind, wpS_onBus, i2cBusSelectFirmware, World.wpS_modify]
    refine World.wpS_mono (@mtkReadDescriptor_agrees dmi _ _ ?_ ?_ descReg)
      fun status d₂ s₂ h₂ ↦ ?_
    · exact hidle.identity
    · exact hsearched
    split
    · next herr => rwa [if_pos herr] at h₂
    · next hok =>
      rw [if_neg hok] at h₂
      obtain ⟨t, bus, desc, rfl, rfl, hroute, hvalid, hread⟩ := h₂
      -- the transport is that of the firmware: the search has found the controller in this attempt
      refine ⟨⟨proArtP16, hprof, hidle.identity ▸ hmatch, rfl, ?_⟩, hvalid⟩
      exact ⟨hsearched.append rfl rfl t, fun _ ↦ ⟨hroute.mKind, hroute.mFw⟩,
        fun hnot ↦ absurd hfound (by rw [show d₁.fwBusFound = false from hnot]; decide), hread⟩
  · next hnotFound =>
    rw [World.wpS_bind, wpS_onBus, wpS_onMtk]
    refine World.wpS_mono (wpS_history (mtkI2cInit_within slaveAddr)) fun status c s₂ h₂ ↦ ?_
    obtain ⟨htarget, t, rfl, -⟩ := h₂
    split
    · next herr =>
      rw [World.wpS_pure, if_pos herr]
      exact ⟨hidle.identity, hidle.mKind, fun _ ↦ hsearched.append rfl rfl t⟩
    · next hok =>
      obtain ⟨hbase, hdma, hslave⟩ := htarget (by simpa using hok)
      rw [World.wpS_bind, wpS_onBus, i2cBusSelectMediaTek, World.wpS_modify]
      refine World.wpS_mono (@mtkReadDescriptor_agrees dmi _ _ ?_ ?_ descReg)
        fun status d₂ s₂ h₂ ↦ ?_
      · exact hidle.identity
      · exact hsearched.append rfl rfl t
      split
      · next herr => rwa [if_pos herr] at h₂
      · next hok =>
        rw [if_neg hok] at h₂
        obtain ⟨t', bus, desc, rfl, rfl, hroute, hvalid, hread⟩ := h₂
        refine ⟨⟨proArtP16, hprof, hidle.identity ▸ hmatch, rfl, ?_⟩, hvalid⟩
        exact ⟨(hsearched.append rfl rfl t).append rfl rfl t', fun hyes ↦ absurd hyes hnotFound,
          fun _ ↦ ⟨hroute.mKind, hroute.mMtk, hroute.mtk.base.trans hbase,
            hroute.mtk.dmaBase.trans hdma, hroute.mtk.slaveAddr.trans hslave⟩, hread⟩

private theorem probeRules_agrees (dmi : DmiIdentity) :
    ProbeRules history.world dmi (fun _ ↦ True) (Unselected dmi) (fun d s ↦ Agrees s d)
      (Aimed dmi) where
  identity h := h.identity
  fixed _ _ _ := trivial
  sweep _ := trivial
  controller hprof hmatch hplatform base _ timing :=
    controllerRules_agrees hprof hmatch hplatform base timing
  disable _ h := h.wp (dwI2cDisable_within (R := fun _ ↦ True) fun _ _ ↦ trivial)
  giveUp h := h.toUnselected
  power _ h := h.wp (fchAoacPowerOnI2c_within any_op)
  lpss _ _ _ _ _ h := World.wp_mono (h.wp (intelLpssPrepareI2c_within any_op _ _ _))
    fun _ _ h' ↦ ⟨h', fun _ ↦ trivial⟩
  kick {p _} _ _ d s status h := by
    refine World.wpS_mono (wpS_history (kickOnce_within any_op p status)) fun _ d' s' h' ↦ ?_
    obtain ⟨⟨kicked, rfl⟩, t, rfl, -⟩ := h'
    exact ⟨h.identity, h.mKind, fun hs ↦ (h.searched hs).append rfl rfl t⟩
  mtk hprof hmatch hplatform d s slaveAddr descReg h := by
    obtain rfl := eq_proArtP16 hprof hplatform
    exact touchMtkProbe_agrees hmatch h slaveAddr descReg

/-- What a run of detection leaves. -/
private theorem touchDetect_outcome {t : List (Event Uefi)} {status : EfiStatus}
    (h : (touchDetect.run d.startAttempt).Returns t (status, d')) :
    if status.isError then d'.bus.mKind = .designWare else Agrees t d' := by
  have hidle : Unselected d.dmi
      { d.startAttempt with bus := { d.startAttempt.bus with mKind := .designWare } } [] :=
    ⟨rfl, rfl, fun h ↦ by contradiction⟩
  have hpost := Monitor.post_of_wpS ((probeRules_agrees d.dmi).detectRules.wpS_touchDetect
    hidle) h
  rw [history_after, List.nil_append] at hpost
  split
  · next herr =>
    rw [if_pos herr] at hpost
    exact hpost.mKind
  · next hok => rwa [if_neg hok] at hpost

end

/-! ## Detection and its passes -/

section

variable {d d₁ d' : TouchDev} {t : List (Event Uefi)}

private theorem DetectPasses.append {rs rs' : List DetectPass} (h : DetectPasses d rs d₁)
    (hleft : ∀ r ∈ rs, r.found = false) (h' : DetectPasses d₁ rs' d') :
    DetectPasses d (rs ++ rs') d' := by
  induction h with
  | nil => exact h'
  | found _ hfound =>
    rw [hleft _ List.mem_cons_self] at hfound
    contradiction
  | cons hruns hnot _ ih =>
    exact .cons hruns hnot (ih (fun r hr ↦ hleft r (List.mem_cons_of_mem _ hr)) h')

/-- The passes of a run, and whether the last has found the panel. -/
private def SplitsInto (d : TouchDev) (t : List (Event Uefi)) (found : Bool) (d' : TouchDev) : Prop :=
  ∃ rs, DetectPasses d rs d' ∧ t = rs.flatMap DetectPass.trace ∧
    (found = false → ∀ r ∈ rs, r.found = false)

private theorem SplitsInto.cons (phase : DetectPhase) {prof : TouchProfile} {t₁ t₂ : List (Event Uefi)}
    {found : Bool} (hpass : ((phase.pass prof).run d).Returns t₁ (false, d₁))
    (h : SplitsInto d₁ t₂ found d') : SplitsInto d (t₁ ++ t₂) found d' := by
  obtain ⟨rs, hrs, rfl, hleft⟩ := h
  have hruns : (⟨phase, prof, d, t₁, false, d₁⟩ : DetectPass).Runs := hpass
  refine ⟨_ :: rs, .cons hruns rfl hrs, rfl, fun hfound r hr ↦ ?_⟩
  obtain rfl | hr := List.mem_cons.mp hr
  · rfl
  · exact hleft hfound r hr

private theorem SplitsInto.last (phase : DetectPhase) {prof : TouchProfile}
    (hpass : ((phase.pass prof).run d).Returns t (true, d')) : SplitsInto d t true d' := by
  have hruns : (⟨phase, prof, d, t, true, d'⟩ : DetectPass).Runs := hpass
  exact ⟨[_], .found hruns rfl, (List.append_nil t).symm, fun h ↦ by contradiction⟩

private theorem profilePasses_splits {profs : List TouchProfile} {p : ℕ} {matched : Bool}
    {r : Option Bool} (h : ((profilePasses p matched profs).run d).Returns t (r, d')) :
    SplitsInto d t r.isNone d' := by
  induction profs generalizing p matched d t with
  | nil =>
    obtain ⟨rfl, -, rfl⟩ := Prog.returnsS_pure.mp h
    exact ⟨[], .nil d, rfl, fun _ r hr ↦ absurd hr List.not_mem_nil⟩
  | cons prof profs ih =>
    obtain ⟨_, t₁, _, _, rfl, hget, h⟩ := Prog.returnsS_bind.mp h
    obtain ⟨rfl, rfl, rfl⟩ := Prog.returnsS_get.mp hget
    rw [List.nil_append]
    split at h
    · obtain ⟨t₂, t₃, found, d₂, rfl, hpass, h⟩ := Prog.returnsS_bind.mp h
      cases found with
      | true =>
        obtain ⟨rfl, rfl, rfl⟩ := Prog.returnsS_pure.mp h
        rw [List.append_nil]
        exact SplitsInto.last (.profile p) hpass
      | false => exact SplitsInto.cons (.profile p) hpass (ih h)
    · exact ih h

private theorem sweepPasses_splits {profs : List TouchProfile} {found : Bool}
    (h : ((tryEach sweepPass profs).run d).Returns t (found, d')) : SplitsInto d t found d' := by
  induction profs generalizing d t with
  | nil =>
    obtain ⟨rfl, rfl, rfl⟩ := Prog.returnsS_pure.mp h
    exact ⟨[], .nil d, rfl, fun _ r hr ↦ absurd hr List.not_mem_nil⟩
  | cons prof profs ih =>
    obtain ⟨t₁, t₂, found₁, d₁, rfl, hpass, h⟩ := Prog.returnsS_bind.mp h
    cases found₁ with
    | true =>
      obtain ⟨rfl, rfl, rfl⟩ := Prog.returnsS_pure.mp h
      rw [List.append_nil]
      exact SplitsInto.last .sweep hpass
    | false => exact SplitsInto.cons .sweep hpass (ih h)

private theorem touchDetect_splits {status : EfiStatus}
    (h : (touchDetect.run d).Returns t (status, d')) :
    ∃ found, SplitsInto { d with bus := { d.bus with mKind := .designWare } } t found d' := by
  obtain ⟨_, t₁, _, _, rfl, hselect, h⟩ := Prog.returnsS_bind.mp h
  obtain ⟨bus, hbus, rfl⟩ := returns_onBus.mp hselect
  obtain ⟨rfl, rfl⟩ := Prog.returnsS_modify.mp hbus
  obtain ⟨t₂, t₃, r, d₂, rfl, hpasses, h⟩ := Prog.returnsS_bind.mp h
  have hprofiles := profilePasses_splits hpasses
  cases r with
  | none =>
    obtain ⟨rfl, -, rfl⟩ := Prog.returnsS_pure.mp h
    rw [List.append_nil]
    exact ⟨_, hprofiles⟩
  | some matched =>
    cases matched with
    | false =>
      obtain ⟨rfl, -, rfl⟩ := Prog.returnsS_pure.mp h
      rw [List.append_nil]
      exact ⟨_, hprofiles⟩
    | true =>
      obtain ⟨t₄, t₅, found, d₃, rfl, hsweep, h⟩ := Prog.returnsS_bind.mp h
      obtain ⟨rs, hrs, rfl, hleft⟩ := hprofiles
      obtain ⟨rs', hrs', rfl, hleft'⟩ := sweepPasses_splits hsweep
      have hend : t₅ = [] ∧ d₃ = d' := by
        cases found with
        | true =>
          obtain ⟨rfl, -, rfl⟩ := Prog.returnsS_pure.mp h
          exact ⟨rfl, rfl⟩
        | false =>
          obtain ⟨rfl, -, rfl⟩ := Prog.returnsS_pure.mp h
          exact ⟨rfl, rfl⟩
      obtain ⟨rfl, rfl⟩ := hend
      refine ⟨found, rs ++ rs', hrs.append (hleft rfl) hrs', ?_, fun hfound r hr ↦ ?_⟩
      · rw [List.flatMap_append, List.append_nil]
        rfl
      · exact (List.mem_append.mp hr).elim (hleft rfl r) (hleft' hfound r)

/-! ## The selected transport from pass to pass -/

/-- The DesignWare transport is selected. -/
private def OnDesignWare (d : TouchDev) (_ : Unit) : Prop := d.bus.mKind = .designWare

private theorem RegAccess.designWareOp {base : UInt64} {R : UInt64 → Prop} {e : UefiOp}
    (h : RegAccess base R e) : DesignWareOp e := by
  cases e with
  | mmioRead32 | mmioWrite32 => exact trivial
  | _ => exact h.elim

private theorem AoacAccess.designWareOp {dev : UInt8} {e : UefiOp} (h : AoacAccess dev e) :
    DesignWareOp e := by
  cases e with
  | mmioRead16 | mmioWrite16 | storeDma | loadDma | queueRequest | startRequest => exact h.elim
  | _ => exact trivial

private theorem LpssAccess.designWareOp {e : UefiOp} (h : LpssAccess e) : DesignWareOp e := by
  rcases h with h | ⟨pciIo, h⟩ | ⟨bar, h⟩
  · cases e with
    | mmioRead16 | mmioWrite16 | storeDma | loadDma | queueRequest | startRequest => exact h.elim
    | _ => exact trivial
  · cases e with
    | mmioRead16 | mmioWrite16 | storeDma | loadDma | queueRequest | startRequest => exact h.elim
    | _ => exact trivial
  · exact RegAccess.designWareOp h

private theorem GpioAccess.designWareOp {gpio : UInt64} {e : UefiOp} (h : GpioAccess gpio e) :
    DesignWareOp e := by
  cases e with
  | mmioRead16 | mmioWrite16 | storeDma | loadDma | queueRequest | startRequest => exact h.elim
  | _ => exact trivial

private theorem controllerRules_designWare (prof : TouchProfile) (base : UInt64)
    (timing : Option DwI2cTiming) :
    ControllerRules (within DesignWareOp).world prof base timing OnDesignWare OnDesignWare
      OnDesignWare OnDesignWare OnDesignWare fun _ ↦ OnDesignWare where
  present h := by
    refine World.wp_mono (Prog.Within.mono (dwI2cControllerPresent_within
      (R := fun _ ↦ True) trivial) fun _ ↦ RegAccess.designWareOp) fun ok _ _ ↦ ?_
    split <;> exact h
  init a h := by
    refine World.wp_mono (Prog.Within.mono (dwI2cInit_within (R := fun _ ↦ True)
      (fun _ _ ↦ trivial) a timing) fun _ ↦ RegAccess.designWareOp) fun status _ _ ↦ ?_
    split <;> exact h
  read {d s a} descReg h := by
    rw [wpS_readHidDesc]
    refine World.wpS_mono (i2cHidReadDescriptor_within (R := fun _ ↦ True) (fun e he ↦ ?_)
      (fun _ _ ↦ trivial) descReg d.hidDesc) fun r bus _ h' ↦ ?_
    · rw [BusAccess, show d.bus.mKind = .designWare from h] at he
      exact he.designWareOp
    · have hkind : bus.mKind = .designWare := h'.1.mKind.trans h
      split <;> exact hkind
  again h := h
  leave h := h

private theorem designWarePass_within (phase : DetectPhase) {prof : TouchProfile}
    (hplatform : prof.platform ≠ .mtkI2c) (h : OnDesignWare d ()) :
    (within DesignWareOp).world.wpS (phase.pass prof) (fun _ d' s' ↦ OnDesignWare d' s') d () := by
  have hrules := controllerRules_designWare prof
  have hlpss := fun e ↦ @LpssAccess.designWareOp e
  have haoac := fun dev e ↦ @AoacAccess.designWareOp dev e
  have hsame : ∀ (found : Bool) (d' : TouchDev) s',
      (if found then OnDesignWare d' s' else OnDesignWare d' s') → OnDesignWare d' s' :=
    fun found _ _ h ↦ by cases found <;> exact h
  cases phase with
  | profile p =>
    change (within DesignWareOp).world.wpS (profilePass p prof) _ _ _
    unfold profilePass
    cases hp : prof.platform with
    | mtkI2c => exact absurd hp hplatform
    | intelLpss =>
      refine World.wpS_mono (wpS_intelPass hrules (World.wp_mono
        (intelLpssPrepareI2c_within hlpss _ _ _) fun r _ _ ↦ ?_) id) hsame
      split <;> exact h
    | amdFch =>
      dsimp only
      split
      · exact h
      · refine World.wpS_mono (wpS_amdPass hrules (World.wp_mono
          (fchAoacPowerOnI2c_within (haoac _)) fun r _ _ ↦ ?_) fun h₁ ↦ ?_) hsame
        · split <;> exact h
        · refine World.wpS_mono (kickOnce_within (fun _ ↦ GpioAccess.designWareOp) p _)
            fun _ d' _ h₂ ↦ ?_
          obtain ⟨kicked, rfl⟩ := h₂
          exact h₁.elim id id
  | sweep =>
    change (within DesignWareOp).world.wpS (sweepPass prof) _ _ _
    have hsweep : (within DesignWareOp).world.wpS
        (do tryEach (sweepBase prof) (← sweepTargets prof) : Touch Bool)
        (fun _ d' s' ↦ OnDesignWare d' s') d () := by
      rw [World.wpS_bind, World.wpS_lift]
      refine World.wp_mono (sweepTargets_within haoac hlpss prof) fun targets _ _ ↦
        World.wpS_mono (wpS_tryEach OnDesignWare (fun target _ d _ h ↦ ?_) h) hsame
      refine (hrules target.1 target.2).wpS_sweepBase (fun {a d _} h ↦ ?_) h
      exact World.wp_mono (Prog.Within.mono (dwI2cDisable_within (R := fun _ ↦ True)
        fun _ _ ↦ trivial) fun _ ↦ RegAccess.designWareOp) fun _ _ _ ↦ h
    rw [sweepPass, World.wpS_bind, World.wpS_get]
    split
    · cases hp : prof.platform with
      | mtkI2c => exact absurd hp hplatform
      | intelLpss => exact hsweep
      | amdFch => exact hsweep
    · exact h

private theorem touchMtkProbe_restores (h : OnDesignWare d ()) (prof : TouchProfile)
    (slaveAddr : UInt8) (descReg : UInt16) :
    (within AnyOp).world.wpS (touchMtkProbe prof slaveAddr descReg)
      (fun status d' s' ↦ status.isError = true → OnDesignWare d' s') d () := by
  have hsearch : (within AnyOp).world.wpS (mtkSearchFirmware prof)
      (fun _ d' s' ↦ OnDesignWare d' s') d () := by
    rw [mtkSearchFirmware, World.wpS_bind, World.wpS_get]
    split
    · exact h
    · rw [World.wpS_bind, World.wpS_modify, World.wpS_bind, World.wpS_lift]
      exact World.wp_mono (i2cBusFindFirmwareController_within any_op _ _) fun _ _ _ ↦ h
  have hread : ∀ d, (within AnyOp).world.wpS (mtkReadDescriptor descReg)
      (fun status d' s' ↦ status.isError = true → OnDesignWare d' s') d () := by
    intro d
    rw [mtkReadDescriptor, World.wpS_bind, wpS_readHidDesc]
    refine World.wpS_mono (i2cHidReadDescriptor_within any_op (fun _ h ↦ h) descReg d.hidDesc)
      fun r bus _ _ ↦ ?_
    rw [World.wpS_bind, mtkDeselect]
    split
    · rw [wpS_onBus, i2cBusSelectDesignWare, World.wpS_modify]
      exact fun _ ↦ rfl
    · next hok => exact fun herr ↦ absurd herr hok
  rw [touchMtkProbe, World.wpS_bind]
  refine World.wpS_mono hsearch fun _ d₁ _ h₁ ↦ ?_
  rw [World.wpS_bind, World.wpS_get]
  split
  · rw [World.wpS_bind, wpS_onBus, i2cBusSelectFirmware, World.wpS_modify]
    exact hread _
  · rw [World.wpS_bind, wpS_onBus, wpS_onMtk]
    refine World.wpS_mono (wpS_within_mono (mtkI2cInit_within slaveAddr) any_op)
      fun status c _ _ ↦ ?_
    split
    · exact fun _ ↦ h₁
    · rw [World.wpS_bind, wpS_onBus, i2cBusSelectMediaTek, World.wpS_modify]
      exact hread _

/-- A pass of a MediaTek profile that does not find the panel restores the default transport. -/
private theorem mtkPass_restores (phase : DetectPhase) {prof : TouchProfile}
    (hplatform : prof.platform = .mtkI2c) (h : OnDesignWare d ()) :
    (within AnyOp).world.wpS (phase.pass prof)
      (fun found d' s' ↦ found = false → OnDesignWare d' s') d () := by
  have hprobe : ∀ {d}, OnDesignWare d () → ∀ base slaveAddr descReg,
      (within AnyOp).world.wpS (do
        noteFound prof base slaveAddr (← touchMtkProbe prof slaveAddr descReg))
        (fun found d' s' ↦ found = false → OnDesignWare d' s') d () := by
    intro d h base slaveAddr descReg
    rw [World.wpS_bind]
    refine World.wpS_mono (touchMtkProbe_restores h prof slaveAddr descReg)
      fun status d₁ _ h₁ ↦ ?_
    unfold noteFound
    split
    · next herr => exact fun _ ↦ h₁ herr
    · exact fun h ↦ by contradiction
  cases phase with
  | profile p =>
    change (within AnyOp).world.wpS (profilePass p prof) _ _ _
    unfold profilePass
    rw [hplatform]
    exact hprobe h _ _ _
  | sweep =>
    change (within AnyOp).world.wpS (sweepPass prof) _ _ _
    have hone : ∀ candidate ∈ mCandidates, ∀ d s, OnDesignWare d s →
        (within AnyOp).world.wpS (mtkSweepOne prof candidate)
          (fun found d' s' ↦ if found then True else OnDesignWare d' s') d s := by
      intro candidate _ d s h
      rw [mtkSweepOne]
      split
      · exact h
      · refine World.wpS_mono (hprobe h _ _ _) fun found d' s' h' ↦ ?_
        cases found with
        | true => exact trivial
        | false => exact h' rfl
    rw [sweepPass, World.wpS_bind, World.wpS_get]
    split
    · rw [hplatform]
      refine World.wpS_mono (wpS_tryEach OnDesignWare hone h) fun found d' s' h' hfound ↦ ?_
      rwa [hfound] at h'
    · exact fun _ ↦ h

/-- The passes start with the DesignWare transport selected, and those of the AMD and Intel
profiles keep to it. -/
private theorem DetectPasses.designWare {rs : List DetectPass} (h : DetectPasses d rs d')
    (hd : OnDesignWare d ()) : ∀ r ∈ rs, r.before.bus.mKind = .designWare ∧
      (r.prof.platform ≠ .mtkI2c →
        r.after.bus.mKind = .designWare ∧ ∀ ev ∈ r.trace, DesignWareOp ev.op) := by
  have hone : ∀ {r : DetectPass}, r.Runs → OnDesignWare r.before () →
      r.before.bus.mKind = .designWare ∧ (r.prof.platform ≠ .mtkI2c →
        r.after.bus.mKind = .designWare ∧ ∀ ev ∈ r.trace, DesignWareOp ev.op) := by
    intro r hruns hbefore
    refine ⟨hbefore, fun hplatform ↦ ?_⟩
    have hwithin := designWarePass_within r.phase hplatform hbefore
    refine ⟨Monitor.post_of_wpS hwithin hruns, fun ev hev ↦ ?_⟩
    obtain ⟨t₁, t₂, htrace⟩ := List.append_of_mem hev
    exact Monitor.accepts_of_wp hwithin hruns t₁ ev t₂ htrace
  induction h with
  | nil => exact fun r hr ↦ absurd hr List.not_mem_nil
  | found hruns _ =>
    intro r hr
    obtain rfl := List.mem_singleton.mp hr
    exact hone hruns hd
  | @cons r rs d' hruns hleft _ ih =>
    have hafter : OnDesignWare r.after () := by
      by_cases hplatform : r.prof.platform = .mtkI2c
      · exact Monitor.post_of_wpS (mtkPass_restores r.phase hplatform hd) hruns hleft
      · exact ((hone hruns hd).2 hplatform).1
    intro r' hr'
    obtain rfl | hr' := List.mem_cons.mp hr'
    · exact hone hruns hd
    · exact ih hafter r' hr'

/-! ## The theorem -/

/-- **Detection and transport agree**, from any state that an attempt can start from and whatever
the environment answers: a failed detection leaves the DesignWare transport selected; a successful
one leaves the transport, the target and the descriptor of the panel it has found; and it is made
of passes of which those of the AMD and Intel profiles use the DesignWare transport only. -/
theorem touchDetect_agrees {status : EfiStatus}
    (h : (touchDetect.run d.startAttempt).Returns t (status, d')) :
    (status.isError = true → d'.bus.mKind = .designWare) ∧
    (status.isError = false → Agrees t d') ∧
    ∃ rs, DetectPasses
        { d.startAttempt with bus := { d.startAttempt.bus with mKind := .designWare } } rs d' ∧
      t = rs.flatMap DetectPass.trace ∧
      ∀ r ∈ rs, r.before.bus.mKind = .designWare ∧ (r.prof.platform ≠ .mtkI2c →
        r.after.bus.mKind = .designWare ∧ ∀ ev ∈ r.trace, DesignWareOp ev.op) := by
  have houtcome := touchDetect_outcome h
  obtain ⟨found, rs, hrs, htrace, -⟩ := touchDetect_splits h
  refine ⟨fun herr ↦ ?_, fun hok ↦ ?_, rs, hrs, htrace, hrs.designWare rfl⟩
  · rwa [if_pos herr] at houtcome
  · rwa [if_neg (by rw [hok]; decide)] at houtcome

end

/-- A driver that has read the board name of the MediaTek profile. -/
def panelIdentified : TouchDev :=
  { dmi := ⟨List.replicate 32 0, asciiBytes "H7607BA" ++ List.replicate 25 0⟩ }

theorem touchDetect_agrees_panel : ∃ t d',
    (touchDetect.run panelIdentified.startAttempt).Returns t (.success, d') ∧ Agrees t d' ∧
      d'.bus.mKind = .firmware := by
  have hkind : ((touchDetect.run panelIdentified.startAttempt).simulate panelMachine {}).2.map
      (fun r ↦ (r.1, r.2.bus.mKind)) = some (.success, .firmware) := by decide +kernel
  obtain ⟨⟨status, d'⟩, hsim, heq⟩ := Option.map_eq_some_iff.mp hkind
  obtain ⟨rfl, hkind⟩ := Prod.mk.inj heq
  have hrun := Prog.returns_simulate hsim
  exact ⟨_, d', hrun, (touchDetect_agrees hrun).2.1 rfl, hkind⟩

end TouchI2c
