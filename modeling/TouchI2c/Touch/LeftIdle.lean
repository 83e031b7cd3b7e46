import TouchI2c.DwI2c.Idle
import TouchI2c.Touch.Windows

/-!
# What is left to the operating system

Over a run of the driver: which controllers are still enabled when `TouchExitBootServices` has been
called. It disables the controller of a live panel only, so the others have to be idle before.

## Who disables what

The profile pass leaves a controller on which the panel did not answer enabled, for the sweep to
come back to. The sweep disables every controller it has initialised before it goes on to the next
one, unless an initialisation times out in its last poll. An attempt that fails behind detection
leaves its controller enabled; the next attempt comes back to it, because it belongs to a profile
that matches.

So an enabled controller is lost only in five ways, the branches of `Abandons`: the sweep of a
controller ends with an initialisation that timed out; the sweep does not come back to it, because
it no longer answers as a controller (`absent`) or as the PCI function that was prepared (`lost`);
or the panel is found while it is enabled, on another controller (`elsewhere`) or over a MediaTek
transport. A run that avoids these leaves the bus idle, if besides no attempt has failed behind
detection (`SetUpFailed`) of a driver that does not end up ready.

## The invariant

`Quiesced Tidy P` says that the trace avoids the branches so far and that every controller outside
of `P` is idle. Between two attempts `P` is `Stray`: the controllers of profiles that match, in a
trace with a failed attempt. Within an attempt the profile passes add their own controllers to it,
one by one, and the sweep takes them out again; while `P` is not empty, a descriptor read that
succeeds is one on the only controller in it, or the run has abandoned the others. Behind detection
the controller of the panel is `Alone` in it.

## Two runs

The exit of a driver that is not ready disables nothing (`idle_of_exit`), so then the bus is left as
the attempts have left it, and one that failed behind detection is enough to leave it enabled. Both
runs are on the machine of `Touch.Ready` with a DesignWare controller. In the one the panel becomes
ready and its controller is disabled on the way out. In the other the panel stops answering after
its descriptor: the attempt fails behind detection, and the controller stays enabled.
-/

namespace TouchI2c

open CMemory Interaction

/-! ## Abandoned controllers -/

/-- `IntelLpssPrepareI2c` has found the controller of a profile at `base`. -/
def Prepared (prof : TouchProfile) (base : UInt64) (t : List (Event Uefi)) : Prop :=
  ∃ t₁ t₂ t₃ status fresh, t = t₁ ++ t₂ ++ t₃ ∧ status.isError = false ∧
    (intelLpssPrepareI2c prof.pciDid prof.pciDev prof.pciFunc).Returns t₂ (status, base, fresh)

/-- In `t'`, which comes after `t`, the driver takes a branch that gives an enabled controller up:
a sweep ends with an initialisation that times out, the sweep does not come back to a controller
because of its type or of its PCI function, or the panel is found elsewhere. -/
inductive Abandons (t t' : List (Event Uefi)) : Prop
  | stuck {prof : TouchProfile} {target : UInt64 × Option DwI2cTiming} {d d' : TouchDev}
      (h : ((sweepBase prof target).run d).Returns t' (false, d'))
      (hend : EndsIn (InitTimedOut target.1) (t ++ t'))
  | absent {base : UInt64} (h : (dwI2cControllerPresent base).Returns t' false)
      (hbase : IsController base) (henabled : ¬Idle base t)
  | lost {prof : TouchProfile} {base base' : UInt64} {status : EfiStatus} {fresh : Bool}
      (h : (intelLpssPrepareI2c prof.pciDid prof.pciDev prof.pciFunc).Returns t'
        (status, base', fresh)) (hlost : status.isError = true ∨ base' ≠ base)
      (hprepared : Prepared prof base t) (henabled : ¬Idle base t)
  | elsewhere {base base' : UInt64} {descReg : UInt16} {status : EfiStatus} {d d' : TouchDev}
      (h : ((readHidDesc base descReg).run d).Returns t' (status, d'))
      (hkind : d.bus.mKind = .designWare) (hok : status.isError = false) (hbase : IsController base)
      (hbase' : IsController base') (hne : base' ≠ base) (henabled : ¬Idle base' t)
  | mediaTek {prof : TouchProfile} {base : UInt64} {slaveAddr : UInt8} {descReg : UInt16}
      {status : EfiStatus} {d d' : TouchDev} (hprof : prof ∈ mProfiles)
      (hplatform : prof.platform = .mtkI2c)
      (h : ((touchMtkProbe prof slaveAddr descReg).run d).Returns t' (status, d'))
      (hok : status.isError = false) (hbase : IsController base) (henabled : ¬Idle base t)

/-- An attempt fails behind detection, with a panel on a DesignWare controller. -/
def SetUpFailed (t : List (Event Uefi)) : Prop :=
  ∃ status d d', (touchSetUp.run d).Returns t (status, d') ∧ d.bus.mKind = .designWare ∧
    status.isError = true

/-- No enabled controller is given up, and every BAR0 is the window of a controller. -/
def Tidy (t : List (Event Uefi)) : Prop := AvoidsAfter Abandons t ∧ Avoids UnusableBar t

private theorem prefixClosed_tidy : PrefixClosed Tidy :=
  prefixClosed_avoidsAfter.and prefixClosed_avoids

private theorem Tidy.last {s t : List (Event Uefi)} (h : Tidy (s ++ t)) : ¬Abandons s t := h.1.last

/-! ## The controllers of a profile -/

section

variable {dmi : DmiIdentity} {prof : TouchProfile} {base : UInt64} {s : List (Event Uefi)}

/-- The controllers that an attempt may leave enabled for a profile. -/
private inductive Own (prof : TouchProfile) (s : List (Event Uefi)) (base : UInt64) : Prop
  | fixed (hplatform : prof.platform = .amdFch) (hbase : prof.i2cBase ≠ 0)
      (heq : base = prof.i2cBase.toUInt64)
  | sweep (hplatform : prof.platform = .amdFch) (hbase : prof.i2cBase = 0) {b : UInt32}
      (hmem : b ∈ mSweepBases) (heq : base = b.toUInt64)
  | prepared (hplatform : prof.platform = .intelLpss) (h : Prepared prof base s)

/-- The controllers of those of the profiles that match. -/
private def Owned (dmi : DmiIdentity) (profs : List TouchProfile) (s : List (Event Uefi))
    (base : UInt64) : Prop :=
  ∃ prof ∈ profs, touchProfileMatchesIdentity dmi prof = true ∧ Own prof s base

private theorem Prepared.append {t : List (Event Uefi)} (h : Prepared prof base s) :
    Prepared prof base (s ++ t) := by
  obtain ⟨t₁, t₂, t₃, status, fresh, rfl, hok, hret⟩ := h
  exact ⟨t₁, t₂, t₃ ++ t, status, fresh, by rw [List.append_assoc _ t₃], hok, hret⟩

private theorem growing_own (prof : TouchProfile) : Growing (Own prof) := by
  intro s t base h
  cases h with
  | fixed hplatform hbase heq => exact .fixed hplatform hbase heq
  | sweep hplatform hbase hmem heq => exact .sweep hplatform hbase hmem heq
  | prepared hplatform h => exact .prepared hplatform h.append

private theorem growing_owned (dmi : DmiIdentity) (profs : List TouchProfile) :
    Growing (Owned dmi profs) := by
  rintro s t base ⟨prof, hprof, hmatch, hown⟩
  exact ⟨prof, hprof, hmatch, growing_own prof s t base hown⟩

private theorem Owned.mono {profs profs' : List TouchProfile} (h : Owned dmi profs s base)
    (hsub : ∀ prof ∈ profs, prof ∈ profs') : Owned dmi profs' s base := by
  obtain ⟨prof, hprof, hmatch, hown⟩ := h
  exact ⟨prof, hsub prof hprof, hmatch, hown⟩

private theorem owned_cons {profs : List TouchProfile} (h : Owned dmi (prof :: profs) s base) :
    Own prof s base ∨ Owned dmi profs s base := by
  obtain ⟨prof', hmem, hmatch, hown⟩ := h
  rcases List.mem_cons.mp hmem with rfl | hmem
  · exact .inl hown
  · exact .inr ⟨prof', hmem, hmatch, hown⟩

end

/-! ## Idle controllers -/

/-- Every controller is idle. -/
private abbrev AllIdle : List (Event Uefi) → Prop := Quiesced Tidy fun _ _ ↦ False

/-- What may be enabled between two attempts: a controller of a profile that matches, once an attempt
has failed behind detection. -/
private def Stray (dmi : DmiIdentity) (s : List (Event Uefi)) (base : UInt64) : Prop :=
  ¬Avoids SetUpFailed s ∧ Owned dmi mProfiles s base

private theorem growing_stray (dmi : DmiIdentity) : Growing (Stray dmi) := fun s t base h ↦
  ⟨mt (prefixClosed_avoids s t) h.1, growing_owned dmi mProfiles s t base h.2⟩

private theorem growing_false : Growing fun _ _ ↦ False := fun _ _ _ h ↦ h

section

variable {C : List (Event Uefi) → Prop} {P : List (Event Uefi) → UInt64 → Prop} (hP : Growing P)
  {α : Type} {s : List (Event Uefi)}

include hP

private theorem wp_growing {p : Prog Uefi α} {Q : α → List (Event Uefi) → Prop}
    (h : (observing C).wp p Q s) (hs : C s) :
    (observing C).wp p (fun a s' ↦ Q a s' ∧ ∀ base, P s base → P s' base) s := by
  refine World.wp_mono (wp_trace h hs) fun a s' h' ↦ ?_
  obtain ⟨hQ, -, t, rfl, -⟩ := h'
  exact ⟨hQ, hP s t⟩

private theorem wpS_growing {δ : Type} {p : StateT δ (Prog Uefi) α}
    {Q : α → δ → List (Event Uefi) → Prop} {d : δ} (h : (observing C).wpS p Q d s) (hs : C s) :
    (observing C).wpS p (fun a d' s' ↦ Q a d' s' ∧ ∀ base, P s base → P s' base) d s :=
  @wp_growing C P hP (α × δ) s (p.run d) (fun r s' ↦ Q r.1 r.2 s') h hs

end

private theorem inBlock_enable : InBlock (· = dwIcEnable) where
  pos := by rintro off rfl; decide
  lt := by rintro off rfl; decide

/-- The controllers outside of `P base` are idle, and the one at `base` need not be. -/
private structure Holding (P : UInt64 → List (Event Uefi) → UInt64 → Prop) (base : UInt64)
    (s : List (Event Uefi)) : Prop where
  quiesced : Quiesced Tidy (P base) s
  own : P base s base

/-- A controller of a profile that matches is the only one to be enabled. -/
private abbrev Alone (dmi : DmiIdentity) : UInt64 → List (Event Uefi) → Prop :=
  Holding fun base s base' ↦ base' = base ∧ Owned dmi mProfiles s base'

private theorem growing_alone (dmi : DmiIdentity) (base : UInt64) :
    Growing fun s base' ↦ base' = base ∧ Owned dmi mProfiles s base' := fun s t base' h ↦
  ⟨h.1, growing_owned dmi mProfiles s t base' h.2⟩

/-- What the driver does with the controller at `base` enables no other controller. -/
private theorem masterRules_holding {P : UInt64 → List (Event Uefi) → UInt64 → Prop}
    (hP : ∀ base, Growing (P base)) :
    MasterRules (observing Tidy) (Elsewhere (· = dwIcEnable)) AllIdle fun _ ↦ Holding P where
  outside := outside_elsewhere inBlock_enable
  log hprof := logProfile_elsewhere inBlock_enable (by decide) hprof
  keeps := keeps_quiesced growing_false
  keepsOn {due base} _ e s he h := by
    exact World.wp_mono (wp_growing (hP base) (keeps_quiesced (hP base) e s he h.quiesced)
      h.quiesced.mem) fun _ s' h' ↦ ⟨h'.1, h'.2 base h.own⟩
  due h := h
  xfer {base _ _ _ _ s} hbase hbuf h := by
    refine World.wp_mono ((keeps_quiesced_regs (hP base) hbase).wp
      (dwI2cXfer_within (fun off hoff ↦ ?_) hbuf) ⟨h.quiesced, h.own⟩) fun _ _ h' ↦
        ⟨⟨h'.2.1, h'.2.2⟩, h'.1⟩
    exact UInt64.lt_trans (isDwOffset_of_mem_xfer hoff) (by decide)
  reinit {due base s} slaveAddr hbase h := by
    refine World.wp_mono ((keeps_quiesced_regs (hP base) hbase).wp
      (dwI2cInit_within (fun off hoff ↦ ?_) slaveAddr none) ⟨h.quiesced, h.own⟩) fun _ _ h' ↦ ?_
    · exact UInt64.lt_trans hoff (by decide)
    · split <;> exact ⟨h'.2.1, h'.2.2⟩

/-! ## Detection -/

/-- Between the steps of detection: the DesignWare transport is selected, and the controllers
outside of `P` are idle. -/
private structure Searching (dmi : DmiIdentity) (P : List (Event Uefi) → UInt64 → Prop)
    (d : TouchDev) (s : List (Event Uefi)) : Prop where
  identity : d.dmi = dmi
  mKind : d.bus.mKind = .designWare
  quiesced : Quiesced Tidy P s

/-- The controller at `base`, which a profile that matches owns, is probed. -/
private structure Probing (dmi : DmiIdentity) (P : List (Event Uefi) → UInt64 → Prop)
    (base : UInt64) (d : TouchDev) (s : List (Event Uefi)) : Prop extends Searching dmi P d s where
  own : Owned dmi mProfiles s base

/-- Where a panel is that was found: no other controller is enabled. -/
private def Located (dmi : DmiIdentity) (d : TouchDev) (s : List (Event Uefi)) : Prop :=
  d.dmi = dmi ∧ Routed AllIdle (Alone dmi) d.bus d.i2cBase s

section

variable {dmi : DmiIdentity} {prof : TouchProfile} {base : UInt64} {d : TouchDev}
  {s : List (Event Uefi)} {P P' : List (Event Uefi) → UInt64 → Prop}

private theorem Searching.mono (h : Searching dmi P d s)
    (hP : ∀ base, IsController base → P s base → P' s base) : Searching dmi P' d s :=
  ⟨h.identity, h.mKind, h.quiesced.mono hP⟩

/-- What a program of the environment does that accesses no `IC_ENABLE`. -/
private theorem Searching.wp (hP : Growing P) {α : Type} {p : Prog Uefi α} {Q : α → Prop}
    (h : Searching dmi P d s) (hp : p.Within (Elsewhere (· = dwIcEnable)) Q) :
    (observing Tidy).wp p (fun a s' ↦ Q a ∧ Searching dmi P d s') s :=
  World.wp_mono ((keeps_quiesced hP).wp hp h.quiesced) fun _ _ h' ↦
    ⟨h'.1, h.identity, h.mKind, h'.2⟩

/-- The read of the HID descriptor. While another controller is enabled it does not succeed. -/
private theorem wpS_readHidDesc_quiesced (prof : TouchProfile) (hP : Growing P)
    (hbase : IsController base) (h : Probing dmi P base d s) (hin : P s base) (a : UInt8)
    (descReg : UInt16) :
    (observing Tidy).wpS (readHidDesc base descReg) (fun status d' s' ↦
      if status.isError then Probing dmi P base d' s'
      else Located dmi (TouchDev.found prof base a d') s') d s := by
  have hread := wpS_growing (growing_owned dmi mProfiles)
    ((@masterRules_holding (fun _ ↦ P) fun _ ↦ hP).wpS_readHidDesc h.mKind hbase descReg
      ⟨h.quiesced, hin⟩) h.quiesced.mem
  by_cases hothers : ∀ base', IsController base' → base' ≠ base → Idle base' s
  · have halone : Alone dmi base s := by
      refine ⟨⟨h.quiesced.mem, fun base' hbase' ↦ ?_⟩, rfl, h.own⟩
      rcases em (base' = base) with rfl | hne
      · exact .inr ⟨rfl, h.own⟩
      · exact .inl (hothers base' hbase' hne)
    have hread' :=
      (masterRules_holding (growing_alone dmi)).wpS_readHidDesc h.mKind hbase descReg halone
    refine World.wpS_mono (World.wpS_and hread hread') fun status d' s' h' ↦ ?_
    obtain ⟨⟨⟨hdmi, hkind, hkept⟩, hgrown⟩, -, -, halone'⟩ := h'
    split
    · exact ⟨⟨hdmi.trans h.identity, hkind, hkept.quiesced⟩, hgrown base h.own⟩
    · exact ⟨hdmi.trans h.identity, .designWare hkind hbase halone'⟩
  · push Not at hothers
    obtain ⟨base', hbase', hne, henabled⟩ := hothers
    refine World.wpS_mono (wpS_avoidsAfter (fun _ hC ↦ hC.1) hread h.quiesced.mem)
      fun status d' s' h' ↦ ?_
    obtain ⟨⟨⟨hdmi, hkind, hkept⟩, hgrown⟩, t, rfl, hret, hnot⟩ := h'
    split
    · exact ⟨⟨hdmi.trans h.identity, hkind, hkept.quiesced⟩, hgrown base h.own⟩
    · next hok =>
      exact absurd (.elsewhere hret h.mKind (by simpa using hok) hbase hbase' hne henabled)
        hnot

/-- The probe of the MediaTek profile. While a controller is enabled it does not succeed. -/
private theorem wpS_touchMtkProbe_quiesced (hP : Growing P) (h : Searching dmi P d s)
    (a : UInt8) (descReg : UInt16) :
    (observing Tidy).wpS (touchMtkProbe proArtP16 a descReg) (fun status d' s' ↦
      if status.isError then Searching dmi P d' s'
      else Located dmi (TouchDev.found proArtP16 proArtP16.i2cBase.toUInt64 a d') s') d s := by
  have hprobe := fun {J : List (Event Uefi) → Prop}
    (hJ : (observing Tidy).Keeps (Elsewhere (· = dwIcEnable)) J) (hs : J s) ↦
    hJ.wpS (touchMtkProbe_outside (outside_elsewhere inBlock_enable) h.mKind a descReg) hs
  by_cases hall : ∀ base, IsController base → Idle base s
  · have hidle : AllIdle s := ⟨h.quiesced.mem, fun base hbase ↦ .inl (hall base hbase)⟩
    refine World.wpS_mono (hprobe (keeps_quiesced growing_false) hidle) fun status d' s' h' ↦ ?_
    obtain ⟨⟨hknown, hbus⟩, hidle'⟩ := h'
    have hdmi : d'.dmi = dmi := (congrArg Prod.fst hknown).trans h.identity
    split
    · next herr =>
      rw [if_pos herr] at hbus
      exact ⟨hdmi, hbus, hidle'.mono fun _ _ ↦ False.elim⟩
    · next hok =>
      rw [if_neg hok] at hbus
      exact ⟨hdmi, .other hbus hidle'⟩
  · push Not at hall
    obtain ⟨base', hbase', henabled⟩ := hall
    refine World.wpS_mono (wpS_avoidsAfter (fun _ hC ↦ hC.1) (hprobe (keeps_quiesced hP)
      h.quiesced) h.quiesced.mem) fun status d' s' h' ↦ ?_
    obtain ⟨⟨⟨hknown, hbus⟩, hkept⟩, t, rfl, hret, hnot⟩ := h'
    have hdmi : d'.dmi = dmi := (congrArg Prod.fst hknown).trans h.identity
    split
    · next herr =>
      rw [if_pos herr] at hbus
      exact ⟨hdmi, hbus, hkept⟩
    · next hok =>
      exact absurd (.mediaTek (by decide) rfl hret (by simpa using hok) hbase' henabled) hnot

/-! ### One controller -/

private theorem elsewhere_compType (hbase : IsController base) :
    (dwI2cControllerPresent base).Within (Elsewhere (· = dwIcEnable)) fun _ ↦ True := by
  refine (@dwI2cControllerPresent_within base (· = dwIcCompType) rfl).mono fun e he ↦ ?_
  refine @elsewhere_of_regAccess _ (· = dwIcEnable) _ hbase.1 (fun _ h ↦ ?_) (fun _ h ↦ ?_) e he
  · rw [h]
    decide
  · rw [h]
    decide

private theorem controllerRules_pass (hbase : IsController base) (timing : Option DwI2cTiming) :
    ControllerRules (observing Tidy) prof base timing (Probing dmi (Owned dmi mProfiles) base)
      (Probing dmi (Owned dmi mProfiles) base) (Probing dmi (Owned dmi mProfiles) base)
      (Searching dmi (Owned dmi mProfiles)) (Located dmi)
      (fun _ ↦ Probing dmi (Owned dmi mProfiles) base) where
  present {d s} h := by
    refine World.wp_mono (wp_growing (growing_owned dmi mProfiles)
      (h.wp (growing_owned dmi mProfiles) (elsewhere_compType hbase)) h.quiesced.mem)
      fun ok s' h' ↦ ?_
    obtain ⟨⟨-, hkept⟩, hgrown⟩ := h'
    split
    · exact ⟨hkept, hgrown base h.own⟩
    · exact hkept
  init {d s} a h := by
    refine World.wp_mono ((keeps_quiesced_regs (growing_owned dmi mProfiles) hbase).wp
      (dwI2cInit_within (fun off hoff ↦ ?_) a timing) ⟨h.quiesced, h.own⟩) fun status s' h' ↦ ?_
    · exact UInt64.lt_trans hoff (by decide)
    · split <;> exact ⟨⟨h.identity, h.mKind, h'.2.1⟩, h'.2.2⟩
  read {d s a} descReg h :=
    wpS_readHidDesc_quiesced prof (growing_owned dmi mProfiles) hbase h h.own a descReg
  again h := h
  leave h := h.toSearching

/-- What has been done when the sweep gives an address of the controller up. -/
private structure GivenUp (dmi : DmiIdentity) (P : List (Event Uefi) → UInt64 → Prop)
    (base : UInt64) (d : TouchDev) (s : List (Event Uefi)) : Prop
    extends Probing dmi (besides P base) base d s where
  idle : Quiesced Tidy P s ∨ EndsIn (InitTimedOut base) s

/-- The sweep comes back to a controller, unless it does not read as one. -/
private theorem controllerRules_sweep (hP : Growing P) (hbase : IsController base)
    (timing : Option DwI2cTiming) : ControllerRules (observing Tidy) prof base timing
      (Probing dmi (besides P base) base) (Probing dmi (besides P base) base) (GivenUp dmi P base)
      (GivenUp dmi P base) (Located dmi) (fun _ ↦ Probing dmi (besides P base) base) where
  present {d s} h := by
    have hpresent := wp_growing (growing_owned dmi mProfiles)
      (h.wp (hP.besides base) (elsewhere_compType hbase)) h.quiesced.mem
    by_cases hidle : Idle base s
    · have hquiet : Searching dmi P d s := by
        refine ⟨h.identity, h.mKind, h.quiesced.mem, fun base' hbase' ↦ ?_⟩
        rcases h.quiesced.idle base' hbase' with hidle' | hin | rfl
        · exact .inl hidle'
        · exact .inr hin
        · exact .inl hidle
      refine World.wp_mono (World.wp_and hpresent (hquiet.wp hP (elsewhere_compType hbase)))
        fun ok s' h' ↦ ?_
      obtain ⟨⟨⟨-, hkept⟩, hgrown⟩, -, hquiet'⟩ := h'
      split
      · exact ⟨hkept, hgrown base h.own⟩
      · exact ⟨⟨hkept, hgrown base h.own⟩, .inl hquiet'.quiesced⟩
    · refine World.wp_mono (wp_avoidsAfter (fun _ hC ↦ hC.1) hpresent h.quiesced.mem)
        fun ok s' h' ↦ ?_
      obtain ⟨⟨⟨-, hkept⟩, hgrown⟩, t, -, hret, hnot⟩ := h'
      cases ok with
      | true => exact ⟨hkept, hgrown base h.own⟩
      | false => exact absurd (.absent hret hbase hidle) hnot
  init {d s} a h := by
    refine World.wp_mono (wp_growing (growing_owned dmi mProfiles)
      (wp_dwI2cInit_idle hP hbase a timing h.quiesced) h.quiesced.mem) fun status s' h' ↦ ?_
    obtain ⟨⟨hkept, hend⟩, hgrown⟩ := h'
    have hprobing : Probing dmi (besides P base) base d s' :=
      ⟨⟨h.identity, h.mKind, hkept⟩, hgrown base h.own⟩
    split
    · next herr => exact ⟨hprobing, hend herr⟩
    · exact hprobing
  read {d s a} descReg h :=
    wpS_readHidDesc_quiesced prof (hP.besides base) hbase h (.inr rfl) a descReg
  again h := h.toProbing
  leave h := h

/-- **The sweep of a controller** leaves it idle, unless the panel is found. -/
private theorem wpS_sweepBase_quiesced (hP : Growing P) (hbase : IsController base)
    (timing : Option DwI2cTiming) (h : Probing dmi (besides P base) base d s) :
    (observing Tidy).wpS (sweepBase prof (base, timing)) (fun found d' s' ↦
      if found then Located dmi d' s' else Searching dmi P d' s') d s := by
  have hdisable : ∀ {a : UInt8} {d s}, Probing dmi (besides P base) base d s →
      (observing Tidy).wp (dwI2cDisable base) (fun _ s' ↦ GivenUp dmi P base d s') s :=
    fun h ↦ World.wp_mono (wp_growing (growing_owned dmi mProfiles)
      (wp_dwI2cDisable_idle hP hbase h.quiesced) h.quiesced.mem) fun _ s' h' ↦
        ⟨⟨⟨h.identity, h.mKind, h'.1.mono fun _ _ ↦ .inl⟩, h'.2 base h.own⟩, .inl h'.1⟩
  have hsweep := (@controllerRules_sweep dmi prof base P hP hbase timing).wpS_sweepBase
    (fun {a} _ _ h ↦ @hdisable a _ _ h) h
  refine World.wpS_mono (wpS_avoidsAfter (fun _ hC ↦ hC.1) hsweep h.quiesced.mem)
    fun found d' s' h' ↦ ?_
  obtain ⟨hend, t, rfl, hret, hnot⟩ := h'
  cases found with
  | true => exact hend
  | false =>
    have hend : GivenUp dmi P base d' (s ++ t) := hend
    rcases hend.idle with hidle | hstuck
    · exact ⟨hend.identity, hend.mKind, hidle⟩
    · exact absurd (.stuck hret hstuck) hnot

/-! ### All of them -/

/-- The preparation of an LPSS controller, whichever controllers are enabled. -/
private theorem wp_prepare_quiesced (hP : Growing P) (h : Searching dmi P d s)
    (prof : TouchProfile) : (observing Tidy).wp
      (intelLpssPrepareI2c prof.pciDid prof.pciDev prof.pciFunc) (fun r s' ↦
        Searching dmi P d s' ∧ (r.1.isError = false → IsController r.2.1)) s := by
  have hlpss := lpssRules_of_elsewhere inBlock_enable (keeps_quiesced (C := Tidy) hP)
    (fun _ h ↦ h.mem) fun _ hC ↦ hC.2
  refine World.wp_mono (hlpss.wp_intelLpssPrepareI2c prof.pciDid prof.pciDev prof.pciFunc
    h.quiesced) fun r s' h' ↦ ?_
  split at h'
  · next herr => exact ⟨⟨h.identity, h.mKind, h'⟩, fun hok ↦ absurd herr (by rw [hok]; decide)⟩
  · exact ⟨⟨h.identity, h.mKind, h'.2⟩, fun _ ↦ h'.1⟩

/-- The sweep of a profile prepares the controller again that its pass has left enabled. -/
private theorem wp_prepareAgain_quiesced {profs : List TouchProfile} (hprof : prof ∈ mProfiles)
    (hmatch : touchProfileMatchesIdentity dmi prof = true) (hplatform : prof.platform = .intelLpss)
    (h : Searching dmi (Owned dmi (prof :: profs)) d s) :
    (observing Tidy).wp (intelLpssPrepareI2c prof.pciDid prof.pciDev prof.pciFunc) (fun r s' ↦
      if r.1.isError then Searching dmi (Owned dmi profs) d s'
      else IsController r.2.1 ∧
        Probing dmi (besides (Owned dmi profs) r.2.1) r.2.1 d s') s := by
  -- what is enabled now stays so, whatever is prepared
  have hnow : Searching dmi (fun _ base ↦ ¬Idle base s) d s :=
    ⟨h.identity, h.mKind, h.quiesced.mem, fun base _ ↦ em (Idle base s)⟩
  refine World.wp_mono (wp_avoidsAfter (fun _ hC ↦ hC.1)
    (wp_prepare_quiesced (fun _ _ _ h ↦ h) hnow prof) h.quiesced.mem) fun r s' h' ↦ ?_
  obtain ⟨status, bar, fresh⟩ := r
  obtain ⟨⟨hkept, husable⟩, t, rfl, hret, hnot⟩ := h'
  have hown : ∀ base, IsController base → ¬Idle base s → ¬Owned dmi profs s base →
      status.isError = false ∧ bar = base := by
    intro base hbase henabled hnone
    rcases h.quiesced.idle base hbase with hidle | hin
    · exact absurd hidle henabled
    rcases owned_cons hin with hown | hin
    · cases hown with
      | fixed hp | sweep hp => exact absurd hp (by rw [hplatform]; decide)
      | prepared _ hprepared =>
        by_contra hlost
        refine hnot (.lost hret ?_ hprepared henabled)
        cases herr : status.isError with
        | true => exact .inl rfl
        | false => exact .inr fun heq ↦ hlost ⟨herr, heq⟩
    · exact absurd hin hnone
  have hrest : ∀ base, IsController base → Idle base (s ++ t) ∨ Owned dmi profs (s ++ t) base ∨
      status.isError = false ∧ bar = base := by
    intro base hbase
    rcases hkept.quiesced.idle base hbase with hidle | henabled
    · exact .inl hidle
    · by_cases hin : Owned dmi profs s base
      · exact .inr (.inl (growing_owned dmi profs s t base hin))
      · exact .inr (.inr (hown base hbase henabled hin))
  split
  · next herr =>
    refine ⟨h.identity, h.mKind, hkept.quiesced.mem, fun base hbase ↦ ?_⟩
    rcases hrest base hbase with hidle | hin | ⟨hok, -⟩
    · exact .inl hidle
    · exact .inr hin
    · exact absurd herr (by rw [hok]; decide)
  · next hok =>
    have hok : status.isError = false := by simpa using hok
    refine ⟨husable hok, ⟨h.identity, h.mKind, hkept.quiesced.mem, fun base hbase ↦ ?_⟩,
      prof, hprof, hmatch, .prepared hplatform
        ⟨s, t, [], status, fresh, (List.append_nil _).symm, hok, hret⟩⟩
    rcases hrest base hbase with hidle | hin | ⟨-, heq⟩
    · exact .inl hidle
    · exact .inr (.inl hin)
    · exact .inr (.inr heq.symm)

private theorem wpS_sweepTiles_quiesced {profs : List TouchProfile} (hprof : prof ∈ mProfiles)
    (hmatch : touchProfileMatchesIdentity dmi prof = true) (hplatform : prof.platform = .amdFch)
    (hzero : prof.i2cBase = 0) {targets : List (UInt64 × Option DwI2cTiming)}
    (htargets : ∀ target ∈ targets, ∃ b ∈ mSweepBases, target.1 = b.toUInt64)
    (h : Searching dmi (fun s base ↦ Owned dmi profs s base ∨ base ∈ targets.map Prod.fst) d s) :
    (observing Tidy).wpS (tryEach (sweepBase prof) targets) (fun found d' s' ↦
      if found then Located dmi d' s' else Searching dmi (Owned dmi profs) d' s') d s := by
  refine World.wpS_mono (wpS_tryEach_rest (Q := Located dmi) (fun rest d s ↦
    (∀ target ∈ rest, ∃ b ∈ mSweepBases, target.1 = b.toUInt64) ∧
      Searching dmi (fun s base ↦ Owned dmi profs s base ∨ base ∈ rest.map Prod.fst) d s)
    (fun target rest d s h ↦ ?_) ⟨htargets, h⟩) fun found d' s' h' ↦ ?_
  · obtain ⟨base, timing⟩ := target
    obtain ⟨hall, h⟩ := h
    obtain ⟨⟨b, hb, rfl⟩, hrest⟩ := List.forall_mem_cons.mp hall
    have hgrows : Growing fun s base ↦ Owned dmi profs s base ∨ base ∈ rest.map Prod.fst :=
      fun s t base hin ↦ hin.imp_left (growing_owned dmi profs s t base)
    refine World.wpS_mono (wpS_sweepBase_quiesced hgrows (isController_sweep hb) timing
      ⟨h.mono fun base _ hin ↦ ?_, prof, hprof, hmatch, .sweep hplatform hzero hb rfl⟩)
      fun found d' s' h' ↦ ?_
    · rcases hin with hin | hin
      · exact .inl (.inl hin)
      · rcases List.mem_cons.mp hin with heq | hin
        · exact .inr heq
        · exact .inl (.inr hin)
    · cases found with
      | true => exact h'
      | false => exact ⟨hrest, h'⟩
  · cases found with
    | true => exact h'
    | false => exact h'.2.mono fun base _ hin ↦ hin.resolve_right List.not_mem_nil

private theorem wpS_dwSweep_quiesced {profs : List TouchProfile} (hprof : prof ∈ mProfiles)
    (hmatch : touchProfileMatchesIdentity dmi prof = true) (hplatform : prof.platform ≠ .mtkI2c)
    (h : Searching dmi (Owned dmi (prof :: profs)) d s) :
    (observing Tidy).wpS (do tryEach (sweepBase prof) (← sweepTargets prof)) (fun found d' s' ↦
      if found then Located dmi d' s' else Searching dmi (Owned dmi profs) d' s') d s := by
  have hgrows := growing_owned dmi profs
  -- a list of one controller
  have hone : ∀ {base timing d s}, IsController base →
      Probing dmi (besides (Owned dmi profs) base) base d s →
      (observing Tidy).wpS (tryEach (sweepBase prof) [(base, timing)]) (fun found d' s' ↦
        if found then Located dmi d' s' else Searching dmi (Owned dmi profs) d' s') d s := by
    intro base timing d s hbase h
    rw [tryEach, World.wpS_bind]
    refine World.wpS_mono (wpS_sweepBase_quiesced hgrows hbase timing h) fun found d' s' h' ↦ ?_
    cases found <;> exact h'
  rw [World.wpS_bind, World.wpS_lift]
  unfold sweepTargets
  cases hp : prof.platform with
  | intelLpss =>
    dsimp only
    rw [World.wp_bind]
    refine World.wp_mono (wp_prepareAgain_quiesced hprof hmatch hp h) fun r s₁ h₁ ↦ ?_
    obtain ⟨status, base, fresh⟩ := r
    dsimp only at h₁ ⊢
    split
    · next herr =>
      rw [if_pos herr] at h₁
      exact h₁
    · next hok =>
      rw [if_neg hok] at h₁
      exact hone h₁.1 h₁.2
  | mtkI2c => exact absurd hp hplatform
  | amdFch =>
    dsimp only
    split
    · next hnonzero =>
      have hbase : prof.i2cBase ≠ 0 := by simpa using hnonzero
      refine hone (isController_fixed hprof) ⟨h.mono fun base _ hin ↦ ?_,
        prof, hprof, hmatch, .fixed hp hbase rfl⟩
      rcases owned_cons hin with hown | hin
      · cases hown with
        | fixed _ _ heq => exact .inr heq
        | sweep _ hzero => exact absurd hzero hbase
        | prepared hp' => exact absurd hp' (by rw [hp]; decide)
      · exact .inl hin
    · next hzero =>
      have hzero : prof.i2cBase = 0 := by simpa using hzero
      rw [World.wp_bind]
      refine World.wp_mono (h.wp (growing_owned dmi _) (sweepPowerOn_within
        (fun _ _ ↦ AoacAccess.elsewhere) sweepTiles)) fun fresh s₁ h₁ ↦ ?_
      refine wpS_sweepTiles_quiesced hprof hmatch hp hzero (fun target htarget ↦ ?_)
        (h₁.2.mono fun base _ hin ↦ ?_)
      · obtain ⟨⟨b, i⟩, hmem, rfl⟩ := List.mem_map.mp htarget
        exact ⟨b, List.fst_mem_of_mem_zipIdx hmem, rfl⟩
      · rcases owned_cons hin with hown | hin
        · cases hown with
          | fixed _ hbase => exact absurd hzero hbase
          | sweep _ _ hmem heq =>
            obtain ⟨i, hi⟩ := List.getElem?_of_mem hmem
            exact .inr (List.mem_map.mpr ⟨_, List.mem_map.mpr
              ⟨(_, i), List.mem_zipIdx_iff_getElem?.mpr hi, rfl⟩, heq.symm⟩)
          | prepared hp' => exact absurd hp' (by rw [hp]; decide)
        · exact .inl hin

/-- The pass of a profile leaves no other controller enabled than its own. -/
private theorem wpS_profilePass_quiesced {p : ℕ} (hp : mProfiles[p]? = some prof)
    (hmatch : touchProfileMatchesIdentity dmi prof = true)
    (h : Searching dmi (Owned dmi mProfiles) d s) :
    (observing Tidy).wpS (profilePass p prof) (fun found d' s' ↦
      if found then Located dmi d' s' else Searching dmi (Owned dmi mProfiles) d' s') d s := by
  have hprof : prof ∈ mProfiles := List.mem_of_getElem? hp
  have hgrows := growing_owned dmi mProfiles
  have hrules := fun base timing ↦ ControllerRules.when fun hbase : IsController base ↦
    @controllerRules_pass dmi prof base hbase timing
  unfold profilePass
  cases hplatform : prof.platform with
  | intelLpss =>
    refine wpS_intelPass hrules (World.wp_mono (wp_trace (wp_prepare_quiesced hgrows h prof)
      h.quiesced.mem) fun r s₁ h₁ ↦ ?_) fun h₁ ↦ h₁.2.toSearching
    obtain ⟨status, base, fresh⟩ := r
    obtain ⟨⟨hkept, husable⟩, -, t, rfl, hret⟩ := h₁
    split
    · exact hkept
    · next hok =>
      have hok : status.isError = false := by simpa using hok
      exact ⟨husable hok, hkept, prof, hprof, hmatch, .prepared hplatform
        ⟨s, t, [], status, fresh, (List.append_nil _).symm, hok, hret⟩⟩
  | mtkI2c =>
    obtain rfl := eq_proArtP16 hprof hplatform
    dsimp only
    rw [mtkPass, World.wpS_bind]
    exact World.wpS_mono (wpS_touchMtkProbe_quiesced hgrows h _ _) fun _ _ _ ↦ wpS_noteFound
  | amdFch =>
    dsimp only
    split
    · exact h
    · next hbase =>
      have hown : ∀ s, Owned dmi mProfiles s prof.i2cBase.toUInt64 := fun s ↦
        ⟨prof, hprof, hmatch, .fixed hplatform (by simpa using hbase) rfl⟩
      refine wpS_amdPass hrules (World.wp_mono (h.wp hgrows (fchAoacPowerOnI2c_within
        fun _ ↦ AoacAccess.elsewhere)) fun r s₁ h₁ ↦ ?_) fun {_ status d s} h₁ ↦ ?_
      · split
        · exact h₁.2
        · exact ⟨isController_fixed hprof, h₁.2, hown s₁⟩
      · have h₁ : Searching dmi (Owned dmi mProfiles) d s :=
          h₁.elim (fun h ↦ h.2.toSearching) fun h ↦ h.2.toSearching
        refine World.wpS_mono (wpS_kickOnce_elsewhere inBlock_enable (keeps_quiesced hgrows)
          h₁.quiesced hprof status) fun _ d' s' h' ↦ ?_
        obtain ⟨hdmi, hbus, hkept⟩ := h'
        exact ⟨hdmi.trans h₁.identity, (congrArg I2cBus.mKind hbus).trans h₁.mKind, hkept⟩

private theorem stagedRules_quiesced (dmi : DmiIdentity) : StagedRules (observing Tidy) dmi
    (fun _ ↦ Searching dmi (Owned dmi mProfiles))
    (fun p ↦ Searching dmi (Owned dmi (mProfiles.drop p)))
    (fun d s ↦ d.dmi = dmi ∧ AllIdle s) (Located dmi) where
  passIdentity h := h.identity
  sweepIdentity h := h.identity
  passOther h := h
  sweepOther {p prof} hp hother d s h := by
    rw [List.drop_eq_getElem?_toList_append, hp] at h
    refine h.mono fun base _ hin ↦ ?_
    obtain ⟨prof', hmem, hmatch, hown⟩ := hin
    rcases List.mem_cons.mp hmem with rfl | hmem
    · exact absurd hmatch (by rw [hother]; decide)
    · exact ⟨prof', hmem, hmatch, hown⟩
  profile hp hmatch _ _ h := wpS_profilePass_quiesced hp hmatch h
  mtkSweep {p prof} hp _ hplatform d s h := by
    obtain rfl := eq_proArtP16 (List.mem_of_getElem? hp) hplatform
    rw [List.drop_eq_getElem?_toList_append, hp] at h
    have hrest : Searching dmi (Owned dmi (mProfiles.drop (p + 1))) d s := by
      refine h.mono fun base _ hin ↦ ?_
      rcases owned_cons hin with hown | hin
      · cases hown <;> contradiction
      · exact hin
    refine wpS_tryEach (Searching dmi (Owned dmi (mProfiles.drop (p + 1))))
      (fun candidate _ d s h ↦ ?_) hrest
    rw [mtkSweepOne]
    split
    · exact h
    · rw [World.wpS_bind]
      exact World.wpS_mono (wpS_touchMtkProbe_quiesced (growing_owned dmi _) h _ _)
        fun _ _ _ ↦ wpS_noteFound
  dwSweep {p prof} hp hmatch hplatform d s h := by
    rw [List.drop_eq_getElem?_toList_append, hp] at h
    exact wpS_dwSweep_quiesced (List.mem_of_getElem? hp) hmatch hplatform h
  turn h := h
  unmatched hnone d s h := by
    refine ⟨h.identity, h.quiesced.mono fun base _ hin ↦ ?_⟩
    obtain ⟨prof, hmem, hmatch, -⟩ := hin
    exact absurd hmatch (by rw [hnone prof hmem]; decide)
  swept {d s} h := by
    refine ⟨h.identity, h.quiesced.mono fun base _ hin ↦ ?_⟩
    obtain ⟨prof, hmem, -⟩ := hin
    rw [List.drop_length] at hmem
    exact absurd hmem List.not_mem_nil

end

/-! ## Runs -/

/-- No controller is left enabled. -/
def LeftIdle (t : List (Event Uefi)) : Prop := ∀ base, IsController base → Idle base t

/-- Between two attempts, a controller is enabled only if an attempt failed behind detection. -/
private theorem driverRules_idle (dmi : DmiIdentity) : DriverRules (observing Tidy) dmi
    (fun d s ↦ d.dmi = dmi ∧ Quiesced Tidy (Stray dmi) s) (Located dmi) (Located dmi) := by
  have hrules : MasterRules (observing Tidy) (Elsewhere (· = dwIcEnable)) AllIdle
      fun _ ↦ Alone dmi := masterRules_holding (growing_alone dmi)
  have hstray : (observing Tidy).Keeps (Elsewhere (· = dwIcEnable)) (Quiesced Tidy (Stray dmi)) :=
    keeps_quiesced (growing_stray dmi)
  refine hrules.driverRules hstray (fun {d s} hdmi hrest ↦ ?_) fun {d s} hrouted hvalid hready ↦ ?_
  · have hstart : Searching dmi (Owned dmi mProfiles)
        { d.startAttempt with bus := { d.startAttempt.bus with mKind := .designWare } } s :=
      ⟨hdmi, rfl, hrest.mono fun _ _ ↦ And.right⟩
    refine World.wpS_mono ((stagedRules_quiesced dmi).wpS_touchDetect hstart)
      fun status d' s' h' ↦ ?_
    split at h'
    · next herr =>
      rw [if_pos herr]
      exact ⟨h'.1, h'.2.mono fun _ _ ↦ False.elim⟩
    · next hok =>
      rw [if_neg hok]
      exact h'
  · have hmem : Tidy s := by
      cases hrouted with
      | designWare _ _ h => exact h.quiesced.mem
      | other _ h => exact h.mem
    refine World.wpS_mono (wpS_trace (wpS_touchSetUp hrules.routeRules hvalid hready hrouted) hmem)
      fun status d' s' h' ↦ ?_
    obtain ⟨hpost, -, t, rfl, hret⟩ := h'
    refine ⟨hpost, fun herr ↦ ?_⟩
    cases hpost.2 with
    | designWare hkind _ halone =>
      have hfailed : ¬Avoids SetUpFailed (s ++ t) := fun havoid ↦
        havoid s t [] (List.append_nil _).symm ⟨status, d, d', hret, hkind, herr⟩
      exact halone.quiesced.mono fun _ _ hin ↦ ⟨hfailed, hin.2⟩
    | other _ hidle => exact hidle.mono fun _ _ ↦ False.elim

private theorem wpS_exit_idle {dmi : DmiIdentity} {d : TouchDev} {s : List (Event Uefi)}
    (h : if d.ready then Routed AllIdle (Alone dmi) d.bus d.i2cBase s else AllIdle s) :
    (observing fun _ ↦ True).wpS touchExitBootServices (fun _ _ s' ↦ LeftIdle s') d s := by
  have hidle : ∀ {P : List (Event Uefi) → UInt64 → Prop} {s}, Quiesced Tidy P s →
      Quiesced (fun _ ↦ True) P s := fun h ↦ ⟨trivial, h.idle⟩
  have hall : ∀ {s}, Quiesced (fun _ ↦ True) (fun _ _ ↦ False) s → LeftIdle s :=
    fun h base hbase ↦ (h.idle base hbase).elim id False.elim
  have hkeeps := fun {P : List (Event Uefi) → UInt64 → Prop} (hP : Growing P) ↦
    (quietKeeps_of_outside (outside_elsewhere inBlock_enable)
      (keeps_quiesced (C := fun _ ↦ True) hP)).service
  cases hready : d.ready with
  | false =>
    rw [hready, if_neg Bool.false_ne_true] at h
    refine wpS_touchExitBootServices (hkeeps growing_false) (hidle h) (fun hready' ↦ ?_)
      fun _ s' h' ↦ hall h'
    exact absurd hready' (by rw [hready]; decide)
  | true =>
    rw [hready, if_pos rfl] at h
    have hnot : d.ready ≠ false := by
      rw [hready]
      decide
    cases h with
    | other hoff hs =>
      refine wpS_touchExitBootServices (hkeeps growing_false) (hidle hs) (fun _ s' h' ↦ ?_)
        fun hready' ↦ absurd hready' hnot
      exact World.wpS_mono (hoff.wpS_i2cBusDisable (outside_elsewhere inBlock_enable)
        (keeps_quiesced growing_false) h') fun _ _ _ ↦ hall
    | designWare hkind hbase halone =>
      refine wpS_touchExitBootServices (hkeeps (growing_alone dmi d.i2cBase)) (hidle halone.quiesced)
        (fun _ s' h' ↦ ?_) fun hready' ↦ absurd hready' hnot
      unfold i2cBusDisable
      rw [World.wpS_bind, World.wpS_get, hkind]
      dsimp only
      rw [World.wpS_bind, World.wpS_lift]
      exact World.wp_mono (wp_dwI2cDisable_idle growing_false hbase (h'.mono fun _ _ hin ↦ .inr hin.1))
        fun _ _ ↦ hall

/-! ### A machine -/

/-- The entry on the machine with a DesignWare panel, and then the end of boot services. -/
def fixedBoot : Touch Unit := do
  fixedEntry
  touchExitBootServices

/-- Whether an operation enables a controller. -/
def UefiOp.enables (base : UInt64) : UefiOp → Bool
  | .mmioWrite32 a v => a == base + dwIcEnable && v == dwIcEnableEnable
  | _ => false

private theorem enableRequest_of_enables {base : UInt64} {ev : Event Uefi}
    (h : ev.op.enables base = true) : ev = enableRequest base := by
  obtain ⟨e, r⟩ := ev
  cases e with
  | mmioWrite32 a v =>
    obtain ⟨ha, hv⟩ := Bool.and_eq_true_iff.mp h
    obtain rfl := beq_iff_eq.mp ha
    obtain rfl := beq_iff_eq.mp hv
    rfl
  | _ => contradiction

/-- A controller that is not disabled behind the request that enables it. -/
private theorem not_idle_of_enables {base : UInt64} {T : List (Event Uefi)} {n : ℕ}
    (hset : T[n]?.any (fun ev ↦ ev.op.enables base) = true)
    (hclear : (T.drop (n + 1)).all (fun ev ↦ !ev.op.writesTo (base + dwIcEnable)) = true) :
    ¬Idle base T := by
  intro hidle
  obtain ⟨ev, hev, henables⟩ := (Option.any_eq_true _ _).mp hset
  obtain rfl := enableRequest_of_enables henables
  have hsplit : T = T.take n ++ [enableRequest base] ++ T.drop (n + 1) := by
    have hone : T.take (n + 1) = T.take n ++ [enableRequest base] := by
      rw [List.take_add_one, hev, Option.toList_some]
    rw [← hone, List.take_append_drop]
  obtain ⟨u₁, u₂, u₃, hrest, rfl⟩ := hidle _ _ _ hsplit rfl
  have hmem : disableRequest base ∈ T.drop (n + 1) := by
    rw [hrest]
    simp
  have hnone := List.all_eq_true.mp hclear _ hmem
  rw [disableRequest, UefiOp.writesTo, beq_self_eq_true] at hnone
  contradiction

/-- Whether an event can be one of the machine: an access to its controller, which reads as one, or
an operation that needs no other hardware. -/
def fixedEvent : Event Uefi → Bool
  | ⟨.mmioRead32 a, v⟩ =>
    a - fixedBase < 0x1000 && (a != fixedBase + dwIcCompType || (v : UInt32) == dwIcCompTypeValue)
  | ⟨.mmioWrite32 a _, _⟩ => a - fixedBase < 0x1000
  | ⟨.mmioRead8 _, _⟩ | ⟨.allocateDev, _⟩ | ⟨.installProtocol, _⟩ => true
  | ⟨.createEvent _, _⟩ | ⟨.setTimer _ _, _⟩ | ⟨.cancelTimer _, _⟩ | ⟨.stall _, _⟩ => true
  | ⟨.allocatePool _, _⟩ | ⟨.freePool _, _⟩ => true
  | _ => false

/-- The world of these events. -/
private def fixedWorld : World Uefi Unit where
  drift _ _ := True
  Allowed _ _ := True
  answer _ e r _ := fixedEvent ⟨e, r⟩ = true

private theorem path_fixedWorld {t : List (Event Uefi)} (h : ∀ ev ∈ t, fixedEvent ev = true) :
    fixedWorld.Path () t () := by
  induction t with
  | nil => exact .nil ()
  | cons ev t ih =>
    obtain ⟨hev, ht⟩ := List.forall_mem_cons.mp h
    exact @World.Path.cons Uefi Unit fixedWorld () () () () ev.op ev.ret t trivial hev (ih ht)

private theorem wp_unanswered {α : Type} {e : UefiOp} {k : e.Ret → Prog Uefi α}
    {Q : α → Unit → Prop} (h : ∀ r, fixedEvent ⟨e, r⟩ = false) : fixedWorld.wp (.op e k) Q () := by
  refine fun _ _ ↦ ⟨trivial, fun r _ hr ↦ ?_⟩
  have hr : fixedEvent ⟨e, r⟩ = true := hr
  rw [h r] at hr
  contradiction

private theorem eq_fixedBase {base off : UInt64} (hbase : IsController base) (hoff : off < 0x1000)
    (h : base + off - fixedBase < 0x1000) : base = fixedBase := by
  have heq : base + off = fixedBase + (base + off - fixedBase) := by
    rw [UInt64.add_comm fixedBase, UInt64.sub_add_cancel]
  exact (register_inj hbase.1 (by decide) hoff h heq).1

private theorem wp_present_fixed {base : UInt64} (hbase : IsController base) :
    fixedWorld.wp (dwI2cControllerPresent base) (fun ok _ ↦ ok = true) () := by
  rw [dwI2cControllerPresent, World.wp_bind]
  refine fun _ _ ↦ ⟨trivial, fun v _ hv ↦ ?_⟩
  obtain ⟨hlt, hv⟩ := Bool.and_eq_true_iff.mp hv
  obtain rfl := @eq_fixedBase base dwIcCompType hbase (by decide) (by simpa using hlt)
  rw [bne_self_eq_false, Bool.false_or] at hv
  exact hv

private theorem wp_prepare_fixed (pciDid : UInt16) (pciDev pciFunc : UInt8) :
    fixedWorld.wp (intelLpssPrepareI2c pciDid pciDev pciFunc) (fun _ _ ↦ False) () :=
  wp_unanswered fun _ ↦ rfl

private theorem wp_lpssBar_fixed (pciIo : ℕ) :
    fixedWorld.wp (lpssBar pciIo) (fun _ _ ↦ False) () :=
  wp_unanswered fun _ ↦ rfl

private theorem wpS_touchMtkProbe_fixed (a : UInt8) (descReg : UInt16) (d : TouchDev) :
    fixedWorld.wpS (touchMtkProbe proArtP16 a descReg) (fun status _ _ ↦ status.isError = true) d
      () := by
  -- no step of the initialisation gets an answer that would let it succeed
  have hstart : ∀ d : TouchDev, fixedWorld.wpS (onBus (onMtk (mtkI2cInit proArtP16.i2cBase.toUInt64
      proArtP16.dmaBase.toUInt64 a))) (fun status _ _ ↦ status.isError = true) d () := by
    intro d
    rw [wpS_onBus, wpS_onMtk, mtkI2cInit, World.wpS_bind, World.wpS_get]
    split
    · rfl
    split
    · rfl
    rw [World.wpS_bind, World.wpS_set, World.wpS_bind, mtkMapWindows, World.wpS_bind, World.wpS_get]
    split
    · rw [World.wpS_pure, if_neg (by decide), World.wpS_bind, mtkAllocateTx, World.wpS_bind,
        World.wpS_get]
      split
      · rw [World.wpS_pure, if_neg (by decide), World.wpS_bind, mtkAllocateRx, World.wpS_bind,
          World.wpS_get]
        split
        · rw [World.wpS_pure, if_neg (by decide), mtkStart, World.wpS_bind, mtkSnapshotOnce,
            World.wpS_bind, World.wpS_get]
          split
          · exact wp_unanswered fun _ ↦ rfl
          · exact wp_unanswered fun _ ↦ rfl
        · exact wp_unanswered fun _ ↦ rfl
      · exact wp_unanswered fun _ ↦ rfl
    · exact wp_unanswered fun _ ↦ rfl
  have hread : ∀ d : TouchDev, d.bus.mKind = .firmware → fixedWorld.wpS (mtkReadDescriptor descReg)
      (fun status _ _ ↦ status.isError = true) d () := by
    intro d hkind
    rw [mtkReadDescriptor, World.wpS_bind, wpS_readHidDesc, i2cHidReadDescriptor, World.wpS_bind,
      i2cHidReadRegister, i2cBusXfer, World.wpS_bind, World.wpS_get, hkind]
    dsimp only
    rw [World.wpS_lift, fwXfer, World.wp_bind]
    refine World.wp_ofChecked.mpr ⟨_, copyMem_ok (by rw [List.length_replicate])
      (le_refl 2), ?_⟩
    split
    · exact wp_unanswered fun _ ↦ rfl
    split
    · exact wp_unanswered fun _ ↦ rfl
    · have hdesc : I2cHidDescriptor.ofBytes (some d.hidDesc.bytes) = .ok d.hidDesc :=
        dif_pos d.hidDesc.length_bytes
      rw [Prog.pure_eq, World.wp_pure, World.wpS_bind]
      exact World.wpS_liftChecked.mpr ⟨_, hdesc, rfl⟩
  rw [touchMtkProbe, World.wpS_bind, mtkSearchFirmware, World.wpS_bind, World.wpS_get]
  split
  · rw [World.wpS_pure, World.wpS_bind, World.wpS_get]
    split
    · rw [World.wpS_bind, wpS_onBus, i2cBusSelectFirmware, World.wpS_modify]
      exact hread _ rfl
    · rw [World.wpS_bind]
      refine World.wpS_mono (hstart _) fun status _ _ herr ↦ ?_
      rw [if_pos herr]
      exact herr
  · exact wp_unanswered fun _ ↦ rfl

private theorem base_of_readHidDesc_fixed {base : UInt64} {descReg : UInt16} {d d' : TouchDev}
    {status : EfiStatus} {t : List (Event Uefi)} (hbase : IsController base)
    (hkind : d.bus.mKind = .designWare)
    (hret : ((readHidDesc base descReg).run d).Returns t (status, d'))
    (ht : ∀ ev ∈ t, fixedEvent ev = true) : base = fixedBase := by
  obtain ⟨_, t₁, _, _, rfl, hget, hret⟩ := Prog.returnsS_bind.mp hret
  obtain ⟨rfl, rfl, rfl⟩ := Prog.returnsS_get.mp hget
  obtain ⟨t₂, t₃, _, _, rfl, hbus, -⟩ := Prog.returnsS_bind.mp hret
  obtain ⟨bus, hdesc, -⟩ := returns_onBus.mp hbus
  obtain ⟨t₄, t₅, _, _, rfl, hreg, -⟩ := Prog.returnsS_bind.mp hdesc
  obtain ⟨_, t₆, _, _, rfl, hget, hxfer⟩ := Prog.returnsS_bind.mp hreg
  obtain ⟨rfl, rfl, rfl⟩ := Prog.returnsS_get.mp hget
  rw [hkind] at hxfer
  have hxfer := (Prog.returnsS_lift.mp hxfer).1
  rw [dwI2cXfer, if_neg (by simp [xferInvalid, i2cHidDescriptorSize])] at hxfer
  obtain ⟨t₇, t₈, v, rfl, hfirst, -⟩ := Prog.returns_bind.mp hxfer
  obtain rfl : t₇ = [⟨.mmioRead32 (base + dwIcClrTxAbrt), v⟩] := Prog.returns_perform.mp hfirst
  have hevent := ht ⟨.mmioRead32 (base + dwIcClrTxAbrt), v⟩ (by simp)
  exact @eq_fixedBase base dwIcClrTxAbrt hbase (by decide)
    (by simpa using (Bool.and_eq_true_iff.mp hevent).1)

/-- A trace of such events in which the controller of the machine is the only one to be enabled. -/
private theorem idle_fixed {base : UInt64} {t : List (Event Uefi)} (hbase : IsController base)
    (ht : ∀ ev ∈ t, fixedEvent ev = true) (henabled : ¬Idle base t) : base = fixedBase := by
  by_contra hne
  refine henabled fun t₁ t₂ t₃ heq henable ↦ ?_
  have hevent := ht (enableRequest base) (by rw [heq, henable]; simp)
  have hlt : base + dwIcEnable - fixedBase < 0x1000 := of_decide_eq_true hevent
  exact absurd (eq_fixedBase hbase (by decide) hlt) hne

private theorem avoids_fixed {T : List (Event Uefi)} (h : ∀ ev ∈ T, fixedEvent ev = true)
    (hlen : T.length ≤ dwPollLimit) : AvoidsAfter Abandons T ∧ Avoids UnusableBar T := by
  have hpart : ∀ {t₁ t₂ t₃}, T = t₁ ++ t₂ ++ t₃ →
      (∀ ev ∈ t₁, fixedEvent ev = true) ∧ ∀ ev ∈ t₂, fixedEvent ev = true := by
    rintro t₁ t₂ t₃ rfl
    exact ⟨fun ev hev ↦ h ev (by simp [hev]), fun ev hev ↦ h ev (by simp [hev])⟩
  constructor
  · intro t₁ t₂ t₃ heq habandon
    obtain ⟨h₁, h₂⟩ := hpart heq
    have hpath := path_fixedWorld h₂
    cases habandon with
    | stuck hret hend =>
      obtain ⟨u₁, u₂, hends, htimeout⟩ := hend
      have hlong := htimeout.length_lt
      rw [heq, hends] at hlen
      simp only [List.length_append] at hlen
      omega
    | absent hret hbase _ =>
      have hok := (World.wp_returns (wp_present_fixed hbase) hret hpath :)
      exact absurd hok (by decide)
    | lost hret => exact World.wp_returns (wp_prepare_fixed _ _ _) hret hpath
    | elsewhere hret hkind _ hbase hbase' hne henabled =>
      exact hne ((idle_fixed hbase' h₁ henabled).trans
        (base_of_readHidDesc_fixed hbase hkind hret h₂).symm)
    | mediaTek hprof hplatform hret hok =>
      obtain rfl := eq_proArtP16 hprof hplatform
      have herr := World.returns_of_wpS (wpS_touchMtkProbe_fixed _ _ _) hret hpath
      rw [hok] at herr
      exact absurd herr (by decide)
  · rintro t₁ t₂ t₃ heq ⟨pciIo, bar, hret, -⟩
    exact World.wp_returns (wp_lpssBar_fixed pciIo) hret (path_fixedWorld (hpart heq).2)

section

variable {entries : List ConfigurationEntry} {t₀ t : List (Event Uefi)} {steps : List Step}
  {d d' : TouchDev}

/-- Between two dispatches of a run that gives no enabled controller up. -/
private theorem between_of_tidy (hrun : Run (touchI2cDxeEntry entries) t₀ steps d)
    (hboot : ∀ step ∈ steps, step.dispatch ≠ .exitBoot)
    (htidy : Tidy (t₀ ++ steps.flatMap Step.trace)) : ∃ dmi,
    (d.ready = false → Quiesced Tidy (Stray dmi) (t₀ ++ steps.flatMap Step.trace)) ∧
    (d.ready = true →
      Routed AllIdle (Alone dmi) d.bus d.i2cBase (t₀ ++ steps.flatMap Step.trace)) := by
  obtain ⟨dmi, hread, -⟩ := touchReadDmiIdentity_ok entries
  have hnil : Quiesced Tidy (Stray dmi) [] :=
    ⟨prefixClosed_tidy [] _ htidy, fun base _ ↦ .inl idle_nil⟩
  have hbetween := between_of_run hread (driverRules_idle dmi) ⟨rfl, hnil⟩ hrun hboot
    (path_recording prefixClosed_tidy htidy)
  rcases hbetween with ⟨rfl, -, hquiesced⟩ | h
  · exact ⟨dmi, fun _ ↦ hquiesced, fun hready ↦ absurd hready (by decide)⟩
  · exact ⟨dmi, fun hready ↦ (h.rest hready).2, fun hready ↦ (h.live hready).2⟩

/-- A driver that is not ready has nothing enabled, where no attempt has failed behind detection. -/
private theorem leftIdle_of_setUp (hrun : Run (touchI2cDxeEntry entries) t₀ steps d)
    (hboot : ∀ step ∈ steps, step.dispatch ≠ .exitBoot)
    (htidy : Tidy (t₀ ++ steps.flatMap Step.trace)) (hready : d.ready = false)
    (hfailed : Avoids SetUpFailed (t₀ ++ steps.flatMap Step.trace)) :
    LeftIdle (t₀ ++ steps.flatMap Step.trace) := by
  obtain ⟨dmi, hrest, -⟩ := between_of_tidy hrun hboot htidy
  exact fun base hbase ↦ ((hrest hready).idle base hbase).resolve_right fun hin ↦ hin.1 hfailed

/-- The way out of boot services, for a driver that is ready or has nothing enabled. -/
private theorem leftIdle_of_exit (hrun : Run (touchI2cDxeEntry entries) t₀ steps d)
    (hboot : ∀ step ∈ steps, step.dispatch ≠ .exitBoot)
    (htidy : Tidy (t₀ ++ steps.flatMap Step.trace))
    (hrest : d.ready = false → LeftIdle (t₀ ++ steps.flatMap Step.trace))
    (hexit : (touchExitBootServices.run d).Returns t ((), d')) :
    LeftIdle (t₀ ++ steps.flatMap Step.trace ++ t) := by
  obtain ⟨dmi, -, hlive⟩ := between_of_tidy hrun hboot htidy
  refine World.returns_of_wpS (@wpS_exit_idle dmi _ _ ?_) hexit
    (path_recording (fun _ _ _ ↦ trivial) trivial)
  split
  · next hready => exact hlive hready
  · next hnot =>
    have hready : d.ready = false := by simpa using hnot
    exact ⟨htidy, fun base hbase ↦ .inl (hrest hready base hbase)⟩

/-- The way out of boot services disables nothing for a driver that is not ready. -/
private theorem idle_of_exit {base : UInt64} {s : List (Event Uefi)} (hready : d.ready = false)
    (hexit : (touchExitBootServices.run d).Returns t ((), d')) (h : Idle base (s ++ t)) :
    Idle base s := by
  have hwithin : (within NoAccess).world.wpS touchExitBootServices
      (fun _ d' _ ↦ ∃ bus, SameWindows d.bus bus ∧ d' = { d with bus := bus }) d () :=
    touchExitBootServices_within (fun _ he ↦ he) fun hnot ↦ absurd hnot (by rw [hready]; decide)
  rintro t₁ t₂ t₃ rfl henable
  obtain ⟨u₁, u₂, u₃, heq, rfl⟩ := h t₁ t₂ (t₃ ++ t) (List.append_assoc ..) henable
  -- the request that answers cannot be one of the exit
  have hmem : disableRequest base ∈ t₃ ++ t := by
    rw [heq]
    simp
  rcases List.mem_append.mp hmem with hmem | hmem
  · obtain ⟨v₁, v₂, rfl⟩ := List.append_of_mem hmem
    exact ⟨v₁, [disableRequest base], v₂, by simp, rfl⟩
  · exact (Prog.Within.events hwithin hexit _ hmem).elim

/-- **The bus is left idle** for the operating system, where no enabled controller is given up and
every BAR0 is the window of a controller: after any run, `TouchExitBootServices` leaves no
controller enabled. -/
theorem leftIdle_of_run (hrun : Run (touchI2cDxeEntry entries) t₀ steps d)
    (hboot : ∀ step ∈ steps, step.dispatch ≠ .exitBoot)
    (habandon : AvoidsAfter Abandons (t₀ ++ steps.flatMap Step.trace))
    (hbar : Avoids UnusableBar (t₀ ++ steps.flatMap Step.trace))
    (hfailed : d.ready = false → Avoids SetUpFailed (t₀ ++ steps.flatMap Step.trace))
    (hexit : (touchExitBootServices.run d).Returns t ((), d')) :
    LeftIdle (t₀ ++ steps.flatMap Step.trace ++ t) :=
  leftIdle_of_exit hrun hboot ⟨habandon, hbar⟩
    (fun hready ↦ leftIdle_of_setUp hrun hboot ⟨habandon, hbar⟩ hready (hfailed hready)) hexit

/-- The panel of the machine becomes ready, with its controller enabled, and the driver leaves boot
services. -/
private theorem run_fixed : ∃ t₀ d t d', Run fixedEntry t₀ [] d ∧ d.ready = true ∧
    (touchExitBootServices.run d).Returns t ((), d') ∧ ¬Idle fixedBase t₀ ∧
    AvoidsAfter Abandons (t₀ ++ [].flatMap Step.trace) ∧
    Avoids UnusableBar (t₀ ++ [].flatMap Step.trace) := by
  have hboot : ((fixedEntry.run {}).simulate dwPanelMachine {}).2.map (fun r ↦ (r.2.ready,
      ((touchExitBootServices.run r.2).simulate dwPanelMachine {}).2.isSome))
      = some (true, true) := by decide +kernel
  have hevents : ((fixedEntry.run {}).simulate dwPanelMachine {}).1.all fixedEvent = true := by
    decide +kernel
  have hlen : ((fixedEntry.run {}).simulate dwPanelMachine {}).1.length ≤ dwPollLimit := by
    decide +kernel
  have hset : (((fixedEntry.run {}).simulate dwPanelMachine {}).1[20]?).any
      (fun ev ↦ ev.op.enables fixedBase) = true := by decide +kernel
  have hclear : (((fixedEntry.run {}).simulate dwPanelMachine {}).1.drop 21).all
      (fun ev ↦ !ev.op.writesTo (fixedBase + dwIcEnable)) = true := by decide +kernel
  obtain ⟨⟨_, d⟩, hsim, hend⟩ := Option.map_eq_some_iff.mp hboot
  obtain ⟨hready, hexit⟩ := Prod.mk.inj hend
  obtain ⟨⟨_, d'⟩, hexit⟩ := Option.isSome_iff_exists.mp hexit
  have hentry := Prog.returns_simulate hsim
  generalize ((fixedEntry.run {}).simulate dwPanelMachine {}).1 = t₀
    at hevents hlen hset hclear hentry
  have ht₀ := avoids_fixed (List.all_eq_true.mp hevents) hlen
  have hnil : t₀ ++ [].flatMap Step.trace = t₀ := List.append_nil t₀
  rw [← hnil] at ht₀
  exact ⟨t₀, d, _, d', ⟨d, hentry, .nil d⟩, hready, Prog.returns_simulate hexit,
    not_idle_of_enables hset hclear, ht₀.1, ht₀.2⟩

/-- A panel that becomes ready: its controller is enabled, and it is left idle. -/
theorem leftIdle_of_run_fixed : ∃ t₀ d t d', Run fixedEntry t₀ [] d ∧ d.ready = true ∧
    (touchExitBootServices.run d).Returns t ((), d') ∧ ¬Idle fixedBase t₀ ∧
      LeftIdle (t₀ ++ [].flatMap Step.trace ++ t) := by
  obtain ⟨t₀, d, t, d', hrun, hready, hexit, henabled, habandon, hbar⟩ := run_fixed
  exact ⟨t₀, d, t, d', hrun, hready, hexit, henabled,
    leftIdle_of_run hrun (fun _ hmem ↦ absurd hmem List.not_mem_nil) habandon hbar
      (fun hnot ↦ absurd hnot (by rw [hready]; decide)) hexit⟩

/-- **What is left enabled** where no enabled controller is given up: what a driver that is not ready
has enabled before. That is nothing if no attempt has failed behind detection. -/
theorem leftIdle_iff_of_run (hrun : Run (touchI2cDxeEntry entries) t₀ steps d)
    (hboot : ∀ step ∈ steps, step.dispatch ≠ .exitBoot)
    (habandon : AvoidsAfter Abandons (t₀ ++ steps.flatMap Step.trace))
    (hbar : Avoids UnusableBar (t₀ ++ steps.flatMap Step.trace))
    (hexit : (touchExitBootServices.run d).Returns t ((), d')) :
    (LeftIdle (t₀ ++ steps.flatMap Step.trace ++ t) ↔
      d.ready = true ∨ LeftIdle (t₀ ++ steps.flatMap Step.trace)) ∧
    (Avoids SetUpFailed (t₀ ++ steps.flatMap Step.trace) →
      LeftIdle (t₀ ++ steps.flatMap Step.trace ++ t)) := by
  have htidy : Tidy (t₀ ++ steps.flatMap Step.trace) := ⟨habandon, hbar⟩
  refine ⟨⟨fun h ↦ ?_, fun h ↦ ?_⟩, fun hfailed ↦ ?_⟩
  · by_cases hready : d.ready = true
    · exact .inl hready
    · exact .inr fun base hbase ↦ idle_of_exit (by simpa using hready) hexit (h base hbase)
  · exact leftIdle_of_exit hrun hboot htidy
      (fun hnot ↦ h.resolve_left (by rw [hnot]; decide)) hexit
  · exact leftIdle_of_exit hrun hboot htidy
      (fun hready ↦ leftIdle_of_setUp hrun hboot htidy hready hfailed) hexit

theorem leftIdle_iff_of_run_fixed : ∃ t₀ d t d', Run fixedEntry t₀ [] d ∧
    (touchExitBootServices.run d).Returns t ((), d') ∧ ¬LeftIdle (t₀ ++ [].flatMap Step.trace) ∧
    LeftIdle (t₀ ++ [].flatMap Step.trace ++ t) := by
  obtain ⟨t₀, d, t, d', hrun, hready, hexit, henabled, habandon, hbar⟩ := run_fixed
  refine ⟨t₀, d, t, d', hrun, hexit, fun h ↦ henabled ?_,
    (leftIdle_iff_of_run hrun (fun _ hmem ↦ absurd hmem List.not_mem_nil) habandon hbar
      hexit).1.mpr (.inl hready)⟩
  rw [List.flatMap_nil, List.append_nil] at h
  exact h fixedBase (by decide)

end

/-- The panel is found, but its report descriptor cannot be read: the controller stays enabled. -/
theorem not_leftIdle_of_run : ¬∀ (entries : List ConfigurationEntry) (t₀ t : List (Event Uefi))
    (steps : List Step) (d d' : TouchDev), Run (touchI2cDxeEntry entries) t₀ steps d →
    (∀ step ∈ steps, step.dispatch ≠ .exitBoot) →
    (touchExitBootServices.run d).Returns t ((), d') →
    LeftIdle (t₀ ++ steps.flatMap Step.trace ++ t) := by
  intro h
  have hreturns : ((fixedBoot.run {}).simulate dwPanelMachine { answers := 1 }).2.isSome = true := by
    decide +kernel
  have hset : (((fixedBoot.run {}).simulate dwPanelMachine { answers := 1 }).1[20]?).any
      (fun ev ↦ ev.op.enables fixedBase) = true := by decide +kernel
  have hclear : (((fixedBoot.run {}).simulate dwPanelMachine { answers := 1 }).1.drop 21).all
      (fun ev ↦ !ev.op.writesTo (fixedBase + dwIcEnable)) = true := by decide +kernel
  obtain ⟨⟨_, d'⟩, hsome⟩ := Option.isSome_iff_exists.mp hreturns
  have hret := Prog.returns_simulate hsome
  generalize ((fixedBoot.run {}).simulate dwPanelMachine { answers := 1 }).1 = trace
    at hset hclear hret
  obtain ⟨t₀, t, _, d, rfl, hentry, hexit⟩ := Prog.returnsS_bind.mp hret
  have hleft := h _ t₀ t [] d d' ⟨d, hentry, .nil d⟩ (fun _ hmem ↦ absurd hmem List.not_mem_nil)
    hexit fixedBase (by decide)
  rw [List.flatMap_nil, List.append_nil] at hleft
  exact not_idle_of_enables hset hclear hleft

end TouchI2c
