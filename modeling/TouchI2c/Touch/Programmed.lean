import TouchI2c.DwI2c.Idle
import TouchI2c.Touch.Kick

/-!
# The timing of fresh controllers

A controller that the driver has powered on itself has no timing of the firmware that it could
inherit: `DwI2cInit` has to be given that of its platform before the first transfer. From the
request for D0 of an AMD tile, or the release of the resets of an LPSS function (`PowersOn`), until
then the controller owes its timing; `Programmed` says of a trace that it does not.

## The condition

That a controller is fresh is known to a local of the pass, or of the sweep, that has powered it on,
and to nothing else. A pass that ends without having programmed the timing, because the controller
does not answer or cannot be disabled, takes the knowledge with it; so does a power-on that times
out, and a sweep that finds the panel on another controller before. From then on the timing is
`Dropped`: the next pass finds the tile in D0, or the resets released, and has its initialisation
inherit what is there. If that succeeds (`Forgets`), transfers follow. `FreshScope` lists the places
where such a local ends. As elsewhere, a BAR0 that is not the window of a controller is excluded.

## The invariant

`Due P` says that what is owed has either been dropped or is among `P`. At the end of every scope it
holds with an empty `P` (`OnlyDropped`), by the definition of what is dropped (`Due.close`). Within
a scope `P` is what its locals know: the one controller of a pass, or the targets of a sweep, each
with the timing that it is going to be given. An initialisation is given what its controller owes
from `P`, so a controller on which one succeeds owes nothing (`Solvent`), and stays so as long as
the driver keeps to it, since nothing that is done with a panel powers a controller on.

## Two runs

Both are on a machine whose panel is behind a gated tile. In the one the pass of the profile powers
the tile on and programs the timing. In the other the controller does not answer in time for that
pass: the sweep comes back to it and initialises it with the timing it has come up with.
-/

namespace TouchI2c

open CMemory Interaction

/-! ## Timing that is owed -/

/-- The AMD tiles that detection un-gates, each with the base of its controller. -/
def amdTiles : List (UInt8 × UInt32) := sweepTiles.zip mSweepBases

/-- The operation powers the controller at `base` on, which then needs the timing: it requests D0 of
an AMD tile, or releases the resets of an LPSS function. -/
inductive PowersOn : DwI2cTiming → UInt64 → UefiOp → Prop
  | amd {dev : UInt8} {b : UInt32} (htile : (dev, b) ∈ amdTiles) (v : UInt8) :
      PowersOn gDwTimingAmdFch150M b.toUInt64 (.mmioWrite8 (fchAoacDevCtl dev) v)
  | lpss {base : UInt64} (v : UInt32) :
      PowersOn gDwTimingIntelLpss133M base (.mmioWrite32 (base + lpssPrivResets) v)

/-- `DwI2cInit` programs the timing as one that is forced. -/
def Programs (timing : DwI2cTiming) (base : UInt64) (t : List (Event Uefi)) : Prop :=
  (programTiming base (some timing)).Returns t ()

/-- Since the driver has last powered the controller on, the timing has been programmed. -/
def Programmed (timing : DwI2cTiming) (base : UInt64) : List (Event Uefi) → Prop :=
  Answered (fun u ↦ ∃ ev, u = [ev] ∧ PowersOn timing base ev.op) (Programs timing base)

/-- The registers that only transfers access. -/
def TransferOffset (off : UInt64) : Prop := off = dwIcClrTxAbrt ∨ off = dwIcDataCmd

/-- Behind the trace `t` the operation is no part of a transfer on a controller that owes timing. -/
def PaidTransfers (t : List (Event Uefi)) (e : UefiOp) : Prop :=
  ∀ base, IsController base → RegAccess base TransferOffset e → ∀ timing, Programmed timing base t

/-! ## Timing that is forgotten -/

/-- The sweep of a profile with a DesignWare controller. -/
def dwSweep (prof : TouchProfile) : Touch Bool := do
  tryEach (sweepBase prof) (← sweepTargets prof)

/-- What is over with the locals that tell which controllers are fresh: the pass or the sweep of a
profile, or a power-on that has timed out. -/
inductive FreshScope (t : List (Event Uefi)) : Prop
  | timeout {dev : UInt8} {fresh : Bool} (h : (fchAoacPowerOnI2c dev).Returns t (.timeout, fresh))
  | amdPass {p : ℕ} {prof : TouchProfile} {found : Bool} {d d' : TouchDev}
      (hprof : prof ∈ mProfiles) (h : ((amdPass p prof).run d).Returns t (found, d'))
  | intelPass {prof : TouchProfile} {found : Bool} {d d' : TouchDev} (hprof : prof ∈ mProfiles)
      (h : ((intelPass prof).run d).Returns t (found, d'))
  | dwSweep {prof : TouchProfile} {found : Bool} {d d' : TouchDev} (hprof : prof ∈ mProfiles)
      (h : ((dwSweep prof).run d).Returns t (found, d'))

/-- The controller has been powered on in a scope that is over, and its timing was not programmed
there. It has not been powered on since. -/
def Dropped (timing : DwI2cTiming) (base : UInt64) : List (Event Uefi) → Prop :=
  Since (fun s u ↦ FreshScope u ∧ (∃ ev ∈ u, PowersOn timing base ev.op) ∧
    ¬Programmed timing base (s ++ u)) fun ev ↦ PowersOn timing base ev.op

/-- In `t'`, which comes after `t`, a controller is initialised whose timing is owed and dropped. -/
def Forgets (t t' : List (Event Uefi)) : Prop :=
  ∃ base slaveAddr forced status timing, IsController base ∧
    (dwI2cInit base slaveAddr forced).Returns t' status ∧ status.isError = false ∧
    ¬Programmed timing base t ∧ Dropped timing base t

/-- No owed timing is forgotten, and every BAR0 is the window of a controller. -/
def Careful (t : List (Event Uefi)) : Prop := AvoidsAfter Forgets t ∧ Avoids UnusableBar t

private theorem prefixClosed_careful : PrefixClosed Careful :=
  prefixClosed_avoidsAfter.and prefixClosed_avoids

/-! ## Operations -/

/-- What powers no controller on and is no part of a transfer. -/
private structure Harmless (e : UefiOp) : Prop where
  elsewhere : Elsewhere TransferOffset e
  noPower : ∀ timing base, IsController base → ¬PowersOn timing base e

section

variable {timing : DwI2cTiming} {base : UInt64} {s t : List (Event Uefi)} {e : UefiOp}

private theorem noPower_of_ne (h8 : ∀ a v, e ≠ .mmioWrite8 a v)
    (h32 : ∀ base v, IsController base → e ≠ .mmioWrite32 (base + lpssPrivResets) v) :
    ∀ timing base, IsController base → ¬PowersOn timing base e := by
  intro timing base hbase h
  cases h with
  | amd _ v => exact h8 _ v rfl
  | lpss v => exact h32 base v hbase rfl

/-- Registers of a controller other than that of the resets. -/
private theorem noPower_of_regAccess {R : UInt64 → Prop} (hbase : IsController base)
    (hR : ∀ off, R off → off < 0x1000 ∧ off ≠ lpssPrivResets) (h : RegAccess base R e) :
    ∀ timing base', IsController base' → ¬PowersOn timing base' e := by
  refine noPower_of_ne (by rintro a v rfl; exact h) fun base' v hbase' heq ↦ ?_
  subst heq
  obtain ⟨off, hoff, heq⟩ := h
  exact (hR off hoff).2 (register_inj hbase'.1 hbase.1 (by decide) (hR off hoff).1 heq).2.symm

private theorem inBlock_transfer : InBlock TransferOffset where
  pos := by rintro off (rfl | rfl) <;> decide
  lt := by rintro off (rfl | rfl) <;> decide

private theorem outside_harmless : Outside Harmless where
  noAccess {e} he := by
    refine ⟨he.elsewhere, noPower_of_ne ?_ ?_⟩
    · rintro a v rfl
      exact he
    · rintro base v - rfl
      exact he
  mtk {mtkBase e} he := by
    refine ⟨he.elsewhere inBlock_transfer, noPower_of_ne ?_ ?_⟩
    · rintro a v rfl
      exact he
    · rintro base v hbase rfl
      obtain ⟨off, hoff, heq⟩ := he
      exact hbase.2 (register_inj hbase.1 (by decide) (by decide)
        (UInt64.lt_trans hoff (by decide)) heq).1

/-- Offsets of registers that neither transfers nor the release of the resets access. -/
private def isAside (off : UInt64) : Bool :=
  off < 0x1000 && off != dwIcClrTxAbrt && off != dwIcDataCmd && off != lpssPrivResets

private theorem harmless_of_regAccess {offsets : List UInt64} (hbase : IsController base)
    (hoffsets : offsets.all isAside) (h : RegAccess base (· ∈ offsets) e) : Harmless e := by
  have haside : ∀ off ∈ offsets, off < 0x1000 ∧ off ≠ dwIcClrTxAbrt ∧ off ≠ dwIcDataCmd ∧
      off ≠ lpssPrivResets := by
    simpa [isAside, and_assoc] using hoffsets
  constructor
  · refine elsewhere_of_regAccess hbase.1 (fun _ ↦ inBlock_transfer.window) (fun off hoff ↦ ?_) h
    obtain ⟨hlt, hclear, hdata, -⟩ := haside off hoff
    exact ⟨hlt, not_or.mpr ⟨hclear, hdata⟩⟩
  · refine noPower_of_regAccess hbase (fun off hoff ↦ ?_) h
    obtain ⟨hlt, -, -, hresets⟩ := haside off hoff
    exact ⟨hlt, hresets⟩

private theorem harmless_of_pci {pciIo : ℕ} (h : PciAccess pciIo e) : Harmless e := by
  refine ⟨h.elsewhere, noPower_of_ne ?_ ?_⟩
  · rintro a v rfl
    exact h
  · rintro base v - rfl
    exact h

private theorem logProfile_harmless {prof : TouchProfile} (hprof : prof ∈ mProfiles)
    (dmi : DmiIdentity) : (logProfile dmi prof).Within Harmless fun _ ↦ True := by
  have hstatus : AoacAccess prof.aoacDev (.mmioRead8 (fchAoacDevStatus prof.aoacDev)) := .inl rfl
  have hread : Harmless (.mmioRead32 (prof.i2cBase.toUInt64 + dwIcCompType)) :=
    harmless_of_regAccess (isController_fixed hprof) (by decide : [dwIcCompType].all isAside)
      ⟨dwIcCompType, List.mem_singleton_self _, rfl⟩
  unfold logProfile
  split
  · rw [Prog.Within, World.wp_bind]
    refine wp_uefi.mpr ⟨⟨hstatus.elsewhere, noPower_of_ne (fun _ _ ↦ UefiOp.noConfusion)
      fun _ _ _ ↦ UefiOp.noConfusion⟩, fun _ ↦ ?_⟩
    rw [World.wp_bind]
    exact wp_uefi.mpr ⟨hread, fun _ ↦ trivial⟩
  · exact trivial

/-! ## Debts -/

private theorem programmed_nil : Programmed timing base [] := by
  rintro t₁ t₂ t₃ heq ⟨ev, rfl, -⟩
  simp at heq

/-- What powers the controller on nowhere leaves its debts alone. -/
private theorem Programmed.append (h : Programmed timing base s)
    (ht : ∀ ev ∈ t, ¬PowersOn timing base ev.op) : Programmed timing base (s ++ t) := by
  refine Answered.append h (noneAfter_of_events (fun u hu ↦ ?_) fun ev hev hpower ↦ ?_)
  · obtain ⟨ev, rfl, -⟩ := hu
    exact ⟨ev, rfl⟩
  · obtain ⟨ev', heq, hpower⟩ := hpower
    obtain rfl := List.singleton_inj.mp heq
    exact ht ev hev hpower

private theorem programmed_of_programs {t₁ t₂ t₃ : List (Event Uefi)}
    (hprograms : Programs timing base t₂)
    (ht : ∀ ev ∈ t₁ ++ t₂ ++ t₃, ¬PowersOn timing base ev.op) :
    Programmed timing base (s ++ (t₁ ++ t₂ ++ t₃)) := by
  have hpaid : Programmed timing base (s ++ t₁ ++ t₂) := by
    refine answered_of_reply hprograms (noneAfter_of_events (fun u hu ↦ ?_) fun ev hev hpower ↦ ?_)
    · obtain ⟨ev, rfl, -⟩ := hu
      exact ⟨ev, rfl⟩
    · obtain ⟨ev', heq, hpower⟩ := hpower
      obtain rfl := List.singleton_inj.mp heq
      exact ht ev (by simp [hev]) hpower
  rw [← List.append_assoc, ← List.append_assoc]
  exact hpaid.append fun ev hev ↦ ht ev (by simp [hev])

/-- An initialisation that succeeds has programmed the timing that it was given. -/
private theorem programTiming_of_init {forced : Option DwI2cTiming} {slaveAddr : UInt8}
    {status : EfiStatus} (hok : status.isError = false)
    (hret : (dwI2cInit base slaveAddr forced).Returns t status) :
    ∃ t₁ t₂ t₃, t = t₁ ++ t₂ ++ t₃ ∧ disableRequest base ∈ t₁ ∧
      (programTiming base forced).Returns t₂ () := by
  obtain ⟨t₁, t', disabled, rfl, hdisable, hret⟩ := Prog.returns_bind.mp hret
  split at hret
  · obtain ⟨-, rfl⟩ := Prog.returns_pure.mp hret
    exact absurd hok (by decide)
  · obtain ⟨t₂, t₃, _, rfl, hprograms, -⟩ := Prog.returns_bind.mp hret
    obtain ⟨t₄, t₅, _, rfl, hwrite, -⟩ := Prog.returns_bind.mp hdisable
    obtain rfl : t₄ = [disableRequest base] := Prog.returns_perform.mp hwrite
    exact ⟨_, t₂, t₃, (List.append_assoc ..).symm, by simp, hprograms⟩

/-- Nothing is owed but what has been dropped, and what `P` says. -/
private structure Due (P : DwI2cTiming → UInt64 → Prop) (s : List (Event Uefi)) : Prop where
  careful : Careful s
  known : ∀ timing base, IsController base → ¬Programmed timing base s →
    Dropped timing base s ∨ P timing base

/-- Nothing is owed but what has been dropped. -/
private abbrev OnlyDropped : List (Event Uefi) → Prop := Due fun _ _ ↦ False

/-- A controller that owes nothing. -/
private structure Solvent (P : DwI2cTiming → UInt64 → Prop) (base : UInt64)
    (s : List (Event Uefi)) : Prop where
  due : Due P s
  programmed : ∀ timing, Programmed timing base s

variable {P Q : DwI2cTiming → UInt64 → Prop}

private theorem Due.mono (h : Due P s)
    (hPQ : ∀ timing base, IsController base → P timing base → Q timing base) : Due Q s :=
  ⟨h.careful, fun timing base hbase hnot ↦ (h.known timing base hbase hnot).imp_right
    (hPQ timing base hbase)⟩

/-- What is owed after a step: what was, and what the step has powered on. -/
private theorem Due.step (h : Due P s) (hC : Careful (s ++ t))
    (hPQ : ∀ timing base, P timing base → Q timing base)
    (hpower : ∀ ev ∈ t, ∀ timing base, IsController base → PowersOn timing base ev.op →
      ¬Programmed timing base (s ++ t) → Dropped timing base (s ++ t) ∨ Q timing base) :
    Due Q (s ++ t) := by
  refine ⟨hC, fun timing base hbase hnot ↦ ?_⟩
  by_cases hpowered : ∃ ev ∈ t, PowersOn timing base ev.op
  · obtain ⟨ev, hev, hpowers⟩ := hpowered
    exact hpower ev hev timing base hbase hpowers hnot
  · have hnone : ∀ ev ∈ t, ¬PowersOn timing base ev.op := fun ev hev hpowers ↦
      hpowered ⟨ev, hev, hpowers⟩
    have howed : ¬Programmed timing base s := fun hpaid ↦ hnot (hpaid.append hnone)
    exact (h.known timing base hbase howed).imp (fun hdropped ↦ hdropped.append hnone)
      (hPQ timing base)

private theorem Due.append (h : Due P s) (hC : Careful (s ++ t))
    (ht : ∀ ev ∈ t, ∀ timing base, IsController base → ¬PowersOn timing base ev.op) :
    Due P (s ++ t) :=
  h.step hC (fun _ _ h ↦ h) fun ev hev timing base hbase hpowers ↦
    absurd hpowers (ht ev hev timing base hbase)

/-- At the end of a scope, what is owed from it is dropped. -/
private theorem Due.close (h : OnlyDropped s) (hC : Careful (s ++ t)) (hscope : FreshScope t) :
    OnlyDropped (s ++ t) :=
  h.step hC (fun _ _ h ↦ h) fun ev hev _ _ _ hpowers hnot ↦
    .inl (since_of_last ⟨hscope, ⟨ev, hev, hpowers⟩, hnot⟩)

end

/-! ## The world -/

/-- The world of the runs that are careful. -/
private abbrev timingLedger : World Uefi (List (Event Uefi)) := recording PaidTransfers Careful

section

variable {P Q : DwI2cTiming → UInt64 → Prop} {base : UInt64} {s : List (Event Uefi)}

private theorem keeps_careful : timingLedger.Keeps (Elsewhere TransferOffset) Careful :=
  fun _ _ he _ ↦ wp_perform_recording.mpr
    ⟨fun base hbase hreg ↦ absurd hreg (he base hbase), fun _ hC ↦ hC⟩

private theorem keeps_due : timingLedger.Keeps Harmless (Due P) := fun _ _ he h ↦
  wp_perform_recording.mpr ⟨fun base hbase hreg ↦ absurd hreg (he.elsewhere base hbase),
    fun _ hC ↦ h.append hC fun _ hev ↦ by
      rw [List.mem_singleton.mp hev]
      exact he.noPower⟩

private theorem Solvent.append {t : List (Event Uefi)} (h : Solvent P base s)
    (hbase : IsController base) (hC : Careful (s ++ t))
    (ht : ∀ ev ∈ t, ∀ timing base, IsController base → ¬PowersOn timing base ev.op) :
    Solvent P base (s ++ t) :=
  ⟨h.due.append hC ht, fun timing ↦ (h.programmed timing).append
    fun ev hev ↦ ht ev hev timing base hbase⟩

private theorem keepsOn_solvent (hbase : IsController base) :
    timingLedger.Keeps Harmless (Solvent P base) := fun _ _ he h ↦
  wp_perform_recording.mpr ⟨fun base hbase hreg ↦ absurd hreg (he.elsewhere base hbase),
    fun _ hC ↦ h.append hbase hC fun _ hev ↦ by
      rw [List.mem_singleton.mp hev]
      exact he.noPower⟩

/-- The registers of a controller that owes nothing. -/
private theorem keeps_solvent (hbase : IsController base) :
    timingLedger.Keeps (RegAccess base IsDwOffset) (Solvent P base) := by
  intro e s he h
  have hnoPower := noPower_of_regAccess hbase (fun off hoff ↦
    ⟨UInt64.lt_trans hoff (by decide), by rintro rfl; exact absurd hoff (by decide)⟩) he
  refine wp_perform_recording.mpr ⟨fun base' hbase' hreg timing ↦ ?_, fun r hC ↦
    h.append hbase hC fun ev hev ↦ by
      rw [List.mem_singleton.mp hev]
      exact hnoPower⟩
  obtain rfl : base' = base := by
    cases e with
    | mmioRead32 a | mmioWrite32 a v =>
      obtain ⟨off, hoff, rfl⟩ := he
      obtain ⟨off', hoff', heq⟩ := hreg
      exact (register_inj hbase'.1 hbase.1 (inBlock_transfer.window hoff')
        (UInt64.lt_trans hoff (by decide)) heq.symm).1
    | _ => exact he.elim
  exact h.programmed timing

/-- A controller that owes nothing is accessed as the driver likes, and powers nothing on. -/
private theorem masterRules_solvent (P : DwI2cTiming → UInt64 → Prop) :
    MasterRules timingLedger Harmless OnlyDropped fun _ ↦ Solvent P where
  outside := outside_harmless
  log := logProfile_harmless
  keeps := keeps_due
  keepsOn hbase := keepsOn_solvent hbase
  due h := h
  xfer hbase hbuf h := World.wp_mono ((keeps_solvent hbase).wp
    (dwI2cXfer_within (fun _ ↦ isDwOffset_of_mem_xfer) hbuf) h) fun _ _ h' ↦ ⟨h'.2, h'.1⟩
  reinit slaveAddr hbase h := by
    refine World.wp_mono ((keeps_solvent hbase).wp
      (dwI2cInit_within (fun _ h ↦ h) slaveAddr none) h) fun status _ h' ↦ ?_
    split <;> exact h'.2

/-! ### Initialisations -/

/-- An initialisation that is given what its controller owes. -/
private theorem wp_dwI2cInit_due {timing : Option DwI2cTiming} (hbase : IsController base)
    (htiming : ∀ owed, P owed base → timing = some owed) (slaveAddr : UInt8) (h : Due P s) :
    timingLedger.wp (dwI2cInit base slaveAddr timing)
      (fun status s' ↦ if status.isError then Due P s' else Solvent P base s') s := by
  have hregs : ∀ e, RegAccess base (· ∈ initOffsets) e → Harmless e := fun e ↦
    harmless_of_regAccess hbase (by decide)
  have hwithin : (dwI2cInit base slaveAddr timing).Within Harmless fun _ ↦ True :=
    (dwI2cInit_within_offsets (fun _ h ↦ h) slaveAddr timing).mono hregs
  refine World.wp_mono (wp_avoidsAfter (B := Forgets) (fun _ hC ↦ hC.1) (keeps_due.wp hwithin h)
    h.careful) fun status s' h' ↦ ?_
  obtain ⟨⟨-, hdue⟩, t, rfl, hret, hkept⟩ := h'
  split
  · exact hdue
  · next hok =>
    have hok : status.isError = false := by simpa using hok
    have hnone : ∀ owed, ∀ ev ∈ t, ¬PowersOn owed base ev.op := fun owed ev hev ↦
      (Prog.Within.events hwithin hret ev hev).noPower owed base hbase
    refine ⟨hdue, fun owed ↦ ?_⟩
    by_cases hpaid : Programmed owed base s
    · exact hpaid.append (hnone owed)
    · rcases h.known owed base hbase hpaid with hdropped | howed
      · -- a controller whose timing is dropped is not initialised in a careful run
        refine absurd ?_ hkept
        exact ⟨base, slaveAddr, timing, status, owed, hbase, hret, hok, hpaid, hdropped⟩
      · rw [htiming owed howed] at hret
        obtain ⟨t₁, t₂, t₃, rfl, -, hprograms⟩ := programTiming_of_init hok hret
        exact programmed_of_programs hprograms (hnone owed)

/-! ### Power -/

/-- What a request for D0 of the tile powers on. -/
private def PoweredBy (dev : UInt8) (timing : DwI2cTiming) (base : UInt64) : Prop :=
  ∃ v, PowersOn timing base (.mmioWrite8 (fchAoacDevCtl dev) v)

/-- The three outcomes of a power-on. -/
private theorem fchAoacPowerOnI2c_outcome {dev : UInt8} {r : EfiStatus × Bool}
    {t : List (Event Uefi)} (h : (fchAoacPowerOnI2c dev).Returns t r) :
    r = (.timeout, false) ∨ r = (.success, true) ∨
      r = (.success, false) ∧ ∀ ev ∈ t, ∃ a, ev.op = .mmioRead8 a := by
  obtain ⟨t₁, t₂, status, rfl, hread, hrest⟩ := Prog.returns_bind.mp h
  obtain rfl : t₁ = [⟨.mmioRead8 (fchAoacDevStatus dev), status⟩] := Prog.returns_perform.mp hread
  split at hrest
  · obtain ⟨rfl, rfl⟩ := Prog.returns_pure.mp hrest
    exact .inr (.inr ⟨rfl, fun ev hev ↦ ⟨fchAoacDevStatus dev, by rw [List.mem_singleton.mp hev]⟩⟩)
  · obtain ⟨_, _, ctl, -, -, hwrite⟩ := Prog.returns_bind.mp hrest
    obtain ⟨_, _, _, -, -, hwait⟩ := Prog.returns_bind.mp hwrite
    obtain ⟨_, _, on, -, -, hend⟩ := Prog.returns_bind.mp hwait
    cases on with
    | true => exact .inr (.inl (Prog.returns_pure.mp hend).2)
    | false => exact .inl (Prog.returns_pure.mp hend).2

/-- A power-on leaves to its caller what it says is fresh. What it has powered on in vain is
dropped. -/
private theorem wp_fchAoacPowerOnI2c_due (dev : UInt8) (h : Due P s) :
    timingLedger.wp (fchAoacPowerOnI2c dev) (fun r s' ↦ Due (fun timing base ↦
      P timing base ∨ r = (.success, true) ∧ PoweredBy dev timing base) s') s := by
  have hwithin : (fchAoacPowerOnI2c dev).Within (AoacAccess dev) fun _ ↦ True :=
    fchAoacPowerOnI2c_within fun _ he ↦ he
  refine World.wp_mono (wp_trace (keeps_careful.wp (hwithin.mono fun _ ↦ AoacAccess.elsewhere)
    h.careful) h.careful) fun r s' h' ↦ ?_
  obtain ⟨-, hC, t, rfl, hret⟩ := h'
  refine h.step hC (fun _ _ ↦ .inl) fun ev hev timing base hbase hpowers hnot ↦ ?_
  rcases fchAoacPowerOnI2c_outcome hret with rfl | rfl | ⟨rfl, hreads⟩
  · -- D0 was requested in vain, and `Fresh` is not returned
    exact .inl (since_of_last ⟨.timeout hret, ⟨ev, hev, hpowers⟩, hnot⟩)
  · have haccess := Prog.Within.events hwithin hret ev hev
    generalize ev.op = e at hpowers haccess
    cases hpowers with
    | amd htile v =>
      have hctl : _ = fchAoacDevCtl dev := haccess
      exact .inr (.inr ⟨rfl, v, hctl ▸ .amd htile v⟩)
    | lpss v => exact haccess.elim
  · -- the tile was in D0, and nothing was requested
    obtain ⟨a, ha⟩ := hreads ev hev
    rw [ha] at hpowers
    cases hpowers

/-- The release of the resets leaves to its caller that the controller is fresh. -/
private theorem wp_lpssReleaseResets_due (hbase : IsController base) (h : Due P s) :
    timingLedger.wp (lpssReleaseResets base) (fun fresh s' ↦ Due (fun timing base' ↦
      P timing base' ∨ fresh = true ∧ timing = gDwTimingIntelLpss133M ∧ base' = base) s') s := by
  have hresets : lpssPrivResets < 0x1000 := by decide
  have helsewhere : ∀ e, RegAccess base (· = lpssPrivResets) e → Elsewhere TransferOffset e := by
    refine fun e ↦ elsewhere_of_regAccess hbase.1 (fun _ ↦ inBlock_transfer.window) ?_
    rintro off rfl
    exact ⟨hresets, by rintro (h | h) <;> exact absurd h (by decide)⟩
  have hread : Harmless (.mmioRead32 (base + lpssPrivResets)) :=
    ⟨helsewhere _ ⟨lpssPrivResets, rfl, rfl⟩,
      noPower_of_ne (fun _ _ ↦ UefiOp.noConfusion) fun _ _ _ ↦ UefiOp.noConfusion⟩
  rw [lpssReleaseResets, World.wp_bind]
  refine (keeps_due (P := P)).perform hread h fun resets s₁ h₁ ↦ ?_
  split
  · exact h₁.mono fun _ _ _ ↦ .inl
  · have hwrite : Elsewhere TransferOffset (.mmioWrite32 (base + lpssPrivResets)
        (lpssPrivResetsFunc ||| lpssPrivResetsIdma)) := helsewhere _ ⟨lpssPrivResets, rfl, rfl⟩
    rw [World.wp_bind]
    refine wp_perform_recording.mpr ⟨fun base' hbase' hreg ↦ absurd hreg (hwrite base' hbase'),
      fun _ hC ↦ h₁.step hC (fun _ _ ↦ .inl) fun ev hev timing base' hbase' hpowers _ ↦ ?_⟩
    have hop : ev.op = .mmioWrite32 (base + lpssPrivResets)
        (lpssPrivResetsFunc ||| lpssPrivResetsIdma) := by rw [List.mem_singleton.mp hev]
    generalize ev.op = e at hop hpowers
    cases hpowers with
    | amd => contradiction
    | lpss v =>
      obtain ⟨heq, -⟩ := UefiOp.mmioWrite32.inj hop
      exact .inr (.inr ⟨rfl, rfl, (register_inj hbase'.1 hbase.1 hresets hresets heq).1⟩)

private theorem lpssRules_due (P : DwI2cTiming → UInt64 → Prop) :
    LpssRules timingLedger IsController (Due P) fun bar fresh ↦ Due fun timing base ↦
      P timing base ∨ fresh = true ∧ timing = gDwTimingIntelLpss133M ∧ base = bar where
  find := keeps_due.mono fun _ he ↦ outside_harmless.noAccess he.noAccess
  pci pciIo := keeps_due.mono fun _ ↦ harmless_of_pci
  bar hs := wp_lpssBar_usable harmless_of_pci keeps_due (fun _ h ↦ h.careful) (fun _ hC ↦ hC.2) hs
  release hbar h := wp_lpssReleaseResets_due hbar h
  remap {bar fresh s} hbar h := by
    have hoffsets : remapOffsets.all isAside := by decide
    have hwithin : (lpssRemap bar).Within (RegAccess bar (· ∈ remapOffsets)) fun _ ↦ True :=
      lpssRemap_within fun _ h ↦ h
    exact World.wp_mono (keeps_due.wp (hwithin.mono fun e ↦ harmless_of_regAccess hbar hoffsets) h)
      fun _ _ h' ↦ h'.2

/-! ## Scopes -/

/-- The timing that a list of targets provides for. -/
private def Provides (targets : List (UInt64 × Option DwI2cTiming)) (timing : DwI2cTiming)
    (base : UInt64) : Prop := (base, some timing) ∈ targets

/-- In a scope: the DesignWare transport is selected, and `P` says what is owed from it. -/
private structure InScope (dmi : DmiIdentity) (P : DwI2cTiming → UInt64 → Prop) (d : TouchDev)
    (s : List (Event Uefi)) : Prop where
  identity : d.dmi = dmi
  mKind : d.bus.mKind = .designWare
  due : Due P s

/-- A controller that has been initialised in a scope. -/
private structure Primed (dmi : DmiIdentity) (P : DwI2cTiming → UInt64 → Prop) (base : UInt64)
    (_ : UInt8) (d : TouchDev) (s : List (Event Uefi)) : Prop extends InScope dmi P d s where
  programmed : ∀ timing, Programmed timing base s

/-- A panel that has been found on a controller. -/
private structure FoundOn (dmi : DmiIdentity) (d : TouchDev) (s : List (Event Uefi)) : Prop where
  identity : d.dmi = dmi
  mKind : d.bus.mKind = .designWare
  controller : IsController d.i2cBase
  programmed : ∀ timing, Programmed timing d.i2cBase s

/-- A panel that has been found, behind the end of the scope. -/
private def Attained (dmi : DmiIdentity) (d : TouchDev) (s : List (Event Uefi)) : Prop :=
  d.dmi = dmi ∧ Routed OnlyDropped (Solvent fun _ _ ↦ False) d.bus d.i2cBase s

variable {dmi : DmiIdentity} {prof : TouchProfile} {d : TouchDev}

private theorem InScope.mono (h : InScope dmi P d s)
    (hPQ : ∀ timing base, IsController base → P timing base → Q timing base) :
    InScope dmi Q d s := ⟨h.identity, h.mKind, h.due.mono hPQ⟩

/-- A controller that is given what it owes. -/
private theorem controllerRules_due {timing : Option DwI2cTiming}
    {Left : TouchDev → List (Event Uefi) → Prop} (hbase : IsController base)
    (htiming : ∀ owed, P owed base → timing = some owed)
    (hleft : ∀ {d s}, InScope dmi P d s → Left d s) :
    ControllerRules timingLedger prof base timing (InScope dmi P) (InScope dmi P) (InScope dmi P)
      Left (FoundOn dmi) (Primed dmi P base) where
  present {d s} h := by
    have hwithin : (dwI2cControllerPresent base).Within (RegAccess base (· ∈ [dwIcCompType]))
        fun _ ↦ True := dwI2cControllerPresent_within (by simp)
    refine World.wp_mono (keeps_due.wp (hwithin.mono fun e ↦
      harmless_of_regAccess hbase (by decide)) h.due) fun ok s' h' ↦ ?_
    have hscope : InScope dmi P d s' := ⟨h.identity, h.mKind, h'.2⟩
    split
    · exact hscope
    · exact hleft hscope
  init {d s} a h := by
    refine World.wp_mono (wp_dwI2cInit_due hbase htiming a h.due) fun status s' h' ↦ ?_
    split
    · next herr =>
      rw [if_pos herr] at h'
      exact ⟨h.identity, h.mKind, h'⟩
    · next hok =>
      rw [if_neg hok] at h'
      exact ⟨⟨h.identity, h.mKind, h'.due⟩, h'.programmed⟩
  read {d s a} descReg h := by
    refine World.wpS_mono ((masterRules_solvent P).wpS_readHidDesc h.mKind hbase descReg
      ⟨h.due, h.programmed⟩) fun status d' s' h' ↦ ?_
    obtain ⟨hdmi, hkind, hsolvent⟩ := h'
    split
    · exact ⟨⟨hdmi.trans h.identity, hkind, hsolvent.due⟩, hsolvent.programmed⟩
    · exact ⟨hdmi.trans h.identity, hkind, hbase, hsolvent.programmed⟩
  again h := h
  leave h := hleft h

private theorem wp_disable_due {a : UInt8} (hbase : IsController base)
    (h : Primed dmi P base a d s) :
    timingLedger.wp (dwI2cDisable base) (fun _ s' ↦ InScope dmi P d s') s := by
  have hoffsets : disableOffsets.all isAside := by decide
  have hwithin : (dwI2cDisable base).Within (RegAccess base (· ∈ disableOffsets)) fun _ ↦ True :=
    dwI2cDisable_within fun _ h ↦ h
  exact World.wp_mono (keeps_due.wp (hwithin.mono fun e ↦ harmless_of_regAccess hbase hoffsets)
    h.due) fun _ _ h' ↦ ⟨h.identity, h.mKind, h'.2⟩

/-- Nothing but the driver itself is left of a scope in which no panel was found. -/
private def Unfound (dmi : DmiIdentity) (d : TouchDev) (_ : List (Event Uefi)) : Prop :=
  d.dmi = dmi ∧ d.bus.mKind = .designWare

/-- The end of a scope. -/
private theorem wpS_scope {p : Touch Bool} (hs : OnlyDropped s)
    (hscope : ∀ {t found d'}, (p.run d).Returns t (found, d') → FreshScope t)
    (h : timingLedger.wpS p
      (fun found d' s' ↦ if found then FoundOn dmi d' s' else Unfound dmi d' s') d s) :
    timingLedger.wpS p (fun found d' s' ↦ if found then Attained dmi d' s'
      else InScope dmi (fun _ _ ↦ False) d' s') d s := by
  refine World.wpS_mono (wpS_trace h hs.careful) fun found d' s' h' ↦ ?_
  obtain ⟨hfound, hC, t, rfl, hret⟩ := h'
  have hdropped : OnlyDropped (s ++ t) := hs.close hC (hscope hret)
  cases found with
  | true => exact ⟨hfound.identity, .designWare hfound.mKind hfound.controller
      ⟨hdropped, hfound.programmed⟩⟩
  | false => exact ⟨hfound.1, hfound.2, hdropped⟩

private theorem controllerRules_scope (prof : TouchProfile) (base : UInt64)
    (timing : Option DwI2cTiming) : ControllerRules timingLedger prof base timing
      (fun d s ↦ IsController base ∧ InScope dmi (Provides [(base, timing)]) d s)
      (fun d s ↦ IsController base ∧ InScope dmi (Provides [(base, timing)]) d s)
      (fun d s ↦ IsController base ∧ InScope dmi (Provides [(base, timing)]) d s) (Unfound dmi)
      (FoundOn dmi) (fun a d s ↦ IsController base ∧
        Primed dmi (Provides [(base, timing)]) base a d s) := by
  refine .when fun hbase ↦ controllerRules_due hbase (fun owed howed ↦ ?_)
    fun h ↦ ⟨h.identity, h.mKind⟩
  exact (Prod.mk.inj (List.mem_singleton.mp howed)).2.symm

/-! ### The pass of an AMD profile -/

private theorem amdTiles_inj {dev dev' : UInt8} {b b' : UInt32} (h : (dev, b) ∈ amdTiles)
    (h' : (dev', b') ∈ amdTiles) (hctl : fchAoacDevCtl dev = fchAoacDevCtl dev') : b = b' := by
  have hinj : amdTiles.all (fun tile ↦ amdTiles.all fun tile' ↦
      fchAoacDevCtl tile.1 != fchAoacDevCtl tile'.1 || tile.2 == tile'.2) := by decide
  have heq := List.all_eq_true.mp (List.all_eq_true.mp hinj _ h) _ h'
  rw [hctl, bne_self_eq_false, Bool.false_or] at heq
  exact eq_of_beq heq

private theorem eq_of_poweredBy {dev : UInt8} {b : UInt32} {timing : DwI2cTiming}
    (htile : (dev, b) ∈ amdTiles) (h : PoweredBy dev timing base) :
    timing = gDwTimingAmdFch150M ∧ base = b.toUInt64 := by
  obtain ⟨v, hpowers⟩ := h
  generalize hop : UefiOp.mmioWrite8 (fchAoacDevCtl dev) v = e at hpowers
  cases hpowers with
  | amd htile' v' =>
    obtain ⟨hctl, -⟩ := UefiOp.mmioWrite8.inj hop
    exact ⟨rfl, congrArg UInt32.toUInt64 (amdTiles_inj htile htile' hctl).symm⟩
  | lpss => contradiction

/-- The tile of a fixed AMD profile is one of those. -/
private theorem amdTiles_of_fixed (hprof : prof ∈ mProfiles) (hplatform : prof.platform = .amdFch)
    (hfixed : prof.i2cBase ≠ 0) : (prof.aoacDev, prof.i2cBase) ∈ amdTiles := by
  simp only [mProfiles, List.mem_cons, List.not_mem_nil, or_false] at hprof
  rcases hprof with rfl | rfl | rfl | rfl | rfl | rfl | rfl | rfl | rfl <;> first
    | decide
    | contradiction

private theorem wpS_amdPass_due {p : ℕ} (hprof : prof ∈ mProfiles)
    (hplatform : prof.platform = .amdFch) (hfixed : prof.i2cBase ≠ 0)
    (h : InScope dmi (fun _ _ ↦ False) d s) :
    timingLedger.wpS (amdPass p prof) (fun found d' s' ↦ if found then Attained dmi d' s'
      else InScope dmi (fun _ _ ↦ False) d' s') d s := by
  refine wpS_scope h.due (.amdPass hprof) (wpS_amdPass (controllerRules_scope prof)
    (World.wp_mono (wp_fchAoacPowerOnI2c_due prof.aoacDev h.due) fun r s₁ h₁ ↦ ?_)
    fun {timing status d s} h₁ ↦ ?_)
  · split
    · exact ⟨h.identity, h.mKind⟩
    · refine ⟨isController_fixed hprof, h.identity, h.mKind, h₁.mono fun timing base _ howed ↦ ?_⟩
      obtain ⟨rfl, hpowered⟩ := howed.resolve_left id
      obtain ⟨rfl, rfl⟩ := eq_of_poweredBy (amdTiles_of_fixed hprof hplatform hfixed) hpowered
      exact List.mem_singleton_self _
  · have h₁ : InScope dmi (Provides [(prof.i2cBase.toUInt64, timing)]) d s :=
      h₁.elim And.right fun h ↦ h.2.toInScope
    refine World.wpS_mono (wpS_kickOnce_elsewhere inBlock_transfer keeps_careful h₁.due.careful
      hprof status) fun _ d' s' h' ↦ ?_
    obtain ⟨hdmi, hbus, -⟩ := h'
    exact ⟨hdmi.trans h₁.identity, (congrArg I2cBus.mKind hbus).trans h₁.mKind⟩

/-! ### The pass of an Intel profile -/

private theorem wp_prepare_due (prof : TouchProfile) (h : OnlyDropped s) :
    timingLedger.wp (intelLpssPrepareI2c prof.pciDid prof.pciDev prof.pciFunc) (fun r s' ↦
      if r.1.isError then OnlyDropped s' else IsController r.2.1 ∧
        Due (Provides [(r.2.1, if r.2.2 then some gDwTimingIntelLpss133M else none)]) s') s := by
  refine World.wp_mono ((lpssRules_due fun _ _ ↦ False).wp_intelLpssPrepareI2c prof.pciDid
    prof.pciDev prof.pciFunc h) fun r s₁ h₁ ↦ ?_
  split
  · next herr => rwa [if_pos herr] at h₁
  · next hok =>
    rw [if_neg hok] at h₁
    refine ⟨h₁.1, h₁.2.mono fun timing base _ howed ↦ ?_⟩
    obtain ⟨hfresh, rfl, rfl⟩ := howed.resolve_left id
    rw [hfresh]
    exact List.mem_singleton_self _

private theorem wpS_intelPass_due (hprof : prof ∈ mProfiles)
    (h : InScope dmi (fun _ _ ↦ False) d s) :
    timingLedger.wpS (intelPass prof) (fun found d' s' ↦ if found then Attained dmi d' s'
      else InScope dmi (fun _ _ ↦ False) d' s') d s := by
  refine wpS_scope h.due (.intelPass hprof) (wpS_intelPass (controllerRules_scope prof)
    (World.wp_mono (wp_prepare_due prof h.due) fun r s₁ h₁ ↦ ?_) fun h₁ ↦ ?_)
  · split
    · exact ⟨h.identity, h.mKind⟩
    · next hok =>
      rw [if_neg hok] at h₁
      exact ⟨h₁.1, h.identity, h.mKind, h₁.2⟩
  · exact ⟨h₁.2.identity, h₁.2.mKind⟩

/-! ### The sweep -/

/-- Tiles that were powered on, where their flags are set. -/
private theorem wp_sweepPowerOn_due (devs : List UInt8) (h : Due P s) :
    timingLedger.wp (sweepPowerOn devs) (fun fresh s' ↦ Due (fun timing base ↦
      P timing base ∨ ∃ i dev, devs[i]? = some dev ∧ fresh.getD i false = true ∧
        PoweredBy dev timing base) s') s := by
  -- what one tile leaves to its caller is among what the others start with
  induction devs generalizing P s with
  | nil => exact h.mono fun _ _ _ ↦ .inl
  | cons dev devs ih =>
    rw [sweepPowerOn, World.wp_bind]
    refine World.wp_mono (wp_fchAoacPowerOnI2c_due dev h) fun r s₁ h₁ ↦ ?_
    obtain ⟨status, fresh⟩ := r
    rw [World.wp_bind]
    refine World.wp_mono (ih h₁) fun rest s₂ h₂ ↦ h₂.mono fun timing base _ howed ↦ ?_
    rcases howed with (howed | ⟨heq, hpowered⟩) | ⟨i, dev', hdev, hfresh, hpowered⟩
    · exact .inl howed
    · obtain ⟨rfl, rfl⟩ := Prod.mk.inj heq
      exact .inr ⟨0, dev, rfl, rfl, hpowered⟩
    · exact .inr ⟨i + 1, dev', hdev, hfresh, hpowered⟩

/-- What the tiles that are fresh owe is what the sweep provides for. -/
private theorem provides_of_fresh {fresh : List Bool} {timing : DwI2cTiming} {i : ℕ} {dev : UInt8}
    (hdev : sweepTiles[i]? = some dev) (hfresh : fresh.getD i false = true)
    (hpowered : PoweredBy dev timing base) :
    Provides (mSweepBases.zipIdx.map fun (b, i) ↦
      (b.toUInt64, if fresh.getD i false then some gDwTimingAmdFch150M else none)) timing base := by
  have htiles : ∀ i < sweepTiles.length, ∃ b, mSweepBases[i]? = some b ∧
      (sweepTiles.getD i 0, b) ∈ amdTiles := by decide
  obtain ⟨b, hb, htile⟩ := htiles i (List.getElem?_eq_some_iff.mp hdev).1
  rw [List.getD_eq_getElem?_getD, hdev, Option.getD_some] at htile
  obtain ⟨rfl, rfl⟩ := eq_of_poweredBy htile hpowered
  refine List.mem_map.mpr ⟨(b, i), List.mem_zipIdx_iff_getElem?.mpr hb, ?_⟩
  dsimp only
  rw [if_pos hfresh]

/-- What is owed to the targets of a sweep; no controller is among them twice. -/
private structure Provided (targets : List (UInt64 × Option DwI2cTiming)) (s : List (Event Uefi)) :
    Prop where
  controllers : ∀ target ∈ targets, IsController target.1
  nodup : (targets.map Prod.fst).Nodup
  due : Due (Provides targets) s

private theorem provided_singleton {timing : Option DwI2cTiming} (hbase : IsController base)
    (h : Due (Provides [(base, timing)]) s) : Provided [(base, timing)] s where
  controllers target htarget := by
    obtain rfl := List.mem_singleton.mp htarget
    exact hbase
  nodup := List.nodup_singleton base
  due := h

private theorem wp_sweepTargets_due (hprof : prof ∈ mProfiles) (hplatform : prof.platform ≠ .mtkI2c)
    (h : OnlyDropped s) : timingLedger.wp (sweepTargets prof) Provided s := by
  unfold sweepTargets
  cases hp : prof.platform with
  | intelLpss =>
    dsimp only
    rw [World.wp_bind]
    refine World.wp_mono (wp_prepare_due prof h) fun r s₁ h₁ ↦ ?_
    obtain ⟨status, base, fresh⟩ := r
    dsimp only at h₁ ⊢
    split
    · next herr =>
      rw [if_pos herr] at h₁
      exact ⟨fun _ htarget ↦ absurd htarget List.not_mem_nil, List.nodup_nil,
        h₁.mono fun _ _ _ ↦ False.elim⟩
    · next hok =>
      rw [if_neg hok] at h₁
      exact provided_singleton h₁.1 h₁.2
  | mtkI2c => exact absurd hp hplatform
  | amdFch =>
    dsimp only
    split
    · -- a fixed base is not powered on here, so that nothing is forced on it
      exact provided_singleton (isController_fixed hprof) (h.mono fun _ _ _ ↦ False.elim)
    · rw [World.wp_bind]
      refine World.wp_mono (wp_sweepPowerOn_due sweepTiles h) fun fresh s₁ h₁ ↦
        ⟨fun target htarget ↦ ?_, ?_, h₁.mono fun timing base _ howed ↦ ?_⟩
      · obtain ⟨⟨base, b⟩, hmem, rfl⟩ := List.mem_map.mp htarget
        exact isController_sweep (List.fst_mem_of_mem_zipIdx hmem)
      · have hbases : (mSweepBases.map UInt32.toUInt64).Nodup := by decide
        exact hbases
      · obtain ⟨i, dev, hdev, hfresh, hpowered⟩ := howed.resolve_left id
        exact provides_of_fresh hdev hfresh hpowered

private theorem wpS_dwSweep_due (hprof : prof ∈ mProfiles) (hplatform : prof.platform ≠ .mtkI2c)
    (h : InScope dmi (fun _ _ ↦ False) d s) :
    timingLedger.wpS (dwSweep prof) (fun found d' s' ↦ if found then Attained dmi d' s'
      else InScope dmi (fun _ _ ↦ False) d' s') d s := by
  refine wpS_scope h.due (.dwSweep hprof) ?_
  rw [dwSweep, World.wpS_bind, World.wpS_lift]
  refine World.wp_mono (wp_sweepTargets_due hprof hplatform h.due) fun targets s₁ h₁ ↦ ?_
  refine World.wpS_mono (wpS_tryEach (Q := FoundOn dmi) (InScope dmi (Provides targets))
    (fun target htarget d s h ↦ ?_) ⟨h.identity, h.mKind, h₁.due⟩) fun found d' s' h' ↦ ?_
  · -- no base is swept twice, so a target carries what its controller owes
    have hbase := h₁.controllers target htarget
    refine (controllerRules_due hbase (fun owed howed ↦ ?_) fun h ↦ h).wpS_sweepBase
      (fun h' ↦ wp_disable_due hbase h') h
    exact congrArg Prod.snd (List.inj_on_of_nodup_map h₁.nodup htarget howed rfl)
  · cases found with
    | true => exact h'
    | false => exact ⟨h'.identity, h'.mKind⟩

/-! ### Detection -/

private theorem detectRules_due (dmi : DmiIdentity) :
    DetectRules timingLedger dmi (InScope dmi fun _ _ ↦ False) (Attained dmi) := by
  have hrules := masterRules_solvent fun _ _ ↦ False
  have hmtk : ∀ {prof d s} (a : UInt8) (descReg : UInt16), prof ∈ mProfiles →
      prof.platform = .mtkI2c → InScope dmi (fun _ _ ↦ False) d s →
      timingLedger.wpS (touchMtkProbe prof a descReg) (fun status d' s' ↦
        if status.isError then InScope dmi (fun _ _ ↦ False) d' s'
        else Attained dmi (TouchDev.found prof prof.i2cBase.toUInt64 a d') s') d s := by
    intro prof d s a descReg hprof hplatform h
    obtain rfl := eq_proArtP16 hprof hplatform
    refine World.wpS_mono (hrules.wpS_touchMtkProbe h.mKind h.due a descReg)
      fun status d' s' h' ↦ ?_
    obtain ⟨hdmi, hdue, hbus⟩ := h'
    split
    · next herr =>
      rw [if_pos herr] at hbus
      exact ⟨hdmi.trans h.identity, hbus, hdue⟩
    · next hok =>
      rw [if_neg hok] at hbus
      exact ⟨hdmi.trans h.identity, .other hbus hdue⟩
  exact
    { identity := fun h ↦ h.identity
      profile := fun {p prof} hp _ {d s} h ↦ by
        have hprof : prof ∈ mProfiles := List.mem_of_getElem? hp
        unfold profilePass
        cases hplatform : prof.platform with
        | intelLpss => exact wpS_intelPass_due hprof h
        | mtkI2c =>
          dsimp only
          rw [mtkPass, World.wpS_bind]
          exact World.wpS_mono (hmtk _ _ hprof hplatform h) fun _ _ _ ↦ wpS_noteFound
        | amdFch =>
          dsimp only
          split
          · exact h
          · next hfixed => exact wpS_amdPass_due hprof hplatform (by simpa using hfixed) h
      mtkSweep := fun {prof} hprof _ hplatform {candidate} _ {d s} h ↦ by
        rw [mtkSweepOne]
        split
        · exact h
        · rw [World.wpS_bind]
          exact World.wpS_mono (hmtk _ _ hprof hplatform h) fun _ _ _ ↦ wpS_noteFound
      dwSweep := fun {_} hprof _ hplatform {_ _} h ↦ wpS_dwSweep_due hprof hplatform h }

end

/-! ## Runs -/

private theorem driverRules_due (dmi : DmiIdentity) : DriverRules timingLedger dmi
    (fun d s ↦ d.dmi = dmi ∧ OnlyDropped s) (Attained dmi) (Attained dmi) := by
  have hrules := masterRules_solvent fun _ _ ↦ False
  refine hrules.driverRules keeps_due (fun {d s} hdmi hs ↦ ?_) fun {d s} hrouted hvalid hready ↦ ?_
  · have hstart : InScope dmi (fun _ _ ↦ False)
        { d.startAttempt with bus := { d.startAttempt.bus with mKind := .designWare } } s :=
      ⟨hdmi, rfl, hs⟩
    refine World.wpS_mono ((detectRules_due dmi).wpS_touchDetect hstart) fun status d' s' h' ↦ ?_
    split at h'
    · next herr =>
      rw [if_pos herr]
      exact ⟨h'.identity, h'.due⟩
    · next hok =>
      rw [if_neg hok]
      exact h'
  · refine World.wpS_mono (wpS_touchSetUp hrules.routeRules hvalid hready hrouted)
      fun _ _ _ h' ↦ ⟨h', fun _ ↦ ?_⟩
    cases h'.2 with
    | designWare _ _ h => exact h.due
    | other _ h => exact h

/-- The way out of boot services makes no transfer. -/
private theorem wpS_exit_due {d : TouchDev} {s : List (Event Uefi)} (hs : OnlyDropped s)
    (h : d.ready = true → Routed OnlyDropped (Solvent fun _ _ ↦ False) d.bus d.i2cBase s) :
    timingLedger.wpS touchExitBootServices (fun _ _ _ ↦ True) d s := by
  have hservice : timingLedger.Keeps DriverService OnlyDropped :=
    (quietKeeps_of_outside outside_harmless keeps_due).service
  refine wpS_touchExitBootServices hservice hs (fun hready s' h' ↦ ?_) fun _ _ _ ↦ trivial
  cases h hready with
  | other hoff _ =>
    exact World.wpS_mono (hoff.wpS_i2cBusDisable outside_harmless keeps_due h')
      fun _ _ _ _ ↦ trivial
  | designWare hkind hbase _ =>
    have hoffsets : disableOffsets.all isAside := by decide
    refine World.wpS_mono (keeps_due.wpS (i2cBusDisable_within (R := (· ∈ disableOffsets))
      (fun e he ↦ ?_) fun _ h ↦ h) h') fun _ _ _ _ ↦ trivial
    rw [BusAccess, hkind] at he
    exact harmless_of_regAccess hbase hoffsets he

/-- **No transfer on inherited timing**, where no owed timing is forgotten and every BAR0 is the
window of a controller: whatever is performed in a run up to and including `TouchExitBootServices`,
a transfer is made only on a controller whose timing has been programmed since the driver has last
powered it on. -/
theorem performs_programmed {entries : List ConfigurationEntry} {t : List (Event Uefi)} {e : UefiOp}
    (h : PerformsUntilExit (touchI2cDxeEntry entries) t e) (hforgets : AvoidsAfter Forgets t)
    (hbar : Avoids UnusableBar t) : PaidTransfers t e := by
  obtain ⟨dmi, hread, -⟩ := touchReadDmiIdentity_ok entries
  have hcareful : Careful t := ⟨hforgets, hbar⟩
  have hnil : OnlyDropped [] := ⟨prefixClosed_careful [] t hcareful, fun _ _ _ hnot ↦
    absurd programmed_nil hnot⟩
  refine allowed_of_performsUntilExit hread (driverRules_due dmi) ⟨rfl, hnil⟩
    (fun {d s} _ h ↦ wpS_exit_due ?_ fun _ ↦ h.2)
    (fun {d d' s} hready h ↦ wpS_exit_due h.2 fun hnot ↦ absurd hnot (by rw [hready]; decide)) h
    (path_recording prefixClosed_careful hcareful) rfl
  cases h.2 with
  | designWare _ _ h => exact h.due
  | other _ hs => exact hs

/-! ## Two runs -/

section

variable {base : UInt64} {t : List (Event Uefi)}

/-- Forced timing comes with the hold time of SDA. -/
private theorem sdaHold_of_programs {timing : DwI2cTiming} (h : Programs timing base t) :
    (⟨.mmioWrite32 (base + dwIcSdaHold) timing.sdaHold.toUInt32, ()⟩ : Event Uefi) ∈ t := by
  obtain ⟨t₁, t₂, con, rfl, -, h⟩ := Prog.returns_bind.mp h
  obtain ⟨t₃, t₄, _, rfl, -, h⟩ := Prog.returns_bind.mp h
  obtain ⟨t₅, t₆, _, rfl, -, h⟩ := Prog.returns_bind.mp h
  obtain rfl : t₆ = [⟨.mmioWrite32 (base + dwIcSdaHold) timing.sdaHold.toUInt32, ()⟩] :=
    Prog.returns_perform.mp h
  simp

private theorem length_of_waitForD0 {dev : UInt8} {n : ℕ}
    (h : (waitForD0 dev n).Returns t false) : n ≤ t.length := by
  induction n generalizing t with
  | zero => exact Nat.zero_le _
  | succ n ih =>
    obtain ⟨t₁, t₂, status, rfl, hread, hrest⟩ := Prog.returns_bind.mp h
    obtain rfl : t₁ = [⟨.mmioRead8 (fchAoacDevStatus dev), status⟩] := Prog.returns_perform.mp hread
    split at hrest
    · exact absurd (Prog.returns_pure.mp hrest).2 (by decide)
    · obtain ⟨t₃, t₄, _, rfl, -, hwait⟩ := Prog.returns_bind.mp hrest
      have hlen := ih hwait
      simp only [List.length_append, List.length_singleton]
      omega

/-- A power-on that times out takes its 100 ms. -/
private theorem length_of_timeout {dev : UInt8} {fresh : Bool}
    (h : (fchAoacPowerOnI2c dev).Returns t (.timeout, fresh)) : 1000 ≤ t.length := by
  obtain ⟨t₁, t₂, status, rfl, -, hrest⟩ := Prog.returns_bind.mp h
  split at hrest
  · exact absurd (Prod.mk.inj (Prog.returns_pure.mp hrest).2).1 (by decide)
  · obtain ⟨t₃, t₄, ctl, rfl, -, hwrite⟩ := Prog.returns_bind.mp hrest
    obtain ⟨t₅, t₆, _, rfl, -, hwait⟩ := Prog.returns_bind.mp hwrite
    obtain ⟨t₇, t₈, on, rfl, hwait, hend⟩ := Prog.returns_bind.mp hwait
    cases on with
    | true => exact absurd (Prod.mk.inj (Prog.returns_pure.mp hend).2).1 (by decide)
    | false =>
      have hlen := length_of_waitForD0 hwait
      simp only [List.length_append]
      omega

end

/-- A machine whose I2C tile is gated: its controller comes up with counts of its own, and does not
answer the next `absent` reads of `IC_COMP_TYPE`. No address is acknowledged. -/
structure Gated where
  powered : Bool := false
  absent : ℕ := 0
  enabled : UInt32 := 0

def gatedMachine (st : Gated) (e : UefiOp) : e.Ret × Gated :=
  match e with
  | .mmioRead8 _ => (if st.powered then fchAoacStateD0 else 0, st)
  | .mmioWrite8 _ _ => ((), { st with powered := true })
  | .mmioRead32 a =>
    if a % 0x1000 = dwIcCompType ∧ st.absent ≠ 0 then (0, { st with absent := st.absent - 1 })
    else if a % 0x1000 = dwIcFsSclHcnt ∨ a % 0x1000 = dwIcFsSclLcnt then (60, st)
    else ((nakMachine st.enabled (.mmioRead32 a)).1, st)
  | e => ((nakMachine st.enabled e).1, { st with enabled := (nakMachine st.enabled e).2 })

/-- The controller of the machine. -/
def oledBase : UInt64 := steamDeckOled.i2cBase.toUInt64

/-- Whether an operation requests D0 of the tile of the machine. -/
def UefiOp.powersOled : UefiOp → Bool
  | .mmioWrite8 a _ => a == fchAoacDevCtl steamDeckOled.aoacDev
  | _ => false

private theorem powersOn_of_powersOled {e : UefiOp} (h : e.powersOled = true) :
    PowersOn gDwTimingAmdFch150M oledBase e := by
  cases e with
  | mmioWrite8 a v =>
    obtain rfl := beq_iff_eq.mp h
    exact .amd (by decide : (steamDeckOled.aoacDev, steamDeckOled.i2cBase) ∈ amdTiles) v
  | _ => contradiction

/-- Whether an operation is the first one of a transfer on the controller of the machine. -/
def UefiOp.startsOled : UefiOp → Bool
  | .mmioRead32 a => a == oledBase + dwIcClrTxAbrt
  | _ => false

private theorem regAccess_of_startsOled {e : UefiOp} (h : e.startsOled = true) :
    RegAccess oledBase TransferOffset e := by
  cases e with
  | mmioRead32 a => exact ⟨dwIcClrTxAbrt, .inl rfl, beq_iff_eq.mp h⟩
  | _ => contradiction

/-- What the `n`-th operation of the driver on the machine is performed behind. -/
private theorem performs_gated {absent n : ℕ}
    (h : (((oledEntry.run {}).simulate gatedMachine { absent := absent }).1[n]?).any
      (fun ev ↦ ev.op.startsOled) = true) :
    ∃ e, RegAccess oledBase TransferOffset e ∧ PerformsUntilExit oledEntry
      (((oledEntry.run {}).simulate gatedMachine { absent := absent }).1.take n) e := by
  obtain ⟨ev, hev, hstarts⟩ := (Option.any_eq_true _ _).mp h
  obtain ⟨k, hreach⟩ := Prog.performs_simulate hev
  exact ⟨ev.op, regAccess_of_startsOled hstarts, .before (.entry hreach)⟩

/-! ### A pass that programs what it powers on -/

/-- Whether an operation requests a controller to disable itself. -/
def UefiOp.disables : UefiOp → Bool
  | .mmioWrite32 a v => a % 0x1000 == dwIcEnable && v == 0
  | _ => false

/-- Whether an event can stand before the first initialisation on the machine. -/
def beforeInit : Event Uefi → Bool
  | ⟨.mmioRead8 a, _⟩ =>
    a == fchAoacDevStatus steamDeckOled.aoacDev || a == fchAoacDevCtl steamDeckOled.aoacDev
  | ⟨.mmioRead32 a, v⟩ => a % 0x1000 != dwIcCompType || (v : UInt32) == dwIcCompTypeValue
  | ⟨.mmioWrite32 _ _, _⟩ | ⟨.locatePciIo, _⟩ => false
  | _ => true

section

variable {base : UInt64} {t : List (Event Uefi)} (ht : ∀ ev ∈ t, beforeInit ev = true)

include ht

private theorem present_of_beforeInit (hbase : IsController base) {ok : Bool}
    (h : (dwI2cControllerPresent base).Returns t ok) : ok = true := by
  obtain ⟨t₁, t₂, v, rfl, hread, hrest⟩ := Prog.returns_bind.mp h
  obtain rfl : t₁ = [⟨.mmioRead32 (base + dwIcCompType), v⟩] := Prog.returns_perform.mp hread
  obtain ⟨rfl, rfl⟩ := Prog.returns_pure.mp hrest
  have hev := ht ⟨.mmioRead32 (base + dwIcCompType), v⟩ (by simp)
  have hoff : (base + dwIcCompType) % 0x1000 = dwIcCompType := offset_mod hbase.1 (by decide)
  rw [beforeInit, hoff, bne_self_eq_false, Bool.false_or] at hev
  exact hev

private theorem not_init_of_beforeInit {slaveAddr : UInt8} {forced : Option DwI2cTiming}
    {status : EfiStatus} : ¬(dwI2cInit base slaveAddr forced).Returns t status := by
  intro h
  obtain ⟨t₁, t₂, disabled, rfl, hdisable, -⟩ := Prog.returns_bind.mp h
  obtain ⟨t₃, t₄, _, rfl, hwrite, -⟩ := Prog.returns_bind.mp hdisable
  obtain rfl : t₃ = [disableRequest base] := Prog.returns_perform.mp hwrite
  exact absurd (ht (disableRequest base) (by simp)) (by simp [disableRequest, beforeInit])

private theorem not_prepare_of_beforeInit {pciDid : UInt16} {pciDev pciFunc : UInt8}
    {r : EfiStatus × UInt64 × Bool} :
    ¬(intelLpssPrepareI2c pciDid pciDev pciFunc).Returns t r := by
  intro h
  obtain ⟨t₁, t₂, count, rfl, hlocate, -⟩ := Prog.returns_bind.mp h
  obtain rfl : t₁ = [⟨.locatePciIo, count⟩] := Prog.returns_perform.mp hlocate
  exact absurd (ht ⟨.locatePciIo, count⟩ (by simp)) (by simp [beforeInit])

/-- No scope that powers a controller on is over before the first initialisation. -/
private theorem not_scope_of_beforeInit (hlen : t.length < 1000) (hscope : FreshScope t) :
    ∀ ev ∈ t, ∀ timing, ¬PowersOn timing base ev.op := by
  cases hscope with
  | timeout h => exact absurd (length_of_timeout h) (Nat.not_le.mpr hlen)
  | @amdPass p prof found d d' hprof h =>
    obtain ⟨t₁, t₂, r, d₁, rfl, hlift, hrest⟩ := Prog.returnsS_bind.mp h
    have hpower := (Prog.returnsS_lift.mp hlift).1
    have hok : r.1.isError = false := by
      rcases fchAoacPowerOnI2c_outcome hpower with rfl | rfl | ⟨rfl, -⟩
      · have hlong := length_of_timeout hpower
        rw [List.length_append] at hlen
        omega
      · rfl
      · rfl
    obtain ⟨status, fresh⟩ := r
    dsimp only at hok hrest
    rw [hok, if_neg Bool.false_ne_true] at hrest
    obtain ⟨t₃, t₄, ok, d₂, rfl, hpresent, hrest⟩ := Prog.returnsS_bind.mp hrest
    obtain rfl := present_of_beforeInit (fun ev hev ↦ ht ev (by simp [hev]))
      (isController_fixed hprof) (Prog.returnsS_lift.mp hpresent).1
    rw [if_pos rfl] at hrest
    obtain ⟨t₅, t₆, status₂, d₃, rfl, hprobe, -⟩ := Prog.returnsS_bind.mp hrest
    obtain ⟨t₇, t₈, status₃, d₄, rfl, hinit, -⟩ := Prog.returnsS_bind.mp hprobe
    exact absurd (Prog.returnsS_lift.mp hinit).1
      (not_init_of_beforeInit fun ev hev ↦ ht ev (by simp [hev]))
  | intelPass _ h =>
    obtain ⟨t₁, t₂, r, d₁, rfl, hprepare, -⟩ := Prog.returnsS_bind.mp h
    exact absurd (Prog.returnsS_lift.mp hprepare).1
      (not_prepare_of_beforeInit fun ev hev ↦ ht ev (by simp [hev]))
  | @dwSweep prof found d d' hprof h =>
    obtain ⟨t₁, t₂, targets, d₁, rfl, htargets, hrest⟩ := Prog.returnsS_bind.mp h
    have htargets := (Prog.returnsS_lift.mp htargets).1
    unfold sweepTargets at htargets
    split at htargets
    · obtain ⟨t₃, t₄, r, rfl, hprepare, -⟩ := Prog.returns_bind.mp htargets
      exact absurd hprepare (not_prepare_of_beforeInit fun ev hev ↦ ht ev (by simp [hev]))
    split at htargets
    · obtain ⟨rfl, rfl⟩ := Prog.returns_pure.mp htargets
      -- the sweep of one controller, which answers
      obtain ⟨t₃, t₄, swept, d₂, rfl, hsweep, -⟩ := Prog.returnsS_bind.mp hrest
      obtain ⟨t₅, t₆, ok, d₃, rfl, hpresent, hsweep⟩ := Prog.returnsS_bind.mp hsweep
      obtain rfl := present_of_beforeInit (fun ev hev ↦ ht ev (by simp [hev]))
        (isController_fixed hprof) (Prog.returnsS_lift.mp hpresent).1
      rw [if_pos rfl] at hsweep
      obtain ⟨t₇, t₈, tried, d₄, rfl, haddr, -⟩ := Prog.returnsS_bind.mp hsweep
      obtain ⟨t₉, t₁₀, status, d₅, rfl, hinit, -⟩ := Prog.returnsS_bind.mp haddr
      exact absurd (Prog.returnsS_lift.mp hinit).1
        (not_init_of_beforeInit fun ev hev ↦ ht ev (by simp [hev]))
    · -- the sweep of all tiles begins with another one
      obtain ⟨t₃, t₄, fresh, rfl, htiles, -⟩ := Prog.returns_bind.mp htargets
      obtain ⟨t₅, t₆, r, rfl, hpower, -⟩ := Prog.returns_bind.mp htiles
      obtain ⟨t₇, t₈, status, rfl, hread, -⟩ := Prog.returns_bind.mp hpower
      obtain rfl : t₇ = [⟨.mmioRead8 (fchAoacDevStatus (fchAoacDevI2c0 + 0)), status⟩] :=
        Prog.returns_perform.mp hread
      have hev := ht ⟨.mmioRead8 (fchAoacDevStatus (fchAoacDevI2c0 + 0)), status⟩ (by simp)
      rw [beforeInit] at hev
      exact absurd hev (by decide)

end

/-- A trace with one initialisation, behind whose request to disable the controller is nothing that
disables it. -/
private theorem avoidsAfter_forgets {t : List (Event Uefi)} {n : ℕ} (hlen : t.length < 1000)
    (hbefore : (t.take n).all beforeInit = true)
    (hafter : (t.drop (n + 1)).all (fun ev ↦ !ev.op.disables) = true) : AvoidsAfter Forgets t := by
  rintro t₁ t₂ t₃ rfl ⟨base, slaveAddr, forced, status, timing, hbase, hret, hok, -, hdropped⟩
  obtain ⟨u₁, u₂, u₃, hu, ⟨hscope, ⟨ev, hev, hpowers⟩, -⟩, -⟩ := hdropped
  obtain ⟨v₁, v₂, v₃, rfl, hdisable, -⟩ := programTiming_of_init hok hret
  -- the initialisation is the only one, so whatever is dropped was dropped before
  have hle : t₁.length ≤ n := by
    by_contra hlt
    have hmem : disableRequest base ∈
        (t₁ ++ (v₁ ++ v₂ ++ v₃) ++ t₃).drop (n + 1) := by
      rw [List.append_assoc, List.drop_append_of_le_length (by omega)]
      simp [hdisable]
    have hnone := List.all_eq_true.mp hafter _ hmem
    have hoff : (base + dwIcEnable) % 0x1000 = dwIcEnable := offset_mod hbase.1 (by decide)
    simp [disableRequest, UefiOp.disables, hoff] at hnone
  have ht₁ : ∀ ev ∈ t₁, beforeInit ev = true := by
    intro ev hev
    refine List.all_eq_true.mp hbefore ev ?_
    rw [List.append_assoc, List.take_append, List.take_of_length_le hle]
    exact List.mem_append_left _ hev
  refine not_scope_of_beforeInit (fun ev hev ↦ ht₁ ev ?_) ?_ hscope ev hev timing hpowers
  · rw [hu]
    simp [hev]
  · have hlen₁ := congrArg List.length hu
    simp only [List.length_append] at hlen hlen₁
    omega

/-- A panel behind a gated tile: the first transfer is made on timing that the driver has programmed
since it has powered the controller on. -/
theorem performs_programmed_oled : ∃ t e, PerformsUntilExit oledEntry t e ∧
    RegAccess oledBase TransferOffset e ∧
      (∃ ev ∈ t, PowersOn gDwTimingAmdFch150M oledBase ev.op) ∧
      Programmed gDwTimingAmdFch150M oledBase t := by
  obtain ⟨e, hreg, hruns⟩ := @performs_gated 0 25 (by decide +kernel)
  have hpower : (((oledEntry.run {}).simulate gatedMachine { absent := 0 }).1.take 25).any
      (fun ev ↦ ev.op.powersOled) = true := by decide +kernel
  have hlen : (((oledEntry.run {}).simulate gatedMachine { absent := 0 }).1.take 25).length
      < 1000 := by decide +kernel
  have hbefore : ((((oledEntry.run {}).simulate gatedMachine { absent := 0 }).1.take 25).take
      12).all beforeInit = true := by decide +kernel
  have hafter : ((((oledEntry.run {}).simulate gatedMachine { absent := 0 }).1.take 25).drop
      13).all (fun ev ↦ !ev.op.disables) = true := by decide +kernel
  have hpci : (((oledEntry.run {}).simulate gatedMachine { absent := 0 }).1.take 25).all
      (fun ev ↦ !ev.op.readsPci) = true := by decide +kernel
  generalize ((oledEntry.run {}).simulate gatedMachine { absent := 0 }).1.take 25 = t
    at hruns hpower hlen hbefore hafter hpci
  obtain ⟨ev, hev, hpowers⟩ := List.any_eq_true.mp hpower
  have hpaid := performs_programmed hruns (avoidsAfter_forgets hlen hbefore hafter)
    (avoids_unusableBar_of_all hpci)
  exact ⟨t, e, hruns, hreg, ⟨ev, hev, powersOn_of_powersOled hpowers⟩,
    hpaid oledBase (by decide) hreg gDwTimingAmdFch150M⟩

/-! ### A pass that does not -/

/-- The controller answers too late for the pass of its profile. The sweep takes its timing for that
of the firmware. -/
theorem not_performs_programmed : ¬∀ (entries : List ConfigurationEntry) (t : List (Event Uefi))
    (e : UefiOp), PerformsUntilExit (touchI2cDxeEntry entries) t e → PaidTransfers t e := by
  intro h
  obtain ⟨e, hreg, hruns⟩ := @performs_gated 2 25 (by decide +kernel)
  have hpower : (((oledEntry.run {}).simulate gatedMachine { absent := 2 }).1.take 25).any
      (fun ev ↦ ev.op.powersOled) = true := by decide +kernel
  have hhold : (((oledEntry.run {}).simulate gatedMachine { absent := 2 }).1.take 25).all
      (fun ev ↦ !ev.op.writesTo (oledBase + dwIcSdaHold)) = true := by decide +kernel
  generalize ((oledEntry.run {}).simulate gatedMachine { absent := 2 }).1.take 25 = t
    at hruns hpower hhold
  obtain ⟨ev, hev, hpowers⟩ := List.any_eq_true.mp hpower
  -- programming the timing would have written the hold time behind the power-on
  obtain ⟨t₁, t₂, rfl⟩ := List.append_of_mem hev
  have hpaid : Programmed gDwTimingAmdFch150M oledBase (t₁ ++ ev :: t₂) :=
    h _ _ _ hruns oledBase (by decide) hreg _
  obtain ⟨u₁, u₂, u₃, rfl, hprograms⟩ :=
    hpaid t₁ [ev] t₂ (by simp) ⟨ev, rfl, powersOn_of_powersOled hpowers⟩
  have hnone := List.all_eq_true.mp hhold _
    (by simp [sdaHold_of_programs hprograms] : ⟨.mmioWrite32 (oledBase + dwIcSdaHold)
      gDwTimingAmdFch150M.sdaHold.toUInt32, ()⟩ ∈ _)
  rw [UefiOp.writesTo, beq_self_eq_true] at hnone
  contradiction

end TouchI2c
