import TouchI2c.DwI2c.Stuck
import TouchI2c.Touch.Windows

/-!
# Failed disables and commands

Over a run of the driver: where no transfer ends with a disable that times out, a command goes to a
controller only after `DwI2cInit` has succeeded on it again.

## The condition

A transfer that ends with a disable that times out (`StuckTransfer`) is the one place where the
driver ignores the failure: `DwI2cRecover` returns nothing, so the transfer reports the abort, and
its caller goes on with the next register on the controller as it is. Every other disable is that of
an initialisation or the last act of the driver. A BAR0 outside of the windows of controllers is
excluded because `IC_DATA_CMD` of a controller could then be any other register of the driver.

## The invariant

`Commanded due base` says that the trace meets the condition and that, unless a recovery is due, the
disables of the controller are cleared. A poll whose recovery is due initialises the controller
before its first command, and gives up if that fails. During detection a controller is `Initialised`
between its initialisation and its descriptor read, and nothing is claimed of it otherwise.

## Two runs

Both sides are exhibited on one machine, on which the sweep reaches the first controller. In the one
the first initialisation gets stuck, the next address is initialised, and its command is lawful: the
disable that timed out ends no transfer, because no transfer has started before it and too few
events follow it. In the other the disable belongs to the recovery of the first transfer, and the
next command follows without an initialisation.
-/

namespace TouchI2c

open CMemory Interaction

/-! ## The condition -/

/-- No transfer ends with a disable that times out, and every BAR0 is the window of a controller. -/
def Orderly (t : List (Event Uefi)) : Prop := Avoids StuckTransfer t ∧ Avoids UnusableBar t

private theorem prefixClosed_orderly : PrefixClosed Orderly :=
  prefixClosed_avoids.and prefixClosed_avoids

/-- The world of the runs that meet the condition. -/
private abbrev watched : World Uefi (List (Event Uefi)) := recording CommandsCleared Orderly

/-! ## The driver and its transport -/

/-- The registers whose accesses count. -/
private def Counted (off : UInt64) : Prop := off = dwIcDataCmd ∨ off = dwIcEnableStatus

private theorem inBlock_counted : InBlock Counted where
  pos := by rintro off (rfl | rfl) <;> decide
  lt := by rintro off (rfl | rfl) <;> decide

private theorem Elsewhere.noCommand {e : UefiOp} (h : Elsewhere Counted e) : NoCommand e := by
  rintro base v hbase rfl
  exact h base hbase ⟨dwIcDataCmd, .inl rfl, rfl⟩

/-- A controller on which commands are cleared, unless a recovery is due. -/
private structure Commanded (due : Bool) (base : UInt64) (s : List (Event Uefi)) : Prop where
  orderly : Orderly s
  cleared : due = false → Cleared base s

private theorem keeps_orderly : watched.Keeps NoCommand Orderly :=
  fun _ s he _ ↦ wp_perform_recording.mpr ⟨he.cleared s, fun _ hC ↦ hC⟩

private theorem masterRules_orderly : MasterRules watched (Elsewhere Counted) Orderly Commanded where
  outside := outside_elsewhere inBlock_counted
  log hprof := logProfile_elsewhere inBlock_counted
    (by rintro (h | h) <;> exact absurd h (by decide)) hprof
  keeps e s he hs := keeps_orderly e s he.noCommand hs
  keepsOn {due base} hbase e s he h := by
    refine wp_perform_recording.mpr ⟨he.noCommand.cleared s, fun r hC ↦ ⟨hC, fun hdue ↦ ?_⟩⟩
    refine (h.cleared hdue).concat_op ?_ r
    rintro rfl
    exact he base hbase ⟨dwIcEnableStatus, .inr rfl, rfl⟩
  due h := ⟨h.orderly, fun hdue ↦ by contradiction⟩
  xfer hbase hbuf h := World.wp_mono (wp_dwI2cXfer_cleared (fun _ hC ↦ hC.1) hbase h.orderly
    (h.cleared rfl) hbuf) fun _ _ h' ↦ ⟨⟨h'.1.1, fun _ ↦ h'.1.2⟩, h'.2⟩
  reinit slaveAddr hbase h := by
    refine World.wp_mono (wp_dwI2cInit_cleared hbase slaveAddr none h.orderly) fun status s' h' ↦ ?_
    split
    · exact ⟨h'.1, fun hdue ↦ by contradiction⟩
    · next hok => exact ⟨h'.1, fun _ ↦ h'.2 (by simpa using hok)⟩

/-! ## Detection -/

/-- Between the passes of detection the DesignWare transport is selected. -/
private structure Unprobed (dmi : DmiIdentity) (d : TouchDev) (s : List (Event Uefi)) : Prop where
  identity : d.dmi = dmi
  mKind : d.bus.mKind = .designWare
  orderly : Orderly s

/-- A controller that has been initialised. -/
private structure Initialised (dmi : DmiIdentity) (base : UInt64) (a : UInt8) (d : TouchDev)
    (s : List (Event Uefi)) : Prop extends Unprobed dmi d s where
  cleared : Cleared base s

/-- A panel that detection has found. -/
private def Found (dmi : DmiIdentity) (d : TouchDev) (s : List (Event Uefi)) : Prop :=
  d.dmi = dmi ∧ Routed Orderly (Commanded false) d.bus d.i2cBase s

section

variable {dmi : DmiIdentity} {prof : TouchProfile} {base : UInt64} {d : TouchDev}
  {s : List (Event Uefi)}

private theorem wp_registers {R : UInt64 → Prop} (hbase : IsController base)
    (hR : ∀ off, R off → off < 0x1000 ∧ off ≠ dwIcDataCmd) {α : Type} {p : Prog Uefi α}
    {Q : α → Prop} (h : p.Within (RegAccess base R) Q) (hs : Orderly s) :
    watched.wp p (fun _ s' ↦ Orderly s') s :=
  World.wp_mono (keeps_orderly.wp (h.mono fun _ ↦ noCommand_of_regAccess hbase.1 hR) hs)
    fun _ _ h ↦ h.2

private theorem controllerRules_orderly (hbase : IsController base)
    (timing : Option DwI2cTiming) : ControllerRules watched prof base timing (Unprobed dmi)
      (Unprobed dmi) (Unprobed dmi) (Unprobed dmi) (Found dmi) (Initialised dmi base) where
  present {d s} h := by
    refine World.wp_mono (wp_registers hbase (fun _ h ↦ h)
      (dwI2cControllerPresent_within ⟨by decide, by decide⟩) h.orderly) fun ok s' hC ↦ ?_
    split <;> exact ⟨h.identity, h.mKind, hC⟩
  init {d s} a h := by
    refine World.wp_mono (wp_dwI2cInit_cleared hbase a timing h.orderly) fun status s' h' ↦ ?_
    split
    · exact ⟨h.identity, h.mKind, h'.1⟩
    · next hok => exact ⟨⟨h.identity, h.mKind, h'.1⟩, h'.2 (by simpa using hok)⟩
  read {d s a} descReg h := by
    refine World.wpS_mono (masterRules_orderly.wpS_readHidDesc h.mKind hbase descReg
      ⟨h.orderly, fun _ ↦ h.cleared⟩) fun status d' s' h' ↦ ?_
    obtain ⟨hdmi, hkind, hon⟩ := h'
    have hidentity := hdmi.trans h.identity
    split
    · exact ⟨⟨hidentity, hkind, hon.orderly⟩, hon.cleared rfl⟩
    · exact ⟨hidentity, .designWare hkind hbase hon⟩
  again h := h
  leave h := h

private theorem probeRules_orderly (dmi : DmiIdentity) :
    ProbeRules watched dmi IsController (Unprobed dmi) (Found dmi) (Initialised dmi) where
  identity h := h.identity
  fixed hprof _ _ := isController_fixed hprof
  sweep hbase := isController_sweep hbase
  controller _ _ _ _ hbase timing := controllerRules_orderly hbase timing
  disable {base a d s} hbase h := by
    refine World.wp_mono (wp_registers (R := (· ∈ disableOffsets)) hbase (fun off hoff ↦ ?_)
      (dwI2cDisable_within fun _ h ↦ h) h.orderly) fun _ _ hC ↦ ⟨h.identity, h.mKind, hC⟩
    simp only [disableOffsets, List.mem_cons, List.not_mem_nil, or_false] at hoff
    rcases hoff with rfl | rfl <;> decide
  giveUp h := h.toUnprobed
  power dev h := World.wp_mono (wp_fchAoacPowerOnI2c_elsewhere masterRules_orderly.keeps h.orderly
    dev) fun _ _ hC ↦ ⟨h.identity, h.mKind, hC⟩
  lpss {prof} _ _ _ d s h := by
    have hlpss := lpssRules_of_elsewhere inBlock_counted masterRules_orderly.keeps
      (fun _ hC ↦ hC) fun _ hC ↦ hC.2
    refine World.wp_mono (hlpss.wp_intelLpssPrepareI2c prof.pciDid prof.pciDev
      prof.pciFunc h.orderly) fun r s' h' ↦ ?_
    split at h'
    · next herr =>
      exact ⟨⟨h.identity, h.mKind, h'⟩, fun hok ↦ absurd herr (by rw [hok]; decide)⟩
    · exact ⟨⟨h.identity, h.mKind, h'.2⟩, fun _ ↦ h'.1⟩
  kick {p prof} hp _ d s status h := by
    refine World.wpS_mono (wpS_kickOnce_elsewhere inBlock_counted masterRules_orderly.keeps
      h.orderly (List.mem_of_getElem? hp) status) fun _ d' s' h' ↦ ?_
    obtain ⟨hdmi, hbus, hC⟩ := h'
    exact ⟨hdmi.trans h.identity, (congrArg I2cBus.mKind hbus).trans h.mKind, hC⟩
  mtk hprof _ hplatform d s slaveAddr descReg h := by
    obtain rfl := eq_proArtP16 hprof hplatform
    refine World.wpS_mono (masterRules_orderly.wpS_touchMtkProbe h.mKind h.orderly slaveAddr
      descReg) fun status d' s' h' ↦ ?_
    obtain ⟨hdmi, hC, hbus⟩ := h'
    split
    · next herr =>
      rw [if_pos herr] at hbus
      exact ⟨hdmi.trans h.identity, hbus, hC⟩
    · next hok =>
      rw [if_neg hok] at hbus
      exact ⟨hdmi.trans h.identity, .other hbus hC⟩

private theorem wpS_touchDetect_orderly (hdmi : d.dmi = dmi) (hs : Orderly s) :
    watched.wpS touchDetect (fun status d' s' ↦ d'.dmi = dmi ∧
      if status.isError then Orderly s'
      else Routed Orderly (Commanded false) d'.bus d'.i2cBase s') d.startAttempt s := by
  have hidle : Unprobed dmi
      { d.startAttempt with bus := { d.startAttempt.bus with mKind := .designWare } } s :=
    ⟨hdmi, rfl, hs⟩
  refine World.wpS_mono ((probeRules_orderly dmi).detectRules.wpS_touchDetect hidle)
    fun status d' s' h' ↦ ?_
  split at h'
  · next herr =>
    rw [if_pos herr]
    exact ⟨h'.identity, h'.orderly⟩
  · next hok => rwa [if_neg hok]

end

private theorem Routed.orderly {bus : I2cBus} {base : UInt64} {s : List (Event Uefi)}
    (h : Routed Orderly (Commanded false) bus base s) : Orderly s := by
  cases h with
  | designWare _ _ h => exact h.orderly
  | other _ hs => exact hs

/-! ### A machine -/

/-- A machine whose controllers answer; its state is what was written to `IC_ENABLE` last. -/
def controllerMachine (enabled : UInt32) (e : UefiOp) : e.Ret × UInt32 :=
  match e with
  | .mmioRead8 _ => (fchAoacStateD0, enabled)
  | .mmioRead32 a =>
    (if a % 0x1000 = dwIcCompType then dwIcCompTypeValue
      else if a % 0x1000 = dwIcEnableStatus then enabled
      else if a % 0x1000 = dwIcStatus then dwIcStatusTfnf
      else 0, enabled)
  | .mmioWrite32 a v => ((), if a % 0x1000 = dwIcEnable then v else enabled)
  | e => (e.zeros, enabled)

/-- The SMBIOS table of the machine: a Type 2 structure with the board of a sweep profile. -/
def sweepTable : List UInt8 := [2, 6, 0, 0, 0, 1] ++ asciiBytes "RC71L" ++ [0, 0]

/-- The driver on the machine. -/
def sweepEntry : Touch Unit := touchI2cDxeEntry [.smbios3 sweepTable]

/-- The first controller of the sweep. -/
def sweptBase : UInt64 := dwI2cFchBase0.toUInt64

private theorem isController_sweptBase : IsController sweptBase := by decide

/-! ### The law -/

/-- **A failed disable is not ignored**, where no transfer ends with one and every BAR0 is the
window of a controller: whatever is performed in a run, a command goes only to a controller that
`DwI2cInit` has succeeded on since its last disable that timed out. -/
theorem performs_cleared {entries : List ConfigurationEntry} {t : List (Event Uefi)} {e : UefiOp}
    (h : Performs (touchI2cDxeEntry entries) t e) (hstuck : Avoids StuckTransfer t)
    (hbar : Avoids UnusableBar t) : CommandsCleared t e := by
  obtain ⟨dmi, hread, -⟩ := touchReadDmiIdentity_ok entries
  have hrules := masterRules_orderly.driverRules masterRules_orderly.keeps
    (fun {d s} (hdmi : d.dmi = dmi) (hs : Orderly s) ↦ wpS_touchDetect_orderly hdmi hs)
    fun {d s} hrouted hvalid hready ↦ World.wpS_mono
      (wpS_touchSetUp masterRules_orderly.routeRules hvalid hready hrouted)
      fun _ _ _ h' ↦ ⟨h', fun _ ↦ h'.2.orderly⟩
  have hpath : watched.Path [] t t := path_recording prefixClosed_orderly ⟨hstuck, hbar⟩
  exact allowed_of_performs hread hrules ⟨rfl, prefixClosed_orderly [] t ⟨hstuck, hbar⟩⟩ h hpath rfl

/-- The sweep profile of the machine. -/
def sweptProfile : TouchProfile := sweepProfile none (some "RC71L")

/-- The driver on the machine, when its first attempt starts. -/
def sweepDev : TouchDev where
  dmi := ⟨List.replicate 32 0, asciiBytes "RC71L" ++ List.replicate 27 0⟩
  mode := placeholderMode
  installed := true
  waitForInput := true
  pollEvent := true
  exitBootEvent := true

/-- A disable whose every poll finds the controller enabled. -/
def stuckDisable : List (Event Uefi) :=
  disableRequest sweptBase ::
    reads (sweptBase + dwIcEnableStatus) (List.replicate dwPollLimit dwIcEnableStatusEn)

private theorem disableTimedOut_stuck : DisableTimedOut sweptBase stuckDisable := by
  refine disableTimedOut_iff.mpr ⟨_, List.length_replicate, fun v hv ↦ ?_, rfl⟩
  rw [List.eq_of_mem_replicate hv]
  decide

/-- Whether an event shows a controller enabled. -/
def showsEnabled : Event Uefi → Bool
  | ⟨.mmioRead32 _, v⟩ => (v : UInt32) &&& dwIcEnableStatusEn != 0
  | _ => false

/-- Whether an operation is the first one of a transfer on the controller. -/
def startsTransfer : UefiOp → Bool
  | .mmioRead32 a => a == sweptBase + dwIcClrTxAbrt
  | _ => false

/-- An event that shows no controller enabled, starts no transfer and reads no BAR. -/
def quietEvent (ev : Event Uefi) : Bool :=
  !showsEnabled ev && !startsTransfer ev.op && !ev.op.readsPci

private theorem quietEvent_iff {ev : Event Uefi} : quietEvent ev = true ↔
    showsEnabled ev = false ∧ startsTransfer ev.op = false ∧ ev.op.readsPci = false := by
  simp only [quietEvent, Bool.and_eq_true, Bool.not_eq_true', and_assoc]

private theorem readsPci_stuckDisable {ev : Event Uefi} (h : ev ∈ stuckDisable) :
    ev.op.readsPci = false := by
  rcases List.mem_cons.mp h with rfl | h
  · rfl
  · obtain ⟨v, -, rfl⟩ := List.mem_map.mp h
    rfl

section

variable {u : List (Event Uefi)} {e : UefiOp}

/-- After a trace that is quiet up to `u`. -/
private abbrev QuietUntil {α : Type} (p : Prog Uefi α) (u : List (Event Uefi)) (e : UefiOp) :
    Prop := p.PerformsAfter (fun ev ↦ quietEvent ev = true) u e

private theorem QuietUntil.machine {α β : Type} {p : Touch β} {f : β → Touch α} {d : TouchDev}
    (b : β) (d' : TouchDev)
    (hsim : ((p.run d).simulate controllerMachine 0).2 = some (b, d'))
    (hquiet : ((p.run d).simulate controllerMachine 0).1.all quietEvent = true)
    (h : QuietUntil ((f b).run d') u e) : QuietUntil ((p >>= f).run d) u e :=
  Prog.performsAfterS_bind (Prog.returns_simulate hsim) (List.all_eq_true.mp hquiet) h

private theorem QuietUntil.tryEach {α : Type} {f : α → Touch Bool} {as as' : List α}
    {d d' : TouchDev} {t : List (Event Uefi)}
    (hfail : ((TouchI2c.tryEach f as).run d).Returns t (false, d'))
    (ht : ∀ ev ∈ t, quietEvent ev = true) (h : QuietUntil ((TouchI2c.tryEach f as').run d') u e) :
    QuietUntil ((TouchI2c.tryEach f (as ++ as')).run d) u e := by
  induction as generalizing d t with
  | nil =>
    obtain ⟨rfl, -, rfl⟩ := Prog.returnsS_pure.mp hfail
    exact h
  | cons a as ih =>
    obtain ⟨t₁, t₂, found, d₁, rfl, hfirst, hrest⟩ := Prog.returnsS_bind.mp hfail
    obtain ⟨ht₁, ht₂⟩ := List.forall_mem_append.mp ht
    cases found with
    | true => exact absurd (Prog.returnsS_pure.mp hrest).2.1 (by decide)
    | false => exact Prog.performsAfterS_bind hfirst ht₁ (ih hrest ht₂)

/-- The entry on the machine, up to the sweep of the first controller. -/
private theorem quietUntil_entry
    (h : ((tryEach (sweepAddr sweptProfile sweptBase none) mCandidateAddrs).run
      sweepDev.startAttempt).Performs u e) : QuietUntil (sweepEntry.run {}) u e := by
  have hbase : QuietUntil ((sweepBase sweptProfile (sweptBase, none)).run sweepDev.startAttempt)
      u e := .machine true sweepDev.startAttempt (by decide +kernel) (by decide +kernel)
    (h.after _)
  have htargets : QuietUntil ((tryEach (sweepBase sweptProfile)
      (mSweepBases.map fun base ↦ (base.toUInt64, none))).run sweepDev.startAttempt) u e :=
    hbase.bindS _
  have hpass : QuietUntil ((sweepPass sweptProfile).run sweepDev.startAttempt) u e := by
    have hmatch : touchProfileMatchesIdentity sweepDev.startAttempt.dmi sweptProfile = true := by
      decide +kernel
    refine .machine sweepDev.startAttempt sweepDev.startAttempt rfl rfl ?_
    rw [if_pos hmatch]
    exact .machine _ _ (by decide +kernel) (by decide +kernel) htargets
  have hsweep : QuietUntil ((tryEach sweepPass mProfiles).run sweepDev.startAttempt) u e := by
    rw [← List.take_append_drop 6 mProfiles]
    have hsim : (((tryEach sweepPass (mProfiles.take 6)).run sweepDev.startAttempt).simulate
        controllerMachine 0).2 = some (false, sweepDev.startAttempt) := by decide +kernel
    have hquiet : (((tryEach sweepPass (mProfiles.take 6)).run sweepDev.startAttempt).simulate
        controllerMachine 0).1.all quietEvent = true := by decide +kernel
    exact QuietUntil.tryEach (Prog.returns_simulate hsim) (List.all_eq_true.mp hquiet)
      (hpass.bindS _)
  have hdetect : QuietUntil (touchDetect.run sweepDev.startAttempt) u e := by
    refine QuietUntil.machine () sweepDev.startAttempt rfl rfl ?_
    refine QuietUntil.machine (some true) sweepDev.startAttempt (by decide +kernel)
      (by decide +kernel) ?_
    exact hsweep.bindS _
  have hattempt : QuietUntil (touchFirstAttempt.run sweepDev) u e := by
    refine Prog.PerformsAfter.bindS ?_ _
    refine QuietUntil.machine () sweepDev.startAttempt rfl rfl ?_
    exact hdetect.bindS _
  have hread : touchReadDmiIdentity [.smbios3 sweepTable] = .ok sweepDev.dmi := by decide +kernel
  have hentry : QuietUntil ((touchEntryAs sweepDev.dmi).run {}) u e := by
    refine QuietUntil.machine () { dmi := sweepDev.dmi } rfl rfl ?_
    refine QuietUntil.machine () { dmi := sweepDev.dmi } (by decide +kernel) (by decide +kernel) ?_
    refine QuietUntil.machine () { dmi := sweepDev.dmi, mode := placeholderMode } rfl rfl ?_
    exact QuietUntil.machine true sweepDev (by decide +kernel) (by decide +kernel) hattempt
  refine QuietUntil.machine true {} (by decide +kernel) (by decide +kernel) ?_
  exact Prog.performsAfterS_bind (Prog.returnsS_liftChecked.mpr ⟨rfl, hread, rfl⟩)
    (fun _ hev ↦ absurd hev List.not_mem_nil) hentry

end

/-- What the initialisation of the first controller performs. -/
def startTrace (slaveAddr : UInt8) : List (Event Uefi) :=
  ((dwI2cInit sweptBase slaveAddr none).simulate controllerMachine 0).1

/-- What a transfer does before its first command. -/
def nextStart : List (Event Uefi) :=
  [⟨.mmioRead32 (sweptBase + dwIcClrTxAbrt), 0⟩, ⟨.mmioRead32 (sweptBase + dwIcClrStopDet), 0⟩,
   ⟨.mmioRead32 (sweptBase + dwIcRawIntrStat), 0⟩,
   ⟨.mmioRead32 (sweptBase + dwIcStatus), dwIcStatusTfnf⟩]

/-- The first initialisation of the sweep fails, the next one succeeds, and a command follows. -/
private theorem performs_sweepAddrs_again :
    ((tryEach (sweepAddr sweptProfile sweptBase none) mCandidateAddrs).run
      sweepDev.startAttempt).Performs (stuckDisable ++ (startTrace ftsI2cAddr ++ nextStart))
        (.mmioWrite32 (sweptBase + dwIcDataCmd) 0x0000) := by
  have hstuck : (dwI2cInit sweptBase nvtkI2cAddr none).Returns stuckDisable .deviceError :=
    Prog.returns_bind.mpr ⟨stuckDisable, [], .timeout, (List.append_nil _).symm,
      disableTimedOut_stuck, .refl _⟩
  have hfirst : ((sweepAddr sweptProfile sweptBase none nvtkI2cAddr).run
      sweepDev.startAttempt).Returns stuckDisable (false, sweepDev.startAttempt) :=
    Prog.returnsS_bind.mpr ⟨stuckDisable, [], _, _, (List.append_nil _).symm,
      Prog.returnsS_lift.mpr ⟨hstuck, rfl⟩, .refl _⟩
  have hinit : (dwI2cInit sweptBase ftsI2cAddr none).Returns (startTrace ftsI2cAddr) .success :=
    Prog.returns_simulate (by decide +kernel)
  have hregs : ((tryEach (sweepReg sweptProfile sweptBase ftsI2cAddr) mCandidateDescRegs).run
      sweepDev.startAttempt).Performs nextStart (.mmioWrite32 (sweptBase + dwIcDataCmd) 0x0000) :=
    have hreg : ((sweepReg sweptProfile sweptBase ftsI2cAddr 0x0000).run
        sweepDev.startAttempt).Performs nextStart
          (.mmioWrite32 (sweptBase + dwIcDataCmd) 0x0000) :=
      ⟨_, .step _ (.step _ (.step _ (.step _ (.refl _))))⟩
    hreg.bindS _
  have haddr : ((sweepAddr sweptProfile sweptBase none ftsI2cAddr).run
      sweepDev.startAttempt).Performs (startTrace ftsI2cAddr ++ nextStart)
        (.mmioWrite32 (sweptBase + dwIcDataCmd) 0x0000) :=
    Prog.performsS_bind (Prog.returnsS_lift.mpr ⟨hinit, rfl⟩) (hregs.bindS _)
  exact Prog.performsS_bind hfirst (haddr.bindS _)

private theorem disableRequest_inj {base base' : UInt64}
    (h : disableRequest base = disableRequest base') : base = base' := by
  have hop : UefiOp.mmioWrite32 (base + dwIcEnable) 0 = .mmioWrite32 (base' + dwIcEnable) 0 :=
    congrArg Event.op h
  injection hop with haddr
  exact (UInt64.add_left_inj _).mp haddr

/-- A disable that times out takes more than `dwPollLimit` events. -/
private theorem lt_length_of_timedOut {vs : List UInt32} (hlen : vs.length = dwPollLimit)
    (w : List (Event Uefi)) (base : UInt64) (t : List (Event Uefi)) :
    dwPollLimit < (w ++ disableRequest base :: (reads (base + dwIcEnableStatus) vs ++ t)).length := by
  simp only [List.length_append, List.length_cons, reads, List.length_map, hlen]
  omega

private theorem timedOut_unique {s w t t' : List (Event Uefi)} {base : UInt64} {vs : List UInt32}
    (hs : ∀ ev ∈ s, showsEnabled ev = false) (ht : t.length ≤ dwPollLimit)
    (hlen : vs.length = dwPollLimit)
    (hvs : ∀ ev ∈ reads (base + dwIcEnableStatus) vs, showsEnabled ev = true)
    (heq : s ++ (stuckDisable ++ t) =
      w ++ disableRequest base :: (reads (base + dwIcEnableStatus) vs ++ t')) :
    w = s ∧ base = sweptBase := by
  rcases List.append_eq_append_iff.mp heq with ⟨a, rfl, htail⟩ | ⟨c, rfl, htail⟩
  · cases a with
    | nil => exact ⟨List.append_nil s, (disableRequest_inj (List.cons.inj htail).1).symm⟩
    | cons x a =>
      -- later, the disable would have to fit behind the one that times out
      rcases List.append_eq_append_iff.mp (List.cons.inj htail).2 with ⟨b, -, rfl⟩ | ⟨c, hc, hrest⟩
      · exact absurd ht (Nat.not_le.mpr (lt_length_of_timedOut hlen b base t'))
      · cases c with
        | nil =>
          obtain rfl : _ = t := hrest
          exact absurd ht (Nat.not_le.mpr (lt_length_of_timedOut hlen [] base t'))
        | cons y c =>
          obtain rfl := (List.cons.inj hrest).1
          have hmem : disableRequest base ∈ reads (sweptBase + dwIcEnableStatus)
              (List.replicate dwPollLimit dwIcEnableStatusEn) := by
            rw [hc]
            exact List.mem_append_right a List.mem_cons_self
          obtain ⟨v, -, hv⟩ := List.mem_map.mp hmem
          exact absurd (congrArg Event.op hv) UefiOp.noConfusion
  · cases c with
    | nil =>
      exact ⟨(List.append_nil w).symm, disableRequest_inj (List.cons.inj htail).1⟩
    | cons y c =>
      -- earlier, its first poll would be quiet
      obtain ⟨v, vs, rfl⟩ := List.exists_cons_of_length_pos (l := vs) (by rw [hlen]; decide)
      have hfirst := hvs _ List.mem_cons_self
      have hrest := (List.cons.inj htail).2
      cases c with
      | nil =>
        have hhead := (List.cons.inj hrest).1
        rw [hhead] at hfirst
        exact absurd hfirst (by decide)
      | cons z c =>
        have hhead := (List.cons.inj hrest).1
        rw [hhead, hs z (by simp)] at hfirst
        exact absurd hfirst Bool.false_ne_true

/-- A disable that times out ends no transfer, where none has started before it and few events
follow it. -/
private theorem avoids_stuckTransfer {s t : List (Event Uefi)}
    (hs : ∀ ev ∈ s, quietEvent ev = true) (ht : t.length ≤ dwPollLimit) :
    Avoids StuckTransfer (s ++ (stuckDisable ++ t)) := by
  rintro t₁ t₂ t₃ heq ⟨base, wBuf, wLen, rBuf, rLen, r, u, v, rfl, hret, hstuck⟩
  obtain ⟨vs, hlen, hall, rfl⟩ := disableTimedOut_iff.mp hstuck
  have hvs : ∀ ev ∈ reads (base + dwIcEnableStatus) vs, showsEnabled ev = true := by
    intro ev hev
    obtain ⟨v, hv, rfl⟩ := List.mem_map.mp hev
    simp only [showsEnabled, bne, hall v hv, Bool.not_false]
  obtain ⟨hw, rfl⟩ := @timedOut_unique s (t₁ ++ u) t t₃ base vs
    (fun ev hev ↦ (quietEvent_iff.mp (hs ev hev)).1) ht hlen hvs (by simp [heq])
  -- a transfer starts with a read that is not among the quiet events
  rw [dwI2cXfer] at hret
  split at hret
  · obtain ⟨hnil, -⟩ := Prog.returns_pure.mp hret
    exact absurd hnil (by simp)
  · obtain ⟨u₁, u₂, w, hsplit, hread, -⟩ := Prog.returns_bind.mp hret
    obtain rfl : u₁ = [⟨.mmioRead32 (sweptBase + dwIcClrTxAbrt), w⟩] :=
      Prog.returns_perform.mp hread
    cases u with
    | nil => exact absurd (congrArg Event.op (List.cons.inj hsplit).1) UefiOp.noConfusion
    | cons x u =>
      have hmem : x ∈ s := hw ▸ List.mem_append_right t₁ List.mem_cons_self
      have hstarts : startsTransfer x.op = true := by
        rw [(List.cons.inj hsplit).1]
        exact beq_self_eq_true _
      exact Bool.false_ne_true ((quietEvent_iff.mp (hs x hmem)).2.1.symm.trans hstarts)

/-- **A run with a failed disable**: the first initialisation of the sweep times out, the second one
succeeds, and then the first command follows. -/
theorem performs_cleared_sweep : ∃ t v,
    Performs sweepEntry t (.mmioWrite32 (sweptBase + dwIcDataCmd) v) ∧
      (∃ t₁ t₂ t₃, t = t₁ ++ t₂ ++ t₃ ∧ DisableTimedOut sweptBase t₂) ∧
      CommandsCleared t (.mmioWrite32 (sweptBase + dwIcDataCmd) v) := by
  obtain ⟨s, hs, k, hreach⟩ := quietUntil_entry performs_sweepAddrs_again
  have hruns : Performs sweepEntry _ _ := .entry hreach
  have hlen : (startTrace ftsI2cAddr ++ nextStart).length ≤ dwPollLimit := by decide +kernel
  have hrest : (startTrace ftsI2cAddr ++ nextStart).all (fun ev ↦ !ev.op.readsPci) = true := by
    decide +kernel
  have hbar : Avoids UnusableBar
      (s ++ (stuckDisable ++ (startTrace ftsI2cAddr ++ nextStart))) := by
    refine avoids_unusableBar_of_all (List.all_eq_true.mpr fun ev hev ↦ ?_)
    rcases List.mem_append.mp hev with hev | hev
    · rw [(quietEvent_iff.mp (hs ev hev)).2.2, Bool.not_false]
    · rcases List.mem_append.mp hev with hev | hev
      · rw [readsPci_stuckDisable hev, Bool.not_false]
      · exact List.all_eq_true.mp hrest ev hev
  refine ⟨_, 0x0000, hruns, ⟨s, stuckDisable, _, (List.append_assoc _ _ _).symm,
    disableTimedOut_stuck⟩, ?_⟩
  exact performs_cleared hruns (avoids_stuckTransfer hs hlen) hbar

/-! ## A failed disable that is ignored -/

/-- What a transfer does before it gives up on an abort that is no NAK of the address. -/
def abortedStart : List (Event Uefi) :=
  [⟨.mmioRead32 (sweptBase + dwIcClrTxAbrt), 0⟩, ⟨.mmioRead32 (sweptBase + dwIcClrStopDet), 0⟩,
   ⟨.mmioRead32 (sweptBase + dwIcRawIntrStat), dwIcIntrTxAbrt⟩,
   ⟨.mmioRead32 (sweptBase + dwIcTxAbrtSource), 0⟩,
   ⟨.mmioRead32 (sweptBase + dwIcClrTxAbrt), 0⟩]

private theorem returns_handleAbort_stuck :
    (handleAbort sweptBase).Returns (abortedStart.drop 3 ++ stuckDisable) .deviceError := by
  have hclassify : (classifyAbort sweptBase).Returns (abortedStart.drop 3) .deviceError :=
    .step _ (.step _ (.refl _))
  have hrecover : (dwI2cRecover sweptBase).Returns stuckDisable () :=
    Prog.returns_bind.mpr ⟨stuckDisable, [], .timeout, (List.append_nil _).symm,
      disableTimedOut_stuck, .refl _⟩
  refine Prog.returns_bind.mpr ⟨_, stuckDisable, .deviceError, rfl, hclassify, ?_⟩
  exact Prog.returns_bind.mpr ⟨stuckDisable, [], (), (List.append_nil _).symm, hrecover, .refl _⟩

private theorem returns_dwI2cXfer_stuck (wBuf rBuf : List UInt8) :
    (dwI2cXfer sweptBase (some wBuf) 2 (some rBuf) i2cHidDescriptorSize).Returns
      (abortedStart ++ stuckDisable) (.deviceError, some rBuf) := by
  have hpass : ∀ x : XferArgs, x.base = sweptBase → x.wLen = 2 → ∀ st : XferState, st.wSent = 0 →
      (xferPass x st).Returns (abortedStart.drop 2 ++ stuckDisable)
        (.inr (st, some .deviceError)) := by
    intro x hbase hlen st hsent
    rw [xferPass, if_pos (.inl (by omega)), hbase]
    refine Prog.returns_bind.mpr ⟨[_], abortedStart.drop 3 ++ stuckDisable, dwIcIntrTxAbrt, rfl,
      .step _ (.refl _), ?_⟩
    exact Prog.returns_bind.mpr ⟨_, [], .deviceError, (List.append_nil _).symm,
      returns_handleAbort_stuck, .refl _⟩
  have hloop : ∀ x : XferArgs, x.base = sweptBase → x.wLen = 2 → ∀ st : XferState, st.wSent = 0 →
      (Prog.iterate (xferPass x) (xferBound x) st).Returns (abortedStart.drop 2 ++ stuckDisable)
        (st, some .deviceError) := by
    intro x hbase hlen st hsent
    rw [xferBound, Prog.iterate]
    exact Prog.returns_bind.mpr ⟨_, [], .inr (st, some .deviceError), (List.append_nil _).symm,
      hpass x hbase hlen st hsent, .refl _⟩
  rw [dwI2cXfer, if_neg (by simp [xferInvalid])]
  refine Prog.returns_bind.mpr ⟨[_], abortedStart.drop 1 ++ stuckDisable, 0, rfl,
    .step _ (.refl _), ?_⟩
  refine Prog.returns_bind.mpr ⟨[_], abortedStart.drop 2 ++ stuckDisable, 0, rfl,
    .step _ (.refl _), ?_⟩
  exact Prog.returns_bind.mpr ⟨_, [], (⟨0, 0, 0, 0, 0, some rBuf⟩, some .deviceError),
    (List.append_nil _).symm, hloop _ rfl rfl _ rfl, .refl _⟩

private theorem returns_sweepReg_stuck {prof : TouchProfile} (descReg : UInt16) :
    ((sweepReg prof sweptBase nvtkI2cAddr descReg).run sweepDev.startAttempt).Returns
      (abortedStart ++ stuckDisable) (false, sweepDev.startAttempt) := by
  have hxfer := returns_dwI2cXfer_stuck (regBytes descReg) I2cHidDescriptor.zero.bytes
  have hread : ((i2cHidReadDescriptor sweptBase descReg .zero).run {}).Returns
      (abortedStart ++ stuckDisable) ((.deviceError, .zero), {}) := by
    refine Prog.returnsS_bind.mpr ⟨_, [], (.deviceError, some I2cHidDescriptor.zero.bytes), {},
      (List.append_nil _).symm, ?_, .refl _⟩
    refine Prog.returnsS_bind.mpr ⟨[], _, {}, {}, rfl, .refl _, ?_⟩
    exact Prog.returnsS_lift.mpr ⟨hxfer, rfl⟩
  have hbus : ((onBus (i2cHidReadDescriptor sweptBase descReg .zero)).run
      sweepDev.startAttempt).Returns (abortedStart ++ stuckDisable)
        ((.deviceError, .zero), sweepDev.startAttempt) :=
    returns_onBus.mpr ⟨{}, hread, rfl⟩
  have hdesc : ((readHidDesc sweptBase descReg).run sweepDev.startAttempt).Returns
      (abortedStart ++ stuckDisable) (.deviceError, sweepDev.startAttempt) := by
    refine Prog.returnsS_bind.mpr ⟨[], _, _, _, rfl, .refl _, ?_⟩
    exact Prog.returnsS_bind.mpr ⟨_, [], _, _, (List.append_nil _).symm, hbus, .refl _⟩
  exact Prog.returnsS_bind.mpr ⟨_, [], _, _, (List.append_nil _).symm, hdesc, .refl _⟩

/-- The first command after the failed disable. -/
def ignoringCommand : UefiOp := .mmioWrite32 (sweptBase + dwIcDataCmd) 0x0001

/-- The first transfer of the sweep is aborted, its recovery fails, and the next one is made. -/
private theorem performs_sweepAddrs :
    ((tryEach (sweepAddr sweptProfile sweptBase none) mCandidateAddrs).run
      sweepDev.startAttempt).Performs (startTrace nvtkI2cAddr ++ abortedStart ++ stuckDisable ++
        nextStart) ignoringCommand := by
  have hnext : ((sweepReg sweptProfile sweptBase nvtkI2cAddr 0x0001).run
      sweepDev.startAttempt).Performs nextStart ignoringCommand :=
    ⟨_, .step _ (.step _ (.step _ (.step _ (.refl _))))⟩
  have hregs : ((tryEach (sweepReg sweptProfile sweptBase nvtkI2cAddr) mCandidateDescRegs).run
      sweepDev.startAttempt).Performs (abortedStart ++ stuckDisable ++ nextStart)
        ignoringCommand :=
    Prog.performsS_bind (returns_sweepReg_stuck 0x0000) (hnext.bindS _)
  have hinit : (dwI2cInit sweptBase nvtkI2cAddr none).Returns (startTrace nvtkI2cAddr) .success :=
    Prog.returns_simulate (by decide +kernel)
  have haddr : ((sweepAddr sweptProfile sweptBase none nvtkI2cAddr).run
      sweepDev.startAttempt).Performs (startTrace nvtkI2cAddr ++
        (abortedStart ++ stuckDisable ++ nextStart)) ignoringCommand :=
    Prog.performsS_bind (Prog.returnsS_lift.mpr ⟨hinit, rfl⟩) (hregs.bindS _)
  rw [← List.append_assoc, ← List.append_assoc] at haddr
  exact haddr.bindS _

/-- **A failed disable is ignored**: a transfer aborts, the disable of its recovery times out, and
the sweep tries the next register on the controller as it is. -/
theorem not_performs_cleared : ¬∀ (entries : List ConfigurationEntry) (t : List (Event Uefi))
    (e : UefiOp), Performs (touchI2cDxeEntry entries) t e → CommandsCleared t e := by
  intro h
  obtain ⟨t, -, k, hreach⟩ := quietUntil_entry performs_sweepAddrs
  have hcleared := h _ _ _ (.entry hreach) sweptBase 0x0001 isController_sweptBase rfl
  rw [← List.append_assoc, ← List.append_assoc] at hcleared
  obtain ⟨u₁, u₂, u₃, heq, slaveAddr, timing, hinit⟩ :=
    hcleared (t ++ (startTrace nvtkI2cAddr ++ abortedStart)) stuckDisable nextStart rfl
      disableTimedOut_stuck
  -- an initialisation starts with a write, and only reads follow the disable
  have hwrite : ∃ u, u₂ = disableRequest sweptBase :: u := by
    obtain ⟨t₁, t₂, status, rfl, hdisable, -⟩ := Prog.returns_bind.mp hinit
    obtain ⟨t₃, t₄, _, rfl, hrequest, -⟩ := Prog.returns_bind.mp hdisable
    obtain rfl : t₃ = [disableRequest sweptBase] := Prog.returns_perform.mp hrequest
    exact ⟨t₄ ++ t₂, rfl⟩
  obtain ⟨u, rfl⟩ := hwrite
  have hmem : disableRequest sweptBase ∈ nextStart := by
    rw [heq]
    simp
  have hreads : ∀ ev ∈ nextStart, ∃ a, ev.op = .mmioRead32 a := by
    intro ev hev
    simp only [nextStart, List.mem_cons, List.not_mem_nil, or_false] at hev
    rcases hev with rfl | rfl | rfl | rfl <;> exact ⟨_, rfl⟩
  obtain ⟨a, ha⟩ := hreads _ hmem
  exact absurd ha UefiOp.noConfusion

end TouchI2c
