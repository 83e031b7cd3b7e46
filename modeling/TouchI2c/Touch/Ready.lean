import TouchI2c.Bus.Delivery
import TouchI2c.HidParse.Spec
import TouchI2c.Interaction.Simulate
import TouchI2c.Touch.Footprint
import TouchI2c.Touch.Probes

/-!
# Ready implies a valid input path

Whatever hardware, firmware and timers do, in every state that a run of the driver reaches with
`Ready` set the input path is complete, and no later step changes it or starts another attempt. At
most 60 attempts are made. A poll decodes only bytes that lie below the declared length and that its
own transfer has just delivered.

## The invariant

`DriverInv n d` holds between two dispatches after `n` attempts: at most 60 have been made, a driver
that is ready has a complete input path and waits for no retry, and one that waits for a retry has
attempts left. An attempt opens the input path or leaves the driver not ready; the entry makes at
most one, a retry one more, and the last retry closes the event. Every other handler is no attempt
and keeps what holds between the dispatches, a poll together with the input path.

## Polls

`PollsReceived` is about whole runs of `touchPoll`: a poll leaves the pointer alone, or it recovers
if that is due, reads, and decodes the bytes that this read has brought in. `DecodesReceived` says
that what it decodes depends on the declared payload only.

## Machines

The two machines at the end have a panel, behind a protocol of the firmware and behind a DesignWare
controller. Other files run the driver on them.
-/

namespace TouchI2c

open CMemory HidParse Interaction

/-- Every operation. -/
def AnyOp : UefiOp → Prop := fun _ ↦ True

private theorem any {P : UefiOp → Prop} : ∀ e, P e → AnyOp e := fun _ _ ↦ trivial

variable {d : TouchDev}

/-! ## Detection -/

/-- What detection does not touch. -/
def TouchDev.outsideDetect (d : TouchDev) : TouchDev :=
  { d with
    bus := {}
    resetKicked := []
    profile := none
    i2cBase := 0
    slaveAddr := 0
    hidDesc := .zero
    fwBus := {}
    fwBusSearched := false
    fwBusFound := false }

/-- What detection keeps while it is under way. -/
private def DetectIdle (d₀ d : TouchDev) (_ : Unit) : Prop := d.outsideDetect = d₀.outsideDetect

/-- A panel is found by its descriptor. -/
private def DetectFound (d₀ d : TouchDev) (_ : Unit) : Prop :=
  d.outsideDetect = d₀.outsideDetect ∧ d.hidDesc.valid = true

section

variable {d₀ : TouchDev} {P : UefiOp → Prop} (hP : ∀ e, Work e → P e)

include hP

private theorem readHidDesc_work (h : DetectIdle d₀ d ()) (base : UInt64) (descReg : UInt16) :
    (within P).world.wpS (readHidDesc base descReg) (fun status d' _ ↦
      DetectIdle d₀ d' () ∧ (status.isError = false → d'.hidDesc.valid = true)) d () := by
  rw [readHidDesc, World.wpS_bind, World.wpS_get, World.wpS_bind, wpS_onBus]
  refine World.wpS_mono (i2cHidReadDescriptor_within (R := fun _ ↦ True) (fun e he ↦ hP e he.work)
    (fun _ _ ↦ trivial) descReg d.hidDesc) fun r bus _ hr ↦ ?_
  exact ⟨h, hr.2⟩

private theorem mtkReadDescriptor_work (h : DetectIdle d₀ d ()) (descReg : UInt16) :
    (within P).world.wpS (mtkReadDescriptor descReg) (fun status d' _ ↦
      DetectIdle d₀ d' () ∧ (status.isError = false → d'.hidDesc.valid = true)) d () := by
  rw [mtkReadDescriptor, World.wpS_bind]
  refine World.wpS_mono (readHidDesc_work hP h 0 descReg) fun status d₁ _ h₁ ↦ ?_
  rw [World.wpS_bind, mtkDeselect]
  split
  · rw [wpS_onBus, i2cBusSelectDesignWare]
    exact h₁
  · exact h₁

private theorem touchMtkProbe_work (h : DetectIdle d₀ d ()) (prof : TouchProfile)
    (slaveAddr : UInt8) (descReg : UInt16) :
    (within P).world.wpS (touchMtkProbe prof slaveAddr descReg) (fun status d' _ ↦
      DetectIdle d₀ d' () ∧ (status.isError = false → d'.hidDesc.valid = true)) d () := by
  have hsearch : (within P).world.wpS (mtkSearchFirmware prof)
      (fun _ d' _ ↦ DetectIdle d₀ d' ()) d () := by
    rw [mtkSearchFirmware, World.wpS_bind, World.wpS_get]
    split
    · exact h
    · rw [World.wpS_bind, World.wpS_modify, World.wpS_bind, World.wpS_lift]
      exact World.wp_mono (i2cBusFindFirmwareController_within (fun e he ↦ hP e he.work) _ _)
        fun _ _ _ ↦ h
  rw [touchMtkProbe, World.wpS_bind]
  refine World.wpS_mono hsearch fun _ d₁ _ h₁ ↦ ?_
  rw [World.wpS_bind, World.wpS_get]
  split
  · rw [World.wpS_bind, wpS_onBus, i2cBusSelectFirmware, World.wpS_modify]
    refine mtkReadDescriptor_work hP ?_ descReg
    exact h₁
  · rw [World.wpS_bind, wpS_onBus, wpS_onMtk]
    refine World.wpS_mono (wpS_within_mono (mtkI2cInit_within slaveAddr) fun e he ↦ hP e he.work)
      fun status c _ _ ↦ ?_
    split
    · next herr => exact ⟨h₁, fun hok ↦ absurd herr (by rw [hok]; decide)⟩
    · rw [World.wpS_bind, wpS_onBus, i2cBusSelectMediaTek, World.wpS_modify]
      refine mtkReadDescriptor_work hP ?_ descReg
      exact h₁

private theorem probeRules_work (d₀ : TouchDev) :
    ProbeRules (within P).world d₀.dmi (fun _ ↦ True) (DetectIdle d₀) (DetectFound d₀)
      (fun _ _ ↦ DetectIdle d₀) where
  identity h := (congrArg TouchDev.dmi h :)
  fixed _ _ _ := trivial
  sweep _ := trivial
  controller {prof} _ _ _ base _ timing :=
    { present := fun h ↦ by
        refine World.wp_mono (Prog.Within.mono (dwI2cControllerPresent_within
          (R := fun _ ↦ True) trivial) fun e he ↦ hP e he.work) fun ok _ _ ↦ ?_
        split <;> exact h
      init := fun a h ↦ by
        refine World.wp_mono (Prog.Within.mono (dwI2cInit_within (fun _ h ↦ h) a timing)
          fun e he ↦ hP e he.work) fun status _ _ ↦ ?_
        split <;> exact h
      read := fun descReg h ↦ by
        refine World.wpS_mono (readHidDesc_work hP h base descReg) fun status d' _ h' ↦ ?_
        split
        · exact h'.1
        · next hok => exact ⟨h'.1, h'.2 (by simpa using hok)⟩
      again := id
      leave := id }
  disable _ h := World.wp_mono (Prog.Within.mono (dwI2cDisable_within (R := fun _ ↦ True)
    fun _ _ ↦ trivial) fun e he ↦ hP e he.work) fun _ _ _ ↦ h
  giveUp := id
  power _ h := World.wp_mono (fchAoacPowerOnI2c_within fun e he ↦ hP e he.work) fun _ _ _ ↦ h
  lpss _ _ _ _ _ h := World.wp_mono (intelLpssPrepareI2c_within (fun e he ↦ hP e he.work) _ _ _)
    fun _ _ _ ↦ ⟨h, fun _ ↦ trivial⟩
  kick {p _} _ _ d _ status h := by
    refine World.wpS_mono (kickOnce_within (fun e he ↦ hP e he.work) p status) fun _ d' _ hd' ↦ ?_
    obtain ⟨kicked, rfl⟩ := hd'
    exact h
  mtk {prof} _ _ _ d _ slaveAddr descReg h := by
    refine World.wpS_mono (touchMtkProbe_work hP h prof slaveAddr descReg) fun status d' _ h' ↦ ?_
    split
    · exact h'.1
    · next hok => exact ⟨h'.1, h'.2 (by simpa using hok)⟩

/-- Detection does nothing but work and always ends, and a panel it finds has a valid
descriptor. -/
theorem touchDetect_work (d : TouchDev) :
    (within P).world.wpS touchDetect (fun status d' _ ↦
      d'.outsideDetect = d.outsideDetect ∧ (status.isError = false → d'.hidDesc.valid = true))
      d () := by
  refine World.wpS_mono ((probeRules_work hP d).detectRules.wpS_touchDetect
    (rfl : DetectIdle d _ ()))
    fun status d' _ h ↦ ?_
  split at h
  · next herr => exact ⟨h, fun hok ↦ absurd herr (by rw [hok]; decide)⟩
  · exact ⟨h.1, fun _ ↦ h.2⟩

end

theorem touchDetect_any (d : TouchDev) :
    (within AnyOp).world.wpS touchDetect (fun status d' _ ↦
      d'.outsideDetect = d.outsideDetect ∧ (status.isError = false → d'.hidDesc.valid = true))
      d () := touchDetect_work any d

/-! ## Attempts -/

/-- What an attempt does to the driver. -/
structure AttemptPost (d : TouchDev) (status : EfiStatus) (d' : TouchDev) : Prop where
  attemptCount : d'.attemptCount = d.attemptCount + 1
  retryEvent : d'.retryEvent = d.retryEvent
  success : status.isError = false → d'.ready = true ∧ d'.InputPath
  failure : status.isError = true → d'.ready = false

/-- An attempt always ends; it opens the input path or leaves the driver not ready. -/
theorem touchTryBringUp_any (hready : d.ready = false) :
    (within AnyOp).world.wpS touchTryBringUp (fun status d' _ ↦ AttemptPost d status d') d () := by
  rw [touchTryBringUp, World.wpS_bind, World.wpS_modify, World.wpS_bind]
  refine World.wpS_mono (touchDetect_any d.startAttempt) fun status d₁ _ h₁ ↦ ?_
  obtain ⟨hframe, hvalid⟩ := h₁
  have hcount : d₁.attemptCount = d.attemptCount + 1 := (congrArg TouchDev.attemptCount hframe :)
  have hretry : d₁.retryEvent = d.retryEvent := (congrArg TouchDev.retryEvent hframe :)
  have hready₁ : d₁.ready = false := (congrArg TouchDev.ready hframe :).trans hready
  split
  · next herr =>
    exact ⟨hcount, hretry, fun hok ↦ absurd herr (by rw [hok]; decide), fun _ ↦ hready₁⟩
  · next hok =>
    refine World.wpS_mono (touchSetUp_within any (hvalid (by simpa using hok)) hready₁)
      fun status' d₂ _ h₂ ↦ ?_
    have hcount₂ : d₂.attemptCount = d₁.attemptCount :=
      (congrArg TouchDev.attemptCount h₂.frame :)
    have hretry₂ : d₂.retryEvent = d₁.retryEvent := (congrArg TouchDev.retryEvent h₂.frame :)
    exact ⟨hcount₂.trans hcount, hretry₂.trans hretry, h₂.success,
      fun herr ↦ (h₂.failure herr).trans hready₁⟩

/-- What holds between the dispatches after `n` attempts: a driver that is ready does not retry,
and one that does has not used up its attempts. -/
structure DriverInv (n : ℕ) (d : TouchDev) : Prop where
  ready : d.ready = true → d.retryEvent = false ∧ d.InputPath
  attempts : n ≤ touchRetryMax
  retry : d.retryEvent = true → d.attemptCount = n ∧ n < touchRetryMax

private theorem DriverInv.idle (hready : d.ready = false) (hretry : d.retryEvent = false) :
    DriverInv 1 d :=
  ⟨fun h ↦ absurd h (by rw [hready]; decide), by decide,
    fun h ↦ absurd h (by rw [hretry]; decide)⟩

theorem touchCloseRetry_any :
    (within AnyOp).world.wpS touchCloseRetry
      (fun _ d' _ ↦ d' = { d with retryEvent := false }) d () := by
  rw [touchCloseRetry, World.wpS_bind, World.wpS_lift]
  refine wp_uefi.mpr ⟨trivial, fun _ ↦ ?_⟩
  rw [World.wpS_bind, World.wpS_modify, World.wpS_bind, World.wpS_lift]
  exact wp_uefi.mpr ⟨trivial, fun _ ↦ rfl⟩

/-- A retry is one more attempt, and the last one closes the retry event. -/
theorem touchRetry_any {n : ℕ} (h : DriverInv n d) (hretry : d.retryEvent = true) :
    (within AnyOp).world.wpS touchRetry (fun _ d' _ ↦ DriverInv (n + 1) d') d () := by
  obtain ⟨hcount, hlt⟩ := h.retry hretry
  have hready : d.ready = false := by
    cases hr : d.ready with
    | false => rfl
    | true => exact absurd (h.ready hr).1 (by rw [hretry]; decide)
  rw [touchRetry, World.wpS_bind]
  refine World.wpS_mono (touchTryBringUp_any hready) fun status d₁ _ h₁ ↦ ?_
  have hcount₁ : d₁.attemptCount = n + 1 := by rw [h₁.attemptCount, hcount]
  rw [World.wpS_bind, World.wpS_get]
  split
  · next hmore =>
    rw [Bool.and_eq_true, decide_eq_true_eq] at hmore
    have hnot := h₁.failure hmore.1
    exact ⟨fun hr ↦ absurd hr (by rw [hnot]; decide), hlt, fun _ ↦ ⟨hcount₁, hcount₁ ▸ hmore.2⟩⟩
  · refine World.wpS_mono touchCloseRetry_any fun _ d₂ _ h₂ ↦ ?_
    subst h₂
    refine ⟨fun hr ↦ ⟨rfl, ?_⟩, hlt, fun h ↦ by contradiction⟩
    have hok : status.isError = false := by
      cases hstatus : status.isError with
      | false => rfl
      | true => exact absurd (h₁.failure hstatus) (by rw [show d₁.ready = true from hr]; decide)
    exact { (h₁.success hok).2 with }

/-! ## The entry -/

private theorem touchCreateEvent_any (e : TouchEvent) :
    (within AnyOp).world.wpS (touchCreateEvent e) (fun created d' _ ↦
      d' = if created then d.noteEvent e else d) d () := by
  rw [touchCreateEvent, World.wpS_bind, World.wpS_lift]
  refine wp_uefi.mpr ⟨trivial, fun status ↦ ?_⟩
  split
  · exact rfl
  · exact rfl

/-- The driver is not ready, waits for no retry and has made no attempt. -/
private structure Fresh (d : TouchDev) : Prop where
  ready : d.ready = false
  retryEvent : d.retryEvent = false
  attemptCount : d.attemptCount = 0

private theorem touchInstall_any (h : Fresh d) :
    (within AnyOp).world.wpS touchInstall (fun _ d' _ ↦ Fresh d') d () := by
  have hcreate : ∀ {d}, Fresh d → ∀ e, e ≠ .retry → ∀ {f : Bool → Touch Bool},
      (∀ created {d}, Fresh d → (within AnyOp).world.wpS (f created) (fun _ d' _ ↦ Fresh d') d ()) →
      (within AnyOp).world.wpS (touchCreateEvent e >>= f) (fun _ d' _ ↦ Fresh d') d () := by
    intro d h e he f hf
    rw [World.wpS_bind]
    refine World.wpS_mono (touchCreateEvent_any e) fun created d₁ _ h₁ ↦ hf created ?_
    subst h₁
    split
    · cases e with
      | retry => exact absurd rfl he
      | _ => exact { h with }
    · exact h
  unfold touchInstall
  refine hcreate h _ (by decide) fun created d h ↦ ?_
  split
  · refine hcreate h _ (by decide) fun created d h ↦ ?_
    split
    · refine hcreate h _ (by decide) fun created d h ↦ ?_
      split
      · rw [World.wpS_bind, World.wpS_lift]
        refine wp_uefi.mpr ⟨trivial, fun status ↦ ?_⟩
        split
        · exact h
        · exact { h with }
      · exact h
    · exact h
  · exact h

private theorem touchInert_any (h : Fresh d) :
    (within AnyOp).world.wpS touchInert (fun _ d' _ ↦ DriverInv 1 d') d () := by
  have hclose : ∀ e timer present, (closeEventOf e timer present).Within AnyOp fun _ ↦ True := by
    intro e timer present
    unfold closeEventOf
    split
    · rw [Prog.Within, World.wp_bind]
      refine World.wp_mono (cancelTimerOf_within any e timer) fun _ _ _ ↦ ?_
      rw [World.wp_bind]
      exact wp_uefi.mpr ⟨trivial, fun _ ↦ trivial⟩
    · exact trivial
  have hfree : (freeBuffer d.inputBuf).Within AnyOp fun _ ↦ True := by
    unfold freeBuffer
    split
    · exact trivial
    · exact wp_uefi.mpr ⟨trivial, fun _ ↦ trivial⟩
  rw [touchInert, World.wpS_bind, World.wpS_get, World.wpS_bind, World.wpS_lift]
  refine World.wp_mono (hclose _ _ _) fun _ _ _ ↦ ?_
  rw [World.wpS_bind, World.wpS_lift]
  refine World.wp_mono (hclose _ _ _) fun _ _ _ ↦ ?_
  rw [World.wpS_bind, World.wpS_lift]
  refine World.wp_mono (hclose _ _ _) fun _ _ _ ↦ ?_
  rw [World.wpS_bind, World.wpS_lift]
  refine World.wp_mono (hclose _ _ _) fun _ _ _ ↦ ?_
  rw [World.wpS_bind, World.wpS_lift]
  refine World.wp_mono hfree fun _ _ _ ↦ ?_
  rw [World.wpS_bind, World.wpS_lift]
  exact wp_uefi.mpr ⟨trivial, fun _ ↦ DriverInv.idle h.ready rfl⟩

private theorem touchFirstAttempt_any (h : Fresh d) :
    (within AnyOp).world.wpS touchFirstAttempt (fun _ d' _ ↦ DriverInv 1 d') d () := by
  rw [touchFirstAttempt, World.wpS_bind]
  refine World.wpS_mono (touchTryBringUp_any h.ready) fun status d₁ _ h₁ ↦ ?_
  have hcount : d₁.attemptCount = 1 := by rw [h₁.attemptCount, h.attemptCount]
  have hretry : d₁.retryEvent = false := h₁.retryEvent.trans h.retryEvent
  split
  · next herr =>
    have hready := h₁.failure herr
    rw [touchArmRetry, World.wpS_bind]
    refine World.wpS_mono (touchCreateEvent_any .retry) fun created d₂ _ h₂ ↦ ?_
    subst h₂
    cases created with
    | false => exact DriverInv.idle hready hretry
    | true =>
      rw [if_pos rfl, if_pos rfl, World.wpS_bind, World.wpS_lift]
      refine wp_uefi.mpr ⟨trivial, fun status' ↦ ?_⟩
      split
      · rw [World.wpS_bind, World.wpS_modify, World.wpS_bind, World.wpS_lift]
        exact wp_uefi.mpr ⟨trivial, fun _ ↦ DriverInv.idle hready rfl⟩
      · have hready₂ : (d₁.noteEvent .retry).ready = false := hready
        exact ⟨fun hr ↦ absurd hr (by rw [hready₂]; decide), by decide,
          fun _ ↦ ⟨hcount, by decide⟩⟩
  · next hok =>
    obtain ⟨-, hpath⟩ := h₁.success (by simpa using hok)
    exact ⟨fun _ ↦ ⟨hretry, hpath⟩, by decide, fun hr ↦ absurd hr (by rw [hretry]; decide)⟩

theorem touchEntryAs_any (dmi : DmiIdentity) :
    (within AnyOp).world.wpS (touchEntryAs dmi) (fun _ d' _ ↦ DriverInv 1 d') {} () := by
  have hlog : ∀ profs, (logProfiles dmi profs).Within AnyOp fun _ ↦ True := by
    intro profs
    induction profs with
    | nil => exact trivial
    | cons prof profs ih =>
      have hone : (logProfile dmi prof).Within AnyOp fun _ ↦ True := by
        unfold logProfile
        split
        · rw [Prog.Within, World.wp_bind]
          refine wp_uefi.mpr ⟨trivial, fun _ ↦ ?_⟩
          rw [World.wp_bind]
          exact wp_uefi.mpr ⟨trivial, fun _ ↦ trivial⟩
        · exact trivial
      rw [logProfiles, Prog.Within, World.wp_bind]
      exact World.wp_mono hone fun _ _ _ ↦ ih
  rw [touchEntryAs, World.wpS_bind, World.wpS_modify, World.wpS_bind, World.wpS_lift]
  refine World.wp_mono (hlog mProfiles) fun _ _ _ ↦ ?_
  rw [World.wpS_bind, World.wpS_modify, World.wpS_bind]
  refine World.wpS_mono (touchInstall_any ⟨rfl, rfl, rfl⟩) fun installed d₁ _ h₁ ↦ ?_
  split
  · exact touchFirstAttempt_any h₁
  · exact touchInert_any h₁

/-! ## Dispatches -/

/-- What every later step keeps of a driver that is ready. -/
structure SamePath (d d' : TouchDev) : Prop where
  ready : d'.ready = d.ready
  hidDesc : d'.hidDesc = d.hidDesc
  layout : d'.layout = d.layout
  buffer : SameAllocation d.inputBuf d'.inputBuf
  i2cBase : d'.i2cBase = d.i2cBase
  slaveAddr : d'.slaveAddr = d.slaveAddr

theorem SamePath.refl (d : TouchDev) : SamePath d d := ⟨rfl, rfl, rfl, rfl, rfl, rfl⟩

theorem SamePath.trans {d d' d'' : TouchDev} (h : SamePath d d') (h' : SamePath d' d'') :
    SamePath d d'' :=
  ⟨h'.ready.trans h.ready, h'.hidDesc.trans h.hidDesc, h'.layout.trans h.layout,
    h.buffer.trans h'.buffer, h'.i2cBase.trans h.i2cBase, h'.slaveAddr.trans h.slaveAddr⟩

theorem PollPost.samePath {d' : TouchDev} (h : PollPost d d') : SamePath d d' :=
  ⟨(congrArg TouchDev.ready h.frame :), (congrArg TouchDev.hidDesc h.frame :),
    (congrArg TouchDev.layout h.frame :), h.buffer, (congrArg TouchDev.i2cBase h.frame :),
    (congrArg TouchDev.slaveAddr h.frame :)⟩

/-- Whether a dispatch starts another attempt. -/
def Step.isAttempt (step : Step) : Bool := step.dispatch == .retry && step.before.retryEvent

/-- The attempts of a run: that of the entry, and one for each retry. -/
def attempts (steps : List Step) : ℕ := 1 + steps.countP Step.isAttempt

/-- The attempts after one more dispatch. -/
def attemptsAfter (n : ℕ) (e : Dispatch) (d : TouchDev) : ℕ :=
  n + if e == .retry && d.retryEvent then 1 else 0

theorem attempts_append_singleton (steps : List Step) (e : Dispatch)
    (t : List (Event Uefi)) :
    attempts (steps ++ [⟨d, e, t⟩]) = attemptsAfter (attempts steps) e d := by
  rw [attempts, attempts, attemptsAfter, List.countP_append, List.countP_singleton, ← add_assoc]
  rfl

/-- A step that is no attempt keeps what holds between the dispatches. -/
private theorem DriverInv.keep {n : ℕ} (h : DriverInv n d) {d' : TouchDev}
    (hready : d'.ready = d.ready) (hretry : d'.retryEvent = d.retryEvent)
    (hcount : d'.attemptCount = d.attemptCount) (hpath : d.ready = true → d'.InputPath) :
    DriverInv n d' := by
  refine ⟨fun hr ↦ ⟨hretry.trans (h.ready (hready ▸ hr)).1, hpath (hready ▸ hr)⟩, h.attempts,
    fun hr ↦ ?_⟩
  rw [hcount]
  exact h.retry (hretry ▸ hr)

/-- **One dispatch.** It keeps the invariant of the driver, and the input path of a driver that is
ready. -/
theorem touchDispatch_any {n : ℕ} (h : DriverInv n d) (e : Dispatch) :
    (within AnyOp).world.wpS (touchDispatch e) (fun _ d' _ ↦
      DriverInv (attemptsAfter n e d) d' ∧ (d.ready = true → SamePath d d')) d () := by
  rw [touchDispatch, World.wpS_bind, World.wpS_get]
  split
  · next henabled =>
    cases e with
    | retry =>
      have hretry : d.retryEvent = true := henabled
      refine World.wpS_mono (touchRetry_any h hretry) fun _ d' _ h' ↦ ⟨?_, fun hready ↦ ?_⟩
      · rw [attemptsAfter, hretry]
        exact h'
      · -- a ready driver has closed its retry event
        exact absurd (h.ready hready).1 (by rw [hretry]; decide)
    | poll =>
      refine World.wpS_mono (touchPoll_within any fun hready ↦ (h.ready hready).2)
        fun _ d' _ h' ↦ ?_
      obtain rfl | ⟨hready, hpost⟩ := h'
      · exact ⟨h, fun _ ↦ SamePath.refl d'⟩
      · exact ⟨h.keep hpost.samePath.ready (congrArg TouchDev.retryEvent hpost.frame :)
          (congrArg TouchDev.attemptCount hpost.frame :) fun _ ↦ hpost.path,
          fun _ ↦ hpost.samePath⟩
    | exitBoot =>
      refine World.wpS_mono (touchExitBootServices_within any fun _ ↦ any) fun _ d' _ h' ↦ ?_
      obtain ⟨bus, -, rfl⟩ := h'
      exact ⟨h.keep rfl rfl rfl fun hready ↦ { (h.ready hready).2 with },
        fun _ ↦ ⟨rfl, rfl, rfl, rfl, rfl, rfl⟩⟩
    | waitForInput =>
      refine World.wpS_mono (touchWaitForInput_within any) fun _ d' _ h' ↦ ?_
      subst h'
      exact ⟨h, fun _ ↦ SamePath.refl d'⟩
    | reset extendedVerification =>
      change (within AnyOp).world.wpS (do let _ ← touchReset extendedVerification) _ _ _
      rw [World.wpS_bind]
      refine World.wpS_mono (touchReset_within any extendedVerification) fun _ d' _ h' ↦ ?_
      subst h'
      exact ⟨h.keep rfl rfl rfl fun hready ↦ { (h.ready hready).2 with },
        fun _ ↦ ⟨rfl, rfl, rfl, rfl, rfl, rfl⟩⟩
    | getState hasState =>
      change (within AnyOp).world.wpS (do let _ ← touchGetState hasState) _ _ _
      rw [World.wpS_bind]
      refine World.wpS_mono (touchGetState_within any hasState) fun _ d' _ h' ↦ ?_
      obtain rfl | ⟨-, rfl⟩ := h'
      · exact ⟨h, fun _ ↦ SamePath.refl d'⟩
      · exact ⟨h.keep rfl rfl rfl fun hready ↦ { (h.ready hready).2 with },
          fun _ ↦ ⟨rfl, rfl, rfl, rfl, rfl, rfl⟩⟩
  · next hdisabled =>
    have hnone : attemptsAfter n e d = n := by
      cases e with
      | retry =>
        have hretry : d.retryEvent = false := Bool.eq_false_of_not_eq_true hdisabled
        rw [attemptsAfter, hretry]
        rfl
      | _ => rfl
    rw [hnone]
    exact ⟨h, fun _ ↦ SamePath.refl d⟩

theorem Dispatches.driverInv {d' : TouchDev} {steps : List Step} (h : Dispatches d steps d')
    {before : List Step} (hd : DriverInv (attempts before) d) :
    DriverInv (attempts (before ++ steps)) d' ∧
      (d.ready = true → SamePath d d' ∧ attempts (before ++ steps) = attempts before) := by
  induction h with
  | nil =>
    rw [List.append_nil]
    exact ⟨hd, fun _ ↦ ⟨SamePath.refl d, rfl⟩⟩
  | @snoc d₁ d₂ steps h e t hstep ih =>
    obtain ⟨hinv, hkeep⟩ := ih
    obtain ⟨hinv₂, hkeep₂⟩ := Monitor.post_of_wpS (touchDispatch_any hinv e) hstep
    rw [← List.append_assoc, attempts_append_singleton]
    refine ⟨hinv₂, fun hready ↦ ?_⟩
    obtain ⟨hpath, hcount⟩ := hkeep hready
    have hready₁ : d₁.ready = true := hpath.ready.trans hready
    refine ⟨hpath.trans (hkeep₂ hready₁), ?_⟩
    -- a driver that is ready waits for no retry
    rw [attemptsAfter, (hinv.ready hready₁).1, Bool.and_false]
    exact hcount

theorem Run.driverInv {entries : List ConfigurationEntry} {t₀ : List (Event Uefi)}
    {steps : List Step} (h : Run (touchI2cDxeEntry entries) t₀ steps d) :
    DriverInv (attempts steps) d := by
  obtain ⟨d₀, hentry, hsteps⟩ := h
  have hinv : DriverInv (attempts []) d₀ := by
    obtain ⟨_, t₁, allocated, d₁, rfl, halloc, hrest⟩ := Prog.returnsS_bind.mp hentry
    obtain ⟨-, rfl⟩ := Prog.returnsS_lift.mp halloc
    cases allocated with
    | false =>
      obtain ⟨-, -, rfl⟩ := Prog.returnsS_pure.mp hrest
      exact DriverInv.idle rfl rfl
    | true =>
      obtain ⟨_, _, dmi, _, rfl, hread, hentryAs⟩ := Prog.returnsS_bind.mp hrest
      obtain ⟨-, -, rfl⟩ := Prog.returnsS_liftChecked.mp hread
      exact Monitor.post_of_wpS (touchEntryAs_any dmi) hentryAs
  exact (@hsteps.driverInv _ _ _ [] hinv).1

/-! ## What a poll decodes -/

/-- What the transfers of a poll change. -/
def TouchDev.transferred (d : TouchDev) (bus : I2cBus) (reinit : Bool)
    (buf : Option PoolBuffer) : TouchDev :=
  { d with bus := bus, needReinit := reinit, inputBuf := buf }

theorem touchPollReinit_frame {goOn : Bool}
    {t : List (Event Uefi)} {d' : TouchDev}
    (hret : (touchPollReinit.run d).Returns t (goOn, d')) :
    ∃ bus reinit, d' = d.transferred bus reinit d.inputBuf := by
  rw [touchPollReinit, Prog.returnsS_bind] at hret
  obtain ⟨_, _, _, _, rfl, hget, hrest⟩ := hret
  obtain ⟨rfl, rfl, rfl⟩ := Prog.returnsS_get.mp hget
  split at hrest
  · obtain ⟨_, _, status, _, rfl, hreinit, hgo⟩ := Prog.returnsS_bind.mp hrest
    obtain ⟨bus, -, rfl⟩ := returns_onBus.mp hreinit
    split at hgo
    · obtain ⟨-, -, rfl⟩ := Prog.returnsS_pure.mp hgo
      exact ⟨bus, _, rfl⟩
    · obtain ⟨_, _, _, _, rfl, hpower, hclear⟩ := Prog.returnsS_bind.mp hgo
      obtain ⟨bus', -, rfl⟩ := returns_onBus.mp hpower
      obtain ⟨_, _, _, _, rfl, hmodify, hend⟩ := Prog.returnsS_bind.mp hclear
      obtain ⟨-, rfl⟩ := Prog.returnsS_modify.mp hmodify
      obtain ⟨-, -, rfl⟩ := Prog.returnsS_pure.mp hend
      exact ⟨bus', _, rfl⟩
  · obtain ⟨-, -, rfl⟩ := Prog.returnsS_pure.mp hrest
    exact ⟨d.bus, _, rfl⟩

theorem touchReceive_frame {received : Bool}
    {t : List (Event Uefi)} {d' : TouchDev}
    (hret : (touchReceive.run d).Returns t (received, d')) :
    ∃ bus reinit buf, d' = d.transferred bus reinit buf := by
  rw [touchReceive, Prog.returnsS_bind] at hret
  obtain ⟨_, _, _, _, rfl, hget, hrest⟩ := hret
  obtain ⟨rfl, rfl, rfl⟩ := Prog.returnsS_get.mp hget
  obtain ⟨_, _, ⟨status, buf⟩, _, rfl, hread, hstore⟩ := Prog.returnsS_bind.mp hrest
  obtain ⟨bus, -, rfl⟩ := returns_onBus.mp hread
  obtain ⟨_, _, _, _, rfl, hmodify, hend⟩ := Prog.returnsS_bind.mp hstore
  obtain ⟨-, rfl⟩ := Prog.returnsS_modify.mp hmodify
  split at hend
  · obtain ⟨-, -, rfl⟩ := Prog.returnsS_pure.mp hend
    exact ⟨bus, _, _, rfl⟩
  split at hend
  · obtain ⟨_, _, _, _, rfl, hmark, hstop⟩ := Prog.returnsS_bind.mp hend
    obtain ⟨-, rfl⟩ := Prog.returnsS_modify.mp hmark
    obtain ⟨-, -, rfl⟩ := Prog.returnsS_pure.mp hstop
    exact ⟨bus, _, _, rfl⟩
  · obtain ⟨-, -, rfl⟩ := Prog.returnsS_pure.mp hend
    exact ⟨bus, _, _, rfl⟩

/-- A poll decodes what it has just received, or leaves the pointer alone. -/
theorem touchPoll_cases {t : List (Event Uefi)} {d' : TouchDev}
    (hret : (touchPoll.run d).Returns t ((), d')) :
    (∃ bus reinit buf, d' = d.transferred bus reinit buf) ∨
      ∃ t₁ t₂ t₃ d₁ d₂, d.ready = true ∧ t = t₁ ++ t₂ ++ t₃ ∧
        (touchPollReinit.run d).Returns t₁ (true, d₁) ∧
        (touchReceive.run d₁).Returns t₂ (true, d₂) ∧ (touchDecode.run d₂).Returns t₃ ((), d') := by
  rw [touchPoll, Prog.returnsS_bind] at hret
  obtain ⟨_, t₀, _, _, rfl, hget, hrest⟩ := hret
  obtain ⟨rfl, rfl, rfl⟩ := Prog.returnsS_get.mp hget
  split at hrest
  · next hready =>
    obtain ⟨t₁, t₂, goOn, d₁, rfl, hreinit, hgo⟩ := Prog.returnsS_bind.mp hrest
    cases goOn with
    | false =>
      obtain ⟨bus, reinit, rfl⟩ := touchPollReinit_frame hreinit
      obtain ⟨-, -, rfl⟩ := Prog.returnsS_pure.mp hgo
      exact .inl ⟨bus, reinit, _, rfl⟩
    | true =>
      obtain ⟨t₃, t₄, received, d₂, rfl, hreceive, hdecode⟩ := Prog.returnsS_bind.mp hgo
      cases received with
      | false =>
        obtain ⟨bus, reinit, rfl⟩ := touchPollReinit_frame hreinit
        obtain ⟨bus', reinit', buf, rfl⟩ := touchReceive_frame hreceive
        obtain ⟨-, -, rfl⟩ := Prog.returnsS_pure.mp hdecode
        exact .inl ⟨bus', reinit', buf, rfl⟩
      | true =>
        exact .inr ⟨t₁, t₃, t₄, d₁, d₂, hready, by rw [List.append_assoc, List.nil_append],
          hreinit, hreceive, hdecode⟩
  · obtain ⟨-, -, rfl⟩ := Prog.returnsS_pure.mp hrest
    exact .inl ⟨d.bus, d.needReinit, d.inputBuf, rfl⟩

/-- When a poll comes to decode in the state `d₂`, `InputBuf` holds what the read with the trace
`t₂` has just brought in, and decoding looks at no byte at or above the declared length, apart from
the two bytes that declare it. -/
def DecodesReceived (t₂ : List (Event Uefi)) (d₁ d₂ : TouchDev) : Prop :=
  ∃ buf, d₂.inputBuf = some buf ∧ Delivered d₁.bus d₁.i2cBase t₂ buf.bytes ∧
    ∃ r, decodeReport d₂.layout d₂.maxInputLength
        (buf.bytes.take (max 2 (declaredLength buf.bytes))) = .ok r ∧
      decodeReport d₂.layout d₂.maxInputLength buf.bytes = .ok r

/-- Whenever a poll in the state `d` comes to decode, it decodes what it has received, and a whole
poll either does that or leaves the pointer alone. -/
structure TouchDev.PollsReceived (d : TouchDev) : Prop where
  decodes : ∀ {t₁ t₂ : List (Event Uefi)} {d₁ d₂ : TouchDev},
    (touchPollReinit.run d).Returns t₁ (true, d₁) → (touchReceive.run d₁).Returns t₂ (true, d₂) →
    DecodesReceived t₂ d₁ d₂
  polls : ∀ {t : List (Event Uefi)} {d' : TouchDev}, (touchPoll.run d).Returns t ((), d') →
    (∃ bus reinit buf, d' = d.transferred bus reinit buf) ∨
      ∃ t₁ t₂ t₃ d₁ d₂, t = t₁ ++ t₂ ++ t₃ ∧ (touchPollReinit.run d).Returns t₁ (true, d₁) ∧
        (touchReceive.run d₁).Returns t₂ (true, d₂) ∧ DecodesReceived t₂ d₁ d₂ ∧
        (touchDecode.run d₂).Returns t₃ ((), d')

theorem touchReceive_delivered {t : List (Event Uefi)} {d' : TouchDev} (hd : d.InputPath)
    (hret : (touchReceive.run d).Returns t (true, d')) :
    ∃ buf, d'.inputBuf = some buf ∧ Delivered d.bus d.i2cBase t buf.bytes ∧
      buf.bytes.length = d'.maxInputLength ∧ d'.maxInputLength = d.maxInputLength := by
  obtain ⟨b, hb, hlen⟩ := hd.buffer
  have hpos : 0 < b.bytes.length := by have := hd.lower; omega
  rw [touchReceive, Prog.returnsS_bind] at hret
  obtain ⟨_, _, _, _, rfl, hget, hread⟩ := hret
  obtain ⟨rfl, rfl, rfl⟩ := Prog.returnsS_get.mp hget
  obtain ⟨t₁, _, ⟨status, buf⟩, _, rfl, honBus, hrest⟩ := Prog.returnsS_bind.mp hread
  obtain ⟨bus, hraw, rfl⟩ := returns_onBus.mp honBus
  obtain ⟨_, _, _, _, rfl, hstore, hend⟩ := Prog.returnsS_bind.mp hrest
  obtain ⟨rfl, rfl⟩ := Prog.returnsS_modify.mp hstore
  split at hend
  · obtain ⟨-, heq, -⟩ := Prog.returnsS_pure.mp hend
    exact absurd heq (by decide)
  split at hend
  · obtain ⟨_, _, _, _, rfl, -, hend⟩ := Prog.returnsS_bind.mp hend
    obtain ⟨-, heq, -⟩ := Prog.returnsS_pure.mp hend
    exact absurd heq (by decide)
  · next hok =>
    obtain ⟨rfl, -, rfl⟩ := Prog.returnsS_pure.mp hend
    rw [hb, Option.map_some, ← hlen] at hraw
    obtain ⟨bytes, rfl, hbytes, hdelivered⟩ :=
      i2cHidRawRead_delivered hpos hraw (by simpa using hok)
    refine ⟨⟨b.address, bytes⟩, ?_, ?_, ?_, rfl⟩
    · rw [TouchDev.storeInput, hb]
      rfl
    · simpa using hdelivered
    · exact hbytes.trans hlen

theorem TouchDev.InputPath.pollsReceived (hd : d.InputPath) : d.PollsReceived := by
  have hdecodes : ∀ {t₁ t₂ : List (Event Uefi)} {d₁ d₂ : TouchDev},
      (touchPollReinit.run d).Returns t₁ (true, d₁) →
      (touchReceive.run d₁).Returns t₂ (true, d₂) → DecodesReceived t₂ d₁ d₂ := by
    intro t₁ t₂ d₁ d₂ h₁ h₂
    have hd₁ : d₁.InputPath := (Monitor.post_of_wpS (touchPollReinit_within any hd) h₁).path
    obtain ⟨buf, hbuf, hdelivered, hlen, hmax⟩ := touchReceive_delivered hd₁ h₂
    have hlower : 3 ≤ d₂.maxInputLength := hmax ▸ hd₁.lower
    obtain ⟨r, hr, -⟩ := @decodeReport_ok d₂.layout _ _ hlower hlen
    exact ⟨buf, hbuf, hdelivered, r, (decodeReport_take hlower hlen).trans hr, hr⟩
  refine ⟨hdecodes, fun hret ↦ (touchPoll_cases hret).imp_right ?_⟩
  rintro ⟨t₁, t₂, t₃, d₁, d₂, -, rfl, hreinit, hreceive, hdecode⟩
  exact ⟨t₁, t₂, t₃, d₁, d₂, rfl, hreinit, hreceive, hdecodes hreinit hreceive, hdecode⟩

/-! ## The theorem over runs -/

/-- **Ready implies a valid input path.** In every run of the driver, whatever the environment
answers, at most 60 attempts are made, and with none left no retry is waited for. A driver that is
ready has a complete input path, which no later step changes; no later step is an attempt; and a
poll decodes only bytes below the declared length that it has just received. -/
theorem run_ready {entries : List ConfigurationEntry} {t₀ : List (Event Uefi)}
    {steps : List Step} (h : Run (touchI2cDxeEntry entries) t₀ steps d) :
    attempts steps ≤ 60 ∧ (d.retryEvent = true → attempts steps < 60) ∧
    (d.ready = true → d.InputPath ∧
      (∀ more d', Dispatches d more d' → SamePath d d' ∧
        attempts (steps ++ more) = attempts steps) ∧
      d.PollsReceived) := by
  have hinv := h.driverInv
  refine ⟨hinv.attempts, fun hretry ↦ (hinv.retry hretry).2, fun hready ↦ ?_⟩
  have hpath := (hinv.ready hready).2
  exact ⟨hpath, fun more d' hmore ↦ (hmore.driverInv hinv).2 hready, hpath.pollsReceived⟩

/-! ### A panel behind the firmware's controller -/

/-- What a panel has to say: the register of its HID descriptor, its report descriptor, the reports
it has ready, and the GOP mode of the machine. -/
structure Panel where
  descReg : UInt16 := 1
  descriptor : List UInt8 := HidParse.digitizerDescriptor
  reports : List (List UInt8) := []
  gop : Option (UInt32 × UInt32) := none

/-- The HID descriptor of a panel: a report descriptor of `n` bytes in register 2, and reports of
8 bytes. -/
def panelHidDesc (n : ℕ) : List UInt8 := [30, 0, 0, 1, UInt8.ofNat n, 0, 2, 0, 3, 0, 8, 0]

/-- What the panel answers to a register address, or to a plain read. -/
def Panel.reply (panel : Panel) (w : List UInt8) : List UInt8 :=
  if w = regBytes panel.descReg then panelHidDesc panel.descriptor.length
  else if w = regBytes 2 then panel.descriptor
  else if w = [] then panel.reports.headD []
  else []

/-- The panel after it was asked. -/
def Panel.next (panel : Panel) (w : List UInt8) : Panel :=
  if w = [] then { panel with reports := panel.reports.tail } else panel

/-- The bytes of an answer, filled up with zeros. -/
def filledWith (bytes : List UInt8) (n : ℕ) : Filled n :=
  ⟨(bytes ++ List.replicate n 0).take n, by simp⟩

/-- A machine whose firmware has an I2C controller for the panel, on which everything succeeds. -/
def panelMachine (panel : Panel) : (e : UefiOp) → e.Ret × Panel
  | .mmioRead8 _ => (0, panel)
  | .mmioRead16 _ => (0, panel)
  | .mmioRead32 _ => (0, panel)
  | .mmioWrite8 _ _ | .mmioWrite16 _ _ | .mmioWrite32 _ _ | .stall _ => ((), panel)
  | .locatePciIo => (none, panel)
  | .openPciIo _ => (false, panel)
  | .pciLocation _ => (none, panel)
  | .pciRead8 _ _ => (none, panel)
  | .pciRead16 _ _ => (none, panel)
  | .pciRead32 _ _ => (none, panel)
  | .pciWrite16 _ _ _ | .pciEnableMemory _ => (.success, panel)
  | .locateI2cMasters => (some 1, panel)
  | .i2cDevicePath _ =>
    (some [⟨acpiDevicePath, acpiExtendedDp, List.replicate acpiExtendedBodySize 0 ++
      asciiBytes "NVDA0200" ++ [0] ++ asciiBytes "2" ++ [0]⟩], panel)
  | .openI2cMaster _ | .openI2cHost _ => (true, panel)
  | .queueRequest _ _ w n | .startRequest _ _ w n =>
    ((.success, .success, filledWith (panel.reply w) n), panel.next w)
  | .allocateDev => (true, panel)
  | .freeDev => ((), panel)
  | .allocatePool _ => (some 0x1000, panel)
  | .freePool _ => ((), panel)
  | .allocatePages => ((.success, 0x2000), panel)
  | .storeDma _ _ => ((), panel)
  | .loadDma _ n => (filledWith [] n, panel)
  | .getMemorySpace _ => ((.success, ⟨false, efiMemoryUc⟩), panel)
  | .addMemorySpace _ _ | .setMemoryAttributes _ _ _ => (.success, panel)
  | .raiseTpl | .restoreTpl => ((), panel)
  | .createEvent _ | .closeEvent _ | .signalEvent _ => (.success, panel)
  | .setTimer _ _ | .cancelTimer _ | .installProtocol => (.success, panel)
  | .locateGop => (panel.gop.isSome, panel)
  | .gopResolution => (panel.gop, panel)

/-- The SMBIOS table of the machine: a Type 2 structure with the board of the MediaTek profile. -/
def panelTable : List UInt8 := [2, 6, 0, 0, 0, 1] ++ asciiBytes "H7607BA" ++ [0, 0]

/-- A panel behind a DesignWare controller: the last value of `IC_ENABLE`, how many transfers the
panel still answers, the bytes written since the last STOP, whether a byte has been requested since,
and the bytes that wait to be read. -/
structure DwPanel where
  panel : Panel := { descReg := 0 }
  enabled : UInt32 := 0
  answers : ℕ := 1000
  written : List UInt8 := []
  asked : Bool := false
  reply : List UInt8 := []

/-- A panel that does not answer a command latches an abort. -/
def DwPanel.aborted (st : DwPanel) : Bool := st.answers == 0 && (st.asked || st.written != [])

/-- The panel at the end of a transfer. -/
def DwPanel.stopped (st : DwPanel) : DwPanel :=
  { st with answers := st.answers - 1, written := [], asked := false }

/-- A command in `IC_DATA_CMD`: the first request of a transfer is for the whole answer. -/
def DwPanel.command (st : DwPanel) (v : UInt32) : DwPanel :=
  let st :=
    if v &&& dwIcDataCmdRead = 0 then { st with written := st.written ++ [v.toUInt8] }
    else if st.asked then st
    else { st with
      panel := st.panel.next st.written
      asked := true
      reply := st.panel.reply st.written }
  if v &&& dwIcDataCmdStop = 0 then st else st.stopped

/-- The controller of the machine. -/
def fixedBase : UInt64 := dwI2cFchBase0.toUInt64

/-- A machine with one DesignWare controller, which has the panel. -/
def dwPanelMachine (st : DwPanel) (e : UefiOp) : e.Ret × DwPanel :=
  match e with
  | .mmioRead8 _ => (fchAoacStateD0, st)
  | .mmioRead32 a =>
    if a = fixedBase + dwIcCompType then (dwIcCompTypeValue, st)
    else if a = fixedBase + dwIcEnableStatus then (st.enabled, st)
    else if a = fixedBase + dwIcRawIntrStat then (if st.aborted then dwIcIntrTxAbrt else 0, st)
    else if a = fixedBase + dwIcTxAbrtSource then (dwIcAbrt7bAddrNoack, st)
    else if a = fixedBase + dwIcClrTxAbrt then (0, { st with written := [], asked := false })
    else if a = fixedBase + dwIcStatus then (dwIcStatusTfnf ||| dwIcStatusRfne, st)
    else if a = fixedBase + dwIcDataCmd then
      ((st.reply.headD 0).toUInt32, { st with reply := st.reply.tail })
    else (0, st)
  | .mmioWrite32 a v =>
    if a = fixedBase + dwIcEnable then ((), { st with enabled := v })
    else if a = fixedBase + dwIcDataCmd then ((), st.command v)
    else ((), st)
  | e => ((panelMachine st.panel e).1, { st with panel := (panelMachine st.panel e).2 })

/-- The SMBIOS table of the machine: a Type 2 structure with the board of a fixed AMD profile. -/
def fixedTable : List UInt8 := [2, 6, 0, 0, 0, 1] ++ asciiBytes "RC73XA" ++ [0, 0]

/-- The driver on the machine. -/
def fixedEntry : Touch Unit := touchI2cDxeEntry [.smbios3 fixedTable]

/-- The driver on the machine of the MediaTek profile. -/
def panelEntry : Touch Unit := touchI2cDxeEntry [.smbios3 panelTable]

theorem run_ready_panel : ∃ t₀ d, Run panelEntry t₀ [] d ∧ d.InputPath ∧ d.PollsReceived := by
  have hready : ((panelEntry.run {}).simulate panelMachine {}).2.map (fun r ↦ r.2.ready)
      = some true := by decide +kernel
  obtain ⟨⟨_, d⟩, hsim, hready⟩ := Option.map_eq_some_iff.mp hready
  have hrun : Run panelEntry _ [] d := ⟨d, Prog.returns_simulate hsim, .nil d⟩
  obtain ⟨hpath, -, hpolls⟩ := (run_ready hrun).2.2 hready
  exact ⟨_, d, hrun, hpath, hpolls⟩

end TouchI2c
