import TouchI2c.Smbios.Structures
import TouchI2c.Touch.Ready

/-!
# Rules for runs of the driver

What holds of the environment at every moment of a run, from what detection, the rest of an attempt
and a poll keep. `Rest` is a property between two attempts, `Found` one of a panel that detection
has just found, and `Live` one of a driver that is ready. A run is followed until `ExitBootServices`
is called.

`DriverRules` asks for three things above all: detection takes `Rest` to `Found` or back to `Rest`;
the rest of an attempt takes `Found` to `Live`, or to `Rest` when it fails; and a poll keeps `Live`.
Everything else that the driver does is no access, or a transfer that keeps `Live`. From that follow
an attempt, a retry, the entry, one dispatch and any number of dispatches (`BetweenDispatches`), and
the rule for runs: whatever is performed at any moment is allowed (`allowed_of_performs`), and with
one more rule for the exit handler also until the driver has left boot services.
-/

namespace TouchI2c

open CMemory Interaction

variable {σ : Type} {W : World Uefi σ} {d d' : TouchDev} {s : σ}

/-! ## Moments of a run -/

/-- In a run of the driver, before it leaves boot services, `t` has been performed and `e` is
next. -/
inductive Performs (entry : Touch Unit) : List (Event Uefi) → UefiOp → Prop
  | entry {t : List (Event Uefi)} {e : UefiOp} {k : e.Ret → Prog Uefi (Unit × TouchDev)}
      (h : (entry.run {}).Reaches t (.op e k)) : Performs entry t e
  | dispatch {t₀ t : List (Event Uefi)} {steps : List Step} {d : TouchDev} {e : UefiOp}
      {k : e.Ret → Prog Uefi (Unit × TouchDev)} (hrun : Run entry t₀ steps d)
      (hboot : ∀ step ∈ steps, step.dispatch ≠ .exitBoot) {call : Dispatch}
      (hcall : call ≠ .exitBoot) (h : ((touchDispatch call).run d).Reaches t (.op e k)) :
      Performs entry (t₀ ++ steps.flatMap Step.trace ++ t) e

/-- In a run of the driver, until it has left boot services, `t` has been performed and `e` is
next. -/
inductive PerformsUntilExit (entry : Touch Unit) : List (Event Uefi) → UefiOp → Prop
  | before {t : List (Event Uefi)} {e : UefiOp} (h : Performs entry t e) :
      PerformsUntilExit entry t e
  | exit {t₀ t : List (Event Uefi)} {steps : List Step} {d : TouchDev} {e : UefiOp}
      {k : e.Ret → Prog Uefi (Unit × TouchDev)} (hrun : Run entry t₀ steps d)
      (hboot : ∀ step ∈ steps, step.dispatch ≠ .exitBoot)
      (h : (touchExitBootServices.run d).Reaches t (.op e k)) :
      PerformsUntilExit entry (t₀ ++ steps.flatMap Step.trace ++ t) e

/-- Every operation of a run is performed at some moment of it. -/
theorem performs_of_run {entry : Touch Unit} {t₀ u v : List (Event Uefi)} {steps : List Step}
    {ev : Event Uefi} (hrun : Run entry t₀ steps d)
    (hboot : ∀ step ∈ steps, step.dispatch ≠ .exitBoot)
    (heq : t₀ ++ steps.flatMap Step.trace = u ++ ev :: v) : Performs entry u ev.op := by
  obtain ⟨d₀, hentry, hsteps⟩ := hrun
  induction hsteps generalizing v with
  | nil =>
    rw [List.flatMap_nil, List.append_nil] at heq
    subst heq
    obtain ⟨k, hreach⟩ := hentry.performs
    exact .entry hreach
  | @snoc d₁ d₂ steps hsteps call t hstep ih =>
    have hbefore : ∀ step ∈ steps, step.dispatch ≠ .exitBoot :=
      fun step hmem ↦ hboot step (List.mem_append_left _ hmem)
    have hcall : call ≠ .exitBoot :=
      hboot _ (List.mem_append_right _ (List.mem_singleton.mpr rfl))
    have hdispatch : ∀ {w}, t = w ++ ev :: v →
        Performs entry (t₀ ++ steps.flatMap Step.trace ++ w) ev.op := by
      rintro w rfl
      obtain ⟨k, hreach⟩ := hstep.performs
      exact .dispatch ⟨d₀, hentry, hsteps⟩ hbefore hcall hreach
    rw [List.flatMap_append, List.flatMap_singleton, ← List.append_assoc] at heq
    rcases List.append_eq_append_iff.mp heq with ⟨w, rfl, ht⟩ | ⟨w, hs, hv⟩
    · exact hdispatch ht
    · rcases w with - | ⟨ev', w⟩
      · rw [List.append_nil] at hs
        rw [← hs, ← List.append_nil (t₀ ++ _)]
        exact hdispatch hv.symm
      · obtain ⟨rfl, rfl⟩ := List.cons.inj hv
        exact ih hbefore hs

/-! ## Rules -/

/-- What a property between two attempts may look at. -/
def TouchDev.atRest (d : TouchDev) : DmiIdentity × I2cBus × List Bool :=
  (d.dmi, d.bus, d.resetKicked)

/-- What a property of a driver that is ready may look at. -/
def TouchDev.live (d : TouchDev) : (DmiIdentity × I2cBus × List Bool) × UInt64 × UInt8 × Bool ×
    Option TouchProfile × ℕ :=
  (d.atRest, d.i2cBase, d.slaveAddr, d.needReinit, d.profile, d.maxInputLength)

/-- What a run of the driver is built from. -/
structure DriverRules (W : World Uefi σ) (dmi : DmiIdentity) (Rest Found Live : TouchDev → σ → Prop) :
    Prop where
  identity : ∀ {d s}, Rest d s → d.dmi = dmi
  rest : ∀ {d d' s}, Rest d s → d'.atRest = d.atRest → Rest d' s
  restService : ∀ d, W.Keeps DriverService (Rest d)
  live : ∀ {d d' s}, Live d s → d'.live = d.live → Live d' s
  liveService : ∀ d, W.Keeps DriverService (Live d)
  due : ∀ {d s}, Live d s → Live { d with needReinit := true } s
  log : ∀ {prof}, prof ∈ mProfiles → ∀ {d s}, Rest d s →
    W.wp (logProfile dmi prof) (fun _ s' ↦ Rest d s') s
  detect : ∀ {d s}, Rest d s → W.wpS touchDetect (fun status d' s' ↦
    if status.isError then Rest d' s' else Found d' s') d.startAttempt s
  setUp : ∀ {d s}, Found d s → d.hidDesc.valid = true → d.ready = false →
    W.wpS touchSetUp (fun status d' s' ↦ SetUpPost d status d' ∧
      if status.isError then Rest d' s' else Live d' s') d s
  poll : ∀ {d s}, Live d s → ∃ J : Bool → σ → Prop,
    PollRules W J d.bus d.i2cBase d.slaveAddr ∧ J d.needReinit s ∧
    ∀ {d' s'}, PollPost d d' → J d'.needReinit s' → Live d' s'

/-- What holds between the dispatches. -/
structure BetweenDispatches (Rest Live : TouchDev → σ → Prop) (d : TouchDev) (s : σ) : Prop where
  retry : d.retryEvent = true → d.ready = false
  rest : d.ready = false → Rest d s
  path : d.ready = true → d.InputPath
  live : d.ready = true → Live d s

namespace DriverRules

variable {dmi : DmiIdentity} {Rest Found Live : TouchDev → σ → Prop}

private theorem resting (hready : d.ready = false) (h : Rest d s) :
    BetweenDispatches Rest Live d s where
  retry _ := hready
  rest _ := h
  path hr := absurd hr (by rw [hready]; decide)
  live hr := absurd hr (by rw [hready]; decide)

private theorem readied (hready : d.ready = true) (hretry : d.retryEvent = false)
    (hpath : d.InputPath) (h : Live d s) : BetweenDispatches Rest Live d s where
  retry hr := absurd hr (by rw [hretry]; decide)
  rest hr := absurd hr (by rw [hready]; decide)
  path _ := hpath
  live _ := h

/-- **One attempt.** -/
theorem wpS_touchTryBringUp (rules : DriverRules W dmi Rest Found Live) (hready : d.ready = false)
    (h : Rest d s) : W.wpS touchTryBringUp (fun status d' s' ↦ d'.retryEvent = d.retryEvent ∧
      if status.isError then d'.ready = false ∧ Rest d' s'
      else d'.ready = true ∧ d'.InputPath ∧ Live d' s') d s := by
  rw [touchTryBringUp, World.wpS_bind, World.wpS_modify, World.wpS_bind]
  refine World.wpS_mono (World.wpS_and_within (rules.detect h) (touchDetect_any d.startAttempt))
    fun status d₁ s₁ h₁ ↦ ?_
  obtain ⟨h₁, hframe, hvalid⟩ := h₁
  have hretry₁ : d₁.retryEvent = d.retryEvent := (congrArg TouchDev.retryEvent hframe :)
  have hready₁ : d₁.ready = false := (congrArg TouchDev.ready hframe :).trans hready
  split
  · next herr =>
    rw [if_pos herr] at h₁
    rw [World.wpS_pure, if_pos herr]
    exact ⟨hretry₁, hready₁, h₁⟩
  · next hok =>
    rw [if_neg hok] at h₁
    refine World.wpS_mono (rules.setUp h₁ (hvalid (by simpa using hok)) hready₁)
      fun status₂ d₂ s₂ h₂ ↦ ?_
    obtain ⟨h₂, hend⟩ := h₂
    have hretry₂ : d₂.retryEvent = d₁.retryEvent := (congrArg TouchDev.retryEvent h₂.frame :)
    refine ⟨hretry₂.trans hretry₁, ?_⟩
    split
    · next herr =>
      rw [if_pos herr] at hend
      exact ⟨(h₂.failure herr).trans hready₁, hend⟩
    · next hok =>
      rw [if_neg hok] at hend
      obtain ⟨hready₂, hpath⟩ := h₂.success (by simpa using hok)
      exact ⟨hready₂, hpath, hend⟩

private theorem wpS_touchCloseRetry {Q : TouchDev → σ → Prop} (hQ : ∀ d, W.Keeps DriverService (Q d))
    (hframe : ∀ s, Q d s → Q { d with retryEvent := false } s) (h : Q d s) :
    W.wpS touchCloseRetry
      (fun _ d' s' ↦ d' = { d with retryEvent := false } ∧ Q d' s') d s := by
  rw [touchCloseRetry, World.wpS_bind, World.wpS_lift]
  refine (hQ d).perform trivial h fun _ s₁ h₁ ↦ ?_
  rw [World.wpS_bind, World.wpS_modify, World.wpS_bind, World.wpS_lift]
  exact (hQ _).perform trivial (hframe s₁ h₁) fun _ s₂ h₂ ↦ ⟨rfl, h₂⟩

/-- A retry is one more attempt; the retry event is closed once the driver is ready. -/
private theorem wpS_touchRetry (rules : DriverRules W dmi Rest Found Live)
    (hretry : d.retryEvent = true) (h : BetweenDispatches Rest Live d s) :
    W.wpS touchRetry (fun _ d' s' ↦ BetweenDispatches Rest Live d' s') d s := by
  have hready := h.retry hretry
  rw [touchRetry, World.wpS_bind]
  refine World.wpS_mono (rules.wpS_touchTryBringUp hready (h.rest hready))
    fun status d₁ s₁ h₁ ↦ ?_
  obtain ⟨-, h₁⟩ := h₁
  rw [World.wpS_bind, World.wpS_get]
  split
  · next hmore =>
    rw [if_pos (Bool.and_eq_true_iff.mp hmore).1] at h₁
    exact resting h₁.1 h₁.2
  · by_cases herr : status.isError = true
    · rw [if_pos herr] at h₁
      obtain ⟨hready₁, hrest⟩ := h₁
      refine World.wpS_mono (wpS_touchCloseRetry rules.restService (fun _ h ↦ rules.rest h rfl)
        hrest) fun _ d₂ s₂ h₂ ↦ ?_
      obtain ⟨rfl, hrest₂⟩ := h₂
      exact resting hready₁ hrest₂
    · rw [if_neg herr] at h₁
      obtain ⟨hready₁, hpath, hlive⟩ := h₁
      refine World.wpS_mono (wpS_touchCloseRetry rules.liveService (fun _ h ↦ rules.live h rfl)
        hlive) fun _ d₂ s₂ h₂ ↦ ?_
      obtain ⟨rfl, hlive₂⟩ := h₂
      exact readied hready₁ rfl { hpath with } hlive₂

/-! ### The entry -/

private theorem wpS_touchCreateEvent (rules : DriverRules W dmi Rest Found Live) (e : TouchEvent)
    (h : Rest d s) : W.wpS (touchCreateEvent e)
      (fun created d' s' ↦ d' = (if created then d.noteEvent e else d) ∧ Rest d' s') d s := by
  rw [touchCreateEvent, World.wpS_bind, World.wpS_lift]
  refine (rules.restService d).perform trivial h fun status s₁ h₁ ↦ ?_
  split
  · exact ⟨rfl, h₁⟩
  · refine ⟨rfl, rules.rest h₁ ?_⟩
    cases e <;> rfl

private theorem wpS_touchInstall (rules : DriverRules W dmi Rest Found Live)
    (hready : d.ready = false) (hretry : d.retryEvent = false) (h : Rest d s) :
    W.wpS touchInstall
      (fun _ d' s' ↦ d'.ready = false ∧ d'.retryEvent = false ∧ Rest d' s') d s := by
  have hcreate : ∀ {d s}, d.ready = false → d.retryEvent = false → Rest d s →
      ∀ e, e ≠ .retry → ∀ {f : Bool → Touch Bool},
      (∀ created {d s}, d.ready = false → d.retryEvent = false → Rest d s → W.wpS (f created)
        (fun _ d' s' ↦ d'.ready = false ∧ d'.retryEvent = false ∧ Rest d' s') d s) →
      W.wpS (touchCreateEvent e >>= f)
        (fun _ d' s' ↦ d'.ready = false ∧ d'.retryEvent = false ∧ Rest d' s') d s := by
    intro d s hready hretry h e he f hf
    rw [World.wpS_bind]
    refine World.wpS_mono (rules.wpS_touchCreateEvent e h) fun created d₁ s₁ h₁ ↦ ?_
    obtain ⟨rfl, h₁⟩ := h₁
    refine hf created ?_ ?_ h₁
    · cases created
      · exact hready
      · cases e <;> exact hready
    · cases created
      · exact hretry
      · cases e with
        | retry => exact absurd rfl he
        | _ => exact hretry
  unfold touchInstall
  refine hcreate hready hretry h _ (by decide) fun created d s hready hretry h ↦ ?_
  split
  · refine hcreate hready hretry h _ (by decide) fun created d s hready hretry h ↦ ?_
    split
    · refine hcreate hready hretry h _ (by decide) fun created d s hready hretry h ↦ ?_
      split
      · rw [World.wpS_bind, World.wpS_lift]
        refine (rules.restService d).perform trivial h fun status s₁ h₁ ↦ ?_
        split
        · exact ⟨hready, hretry, h₁⟩
        · exact ⟨hready, hretry, rules.rest h₁ rfl⟩
      · exact ⟨hready, hretry, h⟩
    · exact ⟨hready, hretry, h⟩
  · exact ⟨hready, hretry, h⟩

private theorem wpS_touchInert (rules : DriverRules W dmi Rest Found Live)
    (hready : d.ready = false) (h : Rest d s) :
    W.wpS touchInert (fun _ d' s' ↦ BetweenDispatches Rest Live d' s') d s := by
  have hJ := rules.restService d
  have hclose : ∀ e timer present {s}, Rest d s →
      W.wp (closeEventOf e timer present) (fun _ s' ↦ Rest d s') s := by
    intro e timer present s h
    unfold closeEventOf
    split
    · rw [World.wp_bind]
      refine World.wp_mono (wp_cancelTimerOf hJ e timer h) fun _ s₁ h₁ ↦ ?_
      rw [World.wp_bind]
      exact hJ.perform trivial h₁ fun _ _ h₂ ↦ h₂
    · exact h
  have hfree : ∀ {s}, Rest d s → W.wp (freeBuffer d.inputBuf) (fun _ s' ↦ Rest d s') s := by
    intro s h
    unfold freeBuffer
    split
    · exact h
    · exact hJ _ _ trivial h
  rw [touchInert, World.wpS_bind, World.wpS_get, World.wpS_bind, World.wpS_lift]
  refine World.wp_mono (hclose _ _ _ h) fun _ s₁ h₁ ↦ ?_
  rw [World.wpS_bind, World.wpS_lift]
  refine World.wp_mono (hclose _ _ _ h₁) fun _ s₂ h₂ ↦ ?_
  rw [World.wpS_bind, World.wpS_lift]
  refine World.wp_mono (hclose _ _ _ h₂) fun _ s₃ h₃ ↦ ?_
  rw [World.wpS_bind, World.wpS_lift]
  refine World.wp_mono (hclose _ _ _ h₃) fun _ s₄ h₄ ↦ ?_
  rw [World.wpS_bind, World.wpS_lift]
  refine World.wp_mono (hfree h₄) fun _ s₅ h₅ ↦ ?_
  rw [World.wpS_bind, World.wpS_lift]
  refine hJ.perform trivial h₅ fun _ s₆ h₆ ↦ ?_
  rw [World.wpS_set]
  exact resting hready (rules.rest h₆ rfl)

private theorem wpS_touchFirstAttempt (rules : DriverRules W dmi Rest Found Live)
    (hready : d.ready = false) (hretry : d.retryEvent = false) (h : Rest d s) :
    W.wpS touchFirstAttempt (fun _ d' s' ↦ BetweenDispatches Rest Live d' s') d s := by
  rw [touchFirstAttempt, World.wpS_bind]
  refine World.wpS_mono (rules.wpS_touchTryBringUp hready h) fun status d₁ s₁ h₁ ↦ ?_
  obtain ⟨hretry₁, h₁⟩ := h₁
  split
  · next herr =>
    rw [if_pos herr] at h₁
    obtain ⟨hready₁, hrest₁⟩ := h₁
    rw [touchArmRetry, World.wpS_bind]
    refine World.wpS_mono (rules.wpS_touchCreateEvent .retry hrest₁) fun created d₂ s₂ h₂ ↦ ?_
    obtain ⟨rfl, hrest₂⟩ := h₂
    cases created with
    | false => exact resting hready₁ hrest₂
    | true =>
      have hrest₂ : Rest (d₁.noteEvent .retry) s₂ := hrest₂
      rw [if_pos rfl, World.wpS_bind, World.wpS_lift]
      refine (rules.restService _).perform trivial hrest₂ fun status' s₃ h₃ ↦ ?_
      split
      · have hclosed : Rest { d₁.noteEvent .retry with retryEvent := false } s₃ := rules.rest h₃ rfl
        rw [World.wpS_bind, World.wpS_modify, World.wpS_bind, World.wpS_lift]
        exact (rules.restService _).perform trivial hclosed fun _ s₄ h₄ ↦ resting hready₁ h₄
      · exact resting hready₁ h₃
  · next hok =>
    rw [if_neg hok] at h₁
    obtain ⟨hready₁, hpath, hlive⟩ := h₁
    exact readied hready₁ (hretry₁.trans hretry) hpath hlive

/-- **The entry.** -/
theorem wpS_touchEntryAs (rules : DriverRules W dmi Rest Found Live) (h : Rest { dmi := dmi } s) :
    W.wpS (touchEntryAs dmi) (fun _ d' s' ↦ BetweenDispatches Rest Live d' s') {} s := by
  have hlog : ∀ profs, (∀ prof ∈ profs, prof ∈ mProfiles) → ∀ {s}, Rest { dmi := dmi } s →
      W.wp (logProfiles dmi profs) (fun _ s' ↦ Rest { dmi := dmi } s') s := by
    intro profs hprofs s h
    induction profs generalizing s with
    | nil => exact h
    | cons prof profs ih =>
      rw [logProfiles, World.wp_bind]
      refine World.wp_mono (rules.log (hprofs _ List.mem_cons_self) h) fun _ s₁ h₁ ↦ ?_
      exact ih (fun prof hprof ↦ hprofs prof (List.mem_cons_of_mem _ hprof)) h₁
  rw [touchEntryAs, World.wpS_bind, World.wpS_modify, World.wpS_bind, World.wpS_lift]
  refine World.wp_mono (hlog mProfiles (fun _ h ↦ h) h) fun _ s₁ h₁ ↦ ?_
  rw [World.wpS_bind, World.wpS_modify, World.wpS_bind]
  refine World.wpS_mono (rules.wpS_touchInstall rfl rfl (rules.rest h₁ rfl))
    fun installed d₂ s₂ h₂ ↦ ?_
  obtain ⟨hready, hretry, hrest⟩ := h₂
  split
  · exact rules.wpS_touchFirstAttempt hready hretry hrest
  · exact rules.wpS_touchInert hready hrest

/-! ### Dispatches -/

/-- Operations that are no access keep what holds between the dispatches. -/
private theorem betweenService (rules : DriverRules W dmi Rest Found Live) (d : TouchDev) :
    W.Keeps DriverService (BetweenDispatches Rest Live d) := by
  intro e s he h
  cases hready : d.ready with
  | false => exact (rules.restService d).perform he (h.rest hready) fun _ _ h' ↦ resting hready h'
  | true =>
    refine (rules.liveService d).perform he (h.live hready) fun _ _ h' ↦ ?_
    exact ⟨h.retry, fun hr ↦ absurd hready (by rw [hr]; decide), h.path, fun _ ↦ h'⟩

private theorem between_of_eq (rules : DriverRules W dmi Rest Found Live)
    (h : BetweenDispatches Rest Live d s) (hready : d'.ready = d.ready)
    (hretry : d'.retryEvent = d.retryEvent) (hrest : d'.atRest = d.atRest)
    (hpath : d.InputPath → d'.InputPath) (hlive : d.ready = true → Live d s → Live d' s) :
    BetweenDispatches Rest Live d' s where
  retry hr := hready.trans (h.retry (hretry ▸ hr))
  rest hr := rules.rest (h.rest (hready ▸ hr)) hrest
  path hr := hpath (h.path (hready ▸ hr))
  live hr := hlive (hready ▸ hr) (h.live (hready ▸ hr))

private theorem wpS_pollDispatch (rules : DriverRules W dmi Rest Found Live)
    (h : BetweenDispatches Rest Live d s) :
    W.wpS touchPoll (fun _ d' s' ↦ BetweenDispatches Rest Live d' s') d s := by
  cases hready : d.ready with
  | false =>
    rw [touchPoll, World.wpS_bind, World.wpS_get, hready]
    exact h
  | true =>
    obtain ⟨J, hpoll, hJ, hpost⟩ := rules.poll (h.live hready)
    refine World.wpS_mono (PollRules.wpS_touchPoll (fun _ ↦ hpoll) h.path hJ) fun _ d' s' h' ↦ ?_
    obtain ⟨hd', hJ'⟩ := h'
    have hpoll' : PollPost d d' := by
      rcases hd' with rfl | ⟨-, hd'⟩
      · exact PollPost.refl (h.path hready)
      · exact hd'
    have hready' : d'.ready = true := (congrArg TouchDev.ready hpoll'.frame :).trans hready
    have hretry' : d'.retryEvent = d.retryEvent := (congrArg TouchDev.retryEvent hpoll'.frame :)
    refine readied hready' ?_ hpoll'.path (hpost hpoll' hJ')
    cases hretry : d.retryEvent with
    | false => exact hretry'.trans hretry
    | true => exact absurd (h.retry hretry) (by rw [hready]; decide)

/-- **One dispatch** before the driver leaves boot services. -/
theorem wpS_touchDispatch (rules : DriverRules W dmi Rest Found Live) {call : Dispatch}
    (hcall : call ≠ .exitBoot) (h : BetweenDispatches Rest Live d s) :
    W.wpS (touchDispatch call) (fun _ d' s' ↦ BetweenDispatches Rest Live d' s') d s := by
  have hJ : W.Keeps PointerService (BetweenDispatches Rest Live d) :=
    (rules.betweenService d).mono fun _ ↦ PointerService.service
  rw [touchDispatch, World.wpS_bind, World.wpS_get]
  split
  · next henabled =>
    cases call with
    | retry => exact rules.wpS_touchRetry henabled h
    | poll => exact rules.wpS_pollDispatch h
    | exitBoot => exact absurd rfl hcall
    | waitForInput =>
      refine World.wpS_mono (wpS_touchWaitForInput hJ h) fun _ d' s' h' ↦ ?_
      obtain ⟨rfl, h'⟩ := h'
      exact h'
    | reset extendedVerification =>
      change W.wpS (do let _ ← touchReset extendedVerification) _ _ _
      rw [World.wpS_bind]
      refine World.wpS_mono (wpS_touchReset hJ _ h) fun _ d' s' h' ↦ ?_
      obtain ⟨rfl, h'⟩ := h'
      refine rules.between_of_eq h' rfl rfl rfl (fun hpath ↦ { hpath with }) fun _ hlive ↦ ?_
      by_cases hdue : (d.needReinit || (extendedVerification && d.ready)) = true
      · exact rules.live (rules.due hlive) (by
          rw [TouchDev.live, TouchDev.live, TouchDev.reset, hdue]; rfl)
      · rw [Bool.or_eq_true, not_or, Bool.not_eq_true] at hdue
        exact rules.live hlive (by
          rw [TouchDev.live, TouchDev.live, TouchDev.reset, hdue.1,
            Bool.eq_false_of_not_eq_true hdue.2]; rfl)
    | getState hasState =>
      change W.wpS (do let _ ← touchGetState hasState) _ _ _
      rw [World.wpS_bind]
      refine World.wpS_mono (wpS_touchGetState hJ hasState h) fun _ d' s' h' ↦ ?_
      obtain ⟨rfl | ⟨-, rfl⟩, h'⟩ := h'
      · exact h'
      · exact rules.between_of_eq h' rfl rfl rfl (fun hpath ↦ { hpath with }) fun _ hlive ↦
          rules.live hlive rfl
  · exact h

/-- **Any number of dispatches.** -/
theorem between_of_dispatches (rules : DriverRules W dmi Rest Found Live) {steps : List Step}
    (hsteps : Dispatches d steps d') (hboot : ∀ step ∈ steps, step.dispatch ≠ .exitBoot)
    {s' : σ} (h : BetweenDispatches Rest Live d s)
    (hpath : W.Path s (steps.flatMap Step.trace) s') : BetweenDispatches Rest Live d' s' := by
  induction hsteps generalizing s' with
  | nil =>
    cases hpath
    exact h
  | @snoc d₁ d₂ steps hsteps call t hstep ih =>
    rw [List.flatMap_append, World.path_append] at hpath
    obtain ⟨s₁, hpath₁, hpath₂⟩ := hpath
    have hpath₂ : W.Path s₁ t s' := by rwa [List.flatMap_singleton] at hpath₂
    have h₁ := ih (fun step hmem ↦ hboot step (List.mem_append_left _ hmem)) hpath₁
    have hcall := hboot _ (List.mem_append_right _ (List.mem_singleton.mpr rfl))
    exact (World.returns_of_wpS (rules.wpS_touchDispatch hcall h₁) hstep hpath₂ :)

end DriverRules

/-! ## The rule for runs -/

private theorem touchDispatch_unstarted {call : Dispatch} {t : List (Event Uefi)}
    {q : Prog Uefi (Unit × TouchDev)} (h : ((touchDispatch call).run {}).Reaches t q) :
    t = [] ∧ q = .pure ((), {}) := by
  have hnone : (touchDispatch call).run {} = .pure ((), {}) := by
    cases call <;> rfl
  rw [hnone] at h
  cases h
  exact ⟨rfl, rfl⟩

private theorem dispatches_unstarted {steps : List Step} (h : Dispatches {} steps d') :
    d' = {} ∧ steps.flatMap Step.trace = [] := by
  induction h with
  | nil => exact ⟨rfl, rfl⟩
  | @snoc d₁ d₂ steps hsteps call t hstep ih =>
    obtain ⟨rfl, htrace⟩ := ih
    obtain ⟨rfl, hpure⟩ := touchDispatch_unstarted hstep
    obtain rfl : d₂ = {} := (Prod.mk.inj (Prog.pure.inj hpure)).2
    exact ⟨rfl, by rw [List.flatMap_append, htrace]; rfl⟩

section

variable {Rest Found Live : TouchDev → σ → Prop} {dmi : DmiIdentity}
  {entries : List ConfigurationEntry} (hread : touchReadDmiIdentity entries = .ok dmi)
  (rules : DriverRules W dmi Rest Found Live) (hstart : Rest { dmi := dmi } s)

include hread rules hstart

private theorem wpS_touchI2cDxeEntry : W.wpS (touchI2cDxeEntry entries)
    (fun _ d' s' ↦ d' = {} ∧ Rest { dmi := dmi } s' ∨ BetweenDispatches Rest Live d' s') {} s := by
  rw [touchI2cDxeEntry, World.wpS_bind, World.wpS_lift]
  refine (rules.restService _).perform trivial hstart fun allocated s₁ h₁ ↦ ?_
  split
  · rw [World.wpS_bind, World.wpS_liftChecked]
    exact ⟨dmi, hread, World.wpS_mono (rules.wpS_touchEntryAs h₁) fun _ _ _ h ↦ .inr h⟩
  · exact .inl ⟨rfl, h₁⟩

/-- What holds after a run. Without its state the driver has done nothing. -/
theorem between_of_run {t₀ : List (Event Uefi)} {steps : List Step} {s' : σ}
    (hrun : Run (touchI2cDxeEntry entries) t₀ steps d)
    (hboot : ∀ step ∈ steps, step.dispatch ≠ .exitBoot)
    (hpath : W.Path s (t₀ ++ steps.flatMap Step.trace) s') :
    d = {} ∧ Rest { dmi := dmi } s' ∨ BetweenDispatches Rest Live d s' := by
  obtain ⟨d₀, hentry, hsteps⟩ := hrun
  obtain ⟨s₀, hpath₀, hpath₁⟩ := World.path_append.mp hpath
  rcases (World.returns_of_wpS (wpS_touchI2cDxeEntry hread rules hstart) hentry hpath₀ :)
    with ⟨rfl, h₀⟩ | h₀
  · obtain ⟨rfl, hnil⟩ := dispatches_unstarted hsteps
    rw [hnil] at hpath₁
    cases hpath₁
    exact .inl ⟨rfl, h₀⟩
  · exact .inr (rules.between_of_dispatches hsteps hboot h₀ hpath₁)

/-- **The rule for runs**: what is performed is allowed. -/
theorem allowed_of_performs {t : List (Event Uefi)} {e : UefiOp} {s' s'' : σ}
    (h : Performs (touchI2cDxeEntry entries) t e) (hpath : W.Path s t s')
    (hdrift : W.drift s' s'') : W.Allowed s'' e := by
  cases h with
  | entry h =>
    have hentry := wpS_touchI2cDxeEntry hread rules hstart
    exact World.wp_allowed hentry h hpath hdrift
  | dispatch hrun hboot hcall h =>
    obtain ⟨s₁, hpath₁, hpath₂⟩ := World.path_append.mp hpath
    rcases between_of_run hread rules hstart hrun hboot hpath₁ with ⟨rfl, -⟩ | hbetween
    · obtain ⟨-, heq⟩ := touchDispatch_unstarted h
      cases heq
    · exact World.wp_allowed (rules.wpS_touchDispatch hcall hbetween) h hpath₂ hdrift

/-- The rule for runs until the driver has left boot services. -/
theorem allowed_of_performsUntilExit
    (hlive : ∀ {d s}, d.ready = true → Live d s →
      W.wpS touchExitBootServices (fun _ _ _ ↦ True) d s)
    (hrest : ∀ {d d' s}, d.ready = false → Rest d' s →
      W.wpS touchExitBootServices (fun _ _ _ ↦ True) d s)
    {t : List (Event Uefi)} {e : UefiOp} {s' s'' : σ}
    (h : PerformsUntilExit (touchI2cDxeEntry entries) t e) (hpath : W.Path s t s')
    (hdrift : W.drift s' s'') : W.Allowed s'' e := by
  cases h with
  | before h => exact allowed_of_performs hread rules hstart h hpath hdrift
  | @exit t₀ t steps d e k hrun hboot h =>
    obtain ⟨s₁, hpath₁, hpath₂⟩ := World.path_append.mp hpath
    refine World.wp_allowed (?_ : W.wpS touchExitBootServices (fun _ _ _ ↦ True) d s₁) h hpath₂
      hdrift
    rcases between_of_run hread rules hstart hrun hboot hpath₁ with ⟨rfl, hidle⟩ | hbetween
    · exact hrest rfl hidle
    · cases hready : d.ready with
      | true => exact hlive hready (hbetween.live hready)
      | false => exact hrest hready (hbetween.rest hready)

end

end TouchI2c
