import TouchI2c.Interaction.Recording
import TouchI2c.Smbios.Structures
import TouchI2c.Touch.Ready

/-!
# The timers

The poll timer is armed exactly while the driver is ready, the retry timer exactly while it waits
for a retry, and a driver that is installed does one or the other until its attempts are used up.
When the driver leaves boot services both are cancelled. Nothing that can still be called then makes
an access or a transfer.

## Armed

`armed t e` is what a trace says of a timer: whether it has been set, with success, since it was
last cancelled with success or its event closed. A cancellation that fails would leave a timer armed
that the driver believes cancelled, so it is excluded; and a timer event is dispatched only while it
is armed.

## The invariant

`Ticking` holds between two dispatches before the driver leaves boot services: the armed timers are
those that the state names. The poll timer is set exactly if the input path is opened, and a retry
that fails leaves its timer armed unless it was the last. The one way to stand still is that the
firmware refuses the retry timer to the entry.

Once the driver has left boot services no timer is armed, so no dispatch is a poll or a retry, and
what is left (`pointerDispatch_within`) arms none and accesses nothing.
-/

namespace TouchI2c

open CMemory HidParse Interaction

/-! ## Armed timers -/

/-- What an event does to the timers. -/
def timerStep (timers : TouchEvent → Bool) (ev : Event Uefi) : TouchEvent → Bool :=
  match ev.op, ev.ret with
  | .setTimer e _, (status : EfiStatus) =>
    if status.isError then timers else Function.update timers e true
  | .cancelTimer e, (status : EfiStatus) =>
    if status.isError then timers else Function.update timers e false
  | .closeEvent e, _ => Function.update timers e false
  | _, _ => timers

/-- The timers that are armed after a trace. -/
def armed (t : List (Event Uefi)) : TouchEvent → Bool := t.foldl timerStep fun _ ↦ false

@[simp] theorem armed_concat {t : List (Event Uefi)} {ev : Event Uefi} :
    armed (t ++ [ev]) = timerStep (armed t) ev := List.foldl_append

/-- The firmware cancels every timer that it is asked to. -/
def Cancels (t : List (Event Uefi)) : Prop :=
  ∀ e status, (⟨.cancelTimer e, status⟩ : Event Uefi) ∈ t → EfiStatus.isError status = false

/-- The firmware did not refuse to cancel a timer. -/
private def cancelled (ev : Event Uefi) : Bool :=
  match ev.op, ev.ret with
  | .cancelTimer _, (status : EfiStatus) => !status.isError
  | _, _ => true

private theorem cancels_of_all {t : List (Event Uefi)} (h : t.all cancelled = true) : Cancels t := by
  intro e status hmem
  have hev := List.all_eq_true.mp h _ hmem
  simpa [cancelled] using hev

theorem prefixClosed_cancels : PrefixClosed Cancels :=
  fun _ _ h e status hmem ↦ h e status (List.mem_append_left _ hmem)

/-- The timers that a state calls for. -/
def TouchDev.timers (d : TouchDev) : TouchEvent → Bool
  | .poll => d.ready
  | .retry => d.retryEvent
  | .waitForInput | .exitBoot => false

/-- Operations that have to do with no timer. -/
def Untimed : UefiOp → Prop
  | .setTimer _ _ | .cancelTimer _ | .closeEvent _ => False
  | _ => True

theorem Work.untimed {e : UefiOp} (h : Work e) : Untimed e := by
  cases e <;> first | exact h | exact trivial

theorem PointerService.untimed {e : UefiOp} (h : PointerService e) : Untimed e := by
  cases e <;> first | exact h | exact trivial

theorem timerStep_untimed {timers : TouchEvent → Bool} {ev : Event Uefi} (h : Untimed ev.op) :
    timerStep timers ev = timers := by
  obtain ⟨e, r⟩ := ev
  cases e <;> first | exact h.elim | rfl

/-- The world that remembers the trace. -/
abbrev timerWorld : World Uefi (List (Event Uefi)) := recording (fun _ _ ↦ True) Cancels

/-- The timers in `f` are armed. -/
abbrev Armed (f : TouchEvent → Bool) (t : List (Event Uefi)) : Prop := armed t = f

section

variable {f : TouchEvent → Bool} {t : List (Event Uefi)} {d : TouchDev}

private theorem keeps_untimed : timerWorld.Keeps Untimed (Armed f) := by
  intro e t he ht
  refine wp_perform_recording.mpr ⟨trivial, fun r _ ↦ ?_⟩
  change armed _ = f
  rw [armed_concat, timerStep_untimed he, ht]

private theorem keeps_timers_work : timerWorld.Keeps Work (Armed f) :=
  fun e t he ↦ keeps_untimed e t he.untimed

private theorem keeps_timers_pool : timerWorld.Keeps PoolService (Armed f) := by
  intro e t he
  refine keeps_untimed e t ?_
  cases e <;> first | exact he.elim | exact trivial

private theorem wp_setTimer {e : TouchEvent} {period : ℕ}
    {Q : EfiStatus → List (Event Uefi) → Prop} (ht : Armed f t)
    (hQ : ∀ status t', Armed (if status.isError then f else Function.update f e true) t' →
      Q status t') : timerWorld.wp (uefi (.setTimer e period)) Q t := by
  refine wp_perform_recording.mpr ⟨trivial, fun status _ ↦ hQ status _ ?_⟩
  rw [Armed, armed_concat, ht]
  rfl

private theorem wp_cancelTimer {e : TouchEvent} {Q : EfiStatus → List (Event Uefi) → Prop}
    (ht : Armed f t) (hQ : ∀ status t', Armed (Function.update f e false) t' → Q status t') :
    timerWorld.wp (uefi (.cancelTimer e)) Q t := by
  refine wp_perform_recording.mpr ⟨trivial, fun status hC ↦ hQ status _ ?_⟩
  have hok : EfiStatus.isError status = false := hC e status (by simp)
  rw [Armed, armed_concat, ht]
  exact if_neg (by rw [hok]; decide)

private theorem wp_closeEvent {e : TouchEvent} {Q : EfiStatus → List (Event Uefi) → Prop}
    (ht : Armed f t) (hQ : ∀ status t', Armed (Function.update f e false) t' → Q status t') :
    timerWorld.wp (uefi (.closeEvent e)) Q t := by
  refine wp_perform_recording.mpr ⟨trivial, fun status _ ↦ hQ status _ ?_⟩
  rw [Armed, armed_concat, ht]
  rfl

/-! ## Attempts -/

private theorem timers_ready {d' : TouchDev} (hready' : d'.ready = true)
    (hretry : d'.retryEvent = d.retryEvent) : Function.update d.timers .poll true = d'.timers := by
  funext e
  cases e with
  | poll => exact hready'.symm
  | retry => exact hretry.symm
  | _ => rfl

private theorem timers_eq {d d' : TouchDev} (hready : d'.ready = d.ready)
    (hretry : d'.retryEvent = d.retryEvent) : d'.timers = d.timers := by
  funext e
  cases e with
  | poll => exact hready
  | retry => exact hretry
  | _ => rfl

private theorem wpS_touchOpenInput_timed (hready : d.ready = false) (ht : Armed d.timers t) :
    timerWorld.wpS touchOpenInput (fun _ d' t' ↦
      d'.outsideSetUp = d.outsideSetUp ∧ Armed d'.timers t') d t := by
  rw [touchOpenInput, World.wpS_bind, World.wpS_modify, World.wpS_bind, World.wpS_get,
    World.wpS_bind, World.wpS_lift]
  refine wp_setTimer ht fun status t₁ ht₁ ↦ ?_
  split
  · next herr =>
    rw [if_pos herr] at ht₁
    have hsame : ({ d with ready := false } : TouchDev).timers = d.timers :=
      timers_eq hready.symm rfl
    rw [World.wpS_bind, World.wpS_modify]
    exact ⟨rfl, ht₁.trans hsame.symm⟩
  · next hok =>
    rw [if_neg hok] at ht₁
    exact ⟨rfl, ht₁.trans (timers_ready rfl rfl)⟩

private theorem wpS_touchStart_timed (hready : d.ready = false) (ht : Armed d.timers t) :
    timerWorld.wpS touchStart (fun _ d' t' ↦
      d'.outsideSetUp = d.outsideSetUp ∧ Armed d'.timers t') d t := by
  rw [touchStart, World.wpS_bind, World.wpS_modify, World.wpS_bind]
  refine World.wpS_mono (wpS_touchAllocateInput keeps_timers_pool ht) fun ok d₁ t₁ h₁ ↦ ?_
  obtain ⟨⟨buf, rfl, -⟩, ht₁⟩ := h₁
  split
  · rw [World.wpS_bind]
    refine World.wpS_mono (wpS_touchBringUp (routeRules_work keeps_timers_work) ht₁)
      fun _ d₂ t₂ h₂ ↦ ?_
    obtain ⟨⟨bus, -, rfl⟩, ht₂⟩ := h₂
    rw [World.wpS_bind]
    refine World.wpS_mono (wpS_touchUpdateOrientation ((keeps_panel keeps_timers_work).mono fun _ ↦
      DisplayQuery.panel) ht₂) fun _ d₃ t₃ h₃ ↦ ?_
    obtain ⟨⟨gop, rotate, rfl⟩, ht₃⟩ := h₃
    exact World.wpS_mono (wpS_touchOpenInput_timed hready ht₃) fun _ _ _ h ↦ h
  · exact ⟨rfl, ht₁⟩

private theorem wpS_touchSetUp_timed (hready : d.ready = false) (ht : Armed d.timers t) :
    timerWorld.wpS touchSetUp (fun _ d' t' ↦
      d'.outsideSetUp = d.outsideSetUp ∧ Armed d'.timers t') d t := by
  rw [touchSetUp, World.wpS_bind, World.wpS_get, World.wpS_bind, World.wpS_lift]
  refine World.wp_mono (wp_allocateZeroPool keeps_timers_pool _ ht) fun buf t₁ h₁ ↦ ?_
  obtain ⟨hbuf, ht₁⟩ := h₁
  cases buf with
  | none => exact ⟨rfl, ht₁⟩
  | some reportDesc =>
    dsimp only
    rw [World.wpS_bind]
    refine World.wpS_mono (wpS_touchReadLayout keeps_timers_pool (routeRules_work keeps_timers_work)
      (hbuf reportDesc rfl) ht₁) fun status d₂ t₂ h₂ ↦ ?_
    obtain ⟨⟨hframe, -⟩, ht₂⟩ := h₂
    have hretry₂ : d₂.retryEvent = d.retryEvent := (congrArg TouchDev.retryEvent hframe.frame :)
    have ht₂ : Armed d₂.timers t₂ := ht₂.trans (timers_eq hframe.ready hretry₂).symm
    split
    · exact ⟨hframe.frame, ht₂⟩
    · exact World.wpS_mono (wpS_touchStart_timed (hframe.ready.trans hready) ht₂)
        fun _ _ _ h ↦ ⟨h.1.trans hframe.frame, h.2⟩

/-- What neither an attempt nor a dispatch changes. -/
private def setting (d : TouchDev) : Bool × Bool × Bool :=
  (d.installed, d.pollEvent, d.exitBootEvent)

private theorem wpS_touchTryBringUp_timed (hready : d.ready = false) (ht : Armed d.timers t) :
    timerWorld.wpS touchTryBringUp (fun _ d' t' ↦
      setting d' = setting d ∧ Armed d'.timers t') d t := by
  rw [touchTryBringUp, World.wpS_bind, World.wpS_modify, World.wpS_bind]
  refine World.wpS_mono (keeps_timers_work.wpS (touchDetect_work (fun _ h ↦ h) d.startAttempt) ht)
    fun status d₁ t₁ h₁ ↦ ?_
  obtain ⟨⟨hframe, -⟩, ht₁⟩ := h₁
  have hsetting₁ : setting d₁ = setting d := (congrArg setting hframe :)
  have hready₁ : d₁.ready = d.ready := (congrArg TouchDev.ready hframe :)
  have hretry₁ : d₁.retryEvent = d.retryEvent := (congrArg TouchDev.retryEvent hframe :)
  have ht₁ : Armed d₁.timers t₁ := ht₁.trans (timers_eq hready₁ hretry₁).symm
  split
  · exact ⟨hsetting₁, ht₁⟩
  · refine World.wpS_mono (wpS_touchSetUp_timed (hready₁.trans hready) ht₁) fun _ d₂ t₂ h₂ ↦ ?_
    exact ⟨(congrArg setting h₂.1 :).trans hsetting₁, h₂.2⟩

/-! ## Dispatches -/

/-- The firmware refused a retry timer. -/
def Refused (t : List (Event Uefi)) : Prop :=
  ∃ status, EfiStatus.isError status = true ∧
    ((⟨.createEvent .retry, status⟩ : Event Uefi) ∈ t ∨
      ∃ period, (⟨.setTimer .retry period, status⟩ : Event Uefi) ∈ t)

/-- What holds between the dispatches after `n` attempts, until the driver leaves boot services:
the timers that the state calls for are armed, and a driver that is installed has one unless its
attempts are used up, or `gaveUp`. -/
structure Ticking (gaveUp : Prop) (n : ℕ) (d : TouchDev) (t : List (Event Uefi)) : Prop where
  driver : DriverInv n d
  timers : Armed d.timers t
  events : d.installed = true → d.pollEvent = true ∧ d.exitBootEvent = true
  uninstalled : d.installed = false → d.ready = false ∧ d.retryEvent = false
  going : d.installed = true →
    d.ready = true ∨ d.retryEvent = true ∨ n = touchRetryMax ∨ gaveUp

private theorem Ticking.keep {gaveUp : Prop} {n n' : ℕ} {t' : List (Event Uefi)} {d' : TouchDev}
    (h : Ticking gaveUp n d t) (hn : n' = n) (hdriver : DriverInv n' d')
    (hframe : (setting d', d'.ready, d'.retryEvent) = (setting d, d.ready, d.retryEvent))
    (ht' : Armed d.timers t') : Ticking gaveUp n' d' t' := by
  subst hn
  obtain ⟨hsetting, hstate⟩ := Prod.mk.inj hframe
  obtain ⟨hready, hretry⟩ := Prod.mk.inj hstate
  obtain ⟨hinstalled, hevents⟩ := Prod.mk.inj hsetting
  obtain ⟨hpoll, hboot⟩ := Prod.mk.inj hevents
  refine ⟨hdriver, ht'.trans (timers_eq hready hretry).symm, ?_, ?_, ?_⟩
  · rw [hinstalled, hpoll, hboot]
    exact h.events
  · rw [hinstalled, hready, hretry]
    exact h.uninstalled
  · rw [hinstalled, hready, hretry]
    exact h.going

private theorem wpS_touchCloseRetry_timed (ht : Armed d.timers t) :
    timerWorld.wpS touchCloseRetry (fun _ d' t' ↦
      d' = { d with retryEvent := false } ∧ Armed d'.timers t') d t := by
  rw [touchCloseRetry, World.wpS_bind, World.wpS_lift]
  refine wp_cancelTimer ht fun _ t₁ ht₁ ↦ ?_
  rw [World.wpS_bind, World.wpS_modify, World.wpS_bind, World.wpS_lift]
  refine wp_closeEvent ht₁ fun _ t₂ ht₂ ↦ ⟨rfl, ht₂.trans (funext fun e ↦ ?_)⟩
  cases e <;> rfl

/-- A retry that fails leaves the retry timer armed, unless it was the last. -/
private theorem wpS_touchRetry_timed {gaveUp : Prop} {n : ℕ} (h : Ticking gaveUp n d t)
    (hretry : d.retryEvent = true) : timerWorld.wpS touchRetry (fun _ d' t' ↦
      setting d' = setting d ∧ Armed d'.timers t' ∧
        (d'.ready = true ∨ d'.retryEvent = true ∨ n + 1 = touchRetryMax)) d t := by
  obtain ⟨hcount, hlt⟩ := h.driver.retry hretry
  have hready : d.ready = false := by
    cases hr : d.ready with
    | false => rfl
    | true => exact absurd (h.driver.ready hr).1 (by rw [hretry]; decide)
  rw [touchRetry, World.wpS_bind]
  refine World.wpS_mono (World.wpS_and_within (wpS_touchTryBringUp_timed hready h.timers)
    (touchTryBringUp_any hready)) fun status d₁ t₁ h₁ ↦ ?_
  obtain ⟨⟨hsetting₁, ht₁⟩, hpost⟩ := h₁
  have hcount₁ : d₁.attemptCount = n + 1 := by rw [hpost.attemptCount, hcount]
  rw [World.wpS_bind, World.wpS_get]
  split
  · exact ⟨hsetting₁, ht₁, .inr (.inl (hpost.retryEvent.trans hretry))⟩
  · next hlast =>
    refine World.wpS_mono (wpS_touchCloseRetry_timed ht₁) fun _ d₂ t₂ h₂ ↦ ?_
    obtain ⟨rfl, ht₂⟩ := h₂
    refine ⟨hsetting₁, ht₂, ?_⟩
    cases hstatus : status.isError with
    | false => exact .inl (hpost.success hstatus).1
    | true =>
      -- the count is used up
      rw [hstatus, Bool.true_and, decide_eq_true_eq, hcount₁] at hlast
      exact .inr (.inr (by omega))

/-- **One dispatch** before the driver leaves boot services. -/
private theorem wpS_touchDispatch_timed {gaveUp : Prop} {n : ℕ} (h : Ticking gaveUp n d t)
    {call : Dispatch} (hcall : call ≠ .exitBoot) : timerWorld.wpS (touchDispatch call)
      (fun _ d' t' ↦ Ticking gaveUp (attemptsAfter n call d) d' t') d t := by
  have hJ : timerWorld.Keeps PointerService (Armed d.timers) :=
    fun e t he ↦ keeps_untimed e t he.untimed
  -- the invariant of the driver itself is that of any run, and is joined at the end
  have hkept : timerWorld.wpS (touchDispatch call) (fun _ d' t' ↦
      DriverInv (attemptsAfter n call d) d' → Ticking gaveUp (attemptsAfter n call d) d' t') d t := by
    rw [touchDispatch, World.wpS_bind, World.wpS_get]
    split
    · next henabled =>
      cases call with
      | exitBoot => exact absurd rfl hcall
      | retry =>
        have hretry : d.retryEvent = true := henabled
        refine World.wpS_mono (wpS_touchRetry_timed h hretry) fun _ d' t' h' hdriver ↦ ?_
        obtain ⟨hsetting, ht', hgoing⟩ := h'
        obtain ⟨hinstalled, hevents⟩ := Prod.mk.inj hsetting
        obtain ⟨hpoll, hboot⟩ := Prod.mk.inj hevents
        -- a driver without the protocol has no retry event
        have hyes : d.installed = true := by
          by_contra hnot
          exact absurd (h.uninstalled (by simpa using hnot)).2 (by rw [hretry]; decide)
        have hn : attemptsAfter n .retry d = n + 1 := by rw [attemptsAfter, hretry]; rfl
        rw [hn] at hdriver ⊢
        refine ⟨hdriver, ht', fun _ ↦ ?_, fun hnot ↦ ?_, fun _ ↦ ?_⟩
        · rw [hpoll, hboot]
          exact h.events hyes
        · exact absurd (hinstalled.trans hyes) (by rw [hnot]; decide)
        · exact hgoing.imp_right (Or.imp_right .inl)
      | poll =>
        refine World.wpS_mono (PollRules.wpS_touchPoll (fun _ ↦ pollRules_work keeps_timers_work)
          (fun hr ↦ (h.driver.ready hr).2) h.timers) fun _ d' t' h' hdriver ↦ ?_
        obtain ⟨rfl | ⟨-, hpost⟩, ht'⟩ := h'
        · exact h.keep rfl hdriver rfl ht'
        · exact h.keep rfl hdriver (congrArg
            (fun d : TouchDev ↦ (setting d, d.ready, d.retryEvent)) hpost.frame :) ht'
      | waitForInput =>
        refine World.wpS_mono (wpS_touchWaitForInput hJ h.timers) fun _ d' t' h' hdriver ↦ ?_
        obtain ⟨rfl, ht'⟩ := h'
        exact h.keep rfl hdriver rfl ht'
      | reset extendedVerification =>
        change timerWorld.wpS (do let _ ← touchReset extendedVerification) _ _ _
        rw [World.wpS_bind]
        refine World.wpS_mono (wpS_touchReset hJ _ h.timers) fun _ d' t' h' hdriver ↦ ?_
        obtain ⟨rfl, ht'⟩ := h'
        exact h.keep rfl hdriver rfl ht'
      | getState hasState =>
        change timerWorld.wpS (do let _ ← touchGetState hasState) _ _ _
        rw [World.wpS_bind]
        refine World.wpS_mono (wpS_touchGetState hJ hasState h.timers) fun _ d' t' h' hdriver ↦ ?_
        obtain ⟨rfl | ⟨-, rfl⟩, ht'⟩ := h'
        · exact h.keep rfl hdriver rfl ht'
        · exact h.keep rfl hdriver rfl ht'
    · next hdisabled =>
      have hn : attemptsAfter n call d = n := by
        cases call with
        | retry =>
          have hretry : d.retryEvent = false := Bool.eq_false_of_not_eq_true hdisabled
          rw [attemptsAfter, hretry]
          rfl
        | _ => rfl
      exact fun hdriver ↦ h.keep hn hdriver rfl h.timers
  exact World.wpS_mono (World.wpS_and_within hkept (touchDispatch_any h.driver call))
    fun _ _ _ h' ↦ h'.1 h'.2.1

private theorem wpS_exitBoot_timed (hpoll : f .poll = true → d.pollEvent = true)
    (hretry : f .retry = true → d.retryEvent = true)
    (hothers : f .waitForInput = false ∧ f .exitBoot = false)
    (hnone : d.exitBootEvent = false → f = fun _ ↦ false) (ht : Armed f t) :
    timerWorld.wpS (touchDispatch .exitBoot) (fun _ _ t' ↦ Armed (fun _ ↦ false) t') d t := by
  have hcancel : ∀ {f : TouchEvent → Bool} {t} (e : TouchEvent) (present : Bool), Armed f t →
      (f e = true → present = true) → timerWorld.wp (cancelTimerOf e present)
        (fun _ t' ↦ Armed (Function.update f e false) t') t := by
    intro f t e present ht hpresent
    unfold cancelTimerOf
    split
    · rw [World.wp_bind]
      exact wp_cancelTimer ht fun _ _ ht' ↦ ht'
    · next habsent =>
      have hnot : f e = false := Bool.eq_false_of_not_eq_true fun he ↦ habsent (hpresent he)
      exact ht.trans (Function.update_eq_self_iff.mpr hnot.symm).symm
  have hcleared : Function.update (Function.update f .poll false) .retry false =
      fun _ ↦ false := by
    funext e
    cases e with
    | waitForInput => exact hothers.1
    | exitBoot => exact hothers.2
    | _ => rfl
  rw [touchDispatch, World.wpS_bind, World.wpS_get]
  split
  · change timerWorld.wpS touchExitBootServices _ d t
    rw [touchExitBootServices, World.wpS_bind, World.wpS_get, World.wpS_bind, World.wpS_lift]
    refine World.wp_mono (hcancel .poll d.pollEvent ht hpoll) fun _ t₁ ht₁ ↦ ?_
    rw [World.wpS_bind, World.wpS_lift]
    refine World.wp_mono (hcancel .retry d.retryEvent ht₁ hretry) fun _ t₂ ht₂ ↦ ?_
    rw [hcleared] at ht₂
    split
    · rw [wpS_onBus]
      exact World.wpS_mono (keeps_timers_work.wpS i2cBusDisable_work ht₂) fun _ _ _ h ↦ h.2
    · exact ht₂
  · next hdisabled => exact ht.trans (hnone (Bool.eq_false_of_not_eq_true hdisabled))

private theorem Ticking.wpS_exitBoot {gaveUp : Prop} {n : ℕ} (h : Ticking gaveUp n d t) :
    timerWorld.wpS (touchDispatch .exitBoot) (fun _ _ t' ↦ Armed (fun _ ↦ false) t') d t := by
  refine wpS_exitBoot_timed (fun hready ↦ ?_) (fun hretry ↦ hretry) ⟨rfl, rfl⟩ (fun hboot ↦ ?_)
    h.timers
  · refine (h.events ?_).1
    by_contra hnot
    exact absurd hready (by rw [TouchDev.timers, (h.uninstalled (by simpa using hnot)).1]; decide)
  · have hinstalled : d.installed = false := by
      by_contra hnot
      exact absurd (h.events (by simpa using hnot)).2 (by rw [hboot]; decide)
    obtain ⟨hready, hretry⟩ := h.uninstalled hinstalled
    funext e
    cases e with
    | poll => exact hready
    | retry => exact hretry
    | _ => rfl

private theorem pointerDispatch_within {call : Dispatch} (hboot : call ≠ .exitBoot)
    (htimer : call ≠ .poll ∧ call ≠ .retry) :
    (within PointerService).world.wpS (touchDispatch call) (fun _ _ _ ↦ True) d () := by
  rw [touchDispatch, World.wpS_bind, World.wpS_get]
  split
  · cases call with
    | exitBoot => exact absurd rfl hboot
    | poll => exact absurd rfl htimer.1
    | retry => exact absurd rfl htimer.2
    | waitForInput =>
      exact World.wpS_mono (touchWaitForInput_within fun _ h ↦ h) fun _ _ _ _ ↦ trivial
    | reset extendedVerification =>
      change (within PointerService).world.wpS (do let _ ← touchReset extendedVerification) _ _ _
      rw [World.wpS_bind]
      exact World.wpS_mono (touchReset_within (fun _ h ↦ h) _) fun _ _ _ _ ↦ trivial
    | getState hasState =>
      change (within PointerService).world.wpS (do let _ ← touchGetState hasState) _ _ _
      rw [World.wpS_bind]
      exact World.wpS_mono (touchGetState_within (fun _ h ↦ h) _) fun _ _ _ _ ↦ trivial
  · exact trivial

/-! ## The entry -/

/-- Everything but setting a timer. -/
def Unset : UefiOp → Prop
  | .setTimer _ _ => False
  | _ => True

private theorem keeps_unset : timerWorld.Keeps Unset (Armed fun _ ↦ false) := by
  intro e t he ht
  refine wp_perform_recording.mpr ⟨trivial, fun r _ ↦ ?_⟩
  have hsame : ∀ e', Function.update (fun _ : TouchEvent ↦ false) e' false = fun _ ↦ false :=
    fun e' ↦ Function.update_eq_self_iff.mpr rfl
  change armed _ = _
  rw [armed_concat, ht]
  cases e with
  | setTimer e' period => exact he.elim
  | cancelTimer e' =>
    change (if EfiStatus.isError r = true then _ else _) = _
    rw [hsame, ite_self]
  | closeEvent e' => exact hsame e'
  | _ => rfl

private theorem wpS_touchCreateEvent_timed (e : TouchEvent) (ht : Armed f t) :
    timerWorld.wpS (touchCreateEvent e) (fun created d' t' ↦
      d' = (if created then d.noteEvent e else d) ∧ Armed f t') d t := by
  rw [touchCreateEvent, World.wpS_bind, World.wpS_lift]
  refine keeps_untimed.perform trivial ht fun status t₁ ht₁ ↦ ?_
  split
  · exact ⟨rfl, ht₁⟩
  · exact ⟨rfl, ht₁⟩

/-- What the entry starts from. -/
private structure Starting (d : TouchDev) : Prop where
  ready : d.ready = false
  retryEvent : d.retryEvent = false
  installed : d.installed = false

private theorem wpS_touchInstall_timed (h : Starting d) (ht : Armed f t) :
    timerWorld.wpS touchInstall (fun installed d' t' ↦ d'.ready = false ∧ d'.retryEvent = false ∧
      d'.installed = installed ∧
      (installed = true → d'.pollEvent = true ∧ d'.exitBootEvent = true) ∧ Armed f t') d t := by
  have hcreate : ∀ {d : TouchDev} {t}, Starting d → Armed f t → ∀ e, e ≠ .retry →
      ∀ {g : Bool → Touch Bool} {Q : Bool → TouchDev → List (Event Uefi) → Prop},
      (∀ t', Armed f t' → timerWorld.wpS (g false) Q d t') →
      (∀ t', Starting (d.noteEvent e) → Armed f t' →
        timerWorld.wpS (g true) Q (d.noteEvent e) t') →
      timerWorld.wpS (touchCreateEvent e >>= g) Q d t := by
    intro d t h ht e he g Q hnone hsome
    rw [World.wpS_bind]
    refine World.wpS_mono (wpS_touchCreateEvent_timed e ht) fun created d₁ t₁ h₁ ↦ ?_
    obtain ⟨rfl, ht₁⟩ := h₁
    cases created with
    | false => exact hnone t₁ ht₁
    | true =>
      refine hsome t₁ ?_ ht₁
      cases e with
      | retry => exact absurd rfl he
      | _ => exact { h with }
  have hstop : ∀ {d : TouchDev} {t}, Starting d → Armed f t → timerWorld.wpS
      (return false : Touch Bool) (fun installed d' t' ↦ d'.ready = false ∧ d'.retryEvent = false ∧
        d'.installed = installed ∧
        (installed = true → d'.pollEvent = true ∧ d'.exitBootEvent = true) ∧ Armed f t') d t :=
    fun h ht ↦ ⟨h.ready, h.retryEvent, h.installed, fun hnot ↦ by contradiction, ht⟩
  unfold touchInstall
  refine hcreate h ht _ (by decide) (fun t₁ ht₁ ↦ hstop h ht₁) fun t₁ h₁ ht₁ ↦ ?_
  rw [if_pos rfl]
  refine hcreate h₁ ht₁ _ (by decide) (fun t₂ ht₂ ↦ hstop h₁ ht₂) fun t₂ h₂ ht₂ ↦ ?_
  rw [if_pos rfl]
  refine hcreate h₂ ht₂ _ (by decide) (fun t₃ ht₃ ↦ hstop h₂ ht₃) fun t₃ h₃ ht₃ ↦ ?_
  rw [if_pos rfl, World.wpS_bind, World.wpS_lift]
  refine keeps_untimed.perform trivial ht₃ fun status t₄ ht₄ ↦ ?_
  split
  · exact hstop h₃ ht₄
  · exact ⟨h₃.ready, h₃.retryEvent, rfl, fun _ ↦ ⟨rfl, rfl⟩, ht₄⟩

private theorem wpS_touchInert_timed (ht : Armed (fun _ ↦ false) t) :
    timerWorld.wpS touchInert (fun _ d' t' ↦ d'.ready = d.ready ∧ d'.retryEvent = false ∧
      d'.installed = d.installed ∧ Armed (fun _ ↦ false) t') d t := by
  have hclose : ∀ e timer present {t}, Armed (fun _ ↦ false) t →
      timerWorld.wp (closeEventOf e timer present) (fun _ t' ↦ Armed (fun _ ↦ false) t') t := by
    intro e timer present t ht
    unfold closeEventOf
    split
    · have hcancel : timerWorld.wp (cancelTimerOf e timer)
          (fun _ t' ↦ Armed (fun _ ↦ false) t') t := by
        unfold cancelTimerOf
        split
        · rw [World.wp_bind]
          exact keeps_unset.perform trivial ht fun _ _ ht' ↦ ht'
        · exact ht
      rw [World.wp_bind]
      refine World.wp_mono hcancel fun _ t₁ ht₁ ↦ ?_
      rw [World.wp_bind]
      exact keeps_unset.perform trivial ht₁ fun _ _ ht₂ ↦ ht₂
    · exact ht
  have hfree : ∀ {t}, Armed (fun _ ↦ false) t →
      timerWorld.wp (freeBuffer d.inputBuf) (fun _ t' ↦ Armed (fun _ ↦ false) t') t := by
    intro t ht
    unfold freeBuffer
    split
    · exact ht
    · exact keeps_unset _ _ trivial ht
  rw [touchInert, World.wpS_bind, World.wpS_get, World.wpS_bind, World.wpS_lift]
  refine World.wp_mono (hclose _ _ _ ht) fun _ t₁ ht₁ ↦ ?_
  rw [World.wpS_bind, World.wpS_lift]
  refine World.wp_mono (hclose _ _ _ ht₁) fun _ t₂ ht₂ ↦ ?_
  rw [World.wpS_bind, World.wpS_lift]
  refine World.wp_mono (hclose _ _ _ ht₂) fun _ t₃ ht₃ ↦ ?_
  rw [World.wpS_bind, World.wpS_lift]
  refine World.wp_mono (hclose _ _ _ ht₃) fun _ t₄ ht₄ ↦ ?_
  rw [World.wpS_bind, World.wpS_lift]
  refine World.wp_mono (hfree ht₄) fun _ t₅ ht₅ ↦ ?_
  rw [World.wpS_bind, World.wpS_lift]
  exact keeps_unset.perform trivial ht₅ fun _ _ ht₆ ↦ ⟨rfl, rfl, rfl, ht₆⟩

theorem Refused.append {t t' : List (Event Uefi)} (h : Refused t) : Refused (t ++ t') := by
  obtain ⟨status, herr, hmem | ⟨period, hmem⟩⟩ := h
  · exact ⟨status, herr, .inl (List.mem_append_left _ hmem)⟩
  · exact ⟨status, herr, .inr ⟨period, List.mem_append_left _ hmem⟩⟩

private theorem wpS_touchArmRetry_timed (ht : Armed d.timers t) :
    timerWorld.wpS touchArmRetry (fun _ d' t' ↦ setting d' = setting d ∧ Armed d'.timers t' ∧
      (d'.retryEvent = true ∨ Refused t')) d t := by
  have hnoted : (d.noteEvent .retry).timers = Function.update d.timers .retry true := by
    funext e
    cases e <;> rfl
  rw [touchArmRetry, World.wpS_bind, touchCreateEvent, World.wpS_bind, World.wpS_lift]
  refine wp_perform_recording.mpr ⟨trivial, fun status _ ↦ ?_⟩
  have ht₁ : Armed d.timers (t ++ [⟨.createEvent .retry, status⟩]) := by
    rw [Armed, armed_concat, ht]
    rfl
  generalize ht₁' : t ++ [(⟨.createEvent .retry, status⟩ : Event Uefi)] = t₁ at ht₁ ⊢
  split
  · next herr =>
    subst ht₁'
    exact ⟨rfl, ht₁, .inr ⟨status, herr, .inl (by simp)⟩⟩
  · rw [World.wpS_bind, World.wpS_modify, World.wpS_pure, if_pos rfl, World.wpS_bind,
      World.wpS_lift]
    refine wp_perform_recording.mpr ⟨trivial, fun status' _ ↦ ?_⟩
    have ht₂ : Armed (if EfiStatus.isError status' then d.timers else
        Function.update d.timers .retry true)
        (t₁ ++ [⟨.setTimer .retry touchRetryPeriod, status'⟩]) := by
      rw [Armed, armed_concat, ht₁]
      rfl
    split
    · next herr =>
      rw [if_pos herr] at ht₂
      have hrefused : Refused (t₁ ++ [⟨.setTimer .retry touchRetryPeriod, status'⟩]) :=
        ⟨status', herr, .inr ⟨touchRetryPeriod, by simp⟩⟩
      rw [World.wpS_bind, World.wpS_modify, World.wpS_bind, World.wpS_lift]
      refine wp_perform_recording.mpr ⟨trivial, fun status'' _ ↦ ⟨rfl, ?_, .inr hrefused.append⟩⟩
      rw [Armed, armed_concat, ht₂]
      funext e
      cases e with
      | retry => rfl
      | _ => rfl
    · next hok =>
      rw [if_neg hok] at ht₂
      exact ⟨rfl, ht₂.trans hnoted.symm, .inl rfl⟩

private theorem wpS_touchFirstAttempt_timed (hready : d.ready = false)
    (hretry : d.retryEvent = false) (ht : Armed (fun _ ↦ false) t) :
    timerWorld.wpS touchFirstAttempt (fun _ d' t' ↦ setting d' = setting d ∧
      Armed d'.timers t' ∧ (d'.ready = true ∨ d'.retryEvent = true ∨ Refused t')) d t := by
  have hnone : d.timers = fun _ ↦ false := by
    funext e
    cases e with
    | poll => exact hready
    | retry => exact hretry
    | _ => rfl
  rw [← hnone] at ht
  rw [touchFirstAttempt, World.wpS_bind]
  refine World.wpS_mono (World.wpS_and_within (wpS_touchTryBringUp_timed hready ht)
    (touchTryBringUp_any hready)) fun status d₁ t₁ h₁ ↦ ?_
  obtain ⟨⟨hsetting₁, ht₁⟩, hpost⟩ := h₁
  split
  · refine World.wpS_mono (wpS_touchArmRetry_timed ht₁) fun _ d₂ t₂ h₂ ↦ ?_
    obtain ⟨hsetting₂, ht₂, hgoing⟩ := h₂
    exact ⟨hsetting₂.trans hsetting₁, ht₂, .inr hgoing⟩
  · next hok =>
    exact ⟨hsetting₁, ht₁, .inl (hpost.success (by simpa using hok)).1⟩

private theorem wpS_touchEntryAs_timed (dmi : DmiIdentity) (ht : Armed (fun _ ↦ false) t) :
    timerWorld.wpS (touchEntryAs dmi) (fun _ d' t' ↦ Ticking (Refused t') 1 d' t') {} t := by
  have hkept : timerWorld.wpS (touchEntryAs dmi) (fun _ d' t' ↦
      DriverInv 1 d' → Ticking (Refused t') 1 d' t') {} t := by
    rw [touchEntryAs, World.wpS_bind, World.wpS_modify, World.wpS_bind, World.wpS_lift]
    refine World.wp_mono (keeps_timers_work.wp (logProfiles_work dmi mProfiles) ht)
      fun _ t₁ h₁ ↦ ?_
    rw [World.wpS_bind, World.wpS_modify, World.wpS_bind]
    refine World.wpS_mono (wpS_touchInstall_timed ⟨rfl, rfl, rfl⟩ h₁.2) fun installed d₂ t₂ h₂ ↦ ?_
    obtain ⟨hready, hretry, hinstalled, hevents, ht₂⟩ := h₂
    cases installed with
    | true =>
      rw [if_pos rfl]
      refine World.wpS_mono (wpS_touchFirstAttempt_timed hready hretry ht₂)
        fun _ d₃ t₃ h₃ hdriver ↦ ?_
      obtain ⟨hsetting, ht₃, hgoing⟩ := h₃
      obtain ⟨hinstalled₃, hevents₃⟩ := Prod.mk.inj hsetting
      obtain ⟨hpoll, hboot⟩ := Prod.mk.inj hevents₃
      refine ⟨hdriver, ht₃, fun _ ↦ ?_, fun hnot ↦ ?_, fun _ ↦ ?_⟩
      · rw [hpoll, hboot]
        exact hevents rfl
      · exact absurd (hinstalled₃.trans hinstalled) (by rw [hnot]; decide)
      · exact hgoing.imp_right (Or.imp_right .inr)
    | false =>
      rw [if_neg (by decide)]
      refine World.wpS_mono (wpS_touchInert_timed ht₂) fun _ d₃ t₃ h₃ hdriver ↦ ?_
      obtain ⟨hready₃, hretry₃, hinstalled₃, ht₃⟩ := h₃
      have hready₃ : d₃.ready = false := hready₃.trans hready
      have hnot : d₃.installed = false := hinstalled₃.trans hinstalled
      refine ⟨hdriver, ht₃.trans (funext fun e ↦ ?_), fun h ↦ ?_, fun _ ↦ ⟨hready₃, hretry₃⟩,
        fun h ↦ ?_⟩
      · cases e with
        | poll => exact hready₃.symm
        | retry => exact hretry₃.symm
        | _ => rfl
      · exact absurd h (by rw [hnot]; decide)
      · exact absurd h (by rw [hnot]; decide)
  exact World.wpS_mono (World.wpS_and_within hkept (touchEntryAs_any dmi)) fun _ _ _ h ↦ h.1 h.2

private theorem wpS_touchI2cDxeEntry_timed (entries : List ConfigurationEntry) :
    timerWorld.wpS (touchI2cDxeEntry entries)
      (fun _ d' t' ↦ Ticking (Refused t') 1 d' t') {} [] := by
  obtain ⟨dmi, hread, -⟩ := touchReadDmiIdentity_ok entries
  rw [touchI2cDxeEntry, World.wpS_bind, World.wpS_lift]
  refine keeps_untimed.perform (J := Armed fun _ ↦ false) trivial rfl fun allocated t₁ ht₁ ↦ ?_
  cases allocated with
  | false =>
    refine ⟨⟨fun h ↦ by contradiction, by decide, fun h ↦ by contradiction⟩,
      ht₁.trans (funext fun e ↦ ?_), fun h ↦ by contradiction, fun _ ↦ ⟨rfl, rfl⟩,
      fun h ↦ by contradiction⟩
    cases e <;> rfl
  | true =>
    rw [if_pos rfl, World.wpS_bind, World.wpS_liftChecked]
    exact ⟨dmi, hread, wpS_touchEntryAs_timed dmi ht₁⟩

end

/-! ## Runs -/

/-- The timer that a dispatch is for. -/
def Dispatch.timer : Dispatch → Option TouchEvent
  | .poll => some .poll
  | .retry => some .retry
  | _ => none

/-- A timer fires only while it is armed. -/
def FiresArmed (t₀ : List (Event Uefi)) (steps : List Step) : Prop :=
  ∀ before step after e, steps = before ++ step :: after → step.dispatch.timer = some e →
    armed (t₀ ++ before.flatMap Step.trace) e = true

/-- Once the driver has left boot services nothing is done but what the pointer protocol is for. -/
def QuietAfterBoot (steps : List Step) : Prop :=
  ∀ before boot after, steps = before ++ boot :: after → boot.dispatch = .exitBoot →
    ∀ step ∈ after, step.dispatch ≠ .exitBoot → ∀ ev ∈ step.trace, PointerService ev.op

section

variable {entries : List ConfigurationEntry} {t₀ : List (Event Uefi)} {steps : List Step}
  {d d₀ : TouchDev}

/-- **Any number of dispatches** before the driver leaves boot services. -/
private theorem ticking_of_dispatches (hsteps : Dispatches d₀ steps d)
    (hboot : ∀ step ∈ steps, step.dispatch ≠ .exitBoot)
    (hcancels : Cancels (t₀ ++ steps.flatMap Step.trace)) (h₀ : Ticking (Refused t₀) 1 d₀ t₀) :
    Ticking (Refused t₀) (attempts steps) d (t₀ ++ steps.flatMap Step.trace) := by
  induction hsteps with
  | nil => rwa [List.flatMap_nil, List.append_nil]
  | @snoc d₁ d₂ steps hsteps call t hstep ih =>
    rw [List.flatMap_append, List.flatMap_singleton, ← List.append_assoc] at hcancels ⊢
    rw [attempts_append_singleton]
    have h₁ := ih (fun step hmem ↦ hboot step (List.mem_append_left _ hmem))
      (prefixClosed_cancels _ _ hcancels)
    have hcall := hboot _ (List.mem_append_right _ (List.mem_singleton.mpr rfl))
    exact (World.returns_of_wpS (wpS_touchDispatch_timed h₁ hcall) hstep
      (path_recording prefixClosed_cancels hcancels) :)

/-- What is left once the driver has left boot services arms no timer. -/
private theorem armed_none_of_step {t : List (Event Uefi)} {call : Dispatch} {s : List (Event Uefi)}
    {d' : TouchDev} (hs : Armed (fun _ ↦ false) s)
    (hcall : ∀ e, call.timer = some e → armed s e = true)
    (hcancels : Cancels (s ++ t)) (hstep : ((touchDispatch call).run d).Returns t ((), d')) :
    Armed (fun _ ↦ false) (s ++ t) ∧
      (call ≠ .exitBoot → ∀ ev ∈ t, PointerService ev.op) := by
  have htimer : call ≠ .poll ∧ call ≠ .retry := by
    refine ⟨?_, ?_⟩ <;> rintro rfl
    · exact absurd (hcall .poll rfl) (by rw [hs]; decide)
    · exact absurd (hcall .retry rfl) (by rw [hs]; decide)
  by_cases hboot : call = .exitBoot
  · subst hboot
    refine ⟨?_, fun hne ↦ absurd rfl hne⟩
    exact (World.returns_of_wpS (wpS_exitBoot_timed (fun h ↦ by contradiction)
      (fun h ↦ by contradiction) ⟨rfl, rfl⟩ (fun _ ↦ rfl) hs) hstep
      (path_recording prefixClosed_cancels hcancels) :)
  · have hwithin := pointerDispatch_within (d := d) hboot htimer
    refine ⟨?_, fun _ ↦ Prog.Within.events hwithin hstep⟩
    have hkept := (keeps_unset.wpS (wpS_within_mono hwithin fun e he ↦ ?_) hs)
    · exact (World.returns_of_wpS hkept hstep (path_recording prefixClosed_cancels hcancels) :).2
    · cases e <;> first | exact he.elim | exact trivial

private theorem quiet_of_dispatches (hsteps : Dispatches d₀ steps d)
    (hcancels : Cancels (t₀ ++ steps.flatMap Step.trace)) (hfires : FiresArmed t₀ steps)
    (h₀ : Ticking (Refused t₀) 1 d₀ t₀) (hleft : ∃ step ∈ steps, step.dispatch = .exitBoot) :
    Armed (fun _ ↦ false) (t₀ ++ steps.flatMap Step.trace) ∧ QuietAfterBoot steps := by
  induction hsteps with
  | nil =>
    obtain ⟨step, hmem, -⟩ := hleft
    contradiction
  | @snoc d₁ d₂ steps hsteps call t hstep ih =>
    rw [List.flatMap_append, List.flatMap_singleton, ← List.append_assoc] at hcancels ⊢
    have hcancels₁ := prefixClosed_cancels _ _ hcancels
    have hfires₁ : FiresArmed t₀ steps := by
      intro before step after e heq
      exact hfires before step (after ++ [⟨d₁, call, t⟩]) e (by
        rw [heq, List.append_assoc, List.cons_append])
    by_cases hearlier : ∃ step ∈ steps, step.dispatch = .exitBoot
    · obtain ⟨hnone, hquiet⟩ := ih hcancels₁ hfires₁ hearlier
      obtain ⟨hnone', hpointer⟩ := armed_none_of_step hnone
        (fun e he ↦ hfires steps ⟨d₁, call, t⟩ [] e rfl he) hcancels hstep
      refine ⟨hnone', ?_⟩
      rintro before boot after heq hboot step hmem hne
      rcases List.eq_nil_or_concat after with rfl | ⟨after, last, rfl⟩
      · contradiction
      · rw [List.concat_eq_append, ← List.cons_append, ← List.append_assoc] at heq
        obtain ⟨rfl, hlast⟩ := List.append_inj' heq rfl
        obtain rfl := List.singleton_inj.mp hlast
        rw [List.concat_eq_append, List.mem_append, List.mem_singleton] at hmem
        rcases hmem with hmem | rfl
        · exact hquiet before boot after rfl hboot step hmem hne
        · exact hpointer hne
    · -- this is the dispatch with which the driver leaves
      have hstay : ∀ step ∈ steps, step.dispatch ≠ .exitBoot :=
        fun step hmem hboot ↦ hearlier ⟨step, hmem, hboot⟩
      have hcall : call = .exitBoot := by
        obtain ⟨step, hmem, hboot⟩ := hleft
        rcases List.mem_append.mp hmem with hmem | hmem
        · exact absurd hboot (hstay step hmem)
        · obtain rfl := List.mem_singleton.mp hmem
          exact hboot
      subst hcall
      have h₁ := ticking_of_dispatches hsteps hstay hcancels₁ h₀
      refine ⟨(World.returns_of_wpS h₁.wpS_exitBoot hstep
        (path_recording prefixClosed_cancels hcancels) :), ?_⟩
      rintro before boot after heq hboot step hmem
      rcases List.eq_nil_or_concat after with rfl | ⟨after, last, rfl⟩
      · contradiction
      · rw [List.concat_eq_append, ← List.cons_append, ← List.append_assoc] at heq
        obtain ⟨rfl, -⟩ := List.append_inj' heq rfl
        exact absurd hboot (hstay boot (by simp))

private theorem ticking_of_entry (hentry : ((touchI2cDxeEntry entries).run {}).Returns t₀ ((), d₀))
    (hcancels : Cancels t₀) : Ticking (Refused t₀) 1 d₀ t₀ :=
  (World.returns_of_wpS (wpS_touchI2cDxeEntry_timed entries) hentry
    (path_recording prefixClosed_cancels hcancels) :)

/-- **A driver never stands still.** Until it leaves boot services, the poll timer is armed exactly
while the driver is ready, and the retry timer exactly while it waits for a retry. If its protocol is
installed it is ready, or waits for a retry, or has made 60 attempts, unless the firmware refused the
retry timer. -/
theorem timers_of_run (hrun : Run (touchI2cDxeEntry entries) t₀ steps d)
    (hboot : ∀ step ∈ steps, step.dispatch ≠ .exitBoot)
    (hcancels : Cancels (t₀ ++ steps.flatMap Step.trace)) :
    armed (t₀ ++ steps.flatMap Step.trace) = d.timers ∧
    (d.installed = true →
      d.ready = true ∨ d.retryEvent = true ∨ attempts steps = 60 ∨ Refused t₀) := by
  obtain ⟨d₀, hentry, hsteps⟩ := hrun
  have h := ticking_of_dispatches hsteps hboot hcancels
    (ticking_of_entry hentry (prefixClosed_cancels _ _ hcancels))
  exact ⟨h.timers, h.going⟩

/-- The driver is waited for, polls, and is asked for its state. -/
private def panelRun : Touch Unit := do
  panelEntry
  touchDispatches [.waitForInput, .poll, .getState true]

theorem timers_of_run_panel : ∃ t₀ steps d, Run panelEntry t₀ steps d ∧
    steps.map Step.dispatch = [.waitForInput, .poll, .getState true] ∧ d.installed = true ∧
    armed (t₀ ++ steps.flatMap Step.trace) .poll = true ∧
    armed (t₀ ++ steps.flatMap Step.trace) = d.timers := by
  have hstate : ((panelRun.run {}).simulate panelMachine {}).2.map
      (fun r ↦ (r.2.installed, r.2.ready)) = some (true, true) := by decide +kernel
  have hcancels : ((panelRun.run {}).simulate panelMachine {}).1.all cancelled = true := by
    decide +kernel
  obtain ⟨⟨_, d⟩, hsim, hstate⟩ := Option.map_eq_some_iff.mp hstate
  obtain ⟨hinstalled, hready⟩ := Prod.mk.inj hstate
  have hret := Prog.returns_simulate hsim
  generalize ((panelRun.run {}).simulate panelMachine {}).1 = t at hret hcancels
  obtain ⟨t₀, steps, rfl, hcalls, hrun⟩ := run_of_returns hret
  have hboot : ∀ step ∈ steps, step.dispatch ≠ .exitBoot := fun step hmem heq ↦ by
    have hin : Dispatch.exitBoot ∈ steps.map Step.dispatch := List.mem_map.mpr ⟨step, hmem, heq⟩
    rw [hcalls] at hin
    revert hin
    decide
  obtain ⟨htimers, -⟩ := timers_of_run hrun hboot (cancels_of_all hcancels)
  exact ⟨t₀, steps, d, hrun, hcalls, hinstalled, (congrFun htimers .poll).trans hready, htimers⟩

/-- **Nothing is left running.** Once the driver has left boot services no timer is armed, and
whatever is called, nothing is done but what the pointer protocol is for: no access and no
transfer. -/
theorem quiet_of_run (hrun : Run (touchI2cDxeEntry entries) t₀ steps d)
    (hleft : ∃ step ∈ steps, step.dispatch = .exitBoot)
    (hcancels : Cancels (t₀ ++ steps.flatMap Step.trace)) (hfires : FiresArmed t₀ steps) :
    (∀ e, armed (t₀ ++ steps.flatMap Step.trace) e = false) ∧ QuietAfterBoot steps := by
  obtain ⟨d₀, hentry, hsteps⟩ := hrun
  obtain ⟨hnone, hquiet⟩ := quiet_of_dispatches hsteps hcancels hfires
    (ticking_of_entry hentry (prefixClosed_cancels _ _ hcancels)) hleft
  exact ⟨congrFun hnone, hquiet⟩

/-- The driver polls once, leaves boot services and is asked for its state. -/
private def panelBoot : Touch Bool := do
  panelEntry
  let d ← get
  touchDispatch .poll
  touchDispatch .exitBoot
  touchDispatch (.getState true)
  return d.ready

private theorem firesArmed_panelBoot {t₁ t₂ t₃ : List (Event Uefi)} {d₁ d₂ : TouchDev}
    (hpoll : armed t₀ .poll = true) :
    FiresArmed t₀ [⟨d, .poll, t₁⟩, ⟨d₁, .exitBoot, t₂⟩, ⟨d₂, .getState true, t₃⟩] := by
  intro before step after e heq he
  rcases before with _ | ⟨first, _ | ⟨second, _ | ⟨third, rest⟩⟩⟩
  · obtain rfl := (List.cons.inj heq).1
    obtain rfl : TouchEvent.poll = e := Option.some.inj he
    rwa [List.flatMap_nil, List.append_nil]
  · obtain rfl := (List.cons.inj (List.cons.inj heq).2).1
    contradiction
  · obtain rfl := (List.cons.inj (List.cons.inj (List.cons.inj heq).2).2).1
    contradiction
  · simp at heq

theorem quiet_of_run_panel : ∃ t₀ steps d, Run panelEntry t₀ steps d ∧
    steps.map Step.dispatch = [.poll, .exitBoot, .getState true] ∧
    armed t₀ .poll = true ∧ (∀ e, armed (t₀ ++ steps.flatMap Step.trace) e = false) ∧
    QuietAfterBoot steps := by
  have hready : ((panelBoot.run {}).simulate panelMachine {}).2.map Prod.fst = some true := by
    decide +kernel
  have hcancels : ((panelBoot.run {}).simulate panelMachine {}).1.all cancelled = true := by
    decide +kernel
  obtain ⟨⟨_, d⟩, hsim, rfl⟩ := Option.map_eq_some_iff.mp hready
  have hret := Prog.returns_simulate hsim
  generalize ((panelBoot.run {}).simulate panelMachine {}).1 = t at hret hcancels
  obtain ⟨t₀, _, _, d₀, rfl, hentry, hrest⟩ := Prog.returnsS_bind.mp hret
  obtain ⟨_, _, _, _, rfl, hget, hrest⟩ := Prog.returnsS_bind.mp hrest
  obtain ⟨rfl, rfl, rfl⟩ := Prog.returnsS_get.mp hget
  obtain ⟨t₁, _, _, d₁, rfl, hpoll, hrest⟩ := Prog.returnsS_bind.mp hrest
  obtain ⟨t₂, _, _, d₂, rfl, hboot, hrest⟩ := Prog.returnsS_bind.mp hrest
  obtain ⟨t₃, _, _, d₃, rfl, hstate, hend⟩ := Prog.returnsS_bind.mp hrest
  obtain ⟨rfl, hready, rfl⟩ := Prog.returnsS_pure.mp hend
  have hcancels := cancels_of_all hcancels
  have hpollArmed : armed t₀ .poll = true := by
    have hticking := ticking_of_entry hentry (prefixClosed_cancels _ _ hcancels)
    exact (congrFun hticking.timers .poll).trans hready
  have hsteps : Dispatches d₀ [⟨d₀, .poll, t₁⟩, ⟨d₁, .exitBoot, t₂⟩, ⟨d₂, .getState true, t₃⟩] d₃ :=
    ((Dispatches.nil d₀).snoc .poll hpoll).snoc .exitBoot hboot |>.snoc _ hstate
  have hrun : Run panelEntry t₀ _ d₃ := ⟨d₀, hentry, hsteps⟩
  obtain ⟨hnone, hquiet⟩ := quiet_of_run hrun ⟨⟨d₁, .exitBoot, t₂⟩, by simp, rfl⟩
    (by simpa using hcancels) (firesArmed_panelBoot hpollArmed)
  exact ⟨t₀, _, d₃, hrun, rfl, hpollArmed, hnone, hquiet⟩

end

end TouchI2c
