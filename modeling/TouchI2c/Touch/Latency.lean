import TouchI2c.Bus.Cost
import TouchI2c.Touch.Ready

/-!
# How long a dispatch takes

Every handler but the retry spends a bounded time on the bus, whatever the panel and the controller
do: a poll makes at most one recovery, one command and one read of the longest report. The bound
depends on the transport that the driver has selected, and on how long an access and a request to
the firmware take.

Counted are the register accesses, the stalls of the driver and the requests that the firmware
carries out; all other services of the firmware are free, and so is the log. The retry is left out
because it is an attempt, which may sweep every controller of a profile.

A dispatch is bounded in the state it starts from, so the bound needs of the run before it only that
the state names a transport and a descriptor whose lengths have passed the checks.
-/

namespace TouchI2c

open CMemory Interaction

variable {access request : ℕ} {d : TouchDev} {s : ℕ}

/-! ## The bounds -/

theorem mtkTransferTime_mono {budget budget' : ℕ} (h : budget ≤ budget') :
    mtkTransferTime access budget ≤ mtkTransferTime access budget' := by
  have hturns : mtkPollTurns budget ≤ mtkPollTurns budget' :=
    Nat.div_le_div_right (Nat.add_le_add_right h 19)
  exact Nat.add_le_add_right (Nat.mul_le_mul_right _ hturns) _

theorem I2cBusKind.xferTime_mono (kind : I2cBusKind) (wLen : ℕ) {rLen rLen' : ℕ}
    (h : rLen ≤ rLen') :
    kind.xferTime access request wLen rLen ≤ kind.xferTime access request wLen rLen' := by
  cases kind with
  | designWare =>
    refine Nat.mul_le_mul_right _ ?_
    unfold xferAccesses
    omega
  | mediaTek =>
    have hbudget : mtkXferBudget wLen rLen ≤ mtkXferBudget wLen rLen' := by
      unfold mtkXferBudget
      have hbytes : (wLen + rLen) * mtkXferBudgetPerByte ≤ (wLen + rLen') * mtkXferBudgetPerByte :=
        Nat.mul_le_mul_right _ (Nat.add_le_add_left h _)
      omega
    exact Nat.mul_le_mul_left 2 (Nat.add_le_add_right (mtkTransferTime_mono hbudget) _)
  | firmware => exact le_rfl

/-- The time that a poll takes at most. -/
def I2cBusKind.pollTime (access request : ℕ) (kind : I2cBusKind) : ℕ :=
  kind.reinitTime access + kind.xferTime access request 4 0 + kind.xferTime access request 0 1024

/-- The time that a dispatch other than a retry takes at most. -/
def I2cBusKind.dispatchTime (access request : ℕ) (kind : I2cBusKind) : Dispatch → ℕ
  | .poll => kind.pollTime access request
  | .exitBoot => kind.disableTime access
  | _ => 0

/-! ## The poll -/

/-- What costs nothing. -/
private def Free (access request : ℕ) (e : UefiOp) : Prop := spends access request e = 0

private theorem keeps_free : (clock access request).Keeps (Free access request) (· = s) := by
  rintro e s' he rfl
  refine wp_perform_metering.mpr fun r ↦ ?_
  rw [he, Nat.add_zero]

private theorem DisplayQuery.free {e : UefiOp} (h : DisplayQuery e) : Free access request e := by
  cases e <;> first | exact h.elim | rfl

private theorem PointerService.free {e : UefiOp} (h : PointerService e) : Free access request e := by
  cases e <;> first | exact h.elim | rfl

/-- Whatever the environment does, a poll keeps the input path and the transport. -/
private theorem pollRules_any : PollRules (within AnyOp).world (fun _ _ ↦ True) d.bus d.i2cBase
    d.slaveAddr := pollRules_work fun _ _ _ _ ↦ wp_uefi.mpr ⟨trivial, fun _ ↦ trivial⟩

private theorem touchPollReinit_takes (hd : d.InputPath) :
    (clock access request).wpS touchPollReinit (fun goOn d' s' ↦
      s' ≤ s + (d.bus.mKind.reinitTime access + d.bus.mKind.xferTime access request 4 0) ∧
        PollPost d d' ∧ (goOn = true → d'.needReinit = false)) d s := by
  have htime : (clock access request).wpS touchPollReinit (fun _ _ s' ↦
      s' ≤ s + (d.bus.mKind.reinitTime access + d.bus.mKind.xferTime access request 4 0)) d s := by
    rw [touchPollReinit, World.wpS_bind, World.wpS_get]
    split
    · rw [World.wpS_bind, wpS_onBus]
      refine World.wpS_mono (World.wpS_and_within (i2cBusReinit_takes d.slaveAddr)
        (i2cBusReinit_within (P := AnyOp) (R := fun _ ↦ True) (fun _ _ ↦ trivial)
          (fun _ _ ↦ trivial) d.slaveAddr)) fun status bus s₁ h₁ ↦ ?_
      obtain ⟨hle, hwindows⟩ := h₁
      split
      · rw [World.wpS_pure]
        omega
      · rw [World.wpS_bind, wpS_onBus, i2cHidSetPower, i2cHidCommand, World.wpS_bind]
        refine World.wpS_mono (i2cBusXfer_takes ⟨le_rfl, Nat.zero_le _⟩) fun r bus' s₂ h₂ ↦ ?_
        rw [hwindows.mKind] at h₂
        rw [World.wpS_pure, World.wpS_bind, World.wpS_modify, World.wpS_pure]
        omega
    · exact Nat.le_add_right s _
  exact World.wpS_and_within htime (World.wpS_mono
    (pollRules_any.wpS_touchPollReinit hd trivial) fun _ _ _ h ↦ ⟨h.1, h.2.2⟩)

private theorem touchReceive_takes (hd : d.InputPath) (hnot : d.needReinit = false) :
    (clock access request).wpS touchReceive (fun _ d' s' ↦
      s' ≤ s + d.bus.mKind.xferTime access request 0 1024 ∧ PollPost d d') d s := by
  obtain ⟨b, hb, hlen⟩ := hd.buffer
  have htime : (clock access request).wpS touchReceive (fun _ _ s' ↦
      s' ≤ s + d.bus.mKind.xferTime access request 0 1024) d s := by
    have hmono : d.bus.mKind.xferTime access request 0 d.maxInputLength ≤ _ :=
      d.bus.mKind.xferTime_mono 0 hd.upper
    rw [touchReceive, World.wpS_bind, World.wpS_get, World.wpS_bind, wpS_onBus]
    refine World.wpS_mono (i2cBusXfer_takes ⟨Nat.zero_le _, by rw [hb]; exact hlen.ge⟩)
      fun r bus s₁ h₁ ↦ ?_
    have hle : s₁ ≤ s + d.bus.mKind.xferTime access request 0 1024 := h₁.trans (by omega)
    dsimp only
    rw [World.wpS_bind, World.wpS_modify]
    split
    · exact hle
    split <;> exact hle
  exact World.wpS_and_within htime (World.wpS_mono
    (pollRules_any.wpS_touchReceive hd hnot trivial) fun _ _ _ h ↦ h.1)

/-- **A poll takes bounded time.** -/
theorem touchPoll_takes (hd : d.ready = true → d.InputPath) :
    (clock access request).wpS touchPoll
      (fun _ _ s' ↦ s' ≤ s + d.bus.mKind.pollTime access request) d s := by
  rw [touchPoll, World.wpS_bind, World.wpS_get]
  split
  · next hready =>
    rw [World.wpS_bind]
    unfold I2cBusKind.pollTime
    refine World.wpS_mono (touchPollReinit_takes (hd hready)) fun goOn d₁ s₁ h₁ ↦ ?_
    obtain ⟨hle₁, hpost₁, hgoOn⟩ := h₁
    split
    · next hgo =>
      rw [World.wpS_bind]
      refine World.wpS_mono (touchReceive_takes hpost₁.path (hgoOn hgo)) fun received d₂ s₂ h₂ ↦ ?_
      obtain ⟨hle₂, hpost₂⟩ := h₂
      rw [hpost₁.windows.mKind] at hle₂
      split
      · refine World.wpS_mono (wpS_touchDecode (keeps_free.mono fun _ ↦ DisplayQuery.free)
          hpost₂.path rfl) fun _ d₃ s₃ h₃ ↦ ?_
        rw [h₃.2]
        omega
      · rw [World.wpS_pure]
        omega
    · rw [World.wpS_pure]
      omega
  · exact Nat.le_add_right s _

/-! ## Every dispatch -/

theorem touchExitBootServices_takes : (clock access request).wpS touchExitBootServices
    (fun _ _ s' ↦ s' ≤ s + d.bus.mKind.disableTime access) d s := by
  have hcancel : ∀ {s} e present, (clock access request).wp (cancelTimerOf e present)
      (fun _ s' ↦ s' = s) s := by
    intro s e present
    unfold cancelTimerOf
    split
    · rw [World.wp_bind]
      exact wp_perform_metering.mpr fun _ ↦ rfl
    · exact rfl
  rw [touchExitBootServices, World.wpS_bind, World.wpS_get, World.wpS_bind, World.wpS_lift]
  refine World.wp_mono (hcancel _ _) fun _ s₁ h₁ ↦ ?_
  rw [World.wpS_bind, World.wpS_lift]
  refine World.wp_mono (hcancel _ _) fun _ s₂ h₂ ↦ ?_
  subst h₁ h₂
  split
  · rw [wpS_onBus]
    exact i2cBusDisable_takes
  · exact Nat.le_add_right _ _

theorem touchDispatch_takes {call : Dispatch} (hcall : call ≠ .retry)
    (hd : d.ready = true → d.InputPath) :
    (clock access request).wpS (touchDispatch call)
      (fun _ _ s' ↦ s' ≤ s + d.bus.mKind.dispatchTime access request call) d s := by
  have hpointer : (clock access request).Keeps PointerService (· = s) :=
    keeps_free.mono fun _ ↦ PointerService.free
  rw [touchDispatch, World.wpS_bind, World.wpS_get]
  split
  · cases call with
    | retry => exact absurd rfl hcall
    | poll => exact touchPoll_takes hd
    | exitBoot => exact touchExitBootServices_takes
    | waitForInput => exact World.wpS_mono (wpS_touchWaitForInput hpointer rfl) fun _ _ _ h ↦ h.2.le
    | reset extendedVerification =>
      change (clock access request).wpS (do let _ ← touchReset extendedVerification) _ _ _
      rw [World.wpS_bind]
      exact World.wpS_mono (wpS_touchReset hpointer _ rfl) fun _ _ _ h ↦ h.2.le
    | getState hasState =>
      change (clock access request).wpS (do let _ ← touchGetState hasState) _ _ _
      rw [World.wpS_bind]
      exact World.wpS_mono (wpS_touchGetState hpointer hasState rfl) fun _ _ _ h ↦ h.2.le
  · exact Nat.le_add_right s _

/-- **No handler hangs.** In every state that a run reaches, whatever a dispatch other than a retry
is answered, it has never spent more time than the bound of the selected transport. -/
theorem latency_of_run {entries : List ConfigurationEntry} {t₀ t : List (Event Uefi)}
    {steps : List Step} {call : Dispatch} {q : Prog Uefi (Unit × TouchDev)}
    (hrun : Run (touchI2cDxeEntry entries) t₀ steps d) (hcall : call ≠ .retry)
    (h : ((touchDispatch call).run d).Reaches t q) (access request : ℕ) :
    costOf (spends access request) t ≤ d.bus.mKind.dispatchTime access request call := by
  have hpath := fun hready ↦ (hrun.driverInv.ready hready).2
  have htakes : (clock access request).wpS (touchDispatch call) (fun _ _ s' ↦
      s' ≤ 0 + d.bus.mKind.dispatchTime access request call) d 0 := touchDispatch_takes hcall hpath
  have hnonempty : ∀ e, Nonempty (Uefi.Ret e) := UefiOp.nonempty_ret
  have hle := costOf_le_of_reaches htakes h
  omega

/-- A poll over the DesignWare transport. -/
theorem latency_of_run_panel : ∃ t₀ t d q, Run fixedEntry t₀ [] d ∧ d.bus.mKind = .designWare ∧
    ((touchDispatch .poll).run d).Reaches t q ∧ costOf (spends 1 7) t = 45 ∧
    costOf (spends 1 7) t ≤ d.bus.mKind.dispatchTime 1 7 .poll := by
  have hcost : ((fixedEntry.run {}).simulate dwPanelMachine {}).2.bind (fun r ↦
      let poll := ((touchDispatch .poll).run r.2).simulate dwPanelMachine {}
      poll.2.map fun _ ↦ (r.2.bus.mKind, costOf (spends 1 7) poll.1)) = some (.designWare, 45) := by
    decide +kernel
  obtain ⟨⟨_, d⟩, hsim, hpoll⟩ := Option.bind_eq_some_iff.mp hcost
  obtain ⟨r, hend, hvalues⟩ := Option.map_eq_some_iff.mp hpoll
  obtain ⟨hkind, hcost⟩ := Prod.mk.inj hvalues
  have hrun : Run fixedEntry _ [] d := ⟨d, Prog.returns_simulate hsim, .nil d⟩
  have hreach := Prog.returns_simulate hend
  exact ⟨_, _, d, _, hrun, hkind, hreach, hcost, latency_of_run hrun (by decide) hreach 1 7⟩

end TouchI2c
