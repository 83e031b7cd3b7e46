import TouchI2c.DwI2c.Budget
import TouchI2c.Interaction.Cost

/-!
# How long the DesignWare functions take

Bounds on the time that the functions of `DwI2c.c` take, whatever the registers read. Every access
takes at most `access` microseconds, every request to the firmware at most `request`, and a stall as
long as it says.

The functions without a loop cost what their accesses cost, and a poll its limit. For a transfer, a
pass of the main loop goes on after five accesses or leaves the transfer after a recovery; the loop
turns at most as often as the stall budget allows, so a transfer costs five accesses for each turn,
one more pass, one recovery and one wait for the STOP. The bounds are sums, closed over the
constants of the source and never evaluated.
-/

namespace TouchI2c

open CMemory Interaction

/-- How long an operation takes. -/
def spends (access request : ℕ) : UefiOp → ℕ
  | .mmioRead8 _ | .mmioRead16 _ | .mmioRead32 _ => access
  | .mmioWrite8 _ _ | .mmioWrite16 _ _ | .mmioWrite32 _ _ => access
  | .pciRead8 _ _ | .pciRead16 _ _ | .pciRead32 _ _ | .pciWrite16 _ _ _ => access
  | .pciEnableMemory _ => access
  | .queueRequest _ _ _ _ | .startRequest _ _ _ _ => request
  | .stall us => us
  | _ => 0

/-- The world that keeps the time. -/
abbrev clock (access request : ℕ) : World Uefi ℕ := (metering (spends access request)).world

section

variable {access request : ℕ} {base : UInt64} {s : ℕ}

theorem wp_regRd_clock {off : UInt64} {Q : UInt32 → ℕ → Prop} :
    (clock access request).wp (regRd base off) Q s ↔ ∀ v, Q v (s + access) := wp_perform_metering

theorem wp_regWr_clock {off : UInt64} {val : UInt32} {Q : Unit → ℕ → Prop} :
    (clock access request).wp (regWr base off val) Q s ↔ Q () (s + access) :=
  wp_perform_metering.trans ⟨fun h ↦ h (), fun h _ ↦ h⟩

theorem pollReg_takes (off : UInt64) (test : UInt32 → Bool) (n : ℕ) :
    (clock access request).wp (pollReg base off test n) (fun _ s' ↦ s' ≤ s + n * access) s := by
  induction n generalizing s with
  | zero => exact Nat.le_add_right s _
  | succ n ih =>
    rw [pollReg, World.wp_bind, wp_regRd_clock]
    intro v
    rw [Nat.succ_mul]
    split
    · rw [Prog.pure_eq, World.wp_pure]
      omega
    · exact World.wp_mono ih fun _ s' h' ↦ by omega

/-- The accesses of a disable at most. -/
def disableAccesses : ℕ := dwPollLimit + 1

theorem dwI2cDisable_takes : (clock access request).wp (dwI2cDisable base)
    (fun _ s' ↦ s' ≤ s + disableAccesses * access) s := by
  rw [dwI2cDisable, World.wp_bind, wp_regWr_clock, World.wp_bind]
  refine World.wp_mono (pollReg_takes _ _ _) fun done s' h' ↦ ?_
  have hle : s' ≤ s + disableAccesses * access := by
    rw [disableAccesses, Nat.succ_mul]
    omega
  split <;> exact hle

theorem programTiming_takes (forceTiming : Option DwI2cTiming) :
    (clock access request).wp (programTiming base forceTiming)
      (fun _ s' ↦ s' ≤ s + 7 * access) s := by
  have hcounts : ∀ {s hcntOff lcntOff force hcnt lcnt}, (clock access request).wp
      (programCounts base hcntOff lcntOff force hcnt lcnt) (fun _ s' ↦ s' ≤ s + 4 * access) s := by
    intro s hcntOff lcntOff force hcnt lcnt
    have hmissing : (clock access request).wp (countsMissing base hcntOff lcntOff force)
        (fun _ s' ↦ s' ≤ s + 2 * access) s := by
      unfold countsMissing
      split
      · exact Nat.le_add_right s _
      · rw [World.wp_bind, wp_regRd_clock]
        intro v
        split
        · rw [Prog.pure_eq, World.wp_pure]
          omega
        · rw [World.wp_bind, wp_regRd_clock]
          intro v
          rw [Prog.pure_eq, World.wp_pure]
          omega
    rw [programCounts, World.wp_bind]
    refine World.wp_mono hmissing fun missing s' h' ↦ ?_
    split
    · rw [World.wp_bind, wp_regWr_clock, wp_regWr_clock]
      omega
    · rw [Prog.pure_eq, World.wp_pure]
      omega
  rw [programTiming, World.wp_bind, wp_regRd_clock]
  intro v
  dsimp only
  rw [World.wp_bind, wp_regWr_clock, World.wp_bind]
  have hspeed : ∀ {s speed force timing}, (clock access request).wp
      (programSpeed base speed force timing) (fun _ s' ↦ s' ≤ s + 4 * access) s := by
    intro s speed force timing
    unfold programSpeed
    split <;> exact hcounts
  refine World.wp_mono hspeed fun _ s' h' ↦ ?_
  split
  · rw [wp_regWr_clock]
    omega
  · rw [Prog.pure_eq, World.wp_pure]
    omega

/-- The accesses of `DwI2cInit` at most. -/
def initAccesses : ℕ := 2 * dwPollLimit + 13

theorem dwI2cInit_takes (slaveAddr : UInt8) (forceTiming : Option DwI2cTiming) :
    (clock access request).wp (dwI2cInit base slaveAddr forceTiming)
      (fun _ s' ↦ s' ≤ s + initAccesses * access) s := by
  have hsum : initAccesses * access = disableAccesses * access + dwPollLimit * access +
      12 * access := by
    rw [initAccesses, disableAccesses, ← Nat.add_mul, ← Nat.add_mul]
    congr 1
  rw [dwI2cInit, World.wp_bind]
  refine World.wp_mono dwI2cDisable_takes fun status s₁ h₁ ↦ ?_
  split
  · rw [Prog.pure_eq, World.wp_pure]
    omega
  · rw [World.wp_bind]
    refine World.wp_mono (programTiming_takes forceTiming) fun _ s₂ h₂ ↦ ?_
    simp only [World.wp_bind, wp_regWr_clock]
    refine World.wp_mono (pollReg_takes _ _ _) fun done s₃ h₃ ↦ ?_
    have hle : s₃ ≤ s + initAccesses * access := by omega
    split <;> exact hle

/-- The accesses of `DwI2cRecover` at most. -/
def recoverAccesses : ℕ := 2 * dwPollLimit + 4

theorem dwI2cRecover_takes : (clock access request).wp (dwI2cRecover base)
    (fun _ s' ↦ s' ≤ s + recoverAccesses * access) s := by
  have hsum : recoverAccesses * access = disableAccesses * access + dwPollLimit * access +
      3 * access := by
    rw [recoverAccesses, disableAccesses, ← Nat.add_mul, ← Nat.add_mul]
    congr 1
  rw [dwI2cRecover, World.wp_bind]
  refine World.wp_mono dwI2cDisable_takes fun status s₁ h₁ ↦ ?_
  split
  · rw [Prog.pure_eq, World.wp_pure]
    omega
  · rw [World.wp_bind, wp_regWr_clock, World.wp_bind]
    refine World.wp_mono (pollReg_takes _ _ _) fun _ s₂ h₂ ↦ ?_
    rw [World.wp_bind, wp_regRd_clock]
    intro _
    rw [World.wp_bind, wp_regRd_clock]
    intro _
    rw [Prog.pure_eq, World.wp_pure]
    omega

theorem handleAbort_takes : (clock access request).wp (handleAbort base)
    (fun _ s' ↦ s' ≤ s + (recoverAccesses + 2) * access) s := by
  rw [handleAbort, World.wp_bind, classifyAbort, World.wp_bind, wp_regRd_clock, Nat.add_mul]
  intro src
  rw [World.wp_bind, wp_regRd_clock]
  intro _
  rw [Prog.pure_eq, World.wp_pure]
  generalize (if src &&& dwIcAbrt7bAddrNoack != 0 then EfiStatus.noResponse
    else EfiStatus.deviceError) = status
  split
  · rw [World.wp_bind]
    refine World.wp_mono dwI2cRecover_takes fun _ s₂ h₂ ↦ ?_
    rw [Prog.pure_eq, World.wp_pure]
    omega
  · rw [Prog.pure_eq, World.wp_pure]
    omega

/-! ## Transfers -/

variable {x : XferArgs} {rBuf : Option (List UInt8)} {st : XferState} {got : List UInt8}

/-- What the time that a pass of the main loop takes depends on: it goes on after five accesses, or
leaves the transfer after a recovery. -/
theorem xferPass_takes (h : st.Counts x rBuf got) (hx : x.Valid rBuf) :
    (clock access request).wp (xferPass x st)
      (fun r s' ↦ s' ≤ s + match r with
        | .inl _ => 5 * access
        | .inr (_, some _) => (recoverAccesses + 5) * access
        | .inr (_, none) => 0) s := by
  have hrecover : (recoverAccesses + 5) * access = recoverAccesses * access + 5 * access :=
    Nat.add_mul ..
  unfold xferPass
  split
  · rw [World.wp_bind, wp_regRd_clock]
    intro intr
    split
    · rw [World.wp_bind]
      refine World.wp_mono handleAbort_takes fun status s₁ h₁ ↦ ?_
      rw [Nat.add_mul] at h₁
      rw [Prog.pure_eq, World.wp_pure]
      dsimp only
      omega
    · -- one look at the interrupts, one at the status, a command, and two reads for a byte
      have hqueue : ∀ {s} ic, (clock access request).wp (xferQueue x st ic)
          (fun r s' ↦ (∃ got', r.1.Counts x rBuf got') ∧ s' ≤ s + access) s := by
        intro s ic
        rw [h.xferQueue_eq hx]
        split
        · next hq =>
          rw [World.wp_bind, wp_regWr_clock]
          exact ⟨⟨got, h.queued hq.2⟩, le_rfl⟩
        · exact ⟨⟨got, h⟩, Nat.le_add_right s _⟩
      have hdrain : ∀ {s} {st : XferState} {got}, st.Counts x rBuf got →
          (clock access request).wp (xferDrain x st) (fun _ s' ↦ s' ≤ s + 2 * access) s := by
        intro s st got h
        rw [h.xferDrain_eq hx]
        split
        · rw [World.wp_bind, wp_regRd_clock]
          intro ic
          split
          · rw [World.wp_bind, wp_regRd_clock]
            intro v
            rw [Prog.pure_eq, World.wp_pure]
            omega
          · rw [Prog.pure_eq, World.wp_pure]
            omega
        · exact Nat.le_add_right s _
      rw [World.wp_bind, wp_regRd_clock]
      intro ic
      rw [World.wp_bind]
      refine World.wp_mono (hqueue ic) fun r₁ s₁ h₁ ↦ ?_
      obtain ⟨⟨got₁, hcounts⟩, hle₁⟩ := h₁
      rw [World.wp_bind]
      refine World.wp_mono (hdrain hcounts) fun r₂ s₂ h₂ ↦ ?_
      dsimp only
      split
      · rw [Prog.pure_eq, World.wp_pure]
        dsimp only
        omega
      split
      · rw [World.wp_bind]
        refine World.wp_mono dwI2cRecover_takes fun _ s₃ h₃ ↦ ?_
        rw [Prog.pure_eq, World.wp_pure]
        dsimp only
        omega
      · rw [Prog.pure_eq, World.wp_pure]
        dsimp only
        omega
  · exact Nat.le_refl s

/-- What the main loop can still turn: with progress, and on the stall budget. -/
def XferState.turns (x : XferArgs) (st : XferState) : ℕ :=
  (x.wLen + 2 * x.rLen - st.done) + (dwXferSpinBudget + 1 - st.totalSpin)

theorem XferState.Turned.turns_lt {st' : XferState} (h : st.Turned x rBuf st')
    (hspin : st.totalSpin ≤ dwXferSpinBudget) : st'.turns x + 1 ≤ st.turns x := by
  obtain ⟨got', hcounts⟩ := h.counts
  have hdone := hcounts.done_le
  unfold turns
  obtain ⟨hmoved, htotal⟩ | ⟨hsame, htotal, hbudget⟩ := h.moved <;> omega

/-- The accesses of the wait for the STOP at most. -/
def stopAccesses : ℕ := 2 * dwPollLimit + recoverAccesses + 3

theorem xferStop_takes (n : ℕ) : (clock access request).wp (xferStop x n)
    (fun _ s' ↦ s' ≤ s + (2 * n * access + (recoverAccesses + 3) * access)) s := by
  have hrecover : (recoverAccesses + 3) * access = recoverAccesses * access + 3 * access :=
    Nat.add_mul ..
  induction n generalizing s with
  | zero =>
    rw [xferStop, World.wp_bind]
    refine World.wp_mono dwI2cRecover_takes fun _ s₁ h₁ ↦ ?_
    rw [Prog.pure_eq, World.wp_pure]
    omega
  | succ n ih =>
    have hsucc : 2 * (n + 1) * access = 2 * n * access + 2 * access := by
      rw [Nat.mul_add, Nat.add_mul]
    rw [xferStop, World.wp_bind, wp_regRd_clock]
    intro intr
    split
    · refine World.wp_mono handleAbort_takes fun _ s₁ h₁ ↦ ?_
      rw [Nat.add_mul] at h₁
      omega
    · rw [World.wp_bind, wp_regRd_clock]
      intro ic
      split
      · rw [World.wp_bind, wp_regRd_clock]
        intro _
        rw [Prog.pure_eq, World.wp_pure]
        omega
      · refine World.wp_mono ih fun _ s₁ h₁ ↦ ?_
        omega

/-- The accesses of `DwI2cXfer` at most. -/
def xferAccesses (wLen rLen : ℕ) : ℕ :=
  5 * (wLen + 2 * rLen + dwXferSpinBudget + 1) + recoverAccesses + stopAccesses + 7

/-- The main loop: five accesses for each turn, and more if it leaves the transfer. -/
theorem loop_takes (hx : x.Valid rBuf) {n : ℕ} (hn : (XferState.start rBuf).turns x < n) :
    (clock access request).wp (Prog.iterate (xferPass x) n (.start rBuf))
      (fun r s' ↦ s' ≤ s + 5 * ((XferState.start rBuf).turns x * access) +
        match r.2 with
        | some _ => (recoverAccesses + 5) * access
        | none => 0) s := by
  refine World.wp_iterate
    (fun st s' ↦ (∃ got, st.Counts x rBuf got) ∧ st.totalSpin ≤ dwXferSpinBudget ∧
      s' + 5 * (st.turns x * access) ≤ s + 5 * ((XferState.start rBuf).turns x * access))
    (·.turns x) ?_ ⟨⟨[], XferState.counts_start x rBuf⟩, Nat.zero_le _, le_rfl⟩ hn
  rintro st s₁ ⟨⟨got, hcounts⟩, hspin, hle⟩
  -- the time of a pass, together with what the pass did to the counters
  refine World.wp_mono (wp_returned (xferPass_takes hcounts hx)) fun r s₂ h₂ ↦ ?_
  obtain ⟨htime, t, hret⟩ := h₂
  have hturned := XferState.turned_xferPass hcounts hx hret
  match r with
  | .inl st' =>
    have hturned : st.Turned x rBuf st' := hturned
    have hlt := hturned.turns_lt hspin
    have hstep : (st'.turns x + 1) * access ≤ st.turns x * access := Nat.mul_le_mul_right _ hlt
    rw [Nat.succ_mul] at hstep
    refine ⟨⟨hturned.counts, ?_, ?_⟩, hlt⟩
    · obtain ⟨-, htotal⟩ | ⟨-, -, hbudget⟩ := hturned.moved
      · exact htotal.trans_le hspin
      · exact hbudget
    · dsimp only at htime
      omega
  | .inr (st', some status) =>
    change s₂ ≤ s + _ + (recoverAccesses + 5) * access
    dsimp only at htime
    omega
  | .inr (st', none) =>
    change s₂ ≤ s + _ + 0
    dsimp only at htime
    omega

theorem XferState.turns_start :
    (XferState.start rBuf).turns x = x.wLen + 2 * x.rLen + dwXferSpinBudget + 1 := by
  unfold turns done start
  dsimp only
  omega

/-- **A transfer takes bounded time**: a pass of the main loop costs five accesses, and a transfer
makes one more pass than it has turns, recovers at most once, and waits for one STOP. -/
theorem dwI2cXfer_takes {wBuf : Option (List UInt8)} {wLen rLen : ℕ}
    (hbuf : XferBuffers wBuf wLen rBuf rLen) :
    (clock access request).wp (dwI2cXfer base wBuf wLen rBuf rLen)
      (fun _ s' ↦ s' ≤ s + xferAccesses wLen rLen * access) s := by
  unfold dwI2cXfer
  split
  · exact Nat.le_add_right s _
  · rw [World.wp_bind, wp_regRd_clock]
    intro _
    rw [World.wp_bind, wp_regRd_clock]
    intro _
    rw [World.wp_bind]
    have hx : (⟨base, wBuf, wLen, rLen⟩ : XferArgs).Valid rBuf := ⟨hbuf.w, hbuf.r⟩
    have hturns := @XferState.turns_start ⟨base, wBuf, wLen, rLen⟩ rBuf
    have hsum : xferAccesses wLen rLen = 5 * (XferState.start rBuf).turns ⟨base, wBuf, wLen, rLen⟩ +
        ((recoverAccesses + 5) + (stopAccesses + 2)) := by
      rw [hturns, xferAccesses]
      dsimp only
      omega
    have hbound : (XferState.start rBuf).turns ⟨base, wBuf, wLen, rLen⟩ <
        xferBound ⟨base, wBuf, wLen, rLen⟩ := by
      rw [hturns, xferBound]
      exact Nat.lt_succ_self _
    have hstop : 2 * dwPollLimit * access + (recoverAccesses + 3) * access =
        stopAccesses * access := by
      rw [← Nat.add_mul, stopAccesses, Nat.add_assoc]
    rw [hsum, Nat.add_mul, Nat.add_mul _ _ access, Nat.mul_assoc, Nat.add_mul stopAccesses]
    refine World.wp_mono (loop_takes hx hbound) fun r s₁ h₁ ↦ ?_
    match r with
    | (st, some status) =>
      change s₁ ≤ _ + _ + (recoverAccesses + 5) * access at h₁
      dsimp only
      rw [Prog.pure_eq, World.wp_pure]
      omega
    | (st, none) =>
      change s₁ ≤ _ + _ + 0 at h₁
      dsimp only
      rw [World.wp_bind]
      refine World.wp_mono (xferStop_takes dwPollLimit) fun status s₂ h₂ ↦ ?_
      rw [Prog.pure_eq, World.wp_pure]
      rw [hstop] at h₂
      omega

end

end TouchI2c
