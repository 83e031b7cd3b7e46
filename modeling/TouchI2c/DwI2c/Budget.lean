import TouchI2c.DwI2c.Footprint
import TouchI2c.Interaction.Simulate

/-!
# The stall budget of a transfer

How often the main loop of `DwI2cXfer` can turn. A pass that queues a command or drains a byte
resets the spin counter, but there are only `WLen + 2 * RLen` of those; every other pass counts
against `DW_XFER_SPIN_BUDGET`, which nothing resets.

## The measure

`turned_xferPass` says what one pass does, whatever it is answered: it makes progress and leaves the
budget alone, or makes none and takes one from the budget, or leaves the loop. Progress is counted
by the commands queued and the bytes received together, and is bounded by the stream. So the flags
of the passes of any run add up as claimed (`Iterations.count_le`), and the bound under which the
loop is modelled is never reached.

## The end

A timeout is reported in three places: in the loop, where the spin counter or the budget is used up,
and in the wait for the STOP. Each of them recovers first, so the last act of a transfer that times
out is a `DwI2cRecover`.
-/

namespace TouchI2c

open CMemory Interaction

/-! ## Iterations of the main loop -/

/-- What the three counters of the transfer add up to. -/
def XferState.done (st : XferState) : ℕ := st.wSent + st.rQueued + st.rGot

/-- The loop's state when it is entered. -/
def XferState.start (rBuf : Option (List UInt8)) : XferState := ⟨0, 0, 0, 0, 0, rBuf⟩

/-- Iterations of the main loop one after the other, whatever they are answered, each with whether
it made progress. The last may leave the transfer from inside the loop. -/
inductive Iterations (x : XferArgs) : XferState → List Bool → Prop
  | nil (st : XferState) : Iterations x st []
  | again {st st' : XferState} {t : List (Event Uefi)} {flags : List Bool}
      (h : (xferPass x st).Returns t (.inl st')) (rest : Iterations x st' flags) :
      Iterations x st (decide (st.done < st'.done) :: flags)
  | leave {st st' : XferState} {t : List (Event Uefi)} {status : EfiStatus}
      (h : (xferPass x st).Returns t (.inr (st', some status))) : Iterations x st [false]

namespace XferState

variable {x : XferArgs} {rBuf : Option (List UInt8)} {st st' : XferState} {got : List UInt8}
  {t : List (Event Uefi)}

theorem Counts.done_le (h : st.Counts x rBuf got) : st.done ≤ x.wLen + 2 * x.rLen := by
  have hsent := h.wSent
  have hqueued := h.rQueued
  have hgot := h.rGot
  unfold done
  omega

theorem done_queued : (st.queued x).done = st.done + 1 := by
  unfold queued done
  split <;> dsimp only <;> omega

/-- What part of a pass did to the loop: it made progress, or nothing. -/
structure Moved (x : XferArgs) (rBuf : Option (List UInt8)) (st st' : XferState) (progress : Bool) :
    Prop where
  counts : ∃ got, st'.Counts x rBuf got
  totalSpin : st'.totalSpin = st.totalSpin
  forward : progress = true → st.done < st'.done
  still : progress = false → st' = st

theorem Moved.done_le {progress : Bool} (h : Moved x rBuf st st' progress) :
    st.done ≤ st'.done := by
  cases progress with
  | true => exact (h.forward rfl).le
  | false => rw [h.still rfl]

theorem moved_xferQueue (h : st.Counts x rBuf got) (hx : x.Valid rBuf) {ic : UInt32}
    {progress : Bool} (hret : (xferQueue x st ic).Returns t (st', progress)) :
    Moved x rBuf st st' progress := by
  rw [h.xferQueue_eq hx] at hret
  split at hret
  · next hq =>
    obtain ⟨t₁, t₂, _, rfl, -, hend⟩ := Prog.returns_bind.mp hret
    obtain ⟨-, heq⟩ := Prog.returns_pure.mp hend
    obtain ⟨rfl, rfl⟩ := Prod.mk.injEq .. ▸ heq
    refine ⟨⟨got, h.queued hq.2⟩, totalSpin_queued, fun _ ↦ ?_, fun hfalse ↦ by contradiction⟩
    rw [done_queued]
    exact Nat.lt_succ_self _
  · obtain ⟨-, heq⟩ := Prog.returns_pure.mp hret
    obtain ⟨rfl, rfl⟩ := Prod.mk.injEq .. ▸ heq
    exact ⟨⟨got, h⟩, rfl, fun htrue ↦ by contradiction, fun _ ↦ rfl⟩

theorem moved_xferDrain (h : st.Counts x rBuf got) (hx : x.Valid rBuf) {progress : Bool}
    (hret : (xferDrain x st).Returns t (st', progress)) : Moved x rBuf st st' progress := by
  have hsame : st' = st → progress = false → Moved x rBuf st st' progress := by
    rintro rfl rfl
    exact ⟨⟨got, h⟩, rfl, fun htrue ↦ by contradiction, fun _ ↦ rfl⟩
  rw [h.xferDrain_eq hx] at hret
  split at hret
  · next hlt =>
    obtain ⟨t₁, t₂, v, rfl, -, hret⟩ := Prog.returns_bind.mp hret
    split at hret
    · obtain ⟨t₃, t₄, b, rfl, -, hend⟩ := Prog.returns_bind.mp hret
      obtain ⟨-, heq⟩ := Prog.returns_pure.mp hend
      obtain ⟨rfl, rfl⟩ := Prod.mk.injEq .. ▸ heq
      refine ⟨⟨_, h.drained hlt _⟩, rfl, fun _ ↦ ?_, fun hfalse ↦ by contradiction⟩
      unfold done
      dsimp only
      omega
    · obtain ⟨-, heq⟩ := Prog.returns_pure.mp hret
      obtain ⟨hst, hprogress⟩ := Prod.mk.injEq .. ▸ heq
      exact hsame hst hprogress
  · obtain ⟨-, heq⟩ := Prog.returns_pure.mp hret
    obtain ⟨hst, hprogress⟩ := Prod.mk.injEq .. ▸ heq
    exact hsame hst hprogress

/-- The loop after a pass: one counter has moved, or the stall budget has been used and lasts. -/
structure Turned (x : XferArgs) (rBuf : Option (List UInt8)) (st st' : XferState) : Prop where
  counts : ∃ got, st'.Counts x rBuf got
  moved : st.done < st'.done ∧ st'.totalSpin = st.totalSpin ∨
    st'.done = st.done ∧ st'.totalSpin = st.totalSpin + 1 ∧ st'.totalSpin ≤ dwXferSpinBudget

/-- How a pass that leaves the transfer ends: a timeout has been recovered from. -/
def Left (x : XferArgs) (t : List (Event Uefi)) (status : Option EfiStatus) : Prop :=
  status = some .timeout → ∃ t₁ t₂, t = t₁ ++ t₂ ∧ (dwI2cRecover x.base).Returns t₂ ()

private theorem classifyAbort_ne_timeout {base : UInt64} {status : EfiStatus}
    (hret : (classifyAbort base).Returns t status) : status ≠ .timeout := by
  obtain ⟨t₁, t₂, src, rfl, -, hclear⟩ := Prog.returns_bind.mp hret
  obtain ⟨t₃, t₄, _, rfl, -, hsrc⟩ := Prog.returns_bind.mp hclear
  obtain ⟨-, rfl⟩ := Prog.returns_pure.mp hsrc
  split <;> decide

theorem handleAbort_ne_timeout {base : UInt64} {status : EfiStatus}
    (hret : (handleAbort base).Returns t status) : status ≠ .timeout := by
  obtain ⟨t₁, t₂, src, rfl, hclass, hrest⟩ := Prog.returns_bind.mp hret
  have hne := classifyAbort_ne_timeout hclass
  dsimp only at hrest
  split at hrest
  · obtain ⟨t₃, t₄, _, rfl, -, hend⟩ := Prog.returns_bind.mp hrest
    obtain ⟨-, rfl⟩ := Prog.returns_pure.mp hend
    exact hne
  · obtain ⟨-, rfl⟩ := Prog.returns_pure.mp hrest
    exact hne

/-- **What one pass does**, whatever it is answered. -/
theorem turned_xferPass (h : st.Counts x rBuf got) (hx : x.Valid rBuf)
    {r : XferState ⊕ XferState × Option EfiStatus} (hret : (xferPass x st).Returns t r) :
    Sum.elim (fun st' ↦ Turned x rBuf st st') (fun r ↦ Left x t r.2) r := by
  unfold xferPass at hret
  split at hret
  · obtain ⟨t₁, t₂, intr, rfl, -, hret⟩ := Prog.returns_bind.mp hret
    split at hret
    · obtain ⟨t₃, t₄, status, rfl, habort, hend⟩ := Prog.returns_bind.mp hret
      obtain ⟨-, rfl⟩ := Prog.returns_pure.mp hend
      intro htimeout
      exact absurd (Option.some.inj htimeout) (handleAbort_ne_timeout habort)
    · obtain ⟨t₃, t₄, ic, rfl, -, hret⟩ := Prog.returns_bind.mp hret
      obtain ⟨t₅, t₆, ⟨st₁, queued⟩, rfl, hqueue, hret⟩ := Prog.returns_bind.mp hret
      obtain ⟨t₇, t₈, ⟨st₂, drained⟩, rfl, hdrain, hret⟩ := Prog.returns_bind.mp hret
      have h₁ := moved_xferQueue h hx hqueue
      obtain ⟨got₁, hcounts₁⟩ := h₁.counts
      have h₂ := moved_xferDrain hcounts₁ hx hdrain
      obtain ⟨got₂, hcounts₂⟩ := h₂.counts
      have htotal : st₂.totalSpin = st.totalSpin := h₂.totalSpin.trans h₁.totalSpin
      dsimp only at hret
      split at hret
      · next hprogress =>
        obtain ⟨-, rfl⟩ := Prog.returns_pure.mp hret
        refine ⟨⟨got₂, { hcounts₂ with }⟩, .inl ⟨?_, htotal⟩⟩
        change st.done < st₂.done
        obtain hq | hd := Bool.or_eq_true_iff.mp hprogress
        · exact (h₁.forward hq).trans_le h₂.done_le
        · exact h₁.done_le.trans_lt (h₂.forward hd)
      · next hprogress =>
        obtain ⟨hq, hd⟩ := Bool.or_eq_false_iff.mp (Bool.eq_false_iff.mpr hprogress)
        have hst : st₂ = st := (h₂.still hd).trans (h₁.still hq)
        split at hret
        · obtain ⟨t₉, t₁₀, _, rfl, hrecover, hend⟩ := Prog.returns_bind.mp hret
          obtain ⟨rfl, rfl⟩ := Prog.returns_pure.mp hend
          intro _
          exact ⟨t₁ ++ (t₃ ++ (t₅ ++ t₇)), t₉, by simp, hrecover⟩
        · next hbudget =>
          obtain ⟨-, rfl⟩ := Prog.returns_pure.mp hret
          refine ⟨⟨got₂, { hcounts₂ with }⟩, .inr ⟨?_, ?_, ?_⟩⟩
          · change st₂.done = st.done
            rw [hst]
          · change st₂.totalSpin + 1 = st.totalSpin + 1
            rw [htotal]
          · exact Nat.le_of_not_lt fun hover ↦ hbudget (.inr hover)
  · obtain ⟨-, rfl⟩ := Prog.returns_pure.mp hret
    intro htimeout
    contradiction

end XferState

/-- The passes that make progress use up the counters, and the others the stall budget. -/
theorem Iterations.count_le {x : XferArgs} {rBuf : Option (List UInt8)} {st : XferState}
    {got : List UInt8} {flags : List Bool} (hiter : Iterations x st flags)
    (h : st.Counts x rBuf got) (hx : x.Valid rBuf) (hspin : st.totalSpin ≤ dwXferSpinBudget) :
    flags.count true + st.done ≤ x.wLen + 2 * x.rLen ∧
      flags.count false + st.totalSpin ≤ dwXferSpinBudget + 1 := by
  induction hiter generalizing got with
  | nil st => exact ⟨by simpa using h.done_le, by simpa using Nat.le_succ_of_le hspin⟩
  | @again st st' t flags hret _ ih =>
    have hturned : st.Turned x rBuf st' := XferState.turned_xferPass h hx hret
    obtain ⟨got', hcounts⟩ := hturned.counts
    obtain ⟨hmoved, htotal⟩ | ⟨hdone, htotal, hbudget⟩ := hturned.moved
    · obtain ⟨htrue, hfalse⟩ := ih hcounts (htotal.trans_le hspin)
      rw [decide_eq_true hmoved, List.count_cons_self, List.count_cons_of_ne (by decide)]
      omega
    · obtain ⟨htrue, hfalse⟩ := ih hcounts hbudget
      rw [decide_eq_false (by omega), List.count_cons_self, List.count_cons_of_ne (by decide)]
      omega
  | leave hret =>
    have hdone := h.done_le
    have hone : [false].count true = 0 ∧ [false].count false = 1 := by decide
    omega

/-! ## Runs of the transfer -/

/-- A machine whose 32-bit registers read as the sequence says, whichever they are. -/
def readSequence (vals : ℕ → UInt32) (n : ℕ) : (e : UefiOp) → e.Ret × ℕ
  | .mmioRead32 _ => (vals n, n + 1)
  | e => (e.zeros, n)

/-- A wait for the STOP that times out ends with the recovery. -/
theorem recovered_xferStop {x : XferArgs} {n : ℕ} {t : List (Event Uefi)}
    (hret : (xferStop x n).Returns t .timeout) :
    ∃ t₁ t₂, t = t₁ ++ t₂ ∧ (dwI2cRecover x.base).Returns t₂ () := by
  induction n generalizing t with
  | zero =>
    obtain ⟨t₁, t₂, _, rfl, hrecover, hend⟩ := Prog.returns_bind.mp hret
    obtain ⟨rfl, -⟩ := Prog.returns_pure.mp hend
    exact ⟨[], t₁, by simp, hrecover⟩
  | succ n ih =>
    obtain ⟨t₁, t₂, intr, rfl, -, hret⟩ := Prog.returns_bind.mp hret
    split at hret
    · exact absurd rfl (XferState.handleAbort_ne_timeout hret)
    · obtain ⟨t₃, t₄, ic, rfl, -, hret⟩ := Prog.returns_bind.mp hret
      split at hret
      · obtain ⟨t₅, t₆, _, rfl, -, hend⟩ := Prog.returns_bind.mp hret
        obtain ⟨-, hstatus⟩ := Prog.returns_pure.mp hend
        contradiction
      · obtain ⟨u₁, u₂, rfl, hrecover⟩ := ih hret
        exact ⟨t₁ ++ (t₃ ++ u₁), u₂, by simp, hrecover⟩

/-- A main loop that ends with a timeout ends with the recovery. -/
theorem recovered_loop {x : XferArgs} {rBuf : Option (List UInt8)} (hx : x.Valid rBuf) {n : ℕ}
    {st st' : XferState} {got : List UInt8} (h : st.Counts x rBuf got) {t : List (Event Uefi)}
    (hret : (Prog.iterate (xferPass x) n st).Returns t (st', some .timeout)) :
    ∃ t₁ t₂, t = t₁ ++ t₂ ∧ (dwI2cRecover x.base).Returns t₂ () := by
  induction n generalizing st got t with
  | zero => exact absurd hret Prog.not_returns_fault
  | succ n ih =>
    obtain ⟨t₁, t₂, r, rfl, hpass, hrest⟩ := Prog.returns_bind.mp hret
    have hturned := XferState.turned_xferPass h hx hpass
    cases r with
    | inl st₁ =>
      obtain ⟨got₁, hcounts⟩ := XferState.Turned.counts hturned
      obtain ⟨u₁, u₂, rfl, hrecover⟩ := ih hcounts hrest
      exact ⟨t₁ ++ u₁, u₂, by simp, hrecover⟩
    | inr r =>
      obtain ⟨rfl, rfl⟩ := Prog.returns_pure.mp hrest
      obtain ⟨u₁, u₂, rfl, hrecover⟩ := hturned rfl
      exact ⟨u₁, u₂, by simp, hrecover⟩

/-- A transfer that times out ends with the recovery. -/
theorem recovered_dwI2cXfer {x : XferArgs} {rBuf rBuf' : Option (List UInt8)} (hx : x.Valid rBuf)
    {t : List (Event Uefi)}
    (hret : (dwI2cXfer x.base x.wBuf x.wLen rBuf x.rLen).Returns t (.timeout, rBuf')) :
    ∃ t₁ t₂, t = t₁ ++ t₂ ∧ (dwI2cRecover x.base).Returns t₂ () := by
  unfold dwI2cXfer at hret
  split at hret
  · obtain ⟨-, hstatus⟩ := Prog.returns_pure.mp hret
    cases hstatus
  · obtain ⟨t₁, t₂, _, rfl, -, hret⟩ := Prog.returns_bind.mp hret
    obtain ⟨t₃, t₄, _, rfl, -, hret⟩ := Prog.returns_bind.mp hret
    obtain ⟨t₅, t₆, ⟨st, status⟩, rfl, hloop, hret⟩ := Prog.returns_bind.mp hret
    cases status with
    | some status =>
      obtain ⟨rfl, hstatus⟩ := Prog.returns_pure.mp hret
      obtain ⟨rfl, -⟩ := Prod.mk.inj hstatus
      obtain ⟨u₁, u₂, rfl, hrecover⟩ := recovered_loop hx (XferState.counts_start x rBuf) hloop
      exact ⟨t₁ ++ (t₃ ++ u₁), u₂, by simp, hrecover⟩
    | none =>
      obtain ⟨t₇, t₈, status, rfl, hstop, hend⟩ := Prog.returns_bind.mp hret
      obtain ⟨rfl, hstatus⟩ := Prog.returns_pure.mp hend
      obtain ⟨rfl, -⟩ := Prod.mk.inj hstatus
      obtain ⟨u₁, u₂, rfl, hrecover⟩ := recovered_xferStop hstop
      exact ⟨t₁ ++ (t₃ ++ (t₅ ++ u₁)), u₂, by simp, hrecover⟩

/-- **A panel cannot hang the poll timer.** Whatever the registers read, the main loop turns at
most `WLen + 2 * RLen` times with progress and at most one time more than the stall budget
without, the transfer returns, and if it returns a timeout its last act was to recover. -/
theorem dwI2cXfer_ends (base : UInt64) (wBuf : Option (List UInt8)) (wLen : ℕ)
    (rBuf : Option (List UInt8)) (rLen : ℕ) (hbuf : XferBuffers wBuf wLen rBuf rLen) :
    (∀ flags, Iterations ⟨base, wBuf, wLen, rLen⟩ (.start rBuf) flags →
      flags.count true ≤ wLen + 2 * rLen ∧ flags.count false ≤ dwXferSpinBudget + 1) ∧
    (∀ vals, ∃ r,
      ((dwI2cXfer base wBuf wLen rBuf rLen).simulate (readSequence vals) 0).2 = some r) ∧
    ∀ t rBuf', (dwI2cXfer base wBuf wLen rBuf rLen).Returns t (.timeout, rBuf') →
      ∃ t₁ t₂, t = t₁ ++ t₂ ∧ (dwI2cRecover base).Returns t₂ () := by
  have hx : (⟨base, wBuf, wLen, rLen⟩ : XferArgs).Valid rBuf := ⟨hbuf.w, hbuf.r⟩
  refine ⟨fun flags hiter ↦ ?_, fun vals ↦ ?_, fun t rBuf' hret ↦ recovered_dwI2cXfer hx hret⟩
  · have hcount := hiter.count_le (XferState.counts_start _ rBuf) hx (Nat.zero_le _)
    exact hcount
  · have hwithin : (dwI2cXfer base wBuf wLen rBuf rLen).Within (RegAccess base fun _ ↦ True) _ :=
      dwI2cXfer_within (fun _ _ ↦ trivial) hbuf
    exact hwithin.simulate (readSequence vals) 0

/-! ### A panel that never answers -/

/-- The loop's state after `n` passes that did nothing. -/
def XferState.stalled (rBuf : Option (List UInt8)) (n : ℕ) : XferState := ⟨0, 0, 0, n, n, rBuf⟩

/-- What a pass is answered when the FIFO takes no command. -/
def stalledPass (base : UInt64) : List (Event Uefi) :=
  [⟨.mmioRead32 (base + dwIcRawIntrStat), 0⟩, ⟨.mmioRead32 (base + dwIcStatus), 0⟩]

/-- What the recovery is answered by a controller that follows its requests. -/
def stalledRecovery (base : UInt64) : List (Event Uefi) :=
  [⟨.mmioWrite32 (base + dwIcEnable) 0, ()⟩, ⟨.mmioRead32 (base + dwIcEnableStatus), 0⟩,
   ⟨.mmioWrite32 (base + dwIcEnable) dwIcEnableEnable, ()⟩,
   ⟨.mmioRead32 (base + dwIcEnableStatus), dwIcEnableStatusEn⟩,
   ⟨.mmioRead32 (base + dwIcClrTxAbrt), 0⟩, ⟨.mmioRead32 (base + dwIcClrStopDet), 0⟩]

private theorem returns_dwI2cRecover_stalled (base : UInt64) :
    (dwI2cRecover base).Returns (stalledRecovery base) () := by
  have hpoll : ∀ {test : UInt32 → Bool} {v : UInt32}, test v = true →
      (pollReg base dwIcEnableStatus test dwPollLimit).Returns
        [⟨.mmioRead32 (base + dwIcEnableStatus), v⟩] true := by
    intro test v htest
    rw [show dwPollLimit = 199999 + 1 from rfl, pollReg]
    refine Prog.returns_bind.mpr ⟨[_], [], v, rfl, .step _ (.refl _), ?_⟩
    rw [if_pos htest]
    exact .refl _
  have hoff : ((0 : UInt32) &&& dwIcEnableStatusEn == 0) = true := by decide
  have hon : (dwIcEnableStatusEn &&& dwIcEnableStatusEn != 0) = true := by decide
  have hdisable : (dwI2cDisable base).Returns ((stalledRecovery base).take 2) .success := by
    refine Prog.returns_bind.mpr ⟨[_], [_], (), rfl, .step _ (.refl _), ?_⟩
    exact Prog.returns_bind.mpr ⟨[_], [], true, rfl, hpoll hoff, .refl _⟩
  refine Prog.returns_bind.mpr ⟨_, (stalledRecovery base).drop 2, .success, rfl, hdisable, ?_⟩
  rw [if_neg (by decide)]
  refine Prog.returns_bind.mpr ⟨[_], _, (), rfl, .step _ (.refl _), ?_⟩
  refine Prog.returns_bind.mpr ⟨[_], (stalledRecovery base).drop 4, true, rfl, hpoll hon, ?_⟩
  refine Prog.returns_bind.mpr ⟨[_], [_], 0, rfl, .step _ (.refl _), ?_⟩
  exact Prog.returns_bind.mpr ⟨[_], [], 0, rfl, .step _ (.refl _), .refl _⟩

section

variable {x : XferArgs} {rBuf : Option (List UInt8)} {n k : ℕ}

private theorem returns_xferPass_stalled (hw : x.wLen = 0) (hr : 0 < x.rLen)
    {t : List (Event Uefi)} {r : XferState ⊕ XferState × Option EfiStatus}
    (h : (if dwPollLimit < n + 1 ∨ dwXferSpinBudget < n + 1 then do
        dwI2cRecover x.base
        return .inr (.stalled rBuf (n + 1), some .timeout)
      else return .inl (.stalled rBuf (n + 1)) :
        Prog Uefi (XferState ⊕ XferState × Option EfiStatus)).Returns t r) :
    (xferPass x (.stalled rBuf n)).Returns (stalledPass x.base ++ t) r := by
  have hqueue : xferQueue x (.stalled rBuf n) 0 = return (.stalled rBuf n, false) := by
    unfold xferQueue
    rw [if_neg (by rw [hw]; exact fun h ↦ absurd h.1 (Nat.lt_irrefl 0)), if_neg (by simp)]
  have hdrain : xferDrain x (.stalled rBuf n) = return (.stalled rBuf n, false) :=
    if_neg (Nat.lt_irrefl 0)
  rw [xferPass, if_pos (.inr (.inl hr))]
  refine Prog.returns_bind.mpr ⟨[_], ⟨.mmioRead32 (x.base + dwIcStatus), 0⟩ :: t, 0, rfl,
    .step _ (.refl _), ?_⟩
  rw [if_neg (by decide)]
  refine Prog.returns_bind.mpr ⟨[_], t, 0, rfl, .step _ (.refl _), ?_⟩
  rw [hqueue]
  refine Prog.returns_bind.mpr ⟨[], t, _, rfl, .refl _, ?_⟩
  dsimp only
  rw [hdrain]
  exact Prog.returns_bind.mpr ⟨[], t, _, rfl, .refl _, h⟩

private theorem stalled_loop (hw : x.wLen = 0) (hr : 0 < x.rLen) (h : n + k = dwPollLimit)
    (m : ℕ) : ∃ t, (Prog.iterate (xferPass x) (m + k + 1) (.stalled rBuf n)).Returns t
        (.stalled rBuf (dwPollLimit + 1), some .timeout) ∧
      Iterations x (.stalled rBuf n) (List.replicate (k + 1) false) := by
  induction k generalizing n with
  | zero =>
    obtain rfl : n = dwPollLimit := h
    have hpass := @returns_xferPass_stalled x rBuf dwPollLimit hw hr _ _ (by
      rw [if_pos (.inl (Nat.lt_succ_self _))]
      exact Prog.returns_bind.mpr ⟨_, [], (), (List.append_nil _).symm,
        returns_dwI2cRecover_stalled x.base, .refl _⟩)
    exact ⟨_, Prog.returns_bind.mpr ⟨_, [], _, (List.append_nil _).symm, hpass, .refl _⟩,
      .leave hpass⟩
  | succ k ih =>
    obtain ⟨t, hloop, hiter⟩ := ih (n := n + 1) (by omega)
    have hpass := @returns_xferPass_stalled x rBuf n hw hr _ _ (by
      rw [if_neg (by unfold dwXferSpinBudget; omega)]
      exact .refl _)
    refine ⟨_, Prog.returns_bind.mpr ⟨_, t, _, rfl, hpass, hloop⟩, ?_⟩
    have hflag : decide ((XferState.stalled rBuf n).done < (XferState.stalled rBuf (n + 1)).done)
        = false := rfl
    rw [List.replicate_succ, ← hflag]
    exact .again hpass hiter

end

/-- The read of one byte from a panel that never answers: the loop turns once more than
`DW_POLL_LIMIT` times, and the transfer recovers and times out. -/
theorem dwI2cXfer_ends_oneByteRead : ∃ t t₁ t₂ flags,
    (dwI2cXfer 0xFEDC5000 none 0 (some [0]) 1).Returns t (.timeout, some [0]) ∧
    t = t₁ ++ t₂ ∧ (dwI2cRecover 0xFEDC5000).Returns t₂ () ∧
    Iterations ⟨0xFEDC5000, none, 0, 1⟩ (.start (some [0])) flags ∧
    flags.length = dwPollLimit + 1 ∧ flags.count false ≤ dwXferSpinBudget + 1 := by
  have hends := dwI2cXfer_ends 0xFEDC5000 none 0 (some [0]) 1 ⟨by decide, by decide⟩
  obtain ⟨t, hloop, hiter⟩ := @stalled_loop ⟨0xFEDC5000, none, 0, 1⟩ (some [0]) 0 dwPollLimit rfl
    Nat.one_pos (Nat.zero_add dwPollLimit) (3 * dwPollLimit + 3)
  have hret : (dwI2cXfer 0xFEDC5000 none 0 (some [0]) 1).Returns
      (⟨.mmioRead32 (0xFEDC5000 + dwIcClrTxAbrt), (0 : UInt32)⟩ ::
        ⟨.mmioRead32 (0xFEDC5000 + dwIcClrStopDet), (0 : UInt32)⟩ :: t)
      (.timeout, some [0]) := by
    rw [dwI2cXfer, if_neg (by decide)]
    refine Prog.returns_bind.mpr ⟨[_], _ :: t, 0, rfl, .step _ (.refl _), ?_⟩
    refine Prog.returns_bind.mpr ⟨[_], t, 0, rfl, .step _ (.refl _), ?_⟩
    exact Prog.returns_bind.mpr ⟨t, [], _, (List.append_nil t).symm, hloop, .refl _⟩
  obtain ⟨t₁, t₂, heq, hrecover⟩ := hends.2.2 _ _ hret
  exact ⟨_, t₁, t₂, _, hret, heq, hrecover, hiter, List.length_replicate, (hends.1 _ hiter).2⟩

end TouchI2c
