import TouchI2c.DwI2c.Master
import TouchI2c.Interaction.World

/-!
# The rule of a transfer

What a transfer does in a world follows from what single register accesses do there. The invariant
`I n got` of its main loop says that `n` commands have been queued and the bytes `got` received;
`TransferRules` lists the accesses that have to keep it, and `wp_dwI2cXfer` is the rule. The
counters of the loop, its buffer and its bounds appear in no other proof.

## From counters to the invariant

`Counts` relates the state of the loop to `n` and `got`: the counters of written, commanded and
received bytes are determined by them, and the received bytes are at the front of the buffer. Under
it, what queueing a command or draining a byte does to the loop is an equation. The loop rule is
then used once, with the unused part of the stream and of the budget as the measure.

The wait for the STOP may need a rule of its own, where a world knows more about the end of a
transfer than that its accesses keep the invariant.
-/

namespace TouchI2c

open CMemory Interaction

/-! ## Commands -/

/-- Command `i` of a transfer that writes `w` and reads `rLen` bytes. -/
def commandAt (w : List UInt8) (rLen i : ℕ) : UInt32 :=
  (if h : i < w.length then w[i].toUInt32 else dwIcDataCmdRead) |||
    (if i = w.length ∧ 0 < w.length then dwIcDataCmdRestart else 0) |||
    (if i + 1 = w.length + rLen then dwIcDataCmdStop else 0)

/-- The bytes a transfer writes. -/
def XferArgs.written (x : XferArgs) : List UInt8 := (x.wBuf.getD []).take x.wLen

/-- The buffers of a transfer are as long as its lengths say. -/
structure XferArgs.Valid (x : XferArgs) (rBuf : Option (List UInt8)) : Prop where
  w : x.wLen ≤ (x.wBuf.getD []).length
  r : x.rLen ≤ (rBuf.getD []).length

/-- The byte that an access to `IC_DATA_CMD` delivers. -/
def dataByte (v : UInt32) : UInt8 := (v &&& 0xFF).toUInt8

/-- `RBuf` after the bytes `got` have been stored at its front. -/
def stored (rBuf : Option (List UInt8)) (got : List UInt8) : Option (List UInt8) :=
  rBuf.map fun bytes ↦ got ++ bytes.drop got.length

section

variable {x : XferArgs} {rBuf : Option (List UInt8)}

theorem XferArgs.Valid.length_written (h : x.Valid rBuf) : x.written.length = x.wLen := by
  rw [XferArgs.written, List.length_take, Nat.min_eq_left h.w]

theorem readPtr_w (hx : x.Valid rBuf) {i : ℕ} (hi : i < x.written.length) :
    readPtr x.wBuf i = .ok x.written[i] := by
  have hlen := hx.w
  have hi' := hx.length_written ▸ hi
  cases hbuf : x.wBuf with
  | none => simp [hbuf] at hlen; omega
  | some bytes =>
    rw [hbuf, Option.getD_some] at hlen
    simp only [readPtr, XferArgs.written, hbuf, Option.getD_some, List.getElem_take]
    exact readAt_getElem (by omega)

theorem commandAt_write (hx : x.Valid rBuf) {i : ℕ} (hi : i < x.written.length) :
    commandAt x.written x.rLen i = x.written[i].toUInt32 |||
      (if i = x.wLen - 1 ∧ x.rLen = 0 then dwIcDataCmdStop else 0) := by
  have hlast : i + 1 = x.written.length + x.rLen ↔ i = x.wLen - 1 ∧ x.rLen = 0 := by
    rw [hx.length_written] at hi ⊢
    omega
  have hne : ¬(i = x.written.length ∧ 0 < x.written.length) := by omega
  rw [commandAt, dif_pos hi, if_neg hne, UInt32.or_zero]
  simp only [hlast]

theorem commandAt_read (hx : x.Valid rBuf) {j : ℕ} :
    commandAt x.written x.rLen (x.wLen + j) = dwIcDataCmdRead |||
      (if j = 0 ∧ 0 < x.wLen then dwIcDataCmdRestart else 0) |||
      (if j + 1 = x.rLen then dwIcDataCmdStop else 0) := by
  have hfirst : x.wLen + j = x.written.length ∧ 0 < x.written.length ↔ j = 0 ∧ 0 < x.wLen := by
    rw [hx.length_written]
    omega
  have hlast : x.wLen + j + 1 = x.written.length + x.rLen ↔ j + 1 = x.rLen := by
    rw [hx.length_written]
    omega
  rw [commandAt, dif_neg (by rw [hx.length_written]; omega)]
  simp only [hfirst, hlast]

theorem writePtr_stored {got : List UInt8} (h : got.length < (rBuf.getD []).length) (b : UInt8) :
    writePtr (stored rBuf got) got.length b = .ok (stored rBuf (got ++ [b])) := by
  cases rBuf with
  | none => simp at h
  | some bytes =>
    rw [Option.getD_some] at h
    have hset : (got ++ bytes.drop got.length).set got.length b
        = got ++ [b] ++ bytes.drop (got ++ [b]).length := by
      rw [List.set_append_right _ _ le_rfl, Nat.sub_self, List.drop_eq_getElem_cons h,
        List.set_cons_zero, List.append_assoc, List.length_append]
      rfl
    rw [stored, Option.map_some, writePtr, writeAt_ok _ (by
      rw [List.length_append, List.length_drop]; omega), ok_bind, hset]
    rfl

end

/-! ## The bits of a command -/

section

variable {w : List UInt8} {rLen i : ℕ}

private theorem testBit_byte (b : UInt8) {j : ℕ} (hj : 8 ≤ j) :
    b.toUInt32.toNat.testBit j = false := by
  refine Nat.testBit_lt_two_pow ?_
  calc b.toUInt32.toNat = b.toNat := b.toNat_toUInt32
    _ < 2 ^ 8 := b.toNat_lt
    _ ≤ 2 ^ j := Nat.pow_le_pow_right (by decide) hj

private theorem testBit_flag (p : Prop) [Decidable p] (v : UInt32) (j : ℕ) :
    (if p then v else 0).toNat.testBit j = (decide p && v.toNat.testBit j) := by
  by_cases hp : p <;> simp [hp]

private theorem testBit_commandAt {j : ℕ} (hj : 8 ≤ j) :
    (commandAt w rLen i).toNat.testBit j =
      ((decide (w.length ≤ i) && dwIcDataCmdRead.toNat.testBit j) ||
        (decide (i = w.length ∧ 0 < w.length) && dwIcDataCmdRestart.toNat.testBit j) ||
        (decide (i + 1 = w.length + rLen) && dwIcDataCmdStop.toNat.testBit j)) := by
  have hdata : (if h : i < w.length then w[i].toUInt32 else dwIcDataCmdRead).toNat.testBit j
      = (decide (w.length ≤ i) && dwIcDataCmdRead.toNat.testBit j) := by
    by_cases hi : i < w.length
    · rw [dif_pos hi, testBit_byte _ hj, decide_eq_false (by omega), Bool.false_and]
    · rw [dif_neg hi, decide_eq_true (by omega), Bool.true_and]
  rw [commandAt, UInt32.toNat_or, UInt32.toNat_or, Nat.testBit_or, Nat.testBit_or, hdata,
    testBit_flag, testBit_flag]

theorem isRead_commandAt : (commandAt w rLen i).toNat.testBit 8 = decide (w.length ≤ i) := by
  rw [testBit_commandAt (by decide), show dwIcDataCmdRead.toNat.testBit 8 = true from rfl,
    show dwIcDataCmdRestart.toNat.testBit 8 = false from rfl,
    show dwIcDataCmdStop.toNat.testBit 8 = false from rfl]
  simp

theorem isStop_commandAt :
    (commandAt w rLen i).toNat.testBit 9 = decide (i + 1 = w.length + rLen) := by
  rw [testBit_commandAt (by decide), show dwIcDataCmdRead.toNat.testBit 9 = false from rfl,
    show dwIcDataCmdRestart.toNat.testBit 9 = false from rfl,
    show dwIcDataCmdStop.toNat.testBit 9 = true from rfl]
  simp

theorem isRestart_commandAt :
    (commandAt w rLen i).toNat.testBit 10 = decide (i = w.length ∧ 0 < w.length) := by
  rw [testBit_commandAt (by decide), show dwIcDataCmdRead.toNat.testBit 10 = false from rfl,
    show dwIcDataCmdRestart.toNat.testBit 10 = true from rfl,
    show dwIcDataCmdStop.toNat.testBit 10 = false from rfl]
  simp

end

/-! ## The loop's counters -/

namespace XferState

/-- The counters and the buffer of the loop when it has received `got`. -/
structure Counts (x : XferArgs) (rBuf : Option (List UInt8)) (st : XferState) (got : List UInt8) :
    Prop where
  wSent : st.wSent ≤ x.wLen
  order : 0 < st.rQueued → st.wSent = x.wLen
  rQueued : st.rQueued ≤ x.rLen
  length : st.rGot = got.length
  rGot : st.rGot ≤ st.rQueued
  inflight : st.rQueued ≤ st.rGot + dwRxInflightMax
  buffer : st.rBuf = stored rBuf got

/-- How many commands have been queued. -/
def sent (st : XferState) : ℕ := st.wSent + st.rQueued

/-- The loop's state when one more command has been queued. -/
def queued (x : XferArgs) (st : XferState) : XferState :=
  if st.wSent < x.wLen then { st with wSent := st.wSent + 1 }
  else { st with rQueued := st.rQueued + 1 }

/-- There is a command to queue and room for its answer. -/
def Queueable (x : XferArgs) (st : XferState) : Prop :=
  st.sent < x.wLen + x.rLen ∧ st.sent + 1 ≤ x.wLen + st.rGot + dwRxInflightMax

instance (x : XferArgs) (st : XferState) : Decidable (st.Queueable x) :=
  inferInstanceAs (Decidable (_ ∧ _))

variable {x : XferArgs} {rBuf : Option (List UInt8)} {st : XferState} {got : List UInt8}

theorem counts_start (x : XferArgs) (rBuf : Option (List UInt8)) :
    Counts x rBuf ⟨0, 0, 0, 0, 0, rBuf⟩ [] :=
  ⟨Nat.zero_le _, fun h ↦ absurd h (lt_irrefl 0), Nat.zero_le _, rfl, le_rfl, Nat.zero_le _,
    by cases rBuf <;> rfl⟩

theorem sent_queued : (st.queued x).sent = st.sent + 1 := by
  unfold queued sent
  split <;> dsimp only <;> omega

theorem Counts.queued (h : st.Counts x rBuf got) (hq : st.Queueable x) :
    (st.queued x).Counts x rBuf got := by
  obtain ⟨hlt, hroom⟩ := hq
  have hsent := h.wSent
  have hrGot := h.rGot
  have horder := h.order
  unfold XferState.sent at hlt hroom
  unfold XferState.queued
  split
  · next hw =>
    exact { h with
      wSent := hw
      order := fun hpos ↦ absurd (horder hpos) hw.ne }
  · next hw =>
    exact { h with
      order := fun _ ↦ by dsimp only; omega
      rQueued := by dsimp only; omega
      rGot := hrGot.trans (Nat.le_succ _)
      inflight := by dsimp only; omega }

theorem Counts.xferQueue_eq (h : st.Counts x rBuf got) (hx : x.Valid rBuf) (ic : UInt32) :
    xferQueue x st ic = if ic &&& dwIcStatusTfnf ≠ 0 ∧ st.Queueable x then do
      regWr x.base dwIcDataCmd (commandAt x.written x.rLen st.sent)
      return (st.queued x, true)
    else return (st, false) := by
  have hsent := h.wSent
  have hle := h.rGot
  have horder := h.order
  unfold xferQueue
  split
  · next hw =>
    obtain ⟨hlt, htfnf⟩ := hw
    -- commands are queued in order: no READ goes out before the last byte to write
    have hzero : st.rQueued = 0 := by
      by_contra hne
      exact absurd (horder (Nat.pos_of_ne_zero hne)) hlt.ne
    have hqueueable : st.Queueable x := by
      unfold Queueable sent
      omega
    have hcond : ic &&& dwIcStatusTfnf ≠ 0 ∧ st.Queueable x := ⟨htfnf, hqueueable⟩
    have hlt' : st.wSent < x.written.length := hx.length_written.symm ▸ hlt
    have hfirst : st.sent = st.wSent := by rw [sent, hzero, Nat.add_zero]
    rw [if_pos hcond, hfirst, commandAt_write hx hlt']
    simp only [readPtr_w hx hlt', Prog.ofChecked_ok, liftM, monadLift, MonadLift.monadLift,
      Prog.pure_bind', XferState.queued, if_pos hlt]
  · next hw =>
    split
    · next hr =>
      obtain ⟨hsame, hlt, htfnf⟩ := hr
      simp only [subUnsigned_ok hle, Prog.ofChecked_ok, liftM, monadLift, MonadLift.monadLift,
        Prog.pure_bind']
      have hiff : st.rQueued - st.rGot < dwRxInflightMax ↔ st.Queueable x := by
        unfold Queueable sent
        omega
      by_cases hflight : st.rQueued - st.rGot < dwRxInflightMax
      · have hlast : st.rQueued = x.rLen - 1 ↔ st.rQueued + 1 = x.rLen := by omega
        have hcond : ic &&& dwIcStatusTfnf ≠ 0 ∧ st.Queueable x := ⟨htfnf, hiff.mp hflight⟩
        rw [if_pos hflight, if_pos hcond, sent, hsame, commandAt_read hx]
        simp only [hlast, XferState.queued, hsame, lt_irrefl, if_false]
      · have hcond : ¬(ic &&& dwIcStatusTfnf ≠ 0 ∧ st.Queueable x) :=
          fun hq ↦ hflight (hiff.mpr hq.2)
        rw [if_neg hflight, if_neg hcond]
    · next hr =>
      have hcond : ¬(ic &&& dwIcStatusTfnf ≠ 0 ∧ st.Queueable x) := by
        rintro ⟨htfnf, hlt, -⟩
        have hwrites : ¬st.wSent < x.wLen := fun h ↦ hw ⟨h, htfnf⟩
        have hreads : ¬(st.wSent = x.wLen ∧ st.rQueued < x.rLen) := fun h ↦
          hr ⟨h.1, h.2, htfnf⟩
        unfold sent at hlt
        omega
      rw [if_neg hcond]

theorem Counts.xferDrain_eq (h : st.Counts x rBuf got) (hx : x.Valid rBuf) :
    xferDrain x st = if st.rGot < st.rQueued then do
      if (← regRd x.base dwIcStatus) &&& dwIcStatusRfne ≠ 0 then
        let v ← regRd x.base dwIcDataCmd
        return ({ st with rGot := st.rGot + 1, rBuf := stored rBuf (got ++ [dataByte v]) }, true)
      else return (st, false)
    else return (st, false) := by
  unfold xferDrain
  split
  · next hlt =>
    have hqueued := h.rQueued
    have hgot := h.length
    have hlen : got.length < (rBuf.getD []).length := by have := hx.r; omega
    have hwrite := fun v ↦ writePtr_stored hlen (dataByte v)
    unfold dataByte at hwrite
    simp only [h.buffer, hgot, hwrite, Prog.ofChecked_ok, liftM, monadLift, MonadLift.monadLift,
      Prog.pure_bind', dataByte]
  · rfl

theorem Counts.drained (h : st.Counts x rBuf got) (hlt : st.rGot < st.rQueued) (b : UInt8) :
    Counts x rBuf { st with rGot := st.rGot + 1, rBuf := stored rBuf (got ++ [b]) }
      (got ++ [b]) :=
  { h with
    length := by rw [List.length_append, List.length_singleton, ← h.length]
    rGot := hlt
    inflight := by have := h.inflight; dsimp only; omega
    buffer := rfl }

/-- What is left to do: queueing, draining, and stall budget. -/
def remaining (x : XferArgs) (st : XferState) : ℕ :=
  (x.wLen - st.wSent) + (x.rLen - st.rQueued) + (x.rLen - st.rGot) +
    (dwXferSpinBudget + 1 - st.totalSpin)

theorem remaining_start : remaining x ⟨0, 0, 0, 0, 0, rBuf⟩ < xferBound x := by
  unfold remaining xferBound
  dsimp only
  omega

theorem totalSpin_queued : (st.queued x).totalSpin = st.totalSpin := by
  unfold queued
  split <;> rfl

theorem Counts.remaining_queued (h : st.Counts x rBuf got) (hq : st.Queueable x) :
    (st.queued x).remaining x < st.remaining x := by
  obtain ⟨hlt, -⟩ := hq
  have hsent := h.wSent
  unfold XferState.sent at hlt
  unfold XferState.queued remaining
  split <;> dsimp only <;> omega

theorem Counts.remaining_drained (h : st.Counts x rBuf got) (hlt : st.rGot < st.rQueued)
    {buf : Option (List UInt8)} :
    remaining x { st with rGot := st.rGot + 1, rBuf := buf } < st.remaining x := by
  have hqueued := h.rQueued
  unfold remaining
  dsimp only
  omega

end XferState

/-! ## The rules -/

/-- The rule of a bounded poll: what one read keeps holds when the poll gives up. -/
theorem wp_pollReg {σ : Type} {W : World Uefi σ} {base off : UInt64} {test : UInt32 → Bool}
    {Q : Bool → σ → Prop} (inv : σ → Prop)
    (hread : ∀ s, inv s → W.wp (regRd base off)
      (fun v s' ↦ (test v = true → Q true s') ∧ (test v = false → inv s')) s)
    (hstop : ∀ s, inv s → Q false s) {n : ℕ} {s : σ} (h : inv s) :
    W.wp (pollReg base off test n) Q s := by
  induction n generalizing s with
  | zero => exact hstop s h
  | succ n ih =>
    rw [pollReg, World.wp_bind]
    refine World.wp_mono (hread s h) fun v s' hv ↦ ?_
    cases htest : test v with
    | true => exact hv.1 htest
    | false => exact ih (hv.2 htest)

/-- What the register accesses of the main loop do in a world: they keep `I`, and every way out
ends with `Q`. -/
structure LoopRules {σ : Type} (W : World Uefi σ) (x : XferArgs)
    (I : ℕ → List UInt8 → σ → Prop) (Q : EfiStatus → List UInt8 → σ → Prop) : Prop where
  rawIntr : ∀ {n got s}, I n got s → W.wp (regRd x.base dwIcRawIntrStat) (fun r s' ↦
    if r &&& dwIcIntrTxAbrt ≠ 0 then W.wp (handleAbort x.base) (fun status ↦ Q status got) s'
    else I n got s') s
  status : ∀ {n got s}, I n got s → W.wp (regRd x.base dwIcStatus) (fun r s' ↦ I n got s' ∧
    (r &&& dwIcStatusRfne ≠ 0 → x.wLen + got.length < n →
      W.wp (regRd x.base dwIcDataCmd) (fun v ↦ I n (got ++ [dataByte v])) s')) s
  dataCmd : ∀ {n got s}, I n got s → n < x.wLen + x.rLen →
    n + 1 ≤ x.wLen + got.length + dwRxInflightMax →
    W.wp (regWr x.base dwIcDataCmd (commandAt x.written x.rLen n)) (fun _ ↦ I (n + 1) got) s
  recover : ∀ {n got s}, I n got s → W.wp (dwI2cRecover x.base) (fun _ ↦ Q .timeout got) s

/-- The rules of the main loop with one for the last access, whatever the wait for the STOP saw. -/
structure TransferRules {σ : Type} (W : World Uefi σ) (x : XferArgs)
    (I : ℕ → List UInt8 → σ → Prop) (Q : EfiStatus → List UInt8 → σ → Prop) : Prop
    extends LoopRules W x I Q where
  finish : ∀ {got s}, I (x.wLen + x.rLen) got s → got.length = x.rLen →
    W.wp (regRd x.base dwIcClrStopDet) (fun _ ↦ Q .success got) s

namespace LoopRules

variable {σ : Type} {W : World Uefi σ} {x : XferArgs} {I : ℕ → List UInt8 → σ → Prop}
  {Q : EfiStatus → List UInt8 → σ → Prop} {rBuf : Option (List UInt8)} {st : XferState} {s : σ}

/-- The invariant of the loop. -/
private structure LoopInv (x : XferArgs) (rBuf : Option (List UInt8))
    (I : ℕ → List UInt8 → σ → Prop) (st : XferState) (got : List UInt8) (s : σ) : Prop where
  counts : st.Counts x rBuf got
  inv : I st.sent got s

/-- The loop keeps its invariant, and a command or a byte is progress. -/
private def StepPost (x : XferArgs) (rBuf : Option (List UInt8)) (I : ℕ → List UInt8 → σ → Prop)
    (st : XferState) (r : XferState × Bool) (s : σ) : Prop :=
  (∃ got, LoopInv x rBuf I r.1 got s) ∧ r.1.totalSpin = st.totalSpin ∧
    if r.2 then r.1.remaining x < st.remaining x else r.1 = st

variable {got : List UInt8}

private theorem wp_xferQueue (rules : LoopRules W x I Q) (hx : x.Valid rBuf)
    (h : LoopInv x rBuf I st got s) (ic : UInt32) :
    W.wp (xferQueue x st ic) (StepPost x rBuf I st) s := by
  rw [h.counts.xferQueue_eq hx]
  split
  · next hq =>
    obtain ⟨-, hqueueable⟩ := hq
    have hroom : st.sent + 1 ≤ x.wLen + got.length + dwRxInflightMax :=
      h.counts.length ▸ hqueueable.2
    rw [World.wp_bind]
    refine World.wp_mono (rules.dataCmd h.inv hqueueable.1 hroom) fun _ s' hs' ↦ ?_
    have hcounts := h.counts.queued hqueueable
    have hinv : LoopInv x rBuf I (st.queued x) got s' :=
      ⟨hcounts, by rw [XferState.sent_queued]; exact hs'⟩
    exact ⟨⟨got, hinv⟩, XferState.totalSpin_queued, h.counts.remaining_queued hqueueable⟩
  · exact ⟨⟨got, h⟩, rfl, rfl⟩

private theorem wp_xferDrain (rules : LoopRules W x I Q) (hx : x.Valid rBuf)
    (h : LoopInv x rBuf I st got s) : W.wp (xferDrain x st) (StepPost x rBuf I st) s := by
  rw [h.counts.xferDrain_eq hx]
  split
  · next hlt =>
    have hsent : x.wLen + got.length < st.sent := by
      have hgot := h.counts.length
      have hsame := h.counts.order (by omega)
      unfold XferState.sent
      omega
    rw [World.wp_bind]
    refine World.wp_mono (rules.status h.inv) fun r s₁ h₁ ↦ ?_
    obtain ⟨hinv, hread⟩ := h₁
    split
    · next hset =>
      rw [World.wp_bind]
      refine World.wp_mono (hread hset hsent) fun v s₂ h₂ ↦ ?_
      exact ⟨⟨got ++ [dataByte v], h.counts.drained hlt _, h₂⟩, rfl,
        h.counts.remaining_drained hlt⟩
    · exact ⟨⟨got, { h with inv := hinv }⟩, rfl, rfl⟩
  · exact ⟨⟨got, h⟩, rfl, rfl⟩

/-- How the main loop may end: done with everything, or with the end of the transfer. -/
private def LoopPost (x : XferArgs) (rBuf : Option (List UInt8)) (I : ℕ → List UInt8 → σ → Prop)
    (Q : EfiStatus → List UInt8 → σ → Prop) (r : XferState × Option EfiStatus) (s : σ) : Prop :=
  ∃ got, r.1.rBuf = stored rBuf got ∧ match r.2 with
    | none => I (x.wLen + x.rLen) got s ∧ got.length = x.rLen
    | some status => Q status got s

private theorem wp_xferPass (rules : LoopRules W x I Q) (hx : x.Valid rBuf)
    (h : LoopInv x rBuf I st got s) :
    W.wp (xferPass x st) (Sum.elim
      (fun st' s' ↦ (∃ got, LoopInv x rBuf I st' got s') ∧ st'.remaining x < st.remaining x)
      (LoopPost x rBuf I Q)) s := by
  unfold xferPass
  split
  · rw [World.wp_bind]
    refine World.wp_mono (rules.rawIntr h.inv) fun r s₁ h₁ ↦ ?_
    split
    · next habort =>
      rw [if_pos habort] at h₁
      rw [World.wp_bind]
      exact World.wp_mono h₁ fun status s₂ h₂ ↦ ⟨got, h.counts.buffer, h₂⟩
    · next habort =>
      rw [if_neg habort] at h₁
      rw [World.wp_bind]
      refine World.wp_mono (rules.status h₁) fun ic s₂ h₂ ↦ ?_
      rw [World.wp_bind]
      refine World.wp_mono (wp_xferQueue rules hx { h with inv := h₂.1 } ic)
        fun ⟨st₃, queued⟩ s₃ h₃ ↦ ?_
      obtain ⟨⟨got₃, hinv₃⟩, htotal₃, hqueue⟩ := h₃
      rw [World.wp_bind]
      refine World.wp_mono (wp_xferDrain rules hx hinv₃) fun ⟨st₄, drained⟩ s₄ h₄ ↦ ?_
      obtain ⟨⟨got₄, hinv₄⟩, htotal₄, hdrain⟩ := h₄
      dsimp only at hqueue hdrain hinv₃ hinv₄ htotal₃ htotal₄ ⊢
      -- either something moved, or one of the two spin counters grows
      by_cases hprogress : (queued || drained) = true
      · rw [if_pos hprogress]
        refine ⟨⟨got₄, { hinv₄.counts with }, hinv₄.inv⟩, ?_⟩
        change st₄.remaining x < st.remaining x
        cases queued <;> cases drained <;> simp_all
        omega
      · rw [if_neg hprogress]
        have hst : st₄ = st := by
          cases queued <;> cases drained <;> simp_all
        subst hst
        by_cases hbudget : st₄.spin + 1 > dwPollLimit ∨ st₄.totalSpin + 1 > dwXferSpinBudget
        · rw [if_pos hbudget, World.wp_bind]
          exact World.wp_mono (rules.recover hinv₄.inv) fun _ s₅ h₅ ↦
            ⟨got₄, hinv₄.counts.buffer, h₅⟩
        · rw [if_neg hbudget]
          refine ⟨⟨got₄, { hinv₄.counts with }, hinv₄.inv⟩, ?_⟩
          unfold XferState.remaining
          dsimp only
          omega
  · next hdone =>
    have hcounts := h.counts
    have hall : st.sent = x.wLen + x.rLen := by
      have hsent := hcounts.wSent
      have hqueued := hcounts.rQueued
      unfold XferState.sent
      omega
    have hlen : got.length = x.rLen := by
      have hgot := hcounts.rGot
      have hqueued := hcounts.rQueued
      have hlength := hcounts.length
      omega
    exact ⟨got, hcounts.buffer, hall ▸ h.inv, hlen⟩

/-- **The rule of a transfer** whose wait for the STOP has a rule of its own. -/
theorem wp_dwI2cXfer_of_stop (rules : LoopRules W x I Q) (hx : x.Valid rBuf)
    (hvalid : xferInvalid x.wBuf x.wLen rBuf x.rLen = false)
    (hstart : W.wp (regRd x.base dwIcClrTxAbrt) (fun _ ↦
      W.wp (regRd x.base dwIcClrStopDet) (fun _ ↦ I 0 [])) s)
    (hstop : ∀ got s, I (x.wLen + x.rLen) got s → got.length = x.rLen →
      W.wp (xferStop x dwPollLimit) (fun status ↦ Q status got) s) :
    W.wp (dwI2cXfer x.base x.wBuf x.wLen rBuf x.rLen)
      (fun r s' ↦ ∃ got, r.2 = stored rBuf got ∧ Q r.1 got s') s := by
  unfold dwI2cXfer
  rw [if_neg (by rw [hvalid]; simp), World.wp_bind]
  refine World.wp_mono hstart fun _ s₁ h₁ ↦ ?_
  rw [World.wp_bind]
  refine World.wp_mono h₁ fun _ s₂ h₂ ↦ ?_
  have hinit : LoopInv x rBuf I ⟨0, 0, 0, 0, 0, rBuf⟩ [] s₂ := ⟨XferState.counts_start x rBuf, h₂⟩
  rw [World.wp_bind]
  refine World.wp_mono (World.wp_iterate (Q := LoopPost x rBuf I Q)
    (fun st s ↦ ∃ got, LoopInv x rBuf I st got s) (XferState.remaining x)
    (fun st s ⟨got, h⟩ ↦ wp_xferPass rules hx h) ⟨[], hinit⟩ XferState.remaining_start)
    fun ⟨st, status⟩ s₃ h₃ ↦ ?_
  · obtain ⟨got, hbuffer, hend⟩ := h₃
    cases status with
    | some status => exact ⟨got, hbuffer, hend⟩
    | none =>
      rw [World.wp_bind]
      exact World.wp_mono (hstop got s₃ hend.1 hend.2) fun _ _ h₄ ↦ ⟨got, hbuffer, h₄⟩

end LoopRules

namespace TransferRules

variable {σ : Type} {W : World Uefi σ} {x : XferArgs} {I : ℕ → List UInt8 → σ → Prop}
  {Q : EfiStatus → List UInt8 → σ → Prop} {rBuf : Option (List UInt8)} {s : σ} {got : List UInt8}

private theorem wp_xferStop (rules : TransferRules W x I Q) (h : I (x.wLen + x.rLen) got s)
    (hgot : got.length = x.rLen) (n : ℕ) : W.wp (xferStop x n) (fun status ↦ Q status got) s := by
  induction n generalizing s with
  | zero =>
    rw [xferStop, World.wp_bind]
    exact World.wp_mono (rules.recover h) fun _ _ h₁ ↦ h₁
  | succ n ih =>
    rw [xferStop, World.wp_bind]
    refine World.wp_mono (rules.rawIntr h) fun r s₁ h₁ ↦ ?_
    split
    · next habort => rwa [if_pos habort] at h₁
    · next habort =>
      rw [if_neg habort] at h₁
      rw [World.wp_bind]
      refine World.wp_mono (rules.status h₁) fun ic s₂ h₂ ↦ ?_
      split
      · rw [World.wp_bind]
        exact World.wp_mono (rules.finish h₂.1 hgot) fun _ _ h₃ ↦ h₃
      · exact ih h₂.1

/-- **The rule of a transfer**: it returns, having stored the bytes it received. -/
theorem wp_dwI2cXfer (rules : TransferRules W x I Q) (hx : x.Valid rBuf)
    (hvalid : xferInvalid x.wBuf x.wLen rBuf x.rLen = false)
    (hstart : W.wp (regRd x.base dwIcClrTxAbrt) (fun _ ↦
      W.wp (regRd x.base dwIcClrStopDet) (fun _ ↦ I 0 [])) s) :
    W.wp (dwI2cXfer x.base x.wBuf x.wLen rBuf x.rLen)
      (fun r s' ↦ ∃ got, r.2 = stored rBuf got ∧ Q r.1 got s') s :=
  rules.toLoopRules.wp_dwI2cXfer_of_stop hx hvalid hstart fun _ _ h hgot ↦
    wp_xferStop rules h hgot _

end TransferRules

/-! ## A run -/

/-- A read of one byte from a controller at address 0 that answers at once. -/
def oneByteRead : List (Event Uefi) :=
  [⟨.mmioRead32 0x54, (0 : UInt32)⟩, ⟨.mmioRead32 0x60, (0 : UInt32)⟩,
   ⟨.mmioRead32 0x34, (0 : UInt32)⟩, ⟨.mmioRead32 0x70, (2 : UInt32)⟩,
   ⟨.mmioWrite32 0x10 0x300, ()⟩, ⟨.mmioRead32 0x70, (8 : UInt32)⟩,
   ⟨.mmioRead32 0x10, (0xAB : UInt32)⟩, ⟨.mmioRead32 0x34, (0 : UInt32)⟩,
   ⟨.mmioRead32 0x70, (0 : UInt32)⟩, ⟨.mmioRead32 0x60, (0 : UInt32)⟩]

theorem returns_oneByteRead :
    (dwI2cXfer 0 none 0 (some [0]) 1).Returns oneByteRead (.success, some [0xAB]) := by
  unfold oneByteRead Prog.Returns
  exact .step _ (.step _ (.step _ (.step _ (.step _ (.step _ (.step _ (.step _ (.step _
    (.step _ (.refl _))))))))))

end TouchI2c
