import TouchI2c.Bus.Footprint
import TouchI2c.DwI2c.Transfer
import TouchI2c.Interaction.History

/-!
# Transfers of the MediaTek controller are atomic

What can be seen of a controller from outside, over a run of `MtkI2cXfer`: how many transactions are
started and what `INTR_STAT` shows of each, and what becomes of `INTR_MASK` and of the TPL.

## Attempts

An attempt is one run of `MtkDoTransfer`; what it has shown is the union of the status words read
since it started. A transfer makes one attempt, or two if the first has latched nothing with its
sources masked, and then the second is made with them unmasked. The attempts are the whole of what
the trace starts: `MtkFill` and `MtkCollect` only move bytes, and the reset of an error exit starts
nothing and leaves the sources masked.

## Atomicity

An attempt that has seen an error bit does not succeed, and the last attempt decides the status. So
a transfer ends with the bytes delivered, or with an error, the buffer as it was and the controller
reset by a run of `MtkInitHw` of the same instance. Refused arguments are those that the checks of
the source name, and nothing is done then. The sources are masked and the TPL is restored in every
case, and unmasked polling is never given up again.
-/

namespace TouchI2c

open CMemory Interaction

/-! ## Watching a controller -/

/-- What is seen of a controller. -/
structure MtkSeen where
  /-- How many transactions have been started. -/
  started : ℕ := 0
  /-- The bits that `INTR_STAT` has shown since the last one was. -/
  shown : UInt16 := 0
  /-- `INTR_MASK`. -/
  mask : UInt16 := 0
  /-- The TPL is raised. -/
  raised : Bool := false

namespace MtkSeen

/-- After a register is written. -/
def written (s : MtkSeen) (off : UInt64) (val : UInt16) : MtkSeen :=
  if off = mtkRegStart then
    if val = mtkI2cChnClrFlag then s else { s with started := s.started + 1, shown := 0 }
  else if off = mtkRegIntrMask then { s with mask := val }
  else s

/-- After a register is read. -/
def read (s : MtkSeen) (off : UInt64) (val : UInt16) : MtkSeen :=
  if off = mtkRegIntrStat then { s with shown := s.shown ||| val } else s

/-- After an operation. The DMA engine is a block of its own. -/
def update (base : UInt64) (s : MtkSeen) : (e : UefiOp) → e.Ret → MtkSeen
  | .mmioRead16 a, val => s.read (a - base) val
  | .mmioWrite16 a val, _ => s.written (a - base) val
  | .raiseTpl, _ => { s with raised := true }
  | .restoreTpl, _ => { s with raised := false }
  | _, _ => s

end MtkSeen

/-- The controller at `base` is watched. -/
def mtkWatch (base : UInt64) : Monitor Uefi MtkSeen := ⟨fun _ _ ↦ True, MtkSeen.update base⟩

section

variable {c c' : MtkI2c} {s : MtkSeen} {wLen rLen : ℕ} {maskOn : Bool}

private theorem wpS_i2cRd_watch {off : UInt64} {Q : UInt16 → MtkI2c → MtkSeen → Prop} :
    (mtkWatch c.base).world.wpS (i2cRd off) Q c s ↔ ∀ v, Q v c (s.read off v) := by
  rw [wpS_i2cRd_monitor]
  simp only [mtkWatch, MtkSeen.update, add_sub_base, true_and]

private theorem wpS_i2cWr_watch {off : UInt64} {val : UInt16}
    {Q : Unit → MtkI2c → MtkSeen → Prop} :
    (mtkWatch c.base).world.wpS (i2cWr off val) Q c s ↔ Q () c (s.written off val) := by
  rw [wpS_i2cWr_monitor]
  simp only [mtkWatch, MtkSeen.update, add_sub_base, true_and]

private theorem wpS_dmaRd_watch {off : UInt64} {Q : UInt32 → MtkI2c → MtkSeen → Prop}
    {base : UInt64} : (mtkWatch base).world.wpS (dmaRd off) Q c s ↔ ∀ v, Q v c s :=
  wpS_dmaRd_monitor.trans (and_iff_right trivial)

private theorem wpS_dmaWr_watch {off : UInt64} {val : UInt32}
    {Q : Unit → MtkI2c → MtkSeen → Prop} {base : UInt64} :
    (mtkWatch base).world.wpS (dmaWr off val) Q c s ↔ Q () c s :=
  wpS_dmaWr_monitor.trans (and_iff_right trivial)

private theorem wp_stall_watch {us : ℕ} {Q : Unit → MtkSeen → Prop} {base : UInt64} :
    (mtkWatch base).world.wp (stall us) Q s ↔ Q () s := wp_stall_monitor.trans (and_iff_right trivial)

private theorem wpS_mtkInitHw_watch :
    (mtkWatch c.base).world.wpS mtkInitHw (fun _ c' s' ↦ c' = { c with initialized := true } ∧
      s'.started = s.started ∧ s'.mask = 0 ∧ s'.raised = s.raised) c s := by
  unfold mtkInitHw
  simp +decide only [World.wpS_bind, wpS_i2cWr_watch, wpS_i2cRd_watch, wpS_dmaWr_watch,
    World.wpS_get, World.wpS_modify, World.wpS_lift, wp_stall_watch, MtkSeen.written, MtkSeen.read,
    if_true, if_false, and_self, forall_const]

/-- The status bits of a transaction among what `INTR_STAT` has shown since it was started. -/
def MtkSeen.status (wLen rLen : ℕ) (s : MtkSeen) : UInt16 := s.shown &&& mtkIntrBits wLen rLen

private theorem or_and_distrib_watch (a b k : UInt16) :
    (a ||| b) &&& k = (a &&& k) ||| (b &&& k) := by
  apply UInt16.toBitVec_inj.mp
  apply BitVec.eq_of_getLsbD_eq
  intro i _
  simp only [UInt16.toBitVec_or, UInt16.toBitVec_and, BitVec.getLsbD_or, BitVec.getLsbD_and]
  exact Bool.and_or_distrib_right ..

/-- The poll only looks at `INTR_STAT` and clears it, and accumulates its status bits. -/
private structure Accumulated (wLen rLen : ℕ) (s : MtkSeen) (acc : UInt16) (s' : MtkSeen) : Prop
    where
  acc : acc = s'.status wLen rLen
  started : s'.started = s.started
  mask : s'.mask = s.mask
  raised : s'.raised = s.raised

private theorem wp_read_watch {off : UInt64} {Q : UInt16 → MtkSeen → Prop} :
    (mtkWatch c.base).world.wp (mmioRead16 (c.base + off)) Q s ↔ ∀ v, Q v (s.read off v) :=
  wpS_i2cRd_watch (Q := fun v _ s' ↦ Q v s')

private theorem wp_write_watch {off : UInt64} {val : UInt16} {Q : Unit → MtkSeen → Prop} :
    (mtkWatch c.base).world.wp (mmioWrite16 (c.base + off) val) Q s ↔ Q () (s.written off val) :=
  wpS_i2cWr_watch (Q := fun u _ s' ↦ Q u s')

private theorem wp_mtkAccumulate_watch {stat acc : UInt16} {Q : UInt16 → MtkSeen → Prop}
    (h : Q (acc ||| stat) s) : (mtkWatch c.base).world.wp (mtkAccumulate c stat acc) Q s := by
  unfold mtkAccumulate
  split
  · next hzero =>
    rw [eq_of_beq hzero, UInt16.or_zero] at h
    exact h
  · rw [World.wp_bind, wp_write_watch]
    exact h

private theorem wp_mtkPoll_watch {budget : ℕ} (hshown : s.shown = 0) :
    (mtkWatch c.base).world.wp (mtkPoll c (mtkIntrBits wLen rLen) budget)
      (Accumulated wLen rLen s) s := by
  have hstart : Accumulated wLen rLen s 0 s := by
    refine ⟨?_, rfl, rfl, rfl⟩
    rw [MtkSeen.status, hshown, UInt16.zero_and]
  refine World.wp_iterate (fun st ↦ Accumulated wLen rLen s st.2)
    (fun st ↦ (budget - st.1 + 19) / 20) ?_ hstart ?_
  · intro st s₁ h₁
    rw [mtkPollPass, World.wp_bind, wp_read_watch]
    intro r
    have hnext : Accumulated wLen rLen s (st.2 ||| (r &&& mtkIntrBits wLen rLen))
        { s₁ with shown := s₁.shown ||| r } := by
      refine { h₁ with acc := ?_ }
      rw [h₁.acc, MtkSeen.status, MtkSeen.status, or_and_distrib_watch]
    rw [World.wp_bind]
    refine wp_mtkAccumulate_watch ?_
    split
    · exact hnext
    split
    · exact hnext
    · next hbudget =>
      rw [World.wp_bind, wp_stall_watch]
      refine ⟨hnext, ?_⟩
      unfold mtkXferPollStepUs
      dsimp only
      omega
  · unfold mtkXferPollStepUs
    dsimp only
    omega

/-- What an attempt leaves: one transaction has been started, and its status bits are in the
instance. -/
structure Attempted (wLen rLen : ℕ) (c : MtkI2c) (s : MtkSeen) (status : EfiStatus) (c' : MtkI2c)
    (s' : MtkSeen) : Prop where
  started : s'.started = s.started + 1
  mask : s'.mask = 0
  raised : s'.raised = s.raised
  status : status = mtkClassify (s'.status wLen rLen)
  left : ∃ flag, c' = { c with lastIntrStat := s'.status wLen rLen, lastDmaIntFlag := flag }

private theorem wpS_mtkProgramLengths_watch :
    (mtkWatch c.base).world.wpS (mtkProgramLengths wLen rLen) (fun _ c' s' ↦ c' = c ∧ s' = s)
      c s := by
  unfold mtkProgramLengths
  split <;> simp +decide only [World.wpS_bind, wpS_i2cWr_watch, MtkSeen.written, if_false, and_self]

private theorem wpS_mtkProgramDma_watch {base : UInt64} :
    (mtkWatch base).world.wpS (mtkProgramDma wLen rLen) (fun _ c' s' ↦ c' = c ∧ s' = s) c s := by
  unfold mtkProgramDma
  rw [World.wpS_bind, World.wpS_get]
  dsimp only
  split
  · simp only [World.wpS_bind, wpS_dmaWr_watch, and_self]
  · split <;> simp only [World.wpS_bind, wpS_dmaWr_watch, and_self]

/-- **One attempt**, whatever `INTR_STAT` shows. -/
theorem wpS_mtkDoTransfer_watch :
    (mtkWatch c.base).world.wpS (mtkDoTransfer wLen rLen maskOn) (Attempted wLen rLen c s) c s := by
  have hstart : (if decide (0 < wLen ∧ 0 < rLen) = true then mtkI2cTransacStart
      else mtkI2cTransacStart ||| mtkI2cRsMulTrig) ≠ mtkI2cChnClrFlag := by
    split <;> decide
  unfold mtkDoTransfer
  simp +decide only [World.wpS_bind, wpS_i2cRd_watch, wpS_i2cWr_watch, World.wpS_get, World.wpS_lift,
    MtkSeen.written, MtkSeen.read, if_true, if_false]
  intro _
  refine World.wpS_mono wpS_mtkProgramLengths_watch fun _ c₁ s₁ h₁ ↦ ?_
  obtain ⟨rfl, rfl⟩ := h₁
  refine World.wpS_mono wpS_mtkProgramDma_watch fun _ c₂ s₂ h₂ ↦ ?_
  obtain ⟨rfl, rfl⟩ := h₂
  simp +decide only [wpS_dmaWr_watch, wpS_i2cWr_watch, MtkSeen.written, if_true, if_neg hstart]
  refine World.wp_mono (wp_mtkPoll_watch rfl) fun acc s₃ h₃ ↦ ?_
  obtain ⟨rfl, hstarted, hmask, hraised⟩ := h₃
  simp +decide only [if_false]
  rw [World.wpS_modify, wpS_dmaRd_watch]
  intro flag
  rw [World.wpS_modify, World.wpS_pure]
  exact ⟨hstarted, rfl, hraised, rfl, flag, rfl⟩

/-! ## Attempts -/

/-- An attempt of a transfer: whether its sources were unmasked, its operations and its status. -/
structure MtkAttempt where
  maskOn : Bool
  trace : List (Event Uefi)
  status : EfiStatus

namespace MtkAttempt

/-- The status bits that the attempt has seen latched. -/
def latched (base : UInt64) (wLen rLen : ℕ) (a : MtkAttempt) : UInt16 :=
  ((mtkWatch base).after {} a.trace).status wLen rLen

/-- The attempt is a run of `MtkDoTransfer`, from one state of the instance to another. -/
def Ran (wLen rLen : ℕ) (a : MtkAttempt) (c c' : MtkI2c) : Prop :=
  ((mtkDoTransfer wLen rLen a.maskOn).run c).Returns a.trace (a.status, c')

end MtkAttempt

/-- The bits that report an error. -/
def mtkErrorBits : UInt16 := mtkI2cAckerr ||| mtkI2cHsNackerr ||| mtkI2cArbLost

/-- The attempts that a trace consists of, and the instance after them. There is one, with the
sources masked as the instance has it; or that one has latched no status bit with its sources
masked, all of `MtkInitHw` follows on the instance that keeps them unmasked from now on, and then
one more. -/
inductive MtkAttempts (wLen rLen : ℕ) (c : MtkI2c) :
    List (Event Uefi) → List MtkAttempt → MtkI2c → Prop
  | once {a : MtkAttempt} {c' : MtkI2c} (hran : a.Ran wLen rLen c c')
      (hmask : a.maskOn = c.irqMaskOn) : MtkAttempts wLen rLen c a.trace [a] c'
  | twice {first second : MtkAttempt} {reset : List (Event Uefi)} {c₁ c₂ c' : MtkI2c}
      (hfirst : first.Ran wLen rLen c c₁) (hmask : first.maskOn = c.irqMaskOn)
      (hoff : c.irqMaskOn = false) (hlatched : first.latched c.base wLen rLen = 0)
      (hreset : (mtkInitHw.run { c₁ with irqMaskOn := true }).Returns reset ((), c₂))
      (hsecond : second.Ran wLen rLen c₂ c') (hon : second.maskOn = true) :
      MtkAttempts wLen rLen c (first.trace ++ reset ++ second.trace) [first, second] c'

theorem mtkClassify_clean {acc : UInt16} (h : mtkClassify acc = .success) :
    acc &&& mtkErrorBits = 0 := by
  unfold mtkClassify at h
  split at h
  · cases h
  split at h
  · cases h
  split at h
  · cases h
  · next hnak harb =>
    rw [bne_iff_ne, not_not] at hnak harb
    have hbits : mtkErrorBits = mtkI2cHsNackerr ||| mtkI2cAckerr ||| mtkI2cArbLost := by decide
    rw [hbits, UInt16.and_comm, or_and_distrib_watch, UInt16.and_comm, hnak, UInt16.and_comm, harb,
      UInt16.or_self]

/-- The status of an attempt is success or an error. -/
theorem mtkClassify_cases (acc : UInt16) :
    mtkClassify acc = .success ∨ (mtkClassify acc).isError = true := by
  unfold mtkClassify
  split
  · exact .inr rfl
  split
  · exact .inr rfl
  split
  · exact .inr rfl
  · exact .inl rfl

section

variable {c c' : MtkI2c} {wLen rLen : ℕ} {maskOn : Bool} {status : EfiStatus}
  {t : List (Event Uefi)}

private theorem attempted (h : ((mtkDoTransfer wLen rLen maskOn).run c).Returns t (status, c'))
    (s : MtkSeen) : Attempted wLen rLen c s status c' ((mtkWatch c.base).after s t) :=
  Monitor.post_of_wpS wpS_mtkDoTransfer_watch h

private theorem mtkInitHw_seen (h : (mtkInitHw.run c).Returns t ((), c')) (s : MtkSeen) :
    c' = { c with initialized := true } ∧ ((mtkWatch c.base).after s t).started = s.started ∧
      ((mtkWatch c.base).after s t).mask = 0 ∧
      ((mtkWatch c.base).after s t).raised = s.raised :=
  (Monitor.post_of_wpS wpS_mtkInitHw_watch h :)

/-- What a transfer keeps of an instance. -/
structure MtkKept (c c' : MtkI2c) : Prop where
  base : c'.base = c.base
  rxBuf : c'.rxBuf = c.rxBuf
  irqMaskOn : c.irqMaskOn = true → c'.irqMaskOn = true

theorem MtkKept.trans {c'' : MtkI2c} (h : MtkKept c c') (h' : MtkKept c' c'') : MtkKept c c'' :=
  ⟨h'.base.trans h.base, h'.rxBuf.trans h.rxBuf, fun hmask ↦ h'.irqMaskOn (h.irqMaskOn hmask)⟩

private theorem kept_of_ran (h : ((mtkDoTransfer wLen rLen maskOn).run c).Returns t (status, c')) :
    MtkKept c c' := by
  obtain ⟨flag, rfl⟩ := (attempted h {}).left
  exact ⟨rfl, rfl, id⟩

/-- A transaction makes its attempts, and nothing else. -/
theorem mtkTransact_attempts (h : ((mtkTransact wLen rLen).run c).Returns t (status, c')) :
    ∃ attempts, MtkAttempts wLen rLen c t attempts c' ∧
      attempts.getLast?.map MtkAttempt.status = some status := by
  obtain ⟨t₀, t, c₀, c₁, rfl, hget, h⟩ := Prog.returnsS_bind.mp h
  obtain ⟨rfl, rfl, rfl⟩ := Prog.returnsS_get.mp hget
  obtain ⟨t₁, t, status₁, c₁, rfl, hfirst, h⟩ := Prog.returnsS_bind.mp h
  obtain ⟨t₀, t, c₂, c₃, rfl, hget, h⟩ := Prog.returnsS_bind.mp h
  obtain ⟨rfl, rfl, rfl⟩ := Prog.returnsS_get.mp hget
  obtain ⟨flag, hleft⟩ := (attempted hfirst {}).left
  split at h
  · next hunlatched =>
    simp only [mtkUnlatched, Bool.and_eq_true, beq_iff_eq, Bool.not_eq_true'] at hunlatched
    obtain ⟨⟨-, hmask⟩, hlatched⟩ := hunlatched
    rw [hleft] at hmask hlatched
    obtain ⟨t₂, t, _, c₂, rfl, hmodify, h⟩ := Prog.returnsS_bind.mp h
    obtain ⟨rfl, rfl⟩ := Prog.returnsS_modify.mp hmodify
    obtain ⟨t₃, t, _, c₃, rfl, hinit, h⟩ := Prog.returnsS_bind.mp h
    have htwice := @MtkAttempts.twice wLen rLen c ⟨c.irqMaskOn, t₁, status₁⟩ ⟨true, t, status⟩ _ _ _
      _ hfirst rfl hmask hlatched hinit h rfl
    refine ⟨[⟨c.irqMaskOn, t₁, status₁⟩, ⟨true, t, status⟩], ?_, rfl⟩
    simpa only [List.nil_append, List.append_assoc] using htwice
  · obtain ⟨rfl, rfl, rfl⟩ := Prog.returnsS_pure.mp h
    have honce := @MtkAttempts.once wLen rLen c ⟨c.irqMaskOn, t₁, status₁⟩ _ hfirst rfl
    refine ⟨[⟨c.irqMaskOn, t₁, status₁⟩], ?_, rfl⟩
    simpa only [List.nil_append, List.append_nil] using honce

namespace MtkAttempts

variable {attempts : List MtkAttempt}

theorem kept (h : MtkAttempts wLen rLen c t attempts c') : MtkKept c c' := by
  cases h with
  | once hran hmask => exact kept_of_ran hran
  | twice hfirst hmask hoff hlatched hreset hsecond hon =>
    have hkept₁ := kept_of_ran hfirst
    refine MtkKept.trans ?_ (kept_of_ran hsecond)
    rw [(mtkInitHw_seen hreset {}).1]
    exact ⟨hkept₁.base, hkept₁.rxBuf, fun _ ↦ rfl⟩

/-- The attempts are all that the trace starts, and leave the sources masked. -/
theorem seen (h : MtkAttempts wLen rLen c t attempts c') (s : MtkSeen) :
    ((mtkWatch c.base).after s t).started = s.started + attempts.length ∧
      ((mtkWatch c.base).after s t).mask = 0 ∧
      ((mtkWatch c.base).after s t).raised = s.raised := by
  cases h with
  | once hran hmask => exact ⟨(attempted hran s).started, (attempted hran s).mask,
      (attempted hran s).raised⟩
  | @twice first second reset c₁ c₂ _ hfirst hmask hoff hlatched hreset hsecond hon =>
    have h₁ := attempted hfirst s
    have hbase : c₁.base = c.base := (kept_of_ran hfirst).base
    obtain ⟨hc₂, h₂⟩ := mtkInitHw_seen hreset ((mtkWatch c.base).after s first.trace)
    have h₃ := attempted hsecond
      ((mtkWatch c.base).after ((mtkWatch c.base).after s first.trace) reset)
    rw [show c₂.base = c.base by rw [hc₂]; exact hbase] at h₃
    simp only [hbase] at h₂
    rw [Monitor.after_append, Monitor.after_append]
    refine ⟨?_, h₃.mask, ?_⟩
    · rw [h₃.started, h₂.1, h₁.started]
      rfl
    · rw [h₃.raised, h₂.2.2, h₁.raised]

/-- No attempt that has seen an error bit is successful. -/
theorem clean (h : MtkAttempts wLen rLen c t attempts c') :
    ∀ a ∈ attempts, a.status = .success → a.latched c.base wLen rLen &&& mtkErrorBits = 0 := by
  have hclean {a : MtkAttempt} {c₁ c₂ : MtkI2c} (hran : a.Ran wLen rLen c₁ c₂)
      (hbase : c₁.base = c.base) (hsuccess : a.status = .success) :
      a.latched c.base wLen rLen &&& mtkErrorBits = 0 := by
    have hstatus := (attempted hran {}).status
    rw [hbase] at hstatus
    exact mtkClassify_clean (hstatus.symm.trans hsuccess)
  cases h with
  | once hran hmask =>
    intro a ha
    obtain rfl := List.mem_singleton.mp ha
    exact hclean hran rfl
  | @twice first second reset c₁ c₂ _ hfirst hmask hoff hlatched hreset hsecond hon =>
    have hbase : c₂.base = c.base := by
      rw [(mtkInitHw_seen hreset {}).1]
      exact (kept_of_ran hfirst).base
    intro a ha
    obtain rfl | rfl : a = first ∨ a = second := by simpa using ha
    · exact hclean hfirst rfl
    · exact hclean hsecond hbase

/-- The last attempt ends in success or in an error. -/
theorem status_cases (h : MtkAttempts wLen rLen c t attempts c')
    (hlast : attempts.getLast?.map MtkAttempt.status = some status) :
    status = .success ∨ status.isError = true := by
  cases h with
  | once hran hmask =>
    rw [← Option.some.inj hlast]
    exact (attempted hran {}).status ▸ mtkClassify_cases _
  | twice hfirst hmask hoff hlatched hreset hsecond hon =>
    rw [← Option.some.inj hlast]
    exact (attempted hsecond {}).status ▸ mtkClassify_cases _

end MtkAttempts

/-! ## A transfer -/

/-- Nothing of `MtkFill` and `MtkCollect` is seen: they only move bytes. -/
private theorem mtkFill_seen {wBuf : Option (List UInt8)}
    (h : ((mtkFill wBuf wLen).run c).Returns t ((), c')) (s : MtkSeen) :
    c' = c ∧ (mtkWatch c.base).after s t = s := by
  unfold mtkFill at h
  split at h
  · obtain ⟨t₁, t, bytes, c₁, rfl, hcopy, h⟩ := Prog.returnsS_bind.mp h
    obtain ⟨rfl, -, rfl⟩ := Prog.returnsS_liftChecked.mp hcopy
    obtain ⟨t₂, t, c₂, c₃, rfl, hget, h⟩ := Prog.returnsS_bind.mp h
    obtain ⟨rfl, rfl, rfl⟩ := Prog.returnsS_get.mp hget
    obtain ⟨hstore, rfl⟩ := Prog.returnsS_lift.mp h
    obtain rfl := Prog.returns_perform.mp hstore
    exact ⟨rfl, rfl⟩
  · obtain ⟨rfl, -, rfl⟩ := Prog.returnsS_pure.mp h
    exact ⟨rfl, rfl⟩

/-- What `RBuf` holds after a successful transfer: what the receive buffer held after the last
attempt. -/
def Delivers (rxBuf : UInt64) (rBuf rBuf' : Option (List UInt8)) (rLen : ℕ)
    (after : List (Event Uefi)) : Prop :=
  (rLen = 0 → rBuf' = rBuf) ∧
  (0 < rLen → ∃ bytes : Filled rLen, ⟨.loadDma rxBuf rLen, bytes⟩ ∈ after ∧
    rBuf' = stored rBuf bytes.1)

private theorem mtkCollect_seen {rBuf rBuf' : Option (List UInt8)}
    (hr : rLen ≤ (rBuf.getD []).length)
    (h : ((mtkCollect rBuf rLen status).run c).Returns t (rBuf', c')) :
    c' = c ∧ (∀ s, (mtkWatch c.base).after s t = s) ∧
      (status.isError = true → rBuf' = rBuf ∧ t = []) ∧
      (status.isError = false → Delivers c.rxBuf rBuf rBuf' rLen t) := by
  unfold mtkCollect at h
  split at h
  · next hcond =>
    obtain ⟨hok, hpos⟩ := Bool.and_eq_true_iff.mp hcond
    have hpos : 0 < rLen := of_decide_eq_true hpos
    obtain ⟨t₂, t, c₂, c₃, rfl, hget, h⟩ := Prog.returnsS_bind.mp h
    obtain ⟨rfl, rfl, rfl⟩ := Prog.returnsS_get.mp hget
    obtain ⟨t₁, t, bytes, c₁, rfl, hload, hrest⟩ := Prog.returnsS_bind.mp h
    obtain ⟨hloaded, rfl⟩ := Prog.returnsS_lift.mp hload
    obtain rfl := Prog.returns_perform.mp hloaded
    obtain ⟨t₃, t, buf, c₄, rfl, hcopy, hend⟩ := Prog.returnsS_bind.mp hrest
    obtain ⟨rfl, hbuf, rfl⟩ := Prog.returnsS_liftChecked.mp hcopy
    obtain ⟨rfl, rfl, rfl⟩ := Prog.returnsS_pure.mp hend
    have hlen : 0 + rLen ≤ bytes.1.length := by rw [bytes.2, Nat.zero_add]
    rw [copyMem_ok hr hlen, Except.ok.injEq] at hbuf
    refine ⟨rfl, fun _ ↦ rfl, fun herror ↦ ?_, fun _ ↦ ⟨fun hzero ↦ ?_, fun _ ↦ ⟨bytes, ?_, ?_⟩⟩⟩
    · rw [herror] at hok
      contradiction
    · exact absurd hzero hpos.ne'
    · simp
    · rw [← hbuf, List.drop_zero, List.take_of_length_le bytes.2.le]
      cases rBuf with
      | none => exact absurd hr (by simpa using hpos.ne')
      | some buf => rw [stored, Option.map_some, Option.getD_some, bytes.2]
  · next hcond =>
    obtain ⟨rfl, rfl, rfl⟩ := Prog.returnsS_pure.mp h
    refine ⟨rfl, fun _ ↦ rfl, fun _ ↦ ⟨rfl, rfl⟩, fun hok ↦ ⟨fun _ ↦ rfl, fun hpos ↦ ?_⟩⟩
    exact absurd (by rw [hok, decide_eq_true hpos]; rfl) hcond

/-- The arguments and instances that a transfer refuses. -/
def MtkRefuses (ctl : MtkI2c) (wBuf : Option (List UInt8)) (wLen : ℕ)
    (rBuf : Option (List UInt8)) (rLen : ℕ) : Prop :=
  ctl.txBuf = 0 ∨ ctl.rxBuf = 0 ∨ (wLen = 0 ∧ rLen = 0) ∨ 4096 < wLen ∨ 4096 < rLen ∨
    (0 < wLen ∧ wBuf = none) ∨ (0 < rLen ∧ rBuf = none)

private theorem mtkRefuses_iff {ctl : MtkI2c} (hinit : ctl.initialized = true)
    (wBuf : Option (List UInt8)) (wLen : ℕ) (rBuf : Option (List UInt8)) (rLen : ℕ) :
    MtkRefuses ctl wBuf wLen rBuf rLen ↔
      (!ctl.initialized || ctl.txBuf == 0 || ctl.rxBuf == 0) = true ∨
        mtkXferInvalid wBuf wLen rBuf rLen = true := by
  have hmax : mtkI2cMaxXfer = 4096 := rfl
  simp only [MtkRefuses, mtkXferInvalid, hinit, hmax, Bool.not_true, Bool.false_or,
    Bool.or_eq_true, Bool.and_eq_true, beq_iff_eq, decide_eq_true_eq, Option.isNone_iff_eq_none,
    or_assoc]

/-- A transfer that was attempted: its attempts start all that it starts, what follows them brings
the bytes or resets the instance that they have left, and in the end its sources are masked and the
TPL is as it was. -/
structure MtkAtomic (ctl : MtkI2c) (wLen rLen : ℕ) (rBuf rBuf' : Option (List UInt8))
    (status : EfiStatus) (t : List (Event Uefi)) (attempts : List MtkAttempt)
    (before tries after : List (Event Uefi)) (left : MtkI2c) : Prop where
  split : t = before ++ tries ++ after
  attempted : MtkAttempts wLen rLen ctl tries attempts left
  started : ∀ s, ((mtkWatch ctl.base).after s t).started = s.started + attempts.length
  clean : ∀ a ∈ attempts, a.status = .success →
    a.latched ctl.base wLen rLen &&& mtkErrorBits = 0
  result : attempts.getLast?.map MtkAttempt.status = some status
  outcome : status = .success ∧ Delivers ctl.rxBuf rBuf rBuf' rLen after ∨
    status.isError = true ∧ rBuf' = rBuf ∧ ∃ reset rest ctl', after = reset ++ rest ∧
      (mtkInitHw.run left).Returns reset ((), ctl')
  mask : ∀ s, ((mtkWatch ctl.base).after s t).mask = 0
  raised : ∀ s, ((mtkWatch ctl.base).after s t).raised = false

private theorem mtkRecover_seen (h : ((mtkRecover status).run c).Returns t ((), c')) :
    MtkKept c c' ∧ (status.isError = true → (mtkInitHw.run c).Returns t ((), c')) ∧
      ∀ s : MtkSeen, s.mask = 0 → ((mtkWatch c.base).after s t).started = s.started ∧
        ((mtkWatch c.base).after s t).mask = 0 := by
  unfold mtkRecover at h
  split at h
  · refine ⟨?_, fun _ ↦ h, fun s _ ↦ ?_⟩
    · rw [(mtkInitHw_seen h {}).1]
      exact ⟨rfl, rfl, id⟩
    · obtain ⟨-, hstarted, hmask, -⟩ := mtkInitHw_seen h s
      exact ⟨hstarted, hmask⟩
  · next hok =>
    obtain ⟨rfl, -, rfl⟩ := Prog.returnsS_pure.mp h
    exact ⟨⟨rfl, rfl, id⟩, fun herror ↦ absurd herror hok, fun s hs ↦ ⟨rfl, hs⟩⟩

/-- **Transfers are atomic on error.** Whatever the controller shows, a transfer of an initialised
instance refuses the arguments it has to and then does nothing; any other makes its attempts and
ends with the bytes delivered, or with an error, the buffer as it was and the controller reset. The
sources are masked and the TPL is restored in every case, and unmasked polling is never given up
again. -/
theorem mtkI2cXfer_atomic {ctl : MtkI2c} (hinit : ctl.initialized = true)
    {wBuf rBuf : Option (List UInt8)} {wLen rLen : ℕ} (hbuf : XferBuffers wBuf wLen rBuf rLen) :
    (within fun _ ↦ True).world.wpS (mtkI2cXfer wBuf wLen rBuf rLen) (fun _ _ _ ↦ True) ctl () ∧
    ∀ t status rBuf' ctl',
      ((mtkI2cXfer wBuf wLen rBuf rLen).run ctl).Returns t ((status, rBuf'), ctl') →
        (ctl.irqMaskOn = true → ctl'.irqMaskOn = true) ∧
        (MtkRefuses ctl wBuf wLen rBuf rLen →
          t = [] ∧ status.isError = true ∧ rBuf' = rBuf ∧ ctl' = ctl) ∧
        (¬MtkRefuses ctl wBuf wLen rBuf rLen → ∃ attempts before tries after left,
          MtkAtomic ctl wLen rLen rBuf rBuf' status t attempts before tries after left) := by
  refine ⟨?_, fun t status rBuf' ctl' h ↦ ?_⟩
  · have hwithin := mtkI2cXfer_within (c := ctl) rfl rfl hbuf
    exact World.wpS_mono (wpS_within_mono hwithin fun _ _ ↦ trivial) fun _ _ _ _ ↦ trivial
  unfold mtkI2cXfer at h
  obtain ⟨t₀, t, c₀, c₁, rfl, hget, h⟩ := Prog.returnsS_bind.mp h
  obtain ⟨rfl, rfl, rfl⟩ := Prog.returnsS_get.mp hget
  have hrefuses := mtkRefuses_iff hinit wBuf wLen rBuf rLen
  split at h
  · next hnot =>
    obtain ⟨rfl, hend, rfl⟩ := Prog.returnsS_pure.mp h
    obtain ⟨rfl, rfl⟩ := Prod.mk.inj hend
    exact ⟨id, fun _ ↦ ⟨rfl, rfl, rfl, rfl⟩, fun hno ↦ absurd (hrefuses.mpr (.inl hnot)) hno⟩
  split at h
  · next _ hnot =>
    obtain ⟨rfl, hend, rfl⟩ := Prog.returnsS_pure.mp h
    obtain ⟨rfl, rfl⟩ := Prod.mk.inj hend
    exact ⟨id, fun _ ↦ ⟨rfl, rfl, rfl, rfl⟩, fun hno ↦ absurd (hrefuses.mpr (.inr hnot)) hno⟩
  · next hready hvalid =>
    -- the trace is cut at the steps of the transfer: fill, raise, tries, recovery, restore, collect
    obtain ⟨t₁, t, _, c₁, rfl, hfill, h₁⟩ := Prog.returnsS_bind.mp h
    have hfilled := mtkFill_seen hfill
    obtain rfl := (hfilled {}).1
    obtain ⟨t₂, t, _, c₂, rfl, hraise, h₂⟩ := Prog.returnsS_bind.mp h₁
    obtain ⟨hraised, rfl⟩ := Prog.returnsS_lift.mp hraise
    obtain rfl := Prog.returns_perform.mp hraised
    obtain ⟨tries, t, status', c₃, rfl, htransact, h₃⟩ := Prog.returnsS_bind.mp h₂
    obtain ⟨attempts, hattempts, hlast⟩ := mtkTransact_attempts htransact
    obtain ⟨t₄, t, _, c₄, rfl, hrecover, h₄⟩ := Prog.returnsS_bind.mp h₃
    obtain ⟨hkept₄, hreset, hseen₄⟩ := mtkRecover_seen hrecover
    obtain ⟨t₅, t, _, c₅, rfl, hrestore, h₅⟩ := Prog.returnsS_bind.mp h₄
    obtain ⟨hrestored, rfl⟩ := Prog.returnsS_lift.mp hrestore
    obtain rfl := Prog.returns_perform.mp hrestored
    obtain ⟨t₆, t, buf, c₆, rfl, hcollect, h₆⟩ := Prog.returnsS_bind.mp h₅
    obtain ⟨rfl, hend, rfl⟩ := Prog.returnsS_pure.mp h₆
    obtain ⟨rfl, rfl⟩ := Prod.mk.inj hend
    obtain ⟨rfl, hseen₆, hfail, hdeliver⟩ := mtkCollect_seen hbuf.r hcollect
    have hkept := hattempts.kept.trans hkept₄
    rw [hattempts.kept.base] at hseen₄
    rw [hkept.base] at hseen₆
    rw [hkept.rxBuf] at hdeliver
    -- only the tries and the recovery are seen by the monitor, between the two TPL changes
    have hwatch : ∀ s, (mtkWatch c₁.base).after s
        ([] ++ (t₁ ++ ([⟨.raiseTpl, ()⟩] ++ (tries ++ (t₄ ++
          ([⟨.restoreTpl, ()⟩] ++ (t₆ ++ [])))))))
        = { (mtkWatch c₁.base).after ((mtkWatch c₁.base).after { s with raised := true }
            tries) t₄ with raised := false } := by
      intro s
      rw [List.nil_append, Monitor.after_append, (hfilled s).2, Monitor.after_append,
        Monitor.after_append, Monitor.after_append, Monitor.after_append, List.append_nil, hseen₆]
      rfl
    have hgoes : ¬MtkRefuses c₁ wBuf wLen rBuf rLen := fun hrefused ↦
      (hrefuses.mp hrefused).elim hready hvalid
    refine ⟨hkept.irqMaskOn, fun hrefused ↦ absurd hrefused hgoes, fun _ ↦ ⟨attempts,
      t₁ ++ [⟨.raiseTpl, ()⟩], tries, t₄ ++ ([⟨.restoreTpl, ()⟩] ++ t₆), c₃, ?_, hattempts,
      fun s ↦ ?_, hattempts.clean, hlast, ?_, fun s ↦ ?_, fun s ↦ ?_⟩⟩
    · simp
    · obtain ⟨hstarted, hmask, -⟩ := hattempts.seen { s with raised := true }
      rw [hwatch]
      exact (hseen₄ _ hmask).1.trans hstarted
    · obtain hok | herror := hattempts.status_cases hlast
      · obtain ⟨hnone, hsome⟩ := hdeliver (by rw [hok]; rfl)
        refine .inl ⟨hok, hnone, fun hpos ↦ ?_⟩
        obtain ⟨bytes, hmem, hbuf⟩ := hsome hpos
        exact ⟨bytes, by simp [hmem], hbuf⟩
      · exact .inr ⟨herror, (hfail herror).1, t₄, _, _, rfl, hreset herror⟩
    · obtain ⟨-, hmask, -⟩ := hattempts.seen { s with raised := true }
      rw [hwatch]
      exact (hseen₄ _ hmask).2
    · rw [hwatch]

/-- A controller that completes every transaction and reads 7. -/
def completingMachine (_ : Unit) : (e : UefiOp) → e.Ret × Unit
  | .mmioRead16 _ => (mtkI2cTransacComp, ())
  | .loadDma _ n => (⟨List.replicate n 7, List.length_replicate⟩, ())
  | e => (e.zeros, ())

/-- An instance after `MtkI2cInit`. -/
def initialisedMtk : MtkI2c :=
  { base := 0x11280000, dmaBase := 0x10220000, mapped := true, initialized := true,
    txBuf := 0x2000, rxBuf := 0x3000, txPhys := 0x2000, rxPhys := 0x3000 }

/-- A controller that latches nothing at all. -/
def silentMachine (_ : Unit) (e : UefiOp) : e.Ret × Unit := (e.zeros, ())

private theorem not_refuses_read : ¬MtkRefuses initialisedMtk none 0 (some [0]) 1 := by
  unfold MtkRefuses
  decide

/-- A read that completes, and one that is tried again and given up. -/
theorem mtkI2cXfer_atomic_read :
    (∃ t attempts before tries after left, MtkAtomic initialisedMtk 0 1 (some [0]) (some [7])
      .success t attempts before tries after left) ∧
    ∃ t attempts before tries after left, attempts.length = 2 ∧
      MtkAtomic initialisedMtk 0 1 (some [0]) (some [0]) .timeout t attempts before tries after
        left := by
  have hgoes := (mtkI2cXfer_atomic (show initialisedMtk.initialized = true from rfl)
    (show XferBuffers none 0 (some [0]) 1 from ⟨by decide, by decide⟩)).2
  constructor
  · have hrun : (((mtkI2cXfer none 0 (some [0]) 1).run initialisedMtk).simulate completingMachine
        ()).2.map Prod.fst = some (.success, some [7]) := by decide +kernel
    obtain ⟨⟨_, ctl'⟩, hsim, hfst⟩ := Option.map_eq_some_iff.mp hrun
    obtain rfl : _ = _ := hfst
    exact ⟨_, (hgoes _ _ _ _ (Prog.returns_simulate hsim)).2.2 not_refuses_read⟩
  · have hrun : (((mtkI2cXfer none 0 (some [0]) 1).run initialisedMtk).simulate silentMachine
        ()).2.map Prod.fst = some (.timeout, some [0]) := by decide +kernel
    have hstarted : ((mtkWatch initialisedMtk.base).after {}
        (((mtkI2cXfer none 0 (some [0]) 1).run initialisedMtk).simulate silentMachine ()).1).started
          = 2 := by decide +kernel
    obtain ⟨⟨_, ctl'⟩, hsim, hfst⟩ := Option.map_eq_some_iff.mp hrun
    obtain rfl : _ = _ := hfst
    have hret := Prog.returns_simulate hsim
    generalize (((mtkI2cXfer none 0 (some [0]) 1).run initialisedMtk).simulate silentMachine ()).1
      = t at hret hstarted
    obtain ⟨attempts, before, tries, after, left, hatomic⟩ :=
      (hgoes _ _ _ _ hret).2.2 not_refuses_read
    refine ⟨t, attempts, before, tries, after, left, ?_, hatomic⟩
    have hcount := hatomic.started {}
    rw [hstarted] at hcount
    exact (hcount.trans (Nat.zero_add _)).symm

end

end

end TouchI2c
