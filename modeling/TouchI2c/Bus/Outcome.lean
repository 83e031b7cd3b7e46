import TouchI2c.Bus.Footprint
import TouchI2c.DwI2c.Outcome

/-!
# The outcome of a transfer on the MediaTek controller

A controller that reports what becomes of a transfer through the bits of `INTR_STAT`: an error
first, if there is one, and then completion, both of which stay until they are cleared. On some
parts the status tracks only the unmasked sources. The bytes that were read arrive by DMA.

## Latched and accumulated

A bit that is latched stays until the driver clears it, and the driver clears only what it has seen
and accumulates that. So the bits accumulated and the bits latched together are those of the
transaction at any moment of the poll, and the bits that end the poll are among them. The driver's
status is a function of the accumulated bits alone.

## Two attempts

On a part that hides masked sources the first attempt shows nothing and times out; the controller is
then reset, and the second attempt, with the sources unmasked, shows what the outcome calls for.
What does not start the controller leaves it idle, and a reset leaves it idle whatever it was doing.

The controller may step on its own between two operations, so every rule asks for what its steps
keep.
-/

namespace TouchI2c

open CMemory Interaction

/-! ## Outcomes -/

namespace BusOutcome

/-- The bit of `INTR_STAT` that reports an error; the NAK of any byte raises `ACKERR`. -/
def mtkError : BusOutcome → UInt16
  | addressNak _ | dataNak _ => mtkI2cAckerr
  | arbitrationLost _ => mtkI2cArbLost
  | acked _ | stuck _ => 0

/-- What `MtkI2cXfer` makes of an outcome. -/
def mtkStatus : BusOutcome → EfiStatus
  | acked _ => .success
  | addressNak _ | dataNak _ => .noResponse
  | arbitrationLost _ => .deviceError
  | stuck _ => .timeout

end BusOutcome

/-- The bits that report completion. -/
def mtkCompletion : UInt16 := mtkI2cTransacComp ||| mtkI2cRsTransfer

/-- The completion bits that a transfer may raise; the restart bit only without a repeated START. -/
def CompletesWith (wLen rLen : ℕ) (bits : UInt16) : Prop :=
  bits = mtkI2cTransacComp ∨
    (¬(0 < wLen ∧ 0 < rLen) ∧ (bits = mtkI2cRsTransfer ∨ bits = mtkCompletion))

/-! ## The controller -/

/-- The controller and its DMA engine. -/
structure MtkBus where
  running : Bool
  /-- The bits raised since the start. -/
  raised : UInt16
  /-- `INTR_STAT`. -/
  latched : UInt16
  /-- `INTR_MASK`. -/
  mask : UInt16
  /-- Microseconds that the driver has waited since the start. -/
  waited : ℕ
  rxHigh : UInt32
  rxLow : UInt32
  rxLen : UInt32

namespace MtkBus

/-- The bits of `bits` that `INTR_STAT` latches. -/
def latch (unmaskedOnly : Bool) (m : MtkBus) (bits : UInt16) : UInt16 :=
  if unmaskedOnly then bits &&& m.mask else bits

/-- One step of the controller towards the outcome. -/
inductive Step (o : BusOutcome) (wLen rLen : ℕ) (unmaskedOnly : Bool) : MtkBus → MtkBus → Prop
  | error {m : MtkBus} (hrunning : m.running = true) (hraised : m.raised = 0) :
      Step o wLen rLen unmaskedOnly m { m with
        raised := o.mtkError, latched := m.latched ||| m.latch unmaskedOnly o.mtkError }
  | complete {m : MtkBus} {bits : UInt16} (hrunning : m.running = true) (hstuck : ¬o.Stuck)
      (hraised : m.raised = o.mtkError) (hbits : CompletesWith wLen rLen bits) :
      Step o wLen rLen unmaskedOnly m { m with
        raised := o.mtkError ||| bits, latched := m.latched ||| m.latch unmaskedOnly bits }

/-- The controller after a 16-bit register is written. -/
def written (m : MtkBus) (off : UInt64) (val : UInt16) : MtkBus :=
  if off = mtkRegIntrStat then { m with latched := m.latched &&& ~~~val }
  else if off = mtkRegIntrMask then { m with mask := val }
  else if off = mtkRegStart then
    if val = mtkI2cChnClrFlag then { m with running := false }
    else { m with running := true, raised := 0, waited := 0 }
  else if off = mtkRegSoftreset ∧ val &&& mtkI2cSoftRst ≠ 0 then
    { m with running := false, latched := 0, mask := 0 }
  else m

/-- The controller after a 32-bit register of the DMA engine is written. -/
def dmaWritten (m : MtkBus) (off : UInt64) (val : UInt32) : MtkBus :=
  if off = mtkDmaRx4gMode then { m with rxHigh := val }
  else if off = mtkDmaRxMemAddr then { m with rxLow := val }
  else if off = mtkDmaRxLen then { m with rxLen := val }
  else m

/-- The DMA engine has put what was read where the receive buffer is. -/
def Holds (o : BusOutcome) (m : MtkBus) (phys : UInt64) (n : ℕ) (bytes : List UInt8) : Prop :=
  ∀ data, o = .acked data → m.raised &&& mtkCompletion ≠ 0 → m.rxHigh = highHalf phys →
    m.rxLow = phys.toUInt32 → n ≤ m.rxLen.toNat → data.take n <+: bytes

/-- What an operation of the driver does to the controller. Unless the bus is stuck, a transfer
completes within the time that the driver allows for it. -/
def Answers (o : BusOutcome) (wLen rLen : ℕ) (base dmaBase : UInt64) (m : MtkBus) :
    (e : UefiOp) → e.Ret → MtkBus → Prop
  | .mmioRead16 a, r, m' => m' = m ∧ (a - base = mtkRegIntrStat →
      r &&& 0x1F = m.latched &&& 0x1F ∧ (¬o.Stuck → m.running = true →
        mtkXferBudget wLen rLen ≤ m.waited → m.raised &&& mtkCompletion ≠ 0))
  | .mmioWrite16 a val, _, m' => m' = m.written (a - base) val
  | .mmioWrite32 a val, _, m' => m' = m.dmaWritten (a - dmaBase) val
  | .stall us, _, m' => m' = { m with waited := m.waited + us }
  | .loadDma phys n, r, m' => m' = m ∧ m.Holds o phys n r.1
  | _, _, m' => m' = m

end MtkBus

/-- The controller on a bus with the outcome `o` as the environment of the driver. -/
def mtkBus (o : BusOutcome) (wLen rLen : ℕ) (unmaskedOnly : Bool) (base dmaBase : UInt64) :
    World Uefi MtkBus where
  drift := Relation.ReflTransGen (MtkBus.Step o wLen rLen unmaskedOnly)
  Allowed _ _ := True
  answer := MtkBus.Answers o wLen rLen base dmaBase

/-! ## Bits -/

private theorem ext16 {a b : UInt16} (h : ∀ i, a.toBitVec.getLsbD i = b.toBitVec.getLsbD i) :
    a = b := UInt16.toBitVec_inj.mp (BitVec.eq_of_getLsbD_eq fun i _ ↦ h i)

private theorem get16 {a b : UInt16} (h : a = b) (i : ℕ) :
    a.toBitVec.getLsbD i = b.toBitVec.getLsbD i := by rw [h]

private theorem accumulate_clear {acc stat latched : UInt16} (h : latched &&& stat = stat) :
    (acc ||| stat) ||| (latched &&& ~~~stat) = acc ||| latched := by
  refine ext16 fun i ↦ ?_
  have hi := get16 h i
  simp only [UInt16.toBitVec_or, UInt16.toBitVec_and, UInt16.toBitVec_not, BitVec.getLsbD_or,
    BitVec.getLsbD_and, BitVec.getLsbD_not] at hi ⊢
  by_cases hlt : i < 16
  · grind
  · simp [BitVec.getLsbD_of_ge _ _ (not_lt.mp hlt)]

private theorem or_and_distrib (a b k : UInt16) : (a ||| b) &&& k = (a &&& k) ||| (b &&& k) := by
  refine ext16 fun i ↦ ?_
  simp only [UInt16.toBitVec_or, UInt16.toBitVec_and, BitVec.getLsbD_or, BitVec.getLsbD_and]
  grind

/-! ## The idle controller -/

section

variable {o : BusOutcome} {wLen rLen : ℕ} {unmaskedOnly : Bool} {base dmaBase : UInt64}
  {c : MtkI2c} {m m' : MtkBus} {α : Type}

private theorem drift_idle (hidle : m.running = false)
    (h : (mtkBus o wLen rLen unmaskedOnly base dmaBase).drift m m') : m' = m := by
  induction h with
  | refl => rfl
  | tail _ hstep ih =>
    subst ih
    cases hstep with
    | error hrunning => exact Bool.noConfusion (hrunning.symm.trans hidle)
    | complete hrunning => exact Bool.noConfusion (hrunning.symm.trans hidle)

private theorem still_idle (hidle : m.running = false) (m' : MtkBus) :
    (mtkBus o wLen rLen unmaskedOnly base dmaBase).drift m m' ↔ m' = m :=
  ⟨drift_idle hidle, fun h ↦ h ▸ .refl⟩

private theorem wpS_i2cRd_idle {off : UInt64} {Q : UInt16 → MtkI2c → MtkBus → Prop}
    (hidle : m.running = false) (hQ : ∀ v, Q v c m) :
    (mtkBus o wLen rLen unmaskedOnly base dmaBase).wpS (i2cRd off) Q c m :=
  (wpS_i2cRd_still (still_idle hidle) Iff.rfl fun _ _ ↦ and_comm).mpr ⟨trivial, fun v _ ↦ hQ v⟩

private theorem wpS_i2cWr_idle {off : UInt64} {val : UInt16} {Q : Unit → MtkI2c → MtkBus → Prop}
    (hbase : c.base = base) (hidle : m.running = false) :
    (mtkBus o wLen rLen unmaskedOnly base dmaBase).wpS (i2cWr off val) Q c m ↔
      Q () c (m.written off val) := by
  subst hbase
  refine (wpS_i2cWr_still (still_idle hidle) Iff.rfl fun m' ↦ ?_).trans (and_iff_right trivial)
  simp only [mtkBus, MtkBus.Answers, add_sub_base]

private theorem wpS_dmaWr_idle {off : UInt64} {val : UInt32} {Q : Unit → MtkI2c → MtkBus → Prop}
    (hdma : c.dmaBase = dmaBase) (hidle : m.running = false) :
    (mtkBus o wLen rLen unmaskedOnly base dmaBase).wpS (dmaWr off val) Q c m ↔
      Q () c (m.dmaWritten off val) := by
  subst hdma
  refine (wpS_dmaWr_still (still_idle hidle) Iff.rfl fun m' ↦ ?_).trans (and_iff_right trivial)
  simp only [mtkBus, MtkBus.Answers, add_sub_base]

private theorem wpS_i2cWr_of_stable {off : UInt64} {val : UInt16} {J : MtkBus → Prop}
    {Q : Unit → MtkI2c → MtkBus → Prop} (hbase : c.base = base)
    (hstable : (mtkBus o wLen rLen unmaskedOnly base dmaBase).Stable J) (hm : J m)
    (h : ∀ m₁, J m₁ → Q () c (m₁.written off val)) :
    (mtkBus o wLen rLen unmaskedOnly base dmaBase).wpS (i2cWr off val) Q c m := by
  intro m₁ hdrift
  refine ⟨trivial, fun _ m₂ hanswer ↦ ?_⟩
  change m₂ = m₁.written (c.base + off - base) val at hanswer
  rw [hanswer, hbase, add_sub_base]
  exact h m₁ (hstable m m₁ hm hdrift)

private theorem idle_of_within {p : Mtk α} {Q : α → MtkI2c → Prop}
    (h : (within (MtkOps base dmaBase (fun _ ↦ True) fun off _ ↦ off ≠ mtkRegStart)).world.wpS p
      (fun a c' _ ↦ Q a c') c ()) (hidle : m.running = false) :
    (mtkBus o wLen rLen unmaskedOnly base dmaBase).wpS p
      (fun a c' m' ↦ Q a c' ∧ m'.running = false) c m := by
  refine @World.wp_of_within _ _ _ (mtkBus o wLen rLen unmaskedOnly base dmaBase) _
    (fun m ↦ m.running = false) (p.run c) (fun r ↦ Q r.1 r.2) h
    (fun m₁ m₂ h₁ hdrift ↦ drift_idle h₁ hdrift ▸ h₁) ?_ m hidle
  intro m₁ e h₁ he
  refine ⟨trivial, fun r m₂ hanswer ↦ ?_⟩
  cases e with
  | mmioWrite16 a val =>
    obtain ⟨off, -, rfl, hoff⟩ := he
    change m₂ = m₁.written (base + off - base) val at hanswer
    rw [hanswer, add_sub_base]
    unfold MtkBus.written
    rw [if_neg hoff]
    split
    · exact h₁
    split
    · exact h₁
    split
    · rfl
    · exact h₁
  | mmioWrite32 a val =>
    change m₂ = m₁.dmaWritten (a - dmaBase) val at hanswer
    rw [hanswer]
    unfold MtkBus.dmaWritten
    split
    · exact h₁
    split
    · exact h₁
    split <;> exact h₁
  | mmioRead16 a => exact hanswer.1 ▸ h₁
  | stall us =>
    obtain rfl : m₂ = { m₁ with waited := m₁.waited + us } := hanswer
    exact h₁
  | loadDma phys n => exact hanswer.1 ▸ h₁
  | _ =>
    obtain rfl : m₂ = m₁ := hanswer
    exact h₁

/-- `MtkInitHw` leaves the controller idle, whatever it was doing. -/
private theorem wpS_mtkInitHw_idle (hbase : c.base = base) (hdma : c.dmaBase = dmaBase) :
    (mtkBus o wLen rLen unmaskedOnly base dmaBase).wpS mtkInitHw
      (fun _ c' m' ↦ c' = { c with initialized := true } ∧ m'.running = false) c m := by
  unfold mtkInitHw
  rw [World.wpS_bind]
  refine wpS_i2cWr_of_stable (J := fun _ ↦ True) hbase (fun _ _ _ _ ↦ trivial) trivial
    fun m₁ _ ↦ ?_
  have hidle : (m₁.written mtkRegStart mtkI2cChnClrFlag).running = false := by
    simp +decide [MtkBus.written]
  refine idle_of_within ?_ hidle
  have hstall := fun us Q ↦ @wp_stall_mtk
    (MtkOps base dmaBase (fun _ ↦ True) fun off _ ↦ off ≠ mtkRegStart) us Q trivial
  simp +decide only [World.wpS_bind, wpS_i2cWr_ops hbase, wpS_i2cRd_ops hbase, wpS_dmaWr_ops hdma,
    World.wpS_get, World.wpS_modify, World.wpS_lift, hstall, true_and, forall_const]

/-! ## Reported bits -/

/-- What a transaction may have raised. -/
private inductive Reported (o : BusOutcome) (wLen rLen : ℕ) : UInt16 → Prop
  | nothing : Reported o wLen rLen 0
  | error : Reported o wLen rLen o.mtkError
  | completed {bits : UInt16} (hstuck : ¬o.Stuck) (hbits : CompletesWith wLen rLen bits) :
      Reported o wLen rLen (o.mtkError ||| bits)

/-- What a transaction shows of the bits that are raised: with its sources masked, maybe none. -/
private def shown (hidden : Bool) (raised : UInt16) : UInt16 := if hidden then 0 else raised

private theorem shown_or (hidden : Bool) (a b : UInt16) :
    shown hidden (a ||| b) = shown hidden a ||| shown hidden b := by
  cases hidden with
  | false => rfl
  | true => exact UInt16.zero_or.symm

private theorem mtkError_and_intrBits : o.mtkError &&& mtkIntrBits wLen rLen = o.mtkError := by
  unfold mtkIntrBits
  cases o <;> dsimp only [BusOutcome.mtkError] <;> split <;> decide

private theorem CompletesWith.and_intrBits {bits : UInt16} (h : CompletesWith wLen rLen bits) :
    bits &&& mtkIntrBits wLen rLen = bits := by
  unfold mtkIntrBits
  rcases h with rfl | ⟨hsingle, rfl | rfl⟩
  · dsimp only
    split <;> decide
  · rw [if_neg hsingle]
    decide
  · rw [if_neg hsingle]
    decide

theorem mtkError_cases :
    o.mtkError = 0 ∨ o.mtkError = mtkI2cAckerr ∨ o.mtkError = mtkI2cArbLost := by
  cases o with
  | acked data => exact .inl rfl
  | stuck i => exact .inl rfl
  | addressNak repeated => exact .inr (.inl rfl)
  | dataNak j => exact .inr (.inl rfl)
  | arbitrationLost i => exact .inr (.inr rfl)

private theorem mtkError_and_completion : o.mtkError &&& mtkCompletion = 0 := by
  rcases @mtkError_cases o with h | h | h <;> rw [h] <;> decide

theorem CompletesWith.shows {bits : UInt16} (h : CompletesWith wLen rLen bits) :
    (o.mtkError ||| bits) &&& mtkCompletion ≠ 0 := by
  rcases h with rfl | ⟨-, rfl | rfl⟩ <;> rcases @mtkError_cases o with h | h | h <;> rw [h] <;> decide

private theorem CompletesWith.classify {bits : UInt16} (h : CompletesWith wLen rLen bits)
    (hstuck : ¬o.Stuck) : mtkClassify (o.mtkError ||| bits) = o.mtkStatus := by
  have hclass : mtkClassify (0 ||| bits) = .success ∧
      mtkClassify (mtkI2cAckerr ||| bits) = .noResponse ∧
      mtkClassify (mtkI2cArbLost ||| bits) = .deviceError := by
    rcases h with rfl | ⟨-, rfl | rfl⟩ <;> decide
  cases o with
  | stuck i => exact absurd trivial hstuck
  | acked data => exact hclass.1
  | addressNak repeated => exact hclass.2.1
  | dataNak j => exact hclass.2.1
  | arbitrationLost i => exact hclass.2.2

private theorem Reported.eq_zero_of_stuck {raised : UInt16} (h : Reported o wLen rLen raised)
    (hstuck : o.Stuck) : raised = 0 := by
  cases h with
  | nothing => rfl
  | error => cases o <;> first | exact hstuck.elim | rfl
  | completed hfree => exact absurd hstuck hfree

private theorem Reported.completed_of_shows {raised : UInt16} (h : Reported o wLen rLen raised)
    (hshows : raised &&& mtkCompletion ≠ 0) :
    ∃ bits, CompletesWith wLen rLen bits ∧ raised = o.mtkError ||| bits := by
  cases h with
  | nothing => exact absurd rfl hshows
  | error => exact absurd mtkError_and_completion hshows
  | completed _ hbits => exact ⟨_, hbits, rfl⟩

/-! ## The poll -/

/-- The DMA engine knows where the receive buffer is and how long. -/
private structure MtkBus.Programmed (phys : UInt64) (rLen : ℕ) (m : MtkBus) : Prop where
  rxHigh : 0 < rLen → m.rxHigh = highHalf phys
  rxLow : 0 < rLen → m.rxLow = phys.toUInt32
  rxLen : 0 < rLen → m.rxLen = UInt32.ofNat rLen

/-- A transaction is running, and the driver has waited for `st.1` microseconds and accumulated
the bits `st.2`. -/
private structure Polling (o : BusOutcome) (wLen rLen : ℕ) (unmaskedOnly maskOn : Bool)
    (phys : UInt64) (st : ℕ × UInt16) (m : MtkBus) : Prop where
  running : m.running = true
  waited : m.waited = st.1
  mask : m.mask = if maskOn then mtkIntrBits wLen rLen else 0
  reported : Reported o wLen rLen m.raised
  acc : st.2 &&& mtkIntrBits wLen rLen = st.2
  seen : (st.2 ||| m.latched) &&& mtkIntrBits wLen rLen = shown (unmaskedOnly && !maskOn) m.raised
  programmed : m.Programmed phys rLen

variable {maskOn : Bool} {phys : UInt64} {st : ℕ × UInt16}

/-- What `INTR_STAT` latches of some bits is what the transaction shows of them. -/
private theorem latch_and_intrBits {bits : UInt16}
    (hmask : m.mask = if maskOn then mtkIntrBits wLen rLen else 0)
    (hbits : bits &&& mtkIntrBits wLen rLen = bits) :
    m.latch unmaskedOnly bits &&& mtkIntrBits wLen rLen = shown (unmaskedOnly && !maskOn) bits := by
  unfold MtkBus.latch shown
  rw [hmask]
  cases unmaskedOnly <;> cases maskOn <;> simp [hbits]

private theorem Polling.raise (h : Polling o wLen rLen unmaskedOnly maskOn phys st m)
    {bits : UInt16} (hbits : bits &&& mtkIntrBits wLen rLen = bits)
    (hreported : Reported o wLen rLen (m.raised ||| bits)) :
    Polling o wLen rLen unmaskedOnly maskOn phys st { m with
      raised := m.raised ||| bits, latched := m.latched ||| m.latch unmaskedOnly bits } := by
  refine { h with reported := hreported, seen := ?_, programmed := { h.programmed with } }
  rw [← UInt16.or_assoc, or_and_distrib, h.seen, latch_and_intrBits h.mask hbits, ← shown_or]

private theorem Polling.step (h : Polling o wLen rLen unmaskedOnly maskOn phys st m)
    (hstep : m.Step o wLen rLen unmaskedOnly m') :
    Polling o wLen rLen unmaskedOnly maskOn phys st m' := by
  cases hstep with
  | error hrunning hraised =>
    have hnext := h.raise mtkError_and_intrBits (by rw [hraised, UInt16.zero_or]; exact .error)
    rwa [hraised, UInt16.zero_or] at hnext
  | complete hrunning hstuck hraised hbits =>
    have hnext := h.raise hbits.and_intrBits (by rw [hraised]; exact .completed hstuck hbits)
    rwa [hraised] at hnext

/-- A bit that is latched stays until it is cleared, and a completed transaction completed. -/
private theorem latched_step {stat : UInt16} (hstep : m.Step o wLen rLen unmaskedOnly m')
    (h : m.latched &&& stat = stat) : m'.latched &&& stat = stat := by
  have hmore : ∀ bits, (m.latched ||| bits) &&& stat = stat := by
    intro bits
    rw [or_and_distrib, h]
    refine ext16 fun i ↦ ?_
    simp only [UInt16.toBitVec_or, UInt16.toBitVec_and, BitVec.getLsbD_or, BitVec.getLsbD_and]
    grind
  cases hstep with
  | error => exact hmore _
  | complete => exact hmore _

private theorem completion_step (hstep : m.Step o wLen rLen unmaskedOnly m')
    (h : m.raised &&& mtkCompletion ≠ 0) : m'.raised &&& mtkCompletion ≠ 0 := by
  cases hstep with
  | error hrunning hraised =>
    rw [hraised] at h
    exact absurd rfl h
  | complete hrunning hstuck hraised hbits => exact hbits.shows

private theorem mtkBus_stable {J : MtkBus → Prop}
    (hstep : ∀ m m', J m → m.Step o wLen rLen unmaskedOnly m' → J m') :
    (mtkBus o wLen rLen unmaskedOnly base dmaBase).Stable J := by
  intro m m' hm hdrift
  induction hdrift with
  | refl => exact hm
  | tail _ hs ih => exact hstep _ _ ih hs

private theorem wp_readIntrStat {J : MtkBus → Prop} {Q : UInt16 → MtkBus → Prop}
    (hbase : c.base = base)
    (hstable : (mtkBus o wLen rLen unmaskedOnly base dmaBase).Stable J) (hm : J m)
    (h : ∀ m₁ r, J m₁ → r &&& 0x1F = m₁.latched &&& 0x1F →
      (¬o.Stuck → m₁.running = true → mtkXferBudget wLen rLen ≤ m₁.waited →
        m₁.raised &&& mtkCompletion ≠ 0) → Q r m₁) :
    (mtkBus o wLen rLen unmaskedOnly base dmaBase).wp
      (mmioRead16 (c.base + mtkRegIntrStat)) Q m := by
  refine World.wp_op_of_stable hstable hm (fun _ _ ↦ trivial) ?_
  intro m₁ r m₂ hm₁ hanswer
  obtain ⟨rfl, hread⟩ := hanswer
  obtain ⟨hlatched, hbudget⟩ := hread (by rw [hbase, add_sub_base])
  exact h m₂ r hm₁ hlatched hbudget

/-- The bits that the driver looks at are among those that the register shows. -/
private theorem and_intrBits {r latched : UInt16} (h : r &&& 0x1F = latched &&& 0x1F) :
    r &&& mtkIntrBits wLen rLen = latched &&& mtkIntrBits wLen rLen := by
  have hbits : mtkIntrBits wLen rLen = 0x1F &&& mtkIntrBits wLen rLen := by
    unfold mtkIntrBits
    dsimp only
    split <;> decide
  rw [hbits, ← UInt16.and_assoc, h, UInt16.and_assoc]

private theorem wp_mtkAccumulate (hbase : c.base = base)
    (h : Polling o wLen rLen unmaskedOnly maskOn phys st m) :
    (mtkBus o wLen rLen unmaskedOnly base dmaBase).wp
      (mtkAccumulate c (m.latched &&& mtkIntrBits wLen rLen) st.2)
      (fun acc m' ↦ acc = shown (unmaskedOnly && !maskOn) m.raised ∧
        Polling o wLen rLen unmaskedOnly maskOn phys (st.1, acc) m' ∧
        (m.raised &&& mtkCompletion ≠ 0 → m'.raised &&& mtkCompletion ≠ 0)) m := by
  have hshown : st.2 ||| (m.latched &&& mtkIntrBits wLen rLen)
      = shown (unmaskedOnly && !maskOn) m.raised := by
    rw [← h.seen, or_and_distrib, h.acc]
  have hown : (m.latched &&& mtkIntrBits wLen rLen) &&& mtkIntrBits wLen rLen
      = m.latched &&& mtkIntrBits wLen rLen := by
    rw [UInt16.and_assoc, UInt16.and_self]
  generalize hstat : m.latched &&& mtkIntrBits wLen rLen = stat at hshown hown
  unfold mtkAccumulate
  split
  · next hzero =>
    rw [eq_of_beq hzero, UInt16.or_zero] at hshown
    exact ⟨hshown, h, id⟩
  · have hlatched : m.latched &&& stat = stat := by
      rw [← hstat, ← UInt16.and_assoc, UInt16.and_self]
    rw [World.wp_bind]
    refine World.wp_op_of_stable (P := fun m' ↦ Polling o wLen rLen unmaskedOnly maskOn phys st m' ∧
      m'.latched &&& stat = stat ∧
      (m.raised &&& mtkCompletion ≠ 0 → m'.raised &&& mtkCompletion ≠ 0))
      (mtkBus_stable fun m₁ m₂ h₁ hstep ↦ ⟨h₁.1.step hstep, latched_step hstep h₁.2.1,
        fun hraised ↦ completion_step hstep (h₁.2.2 hraised)⟩)
      ⟨h, hlatched, id⟩ (fun _ _ ↦ trivial) ?_
    intro m₁ _ m₂ h₁ hanswer
    obtain ⟨hpolling, hlatched₁, hkept⟩ := h₁
    have hcleared : m₂ = { m₁ with latched := m₁.latched &&& ~~~stat } := by
      change m₂ = m₁.written (c.base + mtkRegIntrStat - base) stat at hanswer
      rw [hanswer, hbase, add_sub_base]
      rfl
    subst hcleared
    refine ⟨hshown, ⟨hpolling.running, hpolling.waited, hpolling.mask, hpolling.reported, ?_, ?_,
      { hpolling.programmed with }⟩, hkept⟩
    · dsimp only
      rw [or_and_distrib, h.acc, hown]
    · dsimp only
      rw [accumulate_clear hlatched₁, hpolling.seen]

/-- What was read is in the receive buffer. -/
private structure MtkBus.Delivered (phys : UInt64) (rLen : ℕ) (m : MtkBus) : Prop where
  raised : m.raised &&& mtkCompletion ≠ 0
  programmed : m.Programmed phys rLen

private theorem MtkBus.Delivered.step (h : m.Delivered phys rLen)
    (hstep : m.Step o wLen rLen unmaskedOnly m') : m'.Delivered phys rLen := by
  refine ⟨completion_step hstep h.raised, ?_⟩
  have hprogrammed := h.programmed
  cases hstep <;> exact { hprogrammed with }

/-- What the poll ends with: nothing, on a stuck bus or with the sources masked, or else the whole
outcome. -/
private def Polled (o : BusOutcome) (wLen rLen : ℕ) (hidden : Bool) (phys : UInt64) (acc : UInt16)
    (m : MtkBus) : Prop :=
  (acc = 0 ∧ (o.Stuck ∨ hidden = true)) ∨
    (hidden = false ∧ ¬o.Stuck ∧ (∃ bits, CompletesWith wLen rLen bits ∧ acc = o.mtkError ||| bits) ∧
      m.Delivered phys rLen)

private theorem polled_of_end {hidden : Bool} {raised acc : UInt16}
    (hreported : Reported o wLen rLen raised) (hacc : acc = shown hidden raised)
    (hend : acc &&& mtkCompletion ≠ 0 ∨ (¬o.Stuck → raised &&& mtkCompletion ≠ 0))
    (hkept : raised &&& mtkCompletion ≠ 0 → m.raised &&& mtkCompletion ≠ 0)
    (hprogrammed : m.Programmed phys rLen) : Polled o wLen rLen hidden phys acc m := by
  cases hidden with
  | true => exact .inl ⟨hacc, .inr rfl⟩
  | false =>
    have hall : acc = raised := hacc
    subst hall
    by_cases hstuck : o.Stuck
    · exact .inl ⟨hreported.eq_zero_of_stuck hstuck, .inl hstuck⟩
    · have hshows : acc &&& mtkCompletion ≠ 0 := hend.elim id fun h ↦ h hstuck
      exact .inr ⟨rfl, hstuck, hreported.completed_of_shows hshows, hkept hshows, hprogrammed⟩

private theorem wp_mtkPollPass (hbase : c.base = base)
    (h : Polling o wLen rLen unmaskedOnly maskOn phys st m) :
    (mtkBus o wLen rLen unmaskedOnly base dmaBase).wp
      (mtkPollPass c (mtkIntrBits wLen rLen) (mtkXferBudget wLen rLen) st) (Sum.elim
        (fun st' m' ↦ Polling o wLen rLen unmaskedOnly maskOn phys st' m' ∧
          (mtkXferBudget wLen rLen - st'.1 + 19) / 20 < (mtkXferBudget wLen rLen - st.1 + 19) / 20)
        (Polled o wLen rLen (unmaskedOnly && !maskOn) phys)) m := by
  have hstable : ∀ st, (mtkBus o wLen rLen unmaskedOnly base dmaBase).Stable
      (Polling o wLen rLen unmaskedOnly maskOn phys st) :=
    fun _ ↦ mtkBus_stable fun _ _ h hstep ↦ h.step hstep
  rw [mtkPollPass, World.wp_bind]
  refine wp_readIntrStat hbase (hstable st) h ?_
  intro m₁ r h₁ hread hbudget
  rw [and_intrBits hread, World.wp_bind]
  refine World.wp_mono (wp_mtkAccumulate hbase h₁) fun acc m₂ h₂ ↦ ?_
  obtain ⟨hshown, h₂, hkept⟩ := h₂
  split
  · next hcomplete =>
    rw [Bool.and_eq_true, bne_iff_ne, bne_iff_ne] at hcomplete
    exact polled_of_end h₁.reported hshown (.inl hcomplete.2) hkept h₂.programmed
  split
  · next hspent =>
    refine polled_of_end h₁.reported hshown (.inr fun hstuck ↦ ?_) hkept h₂.programmed
    exact hbudget hstuck h₁.running (h₁.waited ▸ hspent)
  · next hleft =>
    rw [World.wp_bind]
    refine World.wp_op_of_stable (hstable _) h₂ (fun _ _ ↦ trivial) ?_
    intro m₃ _ m₄ h₃ hanswer
    obtain rfl : m₄ = { m₃ with waited := m₃.waited + mtkXferPollStepUs } := hanswer
    refine ⟨⟨h₃.running, ?_, h₃.mask, h₃.reported, h₃.acc, h₃.seen, { h₃.programmed with }⟩, ?_⟩
    · exact congrArg (· + mtkXferPollStepUs) h₃.waited
    · unfold mtkXferPollStepUs
      dsimp only
      omega

private theorem wp_mtkPoll (hbase : c.base = base)
    (h : Polling o wLen rLen unmaskedOnly maskOn phys (0, 0) m) :
    (mtkBus o wLen rLen unmaskedOnly base dmaBase).wp
      (mtkPoll c (mtkIntrBits wLen rLen) (mtkXferBudget wLen rLen))
      (Polled o wLen rLen (unmaskedOnly && !maskOn) phys) m := by
  refine World.wp_iterate (Polling o wLen rLen unmaskedOnly maskOn phys)
    (fun st ↦ (mtkXferBudget wLen rLen - st.1 + 19) / 20)
    (fun st m h ↦ wp_mtkPollPass hbase h) h ?_
  unfold mtkXferPollStepUs
  dsimp only
  omega

/-! ## A transaction -/

/-- A write to a register that neither starts the controller nor reports on it. -/
private theorem wpS_i2cWr_other {off : UInt64} {val : UInt16} {Q : Unit → MtkI2c → MtkBus → Prop}
    (hbase : c.base = base) (hidle : m.running = false)
    (hoff : off ∉ [mtkRegIntrStat, mtkRegIntrMask, mtkRegStart, mtkRegSoftreset]) :
    (mtkBus o wLen rLen unmaskedOnly base dmaBase).wpS (i2cWr off val) Q c m ↔ Q () c m := by
  simp only [List.mem_cons, List.not_mem_nil, or_false, not_or] at hoff
  obtain ⟨hstat, hmask, hstart, hreset⟩ := hoff
  rw [wpS_i2cWr_idle hbase hidle, MtkBus.written, if_neg hstat, if_neg hmask, if_neg hstart,
    if_neg fun h ↦ hreset h.1]

private theorem dmaWritten_running (off : UInt64) (val : UInt32) :
    (m.dmaWritten off val).running = m.running := by
  unfold MtkBus.dmaWritten
  split
  · rfl
  split
  · rfl
  split <;> rfl

private theorem wpS_mtkProgramLengths (hbase : c.base = base) (hidle : m.running = false) :
    (mtkBus o wLen rLen unmaskedOnly base dmaBase).wpS (mtkProgramLengths wLen rLen)
      (fun _ c' m' ↦ c' = c ∧ m' = m) c m := by
  unfold mtkProgramLengths
  split <;> simp +decide only [World.wpS_bind, wpS_i2cWr_other hbase hidle, true_and]

private theorem dmaWritten_latched (off : UInt64) (val : UInt32) :
    (m.dmaWritten off val).latched = m.latched := by
  unfold MtkBus.dmaWritten
  split
  · rfl
  split
  · rfl
  split <;> rfl

private theorem dmaWritten_mask (off : UInt64) (val : UInt32) :
    (m.dmaWritten off val).mask = m.mask := by
  unfold MtkBus.dmaWritten
  split
  · rfl
  split
  · rfl
  split <;> rfl

private theorem wpS_mtkProgramDma (hdma : c.dmaBase = dmaBase) (hidle : m.running = false) :
    (mtkBus o wLen rLen unmaskedOnly base dmaBase).wpS (mtkProgramDma wLen rLen)
      (fun _ c' m' ↦ c' = c ∧ m'.running = false ∧ m'.latched = m.latched ∧ m'.mask = m.mask ∧
        m'.Programmed c.rxPhys rLen) c m := by
  unfold mtkProgramDma
  rw [World.wpS_bind, World.wpS_get]
  dsimp only
  split
  · simp +decide only [World.wpS_bind, wpS_dmaWr_idle hdma, dmaWritten_running, dmaWritten_latched,
      dmaWritten_mask, hidle, true_and]
    constructor <;> simp +decide [MtkBus.dmaWritten]
  split
  · next hread hwrite =>
    have hnone : ¬0 < rLen := by omega
    simp +decide only [World.wpS_bind, wpS_dmaWr_idle hdma, dmaWritten_running, dmaWritten_latched,
      dmaWritten_mask, hidle, true_and]
    exact ⟨fun h ↦ absurd h hnone, fun h ↦ absurd h hnone, fun h ↦ absurd h hnone⟩
  · simp +decide only [World.wpS_bind, wpS_dmaWr_idle hdma, dmaWritten_running, dmaWritten_latched,
      dmaWritten_mask, hidle, true_and]
    constructor <;> simp +decide [MtkBus.dmaWritten]

private theorem clear_and (a k : UInt16) : (a &&& ~~~k) &&& k = 0 := by
  refine ext16 fun i ↦ ?_
  simp only [UInt16.toBitVec_and, UInt16.toBitVec_not, UInt16.toBitVec_zero, BitVec.getLsbD_and,
    BitVec.getLsbD_not, BitVec.getLsbD_zero]
  grind

private theorem polling_start (hprogrammed : m.Programmed phys rLen)
    (hlatched : m.latched &&& mtkIntrBits wLen rLen = 0)
    (hmask : m.mask = if maskOn then mtkIntrBits wLen rLen else 0) {val : UInt16}
    (hval : val ≠ mtkI2cChnClrFlag) :
    Polling o wLen rLen unmaskedOnly maskOn phys (0, 0) (m.written mtkRegStart val) := by
  have hstart : m.written mtkRegStart val = { m with running := true, raised := 0, waited := 0 } := by
    simp +decide [MtkBus.written, hval]
  have hshown : shown (unmaskedOnly && !maskOn) 0 = 0 := by
    unfold shown
    split <;> rfl
  rw [hstart]
  refine ⟨rfl, rfl, hmask, .nothing, UInt16.zero_and, ?_, { hprogrammed with }⟩
  rw [hshown, UInt16.zero_or]
  exact hlatched

private theorem Polled.step {hidden : Bool} {acc : UInt16}
    (h : Polled o wLen rLen hidden phys acc m) (hstep : m.Step o wLen rLen unmaskedOnly m') :
    Polled o wLen rLen hidden phys acc m' := by
  rcases h with h | ⟨hhidden, hstuck, hbits, hdelivered⟩
  · exact .inl h
  · exact .inr ⟨hhidden, hstuck, hbits, hdelivered.step hstep⟩

/-- **A transaction** of a controller that is idle. -/
private theorem wpS_mtkDoTransfer (hbase : c.base = base) (hdma : c.dmaBase = dmaBase)
    (hidle : m.running = false) :
    (mtkBus o wLen rLen unmaskedOnly base dmaBase).wpS (mtkDoTransfer wLen rLen maskOn)
      (fun status c' m' ↦ ∃ acc flag,
        c' = { c with lastIntrStat := acc, lastDmaIntFlag := flag } ∧ status = mtkClassify acc ∧
          Polled o wLen rLen (unmaskedOnly && !maskOn) c.rxPhys acc m') c m := by
  have hstart : (if decide (0 < wLen ∧ 0 < rLen) = true then mtkI2cTransacStart
      else mtkI2cTransacStart ||| mtkI2cRsMulTrig) ≠ mtkI2cChnClrFlag := by
    split <;> decide
  unfold mtkDoTransfer
  rw [World.wpS_bind]
  refine wpS_i2cRd_idle hidle fun control ↦ ?_
  simp +decide only [World.wpS_bind, wpS_i2cWr_other hbase hidle, World.wpS_get]
  rw [wpS_i2cWr_idle hbase hidle]
  -- the bits that the driver looks at are cleared
  have hclear : (m.written mtkRegIntrStat (mtkIntrBits wLen rLen)).latched &&& mtkIntrBits wLen rLen
      = 0 := clear_and _ _
  have hidle₁ : (m.written mtkRegIntrStat (mtkIntrBits wLen rLen)).running = false := hidle
  generalize m.written mtkRegIntrStat (mtkIntrBits wLen rLen) = m₁ at hclear hidle₁ ⊢
  rw [wpS_i2cWr_other hbase hidle₁ (by decide), wpS_i2cWr_idle hbase hidle₁]
  -- the mask is set
  obtain ⟨m₂, hm₂⟩ : ∃ m₂, m₂ = m₁.written mtkRegIntrMask
    (if maskOn then mtkIntrBits wLen rLen else 0) := ⟨_, rfl⟩
  have hwritten : m₂ = { m₁ with mask := if maskOn then mtkIntrBits wLen rLen else 0 } := by
    rw [hm₂]
    simp +decide [MtkBus.written]
  rw [← hm₂]
  have hidle₂ : m₂.running = false := hwritten ▸ hidle₁
  refine World.wpS_mono (wpS_mtkProgramLengths hbase hidle₂) fun _ c₃ m₃ h₃ ↦ ?_
  obtain ⟨rfl, rfl⟩ := h₃
  refine World.wpS_mono (wpS_mtkProgramDma hdma hidle₂) fun _ c₄ m₄ h₄ ↦ ?_
  obtain ⟨rfl, hidle₄, hlatched, hmask, hprogrammed⟩ := h₄
  rw [wpS_dmaWr_idle hdma hidle₄]
  have hsame : m₄.dmaWritten mtkDmaEn mtkDmaStartEn = m₄ := by simp +decide [MtkBus.dmaWritten]
  rw [hsame, wpS_i2cWr_idle hbase hidle₄, World.wpS_lift]
  have hpolling : Polling o wLen rLen unmaskedOnly maskOn c₄.rxPhys (0, 0) _ :=
    polling_start hprogrammed (by rw [hlatched, hwritten]; exact hclear)
      (by rw [hmask, hwritten]) hstart
  refine World.wp_mono (wp_mtkPoll hbase hpolling) fun acc m₅ h₅ ↦ ?_
  have hstable : (mtkBus o wLen rLen unmaskedOnly base dmaBase).Stable
      (Polled o wLen rLen (unmaskedOnly && !maskOn) c₄.rxPhys acc) :=
    mtkBus_stable fun _ _ h hstep ↦ h.step hstep
  refine wpS_i2cWr_of_stable hbase hstable h₅ fun m₆ h₆ ↦ ?_
  have hquiet : Polled o wLen rLen (unmaskedOnly && !maskOn) c₄.rxPhys acc
      (m₆.written mtkRegIntrMask 0) := by
    have hmasked : m₆.written mtkRegIntrMask 0 = { m₆ with mask := 0 } := by
      simp +decide [MtkBus.written]
    rw [hmasked]
    rcases h₆ with h₆ | ⟨hhidden, hstuck, hbits, hdelivered⟩
    · exact .inl h₆
    · exact .inr ⟨hhidden, hstuck, hbits, hdelivered.raised, { hdelivered.programmed with }⟩
  rw [World.wpS_modify]
  intro m₇ hdrift
  refine ⟨trivial, fun flag m₈ hanswer ↦ ?_⟩
  obtain rfl : m₈ = m₇ := hanswer
  exact ⟨acc, flag, rfl, rfl, hstable _ _ hquiet hdrift⟩

/-- A transaction that the controller completes is a success. -/
theorem wpS_mtkDoTransfer_acked {data : List UInt8} (hbase : c.base = base)
    (hdma : c.dmaBase = dmaBase) (hidle : m.running = false) :
    (mtkBus (.acked data) wLen rLen false base dmaBase).wpS (mtkDoTransfer wLen rLen maskOn)
      (fun status _ _ ↦ status = .success) c m := by
  refine World.wpS_mono (wpS_mtkDoTransfer hbase hdma hidle) fun status c' m' h ↦ ?_
  obtain ⟨acc, flag, -, rfl, ⟨-, hstuck | hhidden⟩ | ⟨-, hfree, ⟨bits, hbits, rfl⟩, -⟩⟩ := h
  · exact hstuck.elim
  · contradiction
  · exact hbits.classify hfree

/-! ## A transfer -/

private theorem mtkStatus_of_stuck (hstuck : o.Stuck) : mtkClassify 0 = o.mtkStatus := by
  have hnothing : mtkClassify 0 = .timeout := by decide
  cases o with
  | stuck i => exact hnothing
  | acked data => exact hstuck.elim
  | addressNak repeated => exact hstuck.elim
  | dataNak j => exact hstuck.elim
  | arbitrationLost i => exact hstuck.elim

/-- The transaction of `MtkI2cXfer`: what the masked sources have hidden, the second one shows. -/
private theorem wpS_mtkTransact (hbase : c.base = base) (hdma : c.dmaBase = dmaBase)
    (hidle : m.running = false) :
    (mtkBus o wLen rLen unmaskedOnly base dmaBase).wpS (mtkTransact wLen rLen)
      (fun status c' m' ↦ (c'.base = base ∧ c'.dmaBase = dmaBase ∧ c'.rxBuf = c.rxBuf) ∧
        status = o.mtkStatus ∧ (o.Stuck ∨ m'.Delivered c.rxPhys rLen)) c m := by
  have hclassify : ∀ {hidden : Bool} {acc : UInt16} {m' : MtkBus},
      Polled o wLen rLen hidden c.rxPhys acc m' → ¬(acc = 0 ∧ hidden = true ∧ ¬o.Stuck) →
      mtkClassify acc = o.mtkStatus ∧ (o.Stuck ∨ m'.Delivered c.rxPhys rLen) := by
    intro hidden acc m' h hshown
    rcases h with ⟨rfl, hstuck | hhidden⟩ | ⟨-, hstuck, ⟨bits, hbits, rfl⟩, hdelivered⟩
    · exact ⟨mtkStatus_of_stuck hstuck, .inl hstuck⟩
    · by_cases hstuck : o.Stuck
      · exact ⟨mtkStatus_of_stuck hstuck, .inl hstuck⟩
      · exact absurd ⟨rfl, hhidden, hstuck⟩ hshown
    · exact ⟨hbits.classify hstuck, .inr hdelivered⟩
  unfold mtkTransact
  rw [World.wpS_bind, World.wpS_get, World.wpS_bind]
  refine World.wpS_mono (wpS_mtkDoTransfer hbase hdma hidle) fun status c₁ m₁ h₁ ↦ ?_
  obtain ⟨acc, flag, rfl, rfl, hpolled⟩ := h₁
  rw [World.wpS_bind, World.wpS_get]
  split
  · rw [World.wpS_bind, World.wpS_modify, World.wpS_bind]
    refine World.wpS_mono (wpS_mtkInitHw_idle hbase hdma) fun _ c₂ m₂ h₂ ↦ ?_
    obtain ⟨rfl, hidle₂⟩ := h₂
    refine World.wpS_mono (wpS_mtkDoTransfer hbase hdma hidle₂) fun status c₃ m₃ h₃ ↦ ?_
    obtain ⟨acc', flag', rfl, rfl, hpolled'⟩ := h₃
    refine ⟨⟨hbase, hdma, rfl⟩, hclassify hpolled' ?_⟩
    simp
  · next hlatched =>
    refine ⟨⟨hbase, hdma, rfl⟩, hclassify hpolled ?_⟩
    rintro ⟨rfl, hhidden, -⟩
    refine hlatched ?_
    unfold mtkUnlatched
    cases hmask : c.irqMaskOn with
    | true => simp [hmask] at hhidden
    | false => simp +decide

private theorem delivered_stable (phys : UInt64) :
    (mtkBus o wLen rLen unmaskedOnly base dmaBase).Stable (MtkBus.Delivered phys rLen) :=
  mtkBus_stable fun _ _ h hstep ↦ h.step hstep

/-- The bytes that are copied out of the receive buffer are those that were read. -/
private theorem wpS_mtkCollect {rBuf : Option (List UInt8)} {data : List UInt8}
    (ho : o = .acked data) (hlen : data.length = rLen) (hmax : rLen ≤ mtkI2cMaxXfer)
    (hr : rLen ≤ (rBuf.getD []).length) (h : m.Delivered c.rxBuf rLen) :
    (mtkBus o wLen rLen unmaskedOnly base dmaBase).wpS (mtkCollect rBuf rLen .success)
      (fun buf _ _ ↦ buf = stored rBuf data) c m := by
  unfold mtkCollect
  split
  · next hpos =>
    have hread : 0 < rLen := by simpa using (Bool.and_eq_true_iff.mp hpos).2
    rw [World.wpS_bind, World.wpS_get, World.wpS_bind, World.wpS_lift]
    intro m₁ hdrift
    have h₁ := delivered_stable c.rxBuf m m₁ h hdrift
    refine ⟨trivial, fun bytes m₂ hanswer ↦ ?_⟩
    obtain ⟨rfl, hholds⟩ := hanswer
    have hbytes : bytes.1 = data := by
      have hcount : rLen ≤ m₂.rxLen.toNat := by
        rw [h₁.programmed.rxLen hread, UInt32.toNat_ofNat_of_lt']
        unfold mtkI2cMaxXfer efiPageSize at hmax
        exact Nat.lt_of_le_of_lt hmax (by decide)
      have hfront := hholds data ho h₁.raised (h₁.programmed.rxHigh hread)
        (h₁.programmed.rxLow hread) hcount
      rw [List.take_of_length_le hlen.le] at hfront
      exact (hfront.eq_of_length (hlen.trans bytes.2.symm)).symm
    rw [World.wp_pure, World.wpS_bind, World.wpS_liftChecked]
    refine ⟨_, copyMem_ok hr (by rw [Nat.zero_add, bytes.2]), ?_⟩
    cases rBuf with
    | none =>
      rw [Option.getD_none, List.length_nil] at hr
      omega
    | some buf =>
      change some _ = some _
      rw [List.drop_zero, hbytes, ← hlen, List.take_length]
      rfl
  · next hnone =>
    have hzero : data = [] := by
      rw [← List.length_eq_zero_iff, hlen]
      simpa using hnone
    subst hzero
    cases rBuf <;> rfl

/-- **`MtkI2cXfer` reports the outcome**: its status is the one the outcome calls for, and what it
has read is what the bus brought. -/
theorem wpS_mtkI2cXfer_outcome {wBuf rBuf : Option (List UInt8)}
    (hbase : c.base = base) (hdma : c.dmaBase = dmaBase) (hinit : c.initialized = true)
    (htx : c.txBuf ≠ 0) (hrx : c.rxBuf ≠ 0) (hphys : c.rxPhys = c.rxBuf)
    (hbuf : XferBuffers wBuf wLen rBuf rLen)
    (hvalid : mtkXferInvalid wBuf wLen rBuf rLen = false) (hposs : o.Possible wLen rLen)
    (hidle : m.running = false) :
    (mtkBus o wLen rLen unmaskedOnly base dmaBase).wpS (mtkI2cXfer wBuf wLen rBuf rLen)
      (fun r _ _ ↦ r.1 = o.mtkStatus ∧ ∀ data, o = .acked data → r.2 = stored rBuf data) c m := by
  have hmax : rLen ≤ mtkI2cMaxXfer := by
    simp only [mtkXferInvalid, Bool.or_eq_false_iff, decide_eq_false_iff_not, not_lt] at hvalid
    exact hvalid.1.1.2
  unfold mtkI2cXfer
  rw [World.wpS_bind, World.wpS_get]
  have hready : ¬(!c.initialized || c.txBuf == 0 || c.rxBuf == 0) = true := by
    simp [hinit, htx, hrx]
  have hargs : ¬mtkXferInvalid wBuf wLen rBuf rLen = true := by
    rw [hvalid]
    exact Bool.false_ne_true
  rw [if_neg hready, if_neg hargs, World.wpS_bind]
  have hfill : (mtkBus o wLen rLen unmaskedOnly base dmaBase).wpS (mtkFill wBuf wLen)
      (fun _ c' m' ↦ c' = c ∧ m' = m) c m := by
    unfold mtkFill
    split
    · rw [World.wpS_bind, World.wpS_liftChecked]
      refine ⟨_, copyMem_ok (by rw [List.length_replicate]) (by rw [Nat.zero_add]; exact hbuf.w), ?_⟩
      rw [World.wpS_bind, World.wpS_get, World.wpS_lift]
      intro m₁ hdrift
      obtain rfl := drift_idle hidle hdrift
      exact ⟨trivial, fun _ m₂ hanswer ↦ ⟨rfl, hanswer⟩⟩
    · exact ⟨rfl, rfl⟩
  refine World.wpS_mono hfill fun _ c₁ m₁ h₁ ↦ ?_
  obtain ⟨rfl, rfl⟩ := h₁
  rw [World.wpS_bind, World.wpS_lift]
  intro m₂ hdrift
  obtain rfl := drift_idle hidle hdrift
  refine ⟨trivial, fun _ m₃ hanswer ↦ ?_⟩
  obtain rfl : m₃ = m₂ := hanswer
  rw [World.wp_pure, World.wpS_bind]
  refine World.wpS_mono (wpS_mtkTransact hbase hdma hidle) fun status c₂ m₄ h₄ ↦ ?_
  obtain ⟨⟨hbase₂, hdma₂, hrx₂⟩, rfl, hdelivered⟩ := h₄
  rw [World.wpS_bind, mtkRecover]
  split
  · next herror =>
    -- nothing has been read
    refine World.wpS_mono (wpS_mtkInitHw_idle hbase₂ hdma₂) fun _ c₃ m₅ _ ↦ ?_
    rw [World.wpS_bind, World.wpS_lift]
    intro m₆ _
    refine ⟨trivial, fun _ m₇ _ ↦ ?_⟩
    rw [World.wp_pure, World.wpS_bind]
    have hkept : mtkCollect rBuf rLen o.mtkStatus = pure rBuf := by
      rw [mtkCollect, herror, Bool.not_true, Bool.false_and, if_neg Bool.false_ne_true]
    rw [hkept]
    refine ⟨rfl, fun data ho ↦ ?_⟩
    subst ho
    contradiction
  · next hsuccess =>
    rw [World.wpS_pure, World.wpS_bind, World.wpS_lift]
    cases o with
    | acked data =>
      have hread := hdelivered.resolve_left id
      intro m₅ hdrift
      refine ⟨trivial, fun _ m₆ hanswer ↦ ?_⟩
      obtain rfl : m₆ = m₅ := hanswer
      have hread₆ := delivered_stable _ m₄ m₆ hread hdrift
      rw [hphys, ← hrx₂] at hread₆
      rw [World.wp_pure, World.wpS_bind]
      refine World.wpS_mono (wpS_mtkCollect rfl hposs hmax hbuf.r hread₆) fun buf _ _ hbuffer ↦ ?_
      exact ⟨rfl, fun data' ho ↦ BusOutcome.acked.inj ho ▸ hbuffer⟩
    | addressNak repeated => exact absurd rfl hsuccess
    | dataNak j => exact absurd rfl hsuccess
    | arbitrationLost i => exact absurd rfl hsuccess
    | stuck i => exact absurd rfl hsuccess

end

end TouchI2c
