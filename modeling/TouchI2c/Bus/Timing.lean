import TouchI2c.Bus.Footprint
import TouchI2c.Interaction.Simulate

/-!
# The firmware's bus timing

The timing registers of a MediaTek controller as the calls of the driver leave them. A soft reset
clears them, so what the firmware had programmed survives only because `MtkSnapshotTiming` has read
all of it before the first `MtkInitHw`, and never again.

The controller also records which registers have been read and whether it has been reset; the driver
does not see either. With them the order is an obligation of the world: no write of `MtkInitHw`
before the whole snapshot has been read, and no read of the snapshot after a reset.

## The invariant

`TimingInv` holds between two calls. Before the first `MtkInitHw` nothing has happened to the
timing; after it the snapshot is that of the original registers, and the registers hold what the
snapshot says, or the table of the driver if the firmware had programmed nothing. Every call keeps
it, whatever it returns, because each is a sequence of parts that leave the timing alone, of the one
snapshot with the first `MtkInitHw` right behind it, and of later resets. So every sequence of calls
does.
-/

namespace TouchI2c

open CMemory Interaction

/-! ## The controller -/

/-- The registers that carry the bus timing, with the history of the controller. -/
structure MtkBlock where
  regs : UInt64 → UInt16
  /-- The registers that have been read. -/
  seen : List UInt64
  /-- A soft reset has been made. -/
  reset : Bool

namespace MtkBlock

/-- The controller after a register is written. -/
def written (m : MtkBlock) (off : UInt64) (val : UInt16) : MtkBlock :=
  if off ∈ mtkTimingRegs then { m with regs := Function.update m.regs off val }
  else if off = mtkRegSoftreset ∧ val &&& mtkI2cSoftRst ≠ 0 then
    { m with regs := fun _ ↦ 0, reset := true }
  else m

/-- The controller after a register is read. -/
def read (m : MtkBlock) (off : UInt64) : MtkBlock := { m with seen := off :: m.seen }

/-- What an operation of the driver does to the controller at `base`. The other registers read as
they like, and the DMA engine is a block of its own. -/
def Answers (base : UInt64) (m : MtkBlock) : (e : UefiOp) → e.Ret → MtkBlock → Prop
  | .mmioRead16 a, r, m' =>
    (a - base ∈ mtkTimingRegs → r = m.regs (a - base)) ∧ m' = m.read (a - base)
  | .mmioWrite16 a val, _, m' => m' = m.written (a - base) val
  | _, _, m' => m' = m

/-- No part of `MtkInitHw` runs before the snapshot is complete, and no part of the snapshot after
a reset. -/
def Ordered (base : UInt64) (m : MtkBlock) : UefiOp → Prop
  | .mmioRead16 a => a - base ∈ mtkTimingRegs → m.reset = false
  | .mmioWrite16 a val => IsInitWrite (a - base) val → mtkTimingRegs ⊆ m.seen
  | _ => True

end MtkBlock

/-- The controller at `base` as the environment of the driver. Only the driver writes it. -/
def mtkWorld (base : UInt64) : World Uefi MtkBlock where
  drift m m' := m' = m
  Allowed := MtkBlock.Ordered base
  answer := MtkBlock.Answers base

/-! ## Calls -/

/-- A call of the driver of one controller. -/
inductive MtkCall where
  | init (slaveAddr : UInt8)
  | reinit
  | xfer (wBuf : Option (List UInt8)) (wLen : ℕ) (rBuf : Option (List UInt8)) (rLen : ℕ)
  | disable

/-- The buffers of a transfer are as long as its lengths say. -/
def MtkCall.Valid : MtkCall → Prop
  | .xfer wBuf wLen rBuf rLen => XferBuffers wBuf wLen rBuf rLen
  | _ => True

def MtkCall.run (base dmaBase : UInt64) : MtkCall → Mtk Unit
  | .init slaveAddr => discard (mtkI2cInit base dmaBase slaveAddr)
  | .reinit => discard mtkI2cReinit
  | .xfer wBuf wLen rBuf rLen => discard (mtkI2cXfer wBuf wLen rBuf rLen)
  | .disable => mtkI2cDisable

/-- A sequence of calls. -/
def mtkCalls (base dmaBase : UInt64) : List MtkCall → Mtk Unit
  | [] => return ()
  | call :: calls => do
    call.run base dmaBase
    mtkCalls base dmaBase calls

/-! ## Timing -/

/-- The timing registers hold `t`, and the pads `ioConfig`. -/
structure HoldsTiming (regs : UInt64 → UInt16) (t : MtkI2cTiming) (ioConfig : UInt16) : Prop where
  timing : regs mtkRegTiming = t.timing
  ltiming : regs mtkRegLtiming = t.ltiming
  hs : regs mtkRegHs = t.hs
  extConf : regs mtkRegExtConf = t.extConf
  clockDiv : regs mtkRegClockDiv = t.clockDiv
  sdaTiming : regs mtkRegSdaTiming = t.sdaTiming
  io : regs mtkRegIoConfig = ioConfig

/-- The timing in the registers. -/
def timingOf (regs : UInt64 → UInt16) : MtkI2cTiming :=
  ⟨regs mtkRegTiming, regs mtkRegLtiming, regs mtkRegHs, regs mtkRegExtConf, regs mtkRegClockDiv,
   regs mtkRegSdaTiming⟩

/-- The firmware had the bus running. -/
def FirmwareTimed (original : UInt64 → UInt16) : Prop :=
  original mtkRegTiming ≠ 0 ∨ original mtkRegLtiming ≠ 0

instance (original : UInt64 → UInt16) : Decidable (FirmwareTimed original) :=
  inferInstanceAs (Decidable (_ ∨ _))

/-- What the registers have to hold after a reset: what the firmware had, or the driver's own
values if it had nothing. -/
def TimingSurvives (original regs : UInt64 → UInt16) : Prop :=
  (FirmwareTimed original → HoldsTiming regs (timingOf original) (original mtkRegIoConfig)) ∧
  (¬FirmwareTimed original → HoldsTiming regs gMtkTiming124M8Fast mtkI2cIoConfigOpenDrain)

/-! ## Accesses -/

section

variable {base dmaBase : UInt64} {c : MtkI2c} {m : MtkBlock} {α : Type}

theorem wpS_i2cRd_block {off : UInt64} {Q : UInt16 → MtkI2c → MtkBlock → Prop}
    (hbase : c.base = base) :
    (mtkWorld base).wpS (i2cRd off) Q c m ↔ (off ∈ mtkTimingRegs → m.reset = false) ∧
      ∀ r, (off ∈ mtkTimingRegs → r = m.regs off) → Q r c (m.read off) := by
  subst hbase
  refine wpS_i2cRd_still (fun _ ↦ Iff.rfl) ?_ fun r m' ↦ ?_
  · simp only [mtkWorld, MtkBlock.Ordered, add_sub_base]
  · simp only [mtkWorld, MtkBlock.Answers, add_sub_base]

theorem wpS_i2cWr_block {off : UInt64} {val : UInt16} {Q : Unit → MtkI2c → MtkBlock → Prop}
    (hbase : c.base = base) :
    (mtkWorld base).wpS (i2cWr off val) Q c m ↔ (IsInitWrite off val → mtkTimingRegs ⊆ m.seen) ∧
      Q () c (m.written off val) := by
  subst hbase
  refine wpS_i2cWr_still (fun _ ↦ Iff.rfl) ?_ fun m' ↦ ?_
  · simp only [mtkWorld, MtkBlock.Ordered, add_sub_base]
  · simp only [mtkWorld, MtkBlock.Answers, add_sub_base]

/-- An operation that is no 16-bit access leaves the controller alone. -/
theorem wpS_dmaWr_block {off : UInt64} {val : UInt32} {Q : Unit → MtkI2c → MtkBlock → Prop} :
    (mtkWorld base).wpS (dmaWr off val) Q c m ↔ Q () c m :=
  (wpS_dmaWr_still (fun _ ↦ Iff.rfl) Iff.rfl fun _ ↦ Iff.rfl).trans (and_iff_right trivial)

theorem wpS_stall_block {us : ℕ} {Q : Unit → MtkI2c → MtkBlock → Prop} :
    (mtkWorld base).wpS (liftM (stall us) : Mtk Unit) Q c m ↔ Q () c m := by
  have hstall : (mtkWorld base).wp (stall us) (fun u m' ↦ Q u c m') m ↔
      True ∧ ∀ u, True → Q u c m :=
    wp_uefi_still (fun _ ↦ Iff.rfl) Iff.rfl fun _ _ ↦ (and_iff_right trivial).symm
  rw [World.wpS_lift, hstall]
  exact ⟨fun h ↦ h.2 () trivial, fun h ↦ ⟨trivial, fun _ _ ↦ h⟩⟩

/-- What the driver does outside of the snapshot and the reset keeps the timing. -/
theorem wpS_of_quiet (dmaBase : UInt64) {p : Mtk α} {Q : α → MtkI2c → Prop}
    (h : (within (MtkQuiet base dmaBase)).world.wpS p (fun a c' _ ↦ Q a c') c ()) :
    (mtkWorld base).wpS p (fun a c' m' ↦ Q a c' ∧ m'.regs = m.regs ∧ m'.reset = m.reset ∧
      m.seen ⊆ m'.seen) c m := by
  refine @World.wp_of_within _ _ _ (mtkWorld base) (MtkQuiet base dmaBase)
    (fun m' ↦ m'.regs = m.regs ∧ m'.reset = m.reset ∧ m.seen ⊆ m'.seen) (p.run c)
    (fun r ↦ Q r.1 r.2) h (fun s s' hs hdrift ↦ hdrift ▸ hs) ?_ m ⟨rfl, rfl, List.Subset.refl _⟩
  intro m₁ e hm₁ he
  cases e with
  | mmioRead16 a =>
    obtain ⟨off, -, rfl, hoff⟩ := he
    refine ⟨fun hmem ↦ absurd (add_sub_base base off ▸ hmem) hoff, fun r m₂ hr ↦ ?_⟩
    obtain ⟨-, rfl⟩ := hr
    exact ⟨hm₁.1, hm₁.2.1, fun x hx ↦ List.mem_cons_of_mem _ (hm₁.2.2 hx)⟩
  | mmioWrite16 a val =>
    obtain ⟨off, -, rfl, hoff⟩ := he
    have hwritten : m₁.written off val = m₁ := by
      rw [MtkBlock.written, if_neg fun hmem ↦ hoff (.inl hmem),
        if_neg fun hreset ↦ hoff (.inr (.inl hreset.1))]
    refine ⟨fun hinit ↦ absurd (add_sub_base base off ▸ hinit) hoff, fun r m₂ hr ↦ ?_⟩
    change m₂ = m₁.written (base + off - base) val at hr
    rw [add_sub_base, hwritten] at hr
    exact hr ▸ hm₁
  | _ =>
    refine ⟨trivial, fun r m₂ hr ↦ ?_⟩
    obtain rfl : m₂ = m₁ := hr
    exact hm₁

/-! ## The snapshot and the reset -/

theorem written_seen (off : UInt64) (val : UInt16) : (m.written off val).seen = m.seen := by
  unfold MtkBlock.written
  split
  · rfl
  · split <;> rfl

/-- The writes of `MtkInitHw` after the soft reset. -/
theorem wpS_mtkInitHw (hbase : c.base = base) (hseen : mtkTimingRegs ⊆ m.seen) :
    (mtkWorld base).wpS mtkInitHw (fun _ c' m' ↦ c' = { c with initialized := true } ∧
      m'.reset = true ∧ mtkTimingRegs ⊆ m'.seen ∧ HoldsTiming m'.regs c.timing c.ioConfig) c m := by
  unfold mtkInitHw
  have hread : mtkTimingRegs ⊆ ((m.written mtkRegStart mtkI2cChnClrFlag).read mtkRegIntrStat).seen :=
    fun off hoff ↦ List.mem_cons_of_mem _ (by rw [written_seen]; exact hseen hoff)
  simp +decide only [World.wpS_bind, wpS_i2cWr_block hbase, wpS_i2cRd_block hbase,
    wpS_dmaWr_block, wpS_stall_block, World.wpS_get, World.wpS_modify, written_seen, true_and,
    false_imp_iff, hseen, hread, imp_true_iff]
  intro r _
  refine ⟨?_, ?_⟩
  · simp +decide only [MtkBlock.written, if_true, if_false]
  · constructor <;>
      simp +decide only [MtkBlock.written, if_true, if_false, Function.update_apply]

/-- The snapshot reads every timing register as it is. -/
theorem wpS_mtkSnapshotTiming (hbase : c.base = base) (hreset : m.reset = false) :
    (mtkWorld base).wpS mtkSnapshotTiming (fun _ c' m' ↦
      c' = { c with saved := timingOf m.regs, savedIoConfig := m.regs mtkRegIoConfig,
                    inherited := decide (FirmwareTimed m.regs) } ∧
      m'.regs = m.regs ∧ mtkTimingRegs ⊆ m'.seen) c m := by
  unfold mtkSnapshotTiming
  simp +decide only [World.wpS_bind, wpS_i2cRd_block hbase, World.wpS_modify, MtkBlock.read, hreset,
    true_imp_iff, true_and, imp_true_iff, forall_eq]
  refine ⟨?_, ?_⟩
  · have hinherited : (m.regs mtkRegTiming != 0 || m.regs mtkRegLtiming != 0)
        = decide (FirmwareTimed m.regs) := by
      rw [Bool.eq_iff_iff, decide_eq_true_iff]
      simp [FirmwareTimed]
    rw [hinherited]
    rfl
  · simp [mtkTimingRegs]

/-! ## The invariant -/

variable {original : UInt64 → UInt16}

/-- Between two calls: before the first `MtkInitHw` nothing has happened to the timing, and after it
the snapshot and the registers hold what they have to. A receive buffer means that the first one
has been. -/
structure TimingInv (base dmaBase : UInt64) (original : UInt64 → UInt16) (c : MtkI2c)
    (m : MtkBlock) : Prop where
  target : c.mapped = true → c.base = base ∧ c.dmaBase = dmaBase
  untouched : c.initialized = false → c.rxBuf = 0 ∧ m.reset = false ∧ m.regs = original
  mapped : c.initialized = true → c.mapped = true
  seen : c.initialized = true → mtkTimingRegs ⊆ m.seen
  snapshot : c.initialized = true →
    c.saved = timingOf original ∧ c.savedIoConfig = original mtkRegIoConfig ∧
      c.inherited = decide (FirmwareTimed original)
  registers : c.initialized = true → HoldsTiming m.regs c.timing c.ioConfig

/-- What a part of a call outside of the snapshot and the reset keeps of the invariant, if it
leaves the fields of the instance that it speaks of alone. -/
theorem TimingInv.quiet {c' : MtkI2c} {m' : MtkBlock} (h : TimingInv base dmaBase original c m)
    (hbase : c'.base = c.base) (hdma : c'.dmaBase = c.dmaBase) (hmapped : c'.mapped = c.mapped)
    (hinit : c'.initialized = c.initialized) (hrx : c'.rxBuf = c.rxBuf)
    (hsaved : c'.saved = c.saved) (hio : c'.savedIoConfig = c.savedIoConfig)
    (hinherited : c'.inherited = c.inherited)
    (hm : m'.regs = m.regs ∧ m'.reset = m.reset ∧ m.seen ⊆ m'.seen) :
    TimingInv base dmaBase original c' m' := by
  obtain ⟨hregs, hreset, hseen⟩ := hm
  have htiming : c'.timing = c.timing := by rw [MtkI2c.timing, MtkI2c.timing, hinherited, hsaved]
  have hioConfig : c'.ioConfig = c.ioConfig := by
    rw [MtkI2c.ioConfig, MtkI2c.ioConfig, hinherited, hio]
  constructor
  · rw [hmapped, hbase, hdma]
    exact h.target
  · rw [hinit, hrx, hreset, hregs]
    exact h.untouched
  · rw [hinit, hmapped]
    exact h.mapped
  · rw [hinit]
    exact fun hset off hoff ↦ hseen (h.seen hset hoff)
  · rw [hinit, hsaved, hio, hinherited]
    exact h.snapshot
  · rw [hinit, hregs, htiming, hioConfig]
    exact h.registers

/-- After a reset the registers hold what they have to. -/
theorem TimingInv.survives (h : TimingInv base dmaBase original c m) (hreset : m.reset = true) :
    TimingSurvives original m.regs := by
  have hinit : c.initialized = true := by
    by_contra hunset
    have := (h.untouched (by simpa using hunset)).2.1
    exact Bool.noConfusion (hreset.symm.trans this)
  obtain ⟨hsaved, hio, hinherited⟩ := h.snapshot hinit
  have hregs := h.registers hinit
  constructor <;> intro hfirmware
  · rw [decide_eq_true hfirmware] at hinherited
    rwa [MtkI2c.timing, MtkI2c.ioConfig, hinherited, if_pos rfl, if_pos rfl, hsaved, hio] at hregs
  · rw [decide_eq_false hfirmware] at hinherited
    rwa [MtkI2c.timing, MtkI2c.ioConfig, hinherited, if_neg Bool.false_ne_true,
      if_neg Bool.false_ne_true] at hregs

theorem TimingInv.wpS_mtkInitHw (h : TimingInv base dmaBase original c m)
    (hinit : c.initialized = true) :
    (mtkWorld base).wpS mtkInitHw (fun _ c' m' ↦ c' = c ∧ TimingInv base dmaBase original c' m')
      c m := by
  have htarget := h.target (h.mapped hinit)
  refine World.wpS_mono (TouchI2c.wpS_mtkInitHw htarget.1 (h.seen hinit)) fun _ c' m' hpost ↦ ?_
  obtain ⟨rfl, hreset, hseen, hregs⟩ := hpost
  have hsame : { c with initialized := true } = c := by rw [← hinit]
  rw [hsame]
  refine ⟨rfl, h.target, fun hunset ↦ absurd (hinit.symm.trans hunset) Bool.noConfusion, h.mapped,
    fun _ ↦ hseen, h.snapshot, fun _ ↦ hregs⟩

/-! ## What a call keeps -/

/-- Inside a call of a running controller. -/
private def Running (base dmaBase : UInt64) (original : UInt64 → UInt16) (c : MtkI2c)
    (m : MtkBlock) : Prop :=
  TimingInv base dmaBase original c m ∧ c.initialized = true

private theorem Running.mtkInitHw (h : Running base dmaBase original c m) :
    (mtkWorld base).wpS mtkInitHw (fun _ c' m' ↦ Running base dmaBase original c' m') c m := by
  refine World.wpS_mono (h.1.wpS_mtkInitHw h.2) fun _ c' m' hpost ↦ ?_
  obtain ⟨rfl, hinv⟩ := hpost
  exact ⟨hinv, h.2⟩

private theorem Running.mtkDoTransfer (h : Running base dmaBase original c m) (wLen rLen : ℕ)
    (maskOn : Bool) : (mtkWorld base).wpS (mtkDoTransfer wLen rLen maskOn)
      (fun _ c' m' ↦ Running base dmaBase original c' m') c m := by
  have htarget := h.1.target (h.1.mapped h.2)
  have hquiet := mtkDoTransfer_quiet htarget.1 htarget.2 wLen rLen maskOn
  refine World.wpS_mono (wpS_of_quiet dmaBase hquiet) fun _ c' m' hpost ↦ ?_
  obtain ⟨⟨acc, flag, rfl⟩, hm⟩ := hpost
  exact ⟨h.1.quiet rfl rfl rfl rfl rfl rfl rfl rfl hm, h.2⟩

private theorem Running.mtkTransact (h : Running base dmaBase original c m) (wLen rLen : ℕ) :
    (mtkWorld base).wpS (mtkTransact wLen rLen)
      (fun _ c' m' ↦ Running base dmaBase original c' m') c m := by
  unfold TouchI2c.mtkTransact
  rw [World.wpS_bind, World.wpS_get, World.wpS_bind]
  refine World.wpS_mono (h.mtkDoTransfer wLen rLen _) fun status c₁ m₁ h₁ ↦ ?_
  rw [World.wpS_bind, World.wpS_get]
  split
  · rw [World.wpS_bind, World.wpS_modify, World.wpS_bind]
    have hmask : Running base dmaBase original { c₁ with irqMaskOn := true } m₁ :=
      ⟨h₁.1.quiet rfl rfl rfl rfl rfl rfl rfl rfl ⟨rfl, rfl, List.Subset.refl _⟩, h₁.2⟩
    exact World.wpS_mono hmask.mtkInitHw fun _ c₂ m₂ h₂ ↦ h₂.mtkDoTransfer wLen rLen true
  · exact h₁

private theorem wpS_uefi_block {e : UefiOp} {Q : e.Ret → MtkI2c → MtkBlock → Prop}
    (he : MtkQuiet base dmaBase e) (h : ∀ r m', m'.regs = m.regs ∧ m'.reset = m.reset ∧
      m.seen ⊆ m'.seen → Q r c m') :
    (mtkWorld base).wpS (liftM (uefi e) : Mtk _) Q c m := by
  have hwithin : (within (MtkQuiet base dmaBase)).world.wpS (liftM (uefi e) : Mtk _)
      (fun _ c' _ ↦ c' = c) c () :=
    World.wpS_lift.mpr (wp_uefi.mpr ⟨he, fun _ ↦ rfl⟩)
  refine World.wpS_mono (wpS_of_quiet dmaBase hwithin) fun r c' m' hpost ↦ ?_
  obtain ⟨rfl, hm⟩ := hpost
  exact h r m' hm

private theorem TimingInv.mtkI2cXfer (h : TimingInv base dmaBase original c m)
    {wBuf rBuf : Option (List UInt8)} {wLen rLen : ℕ} (hbuf : XferBuffers wBuf wLen rBuf rLen) :
    (mtkWorld base).wpS (mtkI2cXfer wBuf wLen rBuf rLen)
      (fun _ c' m' ↦ TimingInv base dmaBase original c' m') c m := by
  have hsame : ∀ {c₁ : MtkI2c} {m₁ m₂ : MtkBlock}, Running base dmaBase original c₁ m₁ →
      m₂.regs = m₁.regs ∧ m₂.reset = m₁.reset ∧ m₁.seen ⊆ m₂.seen →
      Running base dmaBase original c₁ m₂ := fun h₁ hm ↦
    ⟨h₁.1.quiet rfl rfl rfl rfl rfl rfl rfl rfl hm, h₁.2⟩
  unfold TouchI2c.mtkI2cXfer
  rw [World.wpS_bind, World.wpS_get]
  split
  · exact h
  next hready =>
  split
  · exact h
  have hrun : Running base dmaBase original c m := ⟨h, by simp at hready; exact hready.1.1⟩
  rw [World.wpS_bind]
  refine World.wpS_mono (wpS_of_quiet dmaBase (mtkFill_quiet hbuf.w)) fun _ c₁ m₁ h₁ ↦ ?_
  obtain ⟨rfl, hm₁⟩ := h₁
  rw [World.wpS_bind]
  refine @wpS_uefi_block base dmaBase _ _ _ _ trivial fun _ m₂ hm₂ ↦ ?_
  rw [World.wpS_bind]
  refine World.wpS_mono ((hsame (hsame hrun hm₁) hm₂).mtkTransact wLen rLen)
    fun status c₃ m₃ h₃ ↦ ?_
  have hrecover : (mtkWorld base).wpS (mtkRecover status)
      (fun _ c' m' ↦ Running base dmaBase original c' m') c₃ m₃ := by
    unfold mtkRecover
    split
    · exact h₃.mtkInitHw
    · exact h₃
  rw [World.wpS_bind]
  refine World.wpS_mono hrecover fun _ c₄ m₄ h₄ ↦ ?_
  rw [World.wpS_bind]
  refine @wpS_uefi_block base dmaBase _ _ _ _ trivial fun _ m₅ hm₅ ↦ ?_
  rw [World.wpS_bind]
  refine World.wpS_mono (wpS_of_quiet dmaBase (mtkCollect_quiet hbuf.r status)) fun buf c₆ m₆ h₆ ↦ ?_
  obtain ⟨⟨rfl, -⟩, hm₆⟩ := h₆
  exact (hsame (hsame h₄ hm₅) hm₆).1

private theorem TimingInv.mtkI2cReinit (h : TimingInv base dmaBase original c m) :
    (mtkWorld base).wpS mtkI2cReinit (fun _ c' m' ↦ TimingInv base dmaBase original c' m') c m := by
  unfold TouchI2c.mtkI2cReinit
  rw [World.wpS_bind, World.wpS_get]
  split
  · exact h
  · next hready =>
    -- there is a receive buffer, so the first `MtkInitHw` has been
    have hinit : c.initialized = true := by
      by_contra hunset
      have hrx := (h.untouched (by simpa using hunset)).1
      simp [hrx] at hready
    rw [World.wpS_bind]
    refine World.wpS_mono (h.wpS_mtkInitHw hinit) fun _ c' m' hpost ↦ ?_
    exact hpost.2

private theorem wpS_mtkStart (hbase : c.base = base) (hdma : c.dmaBase = dmaBase)
    (hmapped : c.mapped = true)
    (huntouched : c.initialized = false → m.reset = false ∧ m.regs = original)
    (h : c.initialized = true → TimingInv base dmaBase original c m) :
    (mtkWorld base).wpS mtkStart (fun _ c' m' ↦ TimingInv base dmaBase original c' m') c m := by
  unfold mtkStart mtkSnapshotOnce
  rw [World.wpS_bind, World.wpS_bind, World.wpS_get]
  split
  · next hinit =>
    rw [World.wpS_pure, World.wpS_bind]
    refine World.wpS_mono ((h hinit).wpS_mtkInitHw hinit) fun _ c' m' hpost ↦ ?_
    exact hpost.2
  · next hunset =>
    obtain ⟨hreset, rfl⟩ := huntouched (by simpa using hunset)
    refine World.wpS_mono (wpS_mtkSnapshotTiming hbase hreset) fun _ c₁ m₁ h₁ ↦ ?_
    obtain ⟨rfl, hregs, hseen⟩ := h₁
    rw [World.wpS_bind]
    refine World.wpS_mono (TouchI2c.wpS_mtkInitHw hbase hseen) fun _ c₂ m₂ h₂ ↦ ?_
    obtain ⟨rfl, -, hseen₂, hholds⟩ := h₂
    exact ⟨fun _ ↦ ⟨hbase, hdma⟩, fun h ↦ Bool.noConfusion h, fun _ ↦ hmapped, fun _ ↦ hseen₂,
      fun _ ↦ ⟨rfl, rfl, rfl⟩, fun _ ↦ hholds⟩

private theorem TimingInv.mtkI2cInit (h : TimingInv base dmaBase original c m)
    (slaveAddr : UInt8) : (mtkWorld base).wpS (mtkI2cInit base dmaBase slaveAddr)
      (fun _ c' m' ↦ TimingInv base dmaBase original c' m') c m := by
  unfold TouchI2c.mtkI2cInit
  rw [World.wpS_bind, World.wpS_get]
  split
  · exact h
  split
  · exact h
  rw [World.wpS_bind, World.wpS_set, World.wpS_bind]
  refine World.wpS_mono (wpS_of_quiet dmaBase (mtkMapWindows_quiet base dmaBase)) fun status c₁ m₁ h₁ ↦ ?_
  obtain ⟨⟨mapped, rfl, hsuccess, hkept⟩, hregs₁, hreset₁, hseen₁⟩ := h₁
  -- a buffer may be missing, but the fields that the invariant speaks of are settled
  have hinv : ∀ {tx txPhys rx rxPhys : UInt64} {m' : MtkBlock},
      (c.initialized = false → rx = 0 ∧ m'.reset = false ∧ m'.regs = original) →
      m'.regs = m.regs → m.seen ⊆ m'.seen →
      TimingInv base dmaBase original { c with
        base := base, dmaBase := dmaBase, slaveAddr := slaveAddr, mapped := mapped,
        txBuf := tx, txPhys := txPhys, rxBuf := rx, rxPhys := rxPhys } m' := by
    intro tx txPhys rx rxPhys m' huntouched hregs hseen
    refine ⟨fun _ ↦ ⟨rfl, rfl⟩, huntouched, fun hset ↦ hkept (h.mapped hset),
      fun hset off hoff ↦ hseen (h.seen hset hoff), h.snapshot, fun hset ↦ ?_⟩
    rw [hregs]
    exact h.registers hset
  have hfresh : c.initialized = false → m₁.reset = false ∧ m₁.regs = original := by
    intro hunset
    obtain ⟨-, hreset, hregs⟩ := h.untouched hunset
    exact ⟨hreset₁.trans hreset, hregs₁.trans hregs⟩
  split
  · exact hinv (fun hunset ↦ ⟨(h.untouched hunset).1, hfresh hunset⟩) hregs₁ hseen₁
  next hmapped =>
  rw [World.wpS_bind]
  refine World.wpS_mono (wpS_of_quiet dmaBase (mtkAllocateTx_quiet))
    fun status₂ c₂ m₂ h₂ ↦ ?_
  obtain ⟨⟨phys, buf, rfl⟩, hregs₂, hreset₂, hseen₂⟩ := h₂
  have hfresh₂ : c.initialized = false → m₂.reset = false ∧ m₂.regs = original := fun hunset ↦
    ⟨hreset₂.trans (hfresh hunset).1, hregs₂.trans (hfresh hunset).2⟩
  split
  · exact hinv (fun hunset ↦ ⟨(h.untouched hunset).1, hfresh₂ hunset⟩) (hregs₂.trans hregs₁)
      (List.Subset.trans hseen₁ hseen₂)
  rw [World.wpS_bind]
  refine World.wpS_mono (wpS_of_quiet dmaBase (mtkAllocateRx_quiet))
    fun status₃ c₃ m₃ h₃ ↦ ?_
  obtain ⟨⟨⟨rxPhys, rx, rfl⟩, hfailed⟩, hregs₃, hreset₃, hseen₃⟩ := h₃
  have hfresh₃ : c.initialized = false → m₃.reset = false ∧ m₃.regs = original := fun hunset ↦
    ⟨hreset₃.trans (hfresh₂ hunset).1, hregs₃.trans (hfresh₂ hunset).2⟩
  have hregs := hregs₃.trans (hregs₂.trans hregs₁)
  have hseen := List.Subset.trans hseen₁ (List.Subset.trans hseen₂ hseen₃)
  split
  · next herr =>
    refine hinv (fun hunset ↦ ⟨?_, hfresh₃ hunset⟩) hregs hseen
    exact (hfailed herr).trans (h.untouched hunset).1
  · refine wpS_mtkStart rfl rfl (hsuccess (by simpa using hmapped)) hfresh₃ fun hset ↦
      hinv (fun hunset ↦ ?_) hregs hseen
    exact absurd (hset.symm.trans hunset) Bool.noConfusion

private theorem wpS_discard {p : Mtk α} {Q : MtkI2c → MtkBlock → Prop}
    (h : (mtkWorld base).wpS p (fun _ c' m' ↦ Q c' m') c m) :
    (mtkWorld base).wpS (discard p) (fun _ c' m' ↦ Q c' m') c m := by
  change (mtkWorld base).wpS (p >>= fun _ ↦ pure PUnit.unit) _ c m
  rw [World.wpS_bind]
  exact h

private theorem TimingInv.call (h : TimingInv base dmaBase original c m) {call : MtkCall}
    (hcall : call.Valid) : (mtkWorld base).wpS (call.run base dmaBase)
      (fun _ c' m' ↦ TimingInv base dmaBase original c' m') c m := by
  cases call with
  | init slaveAddr => exact wpS_discard (h.mtkI2cInit slaveAddr)
  | reinit => exact wpS_discard h.mtkI2cReinit
  | xfer wBuf wLen rBuf rLen => exact wpS_discard (h.mtkI2cXfer hcall)
  | disable =>
    have hquiet := mtkI2cDisable_quiet (fun hset ↦ (h.target hset).1) fun hset ↦ (h.target hset).2
    refine World.wpS_mono (wpS_of_quiet dmaBase hquiet) fun _ c' m' hpost ↦ ?_
    obtain ⟨rfl, hm⟩ := hpost
    exact h.quiet rfl rfl rfl rfl rfl rfl rfl rfl hm

private theorem TimingInv.calls {calls : List MtkCall} (hcalls : ∀ call ∈ calls, call.Valid)
    (h : TimingInv base dmaBase original c m) : (mtkWorld base).wpS (mtkCalls base dmaBase calls)
      (fun _ c' m' ↦ TimingInv base dmaBase original c' m') c m := by
  induction calls generalizing c m with
  | nil => exact h
  | cons call calls ih =>
    rw [mtkCalls, World.wpS_bind]
    refine World.wpS_mono (h.call (hcalls call List.mem_cons_self)) fun _ c' m' h' ↦ ?_
    exact ih (fun call hcall ↦ hcalls call (List.mem_cons_of_mem _ hcall)) h'

end

/-! ## The result -/

/-- The controller as the firmware leaves it. -/
def MtkBlock.booted (original : UInt64 → UInt16) : MtkBlock := ⟨original, [], false⟩

/-- **The firmware's timing survives** every sequence of calls on a zero-initialised instance: no
part of `MtkInitHw` comes before the snapshot, no part of the snapshot after a reset, and after
every call the registers hold what they have to once there has been a reset. -/
theorem mtkTiming_survives {base dmaBase : UInt64} {original : UInt64 → UInt16}
    {calls : List MtkCall} (hcalls : ∀ call ∈ calls, call.Valid) :
    (∀ t e k m, ((mtkCalls base dmaBase calls).run {}).Reaches t (.op e k) →
      (mtkWorld base).Path (.booted original) t m → m.Ordered base e) ∧
    (∀ t c m, ((mtkCalls base dmaBase calls).run {}).Returns t ((), c) →
      (mtkWorld base).Path (.booted original) t m → m.reset = true →
        TimingSurvives original m.regs) := by
  have hinit : TimingInv base dmaBase original {} (.booted original) :=
    ⟨Bool.noConfusion, fun _ ↦ ⟨rfl, rfl, rfl⟩, Bool.noConfusion, Bool.noConfusion,
      Bool.noConfusion, Bool.noConfusion⟩
  have hwp := hinit.calls hcalls
  constructor
  · intro t e k m hreach hpath
    exact World.wp_allowed hwp hreach hpath rfl
  · intro t c m hret hpath hreset
    exact (World.returns_of_wpS hwp hret hpath).survives hreset

/-- A controller at 0x16BA0000 whose transfers complete at once. -/
def timedMachine (m : MtkBlock) (e : UefiOp) : e.Ret × MtkBlock :=
  match e with
  | .mmioRead16 a =>
    (if a - 0x16BA0000 ∈ mtkTimingRegs then m.regs (a - 0x16BA0000) else mtkI2cTransacComp,
      m.read (a - 0x16BA0000))
  | .mmioWrite16 a val => ((), m.written (a - 0x16BA0000) val)
  | e => (e.zeros, m)

theorem answers_timedMachine (m : MtkBlock) (e : UefiOp) :
    (mtkWorld 0x16BA0000).answer m e (timedMachine m e).1 (timedMachine m e).2 := by
  cases e with
  | mmioRead16 a => exact ⟨fun hoff ↦ if_pos hoff, rfl⟩
  | _ => rfl

/-- A start, a write and a second start for another address. -/
def threeCalls : Mtk Unit :=
  mtkCalls 0x16BA0000 0x16AA0000 [.init 0x10, .xfer (some [1]) 1 none 0, .init 0x38]

/-- Behind them the registers hold what the firmware had in them. -/
theorem mtkTiming_survives_threeCalls : ∃ t c m, (threeCalls.run {}).Returns t ((), c) ∧
    (mtkWorld 0x16BA0000).Path (.booted fun _ ↦ 0x0419) t m ∧ m.reset = true ∧
    HoldsTiming m.regs (timingOf fun _ ↦ 0x0419) 0x0419 := by
  obtain ⟨m₀, hm₀⟩ : ∃ m₀, m₀ = MtkBlock.booted fun _ ↦ 0x0419 := ⟨_, rfl⟩
  have hreturns : ((threeCalls.run {}).simulate timedMachine m₀).2.isSome = true := by
    rw [hm₀]
    decide +kernel
  have hreset : (replay timedMachine ((threeCalls.run {}).simulate timedMachine m₀).1 m₀).reset
      = true := by
    rw [hm₀]
    decide +kernel
  have hpath : (mtkWorld 0x16BA0000).Path m₀ ((threeCalls.run {}).simulate timedMachine m₀).1
      (replay timedMachine ((threeCalls.run {}).simulate timedMachine m₀).1 m₀) :=
    Prog.path_simulate (fun _ ↦ rfl) answers_timedMachine (threeCalls.run {}) m₀
  obtain ⟨⟨_, c⟩, hsim⟩ := Option.isSome_iff_exists.mp hreturns
  have hret := Prog.returns_simulate hsim
  generalize replay timedMachine ((threeCalls.run {}).simulate timedMachine m₀).1 m₀ = m
    at hreset hpath
  generalize ((threeCalls.run {}).simulate timedMachine m₀).1 = t at hpath hret
  subst hm₀
  have hsurvives : TimingSurvives (fun _ ↦ 0x0419) m.regs := by
    refine (mtkTiming_survives fun call hcall ↦ ?_).2 t c m hret hpath hreset
    simp only [List.mem_cons, List.not_mem_nil, or_false] at hcall
    rcases hcall with rfl | rfl | rfl
    · exact trivial
    · exact ⟨le_rfl, Nat.zero_le _⟩
    · exact trivial
  exact ⟨t, c, m, hret, hpath, hreset, hsurvives.1 (by decide)⟩

end TouchI2c
