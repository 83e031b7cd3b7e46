import TouchI2c.Bus.Access
import TouchI2c.Bus.I2cHid
import TouchI2c.DwI2c.Footprint

/-!
# The footprint of the transports

The MediaTek master accesses its own two windows and no PCI function. A transfer on the selected
transport accesses what that transport may: the controller at `Base`, the windows of the MediaTek
instance, or nothing at all, the firmware's protocols doing the work. Every transport leaves the
read buffer as large as it was.

## What a function leaves alone

A footprint of the MediaTek master also says which fields of the instance it leaves alone: a
transaction changes only its diagnostics, a failure of an allocation leaves the instance without a
buffer if it had none, and `MtkI2cInit` targets the windows it is given. `SameWindows` collects what
no transfer changes of a transport. What may be accessed depends on it only, so a footprint that is
stated for one bus holds for every bus the driver has in between.

The search for a controller of the firmware stays inside the nodes it looks at, and a descriptor
that is read successfully has passed its checks.
-/

namespace TouchI2c

open CMemory Interaction

/-- A footprint in a larger one, for a program over a state. -/
theorem wpS_within_mono {δ α : Type} {P P' : UefiOp → Prop} {p : StateT δ (Prog Uefi) α}
    {Q : α → δ → Unit → Prop} {d : δ} (h : (within P').world.wpS p Q d ())
    (hP : ∀ e, P' e → P e) : (within P).world.wpS p Q d () :=
  @Prog.Within.mono Uefi (α × δ) P' P (p.run d) (fun r ↦ Q r.1 r.2 ()) h hP

/-! ## The MediaTek windows -/

/-- A service that the MediaTek master uses. -/
def BusService : UefiOp → Prop
  | .stall _ | .raiseTpl | .restoreTpl => True
  | .allocatePages | .storeDma _ _ | .loadDma _ _ => True
  | .getMemorySpace _ | .addMemorySpace _ _ | .setMemoryAttributes _ _ _ => True
  | _ => False

/-- A request to the firmware's controller behind a handle. -/
def FwRequest (handle : ℕ) : UefiOp → Prop
  | .queueRequest h _ _ _ | .startRequest h _ _ _ => h = handle
  | _ => False

/-- No access to hardware other than 16-bit registers at `base` and 32-bit ones at `dmaBase`. -/
def MtkAccess (base dmaBase : UInt64) : UefiOp → Prop
  | .mmioRead16 a | .mmioWrite16 a _ => ∃ off < 0x1000, a = base + off
  | .mmioRead32 a | .mmioWrite32 a _ => ∃ off < 0x80, a = dmaBase + off
  | e => BusService e

/-- The registers that `MtkSnapshotTiming` saves and `MtkInitHw` programs. -/
def mtkTimingRegs : List UInt64 :=
  [mtkRegTiming, mtkRegLtiming, mtkRegHs, mtkRegExtConf, mtkRegClockDiv, mtkRegSdaTiming,
   mtkRegIoConfig]

/-- The writes that only `MtkInitHw` makes. -/
def IsInitWrite (off : UInt64) (val : UInt16) : Prop :=
  off ∈ mtkTimingRegs ∨ off = mtkRegSoftreset ∨ (off = mtkRegStart ∧ val = mtkI2cChnClrFlag)

/-- The accesses that read 16-bit registers in `R` and make 16-bit writes in `V`. -/
def MtkOps (base dmaBase : UInt64) (R : UInt64 → Prop) (V : UInt64 → UInt16 → Prop) :
    UefiOp → Prop
  | .mmioRead16 a => ∃ off < 0x1000, a = base + off ∧ R off
  | .mmioWrite16 a v => ∃ off < 0x1000, a = base + off ∧ V off v
  | e => MtkAccess base dmaBase e

/-- The accesses outside of `MtkSnapshotTiming` and `MtkInitHw`. -/
abbrev MtkQuiet (base dmaBase : UInt64) : UefiOp → Prop :=
  MtkOps base dmaBase (· ∉ mtkTimingRegs) fun off v ↦ ¬IsInitWrite off v

theorem MtkQuiet.access {base dmaBase : UInt64} {e : UefiOp} (h : MtkQuiet base dmaBase e) :
    MtkAccess base dmaBase e := by
  cases e with
  | mmioRead16 a =>
    obtain ⟨off, hoff, ha, -⟩ := h
    exact ⟨off, hoff, ha⟩
  | mmioWrite16 a v =>
    obtain ⟨off, hoff, ha, -⟩ := h
    exact ⟨off, hoff, ha⟩
  | _ => exact h

/-- What the driver's own code keeps of an instance outside of `MtkI2cInit`. -/
structure SameTarget (c c' : MtkI2c) : Prop where
  base : c'.base = c.base
  dmaBase : c'.dmaBase = c.dmaBase
  slaveAddr : c'.slaveAddr = c.slaveAddr

/-- The DMA buffers of an instance. -/
def MtkI2c.buffers (c : MtkI2c) : (UInt64 × UInt64) × UInt64 × UInt64 :=
  ((c.txBuf, c.txPhys), c.rxBuf, c.rxPhys)

/-- The same target with the same DMA buffers. -/
structure SameInstance (c c' : MtkI2c) : Prop extends SameTarget c c' where
  buffers : c'.buffers = c.buffers

theorem SameInstance.trans {c c' c'' : MtkI2c} (h : SameInstance c c') (h' : SameInstance c' c'') :
    SameInstance c c'' :=
  ⟨⟨h'.base.trans h.base, h'.dmaBase.trans h.dmaBase, h'.slaveAddr.trans h.slaveAddr⟩,
    h'.buffers.trans h.buffers⟩

theorem SameInstance.refl (c : MtkI2c) : SameInstance c c := ⟨⟨rfl, rfl, rfl⟩, rfl⟩

section

variable {base dmaBase : UInt64} {c : MtkI2c} {α : Type}

private theorem exists_offset_iff {base off bound : UInt64} :
    (∃ off' < bound, base + off = base + off') ↔ off < bound := by
  simp

private theorem exists_offset_and_iff {base off bound : UInt64} {P : UInt64 → Prop} :
    (∃ off' < bound, base + off = base + off' ∧ P off') ↔ off < bound ∧ P off := by
  simp only [UInt64.add_right_inj, ↓existsAndEq, true_and]

theorem wpS_i2cRd {off : UInt64} {Q : UInt16 → MtkI2c → Unit → Prop} (hbase : c.base = base) :
    (within (MtkAccess base dmaBase)).world.wpS (i2cRd off) Q c () ↔
      off < 0x1000 ∧ ∀ v, Q v c () := by
  subst hbase
  exact wpS_i2cRd_monitor.trans (and_congr_left' exists_offset_iff)

theorem wpS_i2cWr {off : UInt64} {val : UInt16} {Q : Unit → MtkI2c → Unit → Prop}
    (hbase : c.base = base) :
    (within (MtkAccess base dmaBase)).world.wpS (i2cWr off val) Q c () ↔
      off < 0x1000 ∧ Q () c () := by
  subst hbase
  exact wpS_i2cWr_monitor.trans (and_congr_left' exists_offset_iff)

/-- The accesses of the DMA block, in any set of operations that has its window. -/
theorem wpS_dmaRd_within {P : UefiOp → Prop} {off : UInt64} {Q : UInt32 → MtkI2c → Unit → Prop}
    (hdma : c.dmaBase = dmaBase)
    (hP : ∀ a, P (.mmioRead32 a) ↔ ∃ off' < 0x80, a = dmaBase + off') :
    (within P).world.wpS (dmaRd off) Q c () ↔ off < 0x80 ∧ ∀ v, Q v c () := by
  subst hdma
  exact wpS_dmaRd_monitor.trans (and_congr_left' ((hP _).trans exists_offset_iff))

theorem wpS_dmaWr_within {P : UefiOp → Prop} {off : UInt64} {val : UInt32}
    {Q : Unit → MtkI2c → Unit → Prop} (hdma : c.dmaBase = dmaBase)
    (hP : ∀ a, P (.mmioWrite32 a val) ↔ ∃ off' < 0x80, a = dmaBase + off') :
    (within P).world.wpS (dmaWr off val) Q c () ↔ off < 0x80 ∧ Q () c () := by
  subst hdma
  exact wpS_dmaWr_monitor.trans (and_congr_left' ((hP _).trans exists_offset_iff))

theorem wpS_dmaWr {off : UInt64} {val : UInt32} {Q : Unit → MtkI2c → Unit → Prop}
    (hdma : c.dmaBase = dmaBase) :
    (within (MtkAccess base dmaBase)).world.wpS (dmaWr off val) Q c () ↔
      off < 0x80 ∧ Q () c () := wpS_dmaWr_within hdma fun _ ↦ Iff.rfl

section

variable {R : UInt64 → Prop} {V : UInt64 → UInt16 → Prop}

theorem wpS_i2cRd_ops {off : UInt64} {Q : UInt16 → MtkI2c → Unit → Prop} (hbase : c.base = base) :
    (within (MtkOps base dmaBase R V)).world.wpS (i2cRd off) Q c () ↔
      (off < 0x1000 ∧ R off) ∧ ∀ v, Q v c () := by
  subst hbase
  exact wpS_i2cRd_monitor.trans (and_congr_left' exists_offset_and_iff)

theorem wpS_i2cWr_ops {off : UInt64} {val : UInt16} {Q : Unit → MtkI2c → Unit → Prop}
    (hbase : c.base = base) :
    (within (MtkOps base dmaBase R V)).world.wpS (i2cWr off val) Q c () ↔
      (off < 0x1000 ∧ V off val) ∧ Q () c () := by
  subst hbase
  exact wpS_i2cWr_monitor.trans (and_congr_left' (exists_offset_and_iff (P := fun off ↦ V off val)))

theorem wpS_dmaRd_ops {off : UInt64} {Q : UInt32 → MtkI2c → Unit → Prop}
    (hdma : c.dmaBase = dmaBase) :
    (within (MtkOps base dmaBase R V)).world.wpS (dmaRd off) Q c () ↔
      off < 0x80 ∧ ∀ v, Q v c () := wpS_dmaRd_within hdma fun _ ↦ Iff.rfl

theorem wpS_dmaWr_ops {off : UInt64} {val : UInt32} {Q : Unit → MtkI2c → Unit → Prop}
    (hdma : c.dmaBase = dmaBase) :
    (within (MtkOps base dmaBase R V)).world.wpS (dmaWr off val) Q c () ↔
      off < 0x80 ∧ Q () c () := wpS_dmaWr_within hdma fun _ ↦ Iff.rfl

end

theorem wpS_i2cWr_quiet {off : UInt64} {val : UInt16} {Q : Unit → MtkI2c → Unit → Prop}
    (hbase : c.base = base) :
    (within (MtkQuiet base dmaBase)).world.wpS (i2cWr off val) Q c () ↔
      (off < 0x1000 ∧ off ∉ mtkTimingRegs ∧ off ≠ mtkRegSoftreset ∧
        (off = mtkRegStart → val ≠ mtkI2cChnClrFlag)) ∧ Q () c () := by
  rw [wpS_i2cWr_ops hbase]
  simp only [IsInitWrite, not_or, not_and, ne_eq]

theorem not_isInitWrite_intrStat (val : UInt16) : ¬IsInitWrite mtkRegIntrStat val := by
  rintro (h | h | ⟨h, -⟩) <;> revert h <;> decide

private theorem wp_uefi_mtk {e : UefiOp} {Q : e.Ret → Unit → Prop}
    (he : MtkQuiet base dmaBase e) (h : ∀ r, Q r ()) :
    (within (MtkQuiet base dmaBase)).world.wp (uefi e) Q () := wp_uefi.mpr ⟨he, h⟩

theorem wp_stall_mtk {P : UefiOp → Prop} {us : ℕ} {Q : Unit → Unit → Prop}
    (hP : P (.stall us)) : (within P).world.wp (stall us) Q () ↔ Q () () :=
  wp_stall_monitor.trans (and_iff_right hP)

theorem mtkInitHw_within (hbase : c.base = base) (hdma : c.dmaBase = dmaBase) :
    (within (MtkAccess base dmaBase)).world.wpS mtkInitHw (fun _ c' _ ↦ SameInstance c c') c () := by
  unfold mtkInitHw
  have hstall := fun us Q ↦ @wp_stall_mtk (MtkAccess base dmaBase) us Q trivial
  simp +decide only [World.wpS_bind, wpS_i2cWr hbase, wpS_i2cRd hbase, wpS_dmaWr hdma,
    World.wpS_get, World.wpS_modify, World.wpS_lift, hstall, true_and, forall_const]
  exact ⟨⟨rfl, rfl, rfl⟩, rfl⟩

private theorem mtkSnapshotTiming_within (hbase : c.base = base) :
    (within (MtkAccess base dmaBase)).world.wpS mtkSnapshotTiming (fun _ c' _ ↦ SameInstance c c')
      c () := by
  unfold mtkSnapshotTiming
  simp +decide only [World.wpS_bind, wpS_i2cRd hbase, World.wpS_modify, true_and]
  intro _ _ _ _ _ _ _
  exact ⟨⟨rfl, rfl, rfl⟩, rfl⟩

/-! ## Outside of the snapshot and the reset

These parts of the MediaTek master leave the registers that carry the bus timing alone. -/

/-- A question to the GCD, or a change of its map. -/
def GcdService : UefiOp → Prop
  | .getMemorySpace _ | .addMemorySpace _ _ | .setMemoryAttributes _ _ _ => True
  | _ => False

theorem GcdService.quiet {e : UefiOp} (h : GcdService e) : MtkQuiet base dmaBase e := by
  cases e <;> first | exact h.elim | exact trivial

private theorem mtkMapWindow_within {P : UefiOp → Prop} (hP : ∀ e, GcdService e → P e)
    (b length : UInt64) : (mtkMapWindow b length).Within P fun _ ↦ True := by
  rw [mtkMapWindow, Prog.Within, World.wp_bind]
  refine wp_uefi.mpr ⟨hP _ trivial, fun r ↦ ?_⟩
  obtain ⟨status, desc⟩ := r
  dsimp only
  split
  · exact trivial
  split
  · rw [World.wp_bind]
    refine wp_uefi.mpr ⟨hP _ trivial, fun status ↦ ?_⟩
    split
    · exact trivial
    · exact wp_uefi.mpr ⟨hP _ trivial, fun _ ↦ trivial⟩
  split
  · rw [World.wp_bind]
    exact wp_uefi.mpr ⟨hP _ trivial, fun _ ↦ trivial⟩
  · exact trivial

theorem mtkMapWindows_within {P : UefiOp → Prop} (hP : ∀ e, GcdService e → P e) (b d : UInt64) :
    (within P).world.wpS (mtkMapWindows b d)
      (fun status c' _ ↦ ∃ mapped, c' = { c with mapped := mapped } ∧
        (status.isError = false → mapped = true) ∧ (c.mapped = true → mapped = true)) c () := by
  unfold mtkMapWindows
  rw [World.wpS_bind, World.wpS_get]
  split
  · next hmapped => exact ⟨c.mapped, rfl, fun _ ↦ hmapped, id⟩
  · rw [World.wpS_bind, World.wpS_lift]
    refine World.wp_mono (mtkMapWindow_within hP _ _) fun status _ _ ↦ ?_
    split
    · exact ⟨c.mapped, rfl, Bool.noConfusion, id⟩
    · rw [World.wpS_bind, World.wpS_lift]
      refine World.wp_mono (mtkMapWindow_within hP _ _) fun status _ _ ↦ ?_
      split
      · exact ⟨c.mapped, rfl, Bool.noConfusion, id⟩
      · exact ⟨true, rfl, fun _ ↦ rfl, fun _ ↦ rfl⟩

theorem mtkMapWindows_quiet (b d : UInt64) :
    (within (MtkQuiet base dmaBase)).world.wpS (mtkMapWindows b d)
      (fun status c' _ ↦ ∃ mapped, c' = { c with mapped := mapped } ∧
        (status.isError = false → mapped = true) ∧ (c.mapped = true → mapped = true)) c () :=
  mtkMapWindows_within (fun _ ↦ GcdService.quiet) b d

theorem mtkAllocateTx_quiet :
    (within (MtkQuiet base dmaBase)).world.wpS mtkAllocateTx
      (fun _ c' _ ↦ ∃ phys buf, c' = { c with txPhys := phys, txBuf := buf }) c () := by
  unfold mtkAllocateTx
  rw [World.wpS_bind, World.wpS_get]
  split
  · exact ⟨_, _, rfl⟩
  · rw [World.wpS_bind, World.wpS_lift]
    refine wp_uefi_mtk trivial fun r ↦ ?_
    obtain ⟨status, phys⟩ := r
    dsimp only
    split <;> exact ⟨_, _, rfl⟩

/-- A failure leaves the instance without a receive buffer if it had none. -/
theorem mtkAllocateRx_quiet :
    (within (MtkQuiet base dmaBase)).world.wpS mtkAllocateRx
      (fun status c' _ ↦ (∃ phys buf, c' = { c with rxPhys := phys, rxBuf := buf }) ∧
        (status.isError = true → c'.rxBuf = c.rxBuf)) c () := by
  unfold mtkAllocateRx
  rw [World.wpS_bind, World.wpS_get]
  split
  · exact ⟨⟨_, _, rfl⟩, fun _ ↦ rfl⟩
  · rw [World.wpS_bind, World.wpS_lift]
    refine wp_uefi_mtk trivial fun r ↦ ?_
    obtain ⟨status, phys⟩ := r
    dsimp only
    split
    · exact ⟨⟨_, _, rfl⟩, fun _ ↦ rfl⟩
    · exact ⟨⟨_, _, rfl⟩, Bool.noConfusion⟩

private theorem mtkPoll_quiet (hbase : c.base = base) (intrBits : UInt16) (budget : ℕ) :
    (mtkPoll c intrBits budget).Within (MtkQuiet base dmaBase) fun _ ↦ True := by
  have hread : MtkQuiet base dmaBase (.mmioRead16 (c.base + mtkRegIntrStat)) :=
    ⟨mtkRegIntrStat, by decide, by rw [hbase], by decide⟩
  have hwrite : ∀ val, MtkQuiet base dmaBase (.mmioWrite16 (c.base + mtkRegIntrStat) val) :=
    fun val ↦ ⟨mtkRegIntrStat, by decide, by rw [hbase], not_isInitWrite_intrStat val⟩
  -- the measure is the number of stalls left in the budget
  refine World.wp_iterate (fun _ _ ↦ True) (fun st ↦ (budget - st.1 + 19) / 20) ?_ trivial ?_
  · intro st s _
    rw [mtkPollPass, World.wp_bind]
    refine wp_uefi_mtk hread fun stat ↦ ?_
    rw [World.wp_bind]
    have haccumulate : ∀ stat acc, (mtkAccumulate c stat acc).Within (MtkQuiet base dmaBase)
        fun _ ↦ True := by
      intro stat acc
      unfold mtkAccumulate
      split
      · exact trivial
      · rw [Prog.Within, World.wp_bind]
        exact wp_uefi_mtk (hwrite _) fun _ ↦ trivial
    refine World.wp_mono (haccumulate _ _) fun acc _ _ ↦ ?_
    split
    · exact trivial
    split
    · exact trivial
    · next hbudget =>
      rw [World.wp_bind, wp_stall_mtk trivial]
      refine ⟨trivial, ?_⟩
      unfold mtkXferPollStepUs
      dsimp only
      omega
  · unfold mtkXferPollStepUs
    dsimp only
    omega

private theorem mtkProgramLengths_quiet (hbase : c.base = base) (wLen rLen : ℕ) :
    (within (MtkQuiet base dmaBase)).world.wpS (mtkProgramLengths wLen rLen)
      (fun _ c' _ ↦ c' = c) c () := by
  unfold mtkProgramLengths
  split <;> simp +decide only [World.wpS_bind, wpS_i2cWr_quiet hbase, true_and, false_imp_iff]

private theorem mtkProgramDma_quiet (hdma : c.dmaBase = dmaBase) (wLen rLen : ℕ) :
    (within (MtkQuiet base dmaBase)).world.wpS (mtkProgramDma wLen rLen)
      (fun _ c' _ ↦ c' = c) c () := by
  unfold mtkProgramDma
  rw [World.wpS_bind, World.wpS_get]
  dsimp only
  split
  · simp +decide only [World.wpS_bind, wpS_dmaWr_ops hdma, true_and]
  · split <;> simp +decide only [World.wpS_bind, wpS_dmaWr_ops hdma, true_and]

/-- A transaction leaves only its diagnostics in the instance. -/
theorem mtkDoTransfer_quiet (hbase : c.base = base) (hdma : c.dmaBase = dmaBase)
    (wLen rLen : ℕ) (maskOn : Bool) :
    (within (MtkQuiet base dmaBase)).world.wpS (mtkDoTransfer wLen rLen maskOn)
      (fun _ c' _ ↦ ∃ acc flag, c' = { c with lastIntrStat := acc, lastDmaIntFlag := flag })
      c () := by
  have hstart : (if decide (0 < wLen ∧ 0 < rLen) = true then mtkI2cTransacStart
      else mtkI2cTransacStart ||| mtkI2cRsMulTrig) ≠ mtkI2cChnClrFlag := by
    split <;> decide
  unfold mtkDoTransfer
  simp +decide only [World.wpS_bind, wpS_i2cWr_quiet hbase, wpS_i2cRd_ops hbase, World.wpS_get,
    true_and, false_imp_iff]
  intro _
  refine World.wpS_mono (mtkProgramLengths_quiet hbase wLen rLen) fun _ c₁ _ h₁ ↦ ?_
  subst h₁
  refine World.wpS_mono (mtkProgramDma_quiet hdma wLen rLen) fun _ c₂ _ h₂ ↦ ?_
  subst h₂
  simp +decide only [World.wpS_lift, wpS_i2cWr_quiet hbase, wpS_dmaWr_ops hdma, true_and]
  refine ⟨fun _ ↦ hstart, ?_⟩
  refine World.wp_mono (mtkPoll_quiet hbase _ _) fun acc _ _ ↦ ?_
  rw [World.wpS_modify]
  have hdma' : ({ c₂ with lastIntrStat := acc } : MtkI2c).dmaBase = dmaBase := hdma
  have hoff : mtkDmaIntFlag < 0x80 := by decide
  refine (wpS_dmaRd_ops hdma').mpr ⟨hoff, fun _ ↦ ?_⟩
  rw [World.wpS_modify, World.wpS_pure]
  exact ⟨_, _, rfl⟩

theorem mtkFill_quiet {wBuf : Option (List UInt8)} {wLen : ℕ}
    (hw : wLen ≤ (wBuf.getD []).length) :
    (within (MtkQuiet base dmaBase)).world.wpS (mtkFill wBuf wLen) (fun _ c' _ ↦ c' = c) c () := by
  unfold mtkFill
  split
  · rw [World.wpS_bind, World.wpS_liftChecked]
    refine ⟨_, copyMem_ok (by rw [List.length_replicate]) (by rwa [Nat.zero_add]), ?_⟩
    rw [World.wpS_bind, World.wpS_get, World.wpS_lift]
    exact wp_uefi_mtk trivial fun _ ↦ rfl
  · exact rfl

theorem mtkCollect_quiet {rBuf : Option (List UInt8)} {rLen : ℕ}
    (hr : rLen ≤ (rBuf.getD []).length) (status : EfiStatus) :
    (within (MtkQuiet base dmaBase)).world.wpS (mtkCollect rBuf rLen status)
      (fun buf c' _ ↦ c' = c ∧ SameSize rBuf buf) c () := by
  unfold mtkCollect
  split
  · next hcond =>
    have hpos : 0 < rLen := of_decide_eq_true (Bool.and_eq_true_iff.mp hcond).2
    rw [World.wpS_bind, World.wpS_get, World.wpS_bind, World.wpS_lift]
    refine wp_uefi_mtk trivial fun bytes ↦ ?_
    have hlen : 0 + rLen ≤ bytes.1.length := by rw [bytes.2, Nat.zero_add]
    rw [World.wpS_bind, World.wpS_liftChecked]
    refine ⟨_, copyMem_ok hr hlen, rfl, ?_⟩
    cases rBuf with
    | none =>
      rw [Option.getD_none, List.length_nil] at hr
      omega
    | some buf =>
      rw [Option.getD_some] at hr ⊢
      rw [List.drop_zero, List.take_of_length_le bytes.2.le]
      simp only [SameSize, Option.map_some, List.length_append, bytes.2, List.length_drop,
        Option.some.injEq]
      omega
  · exact ⟨rfl, rfl⟩

theorem mtkI2cDisable_quiet (hbase : c.mapped = true → c.base = base)
    (hdma : c.mapped = true → c.dmaBase = dmaBase) :
    (within (MtkQuiet base dmaBase)).world.wpS mtkI2cDisable (fun _ c' _ ↦ c' = c) c () := by
  unfold mtkI2cDisable
  rw [World.wpS_bind, World.wpS_get]
  split
  · exact rfl
  · next hmapped =>
    have hset : c.mapped = true := by simpa using hmapped
    simp +decide only [World.wpS_bind, wpS_i2cWr_quiet (hbase hset),
      wpS_i2cRd_ops (hbase hset), wpS_dmaWr_ops (hdma hset), true_and, false_imp_iff,
      implies_true]

/-! ## Preparing a controller -/

private theorem mtkStart_within (hbase : c.base = base) (hdma : c.dmaBase = dmaBase) :
    (within (MtkAccess base dmaBase)).world.wpS mtkStart (fun _ c' _ ↦ SameInstance c c') c () := by
  have hsnapshot : (within (MtkAccess base dmaBase)).world.wpS mtkSnapshotOnce
      (fun _ c' _ ↦ SameInstance c c') c () := by
    unfold mtkSnapshotOnce
    rw [World.wpS_bind, World.wpS_get]
    split
    · exact SameInstance.refl _
    · exact mtkSnapshotTiming_within hbase
  rw [mtkStart, World.wpS_bind]
  refine World.wpS_mono hsnapshot fun _ c₁ _ h₁ ↦ ?_
  rw [World.wpS_bind]
  exact World.wpS_mono (mtkInitHw_within (h₁.base.trans hbase) (h₁.dmaBase.trans hdma))
    fun _ c₂ _ h₂ ↦ h₁.trans h₂

/-- `MtkI2cInit` accesses the windows it is given, and a success targets them. -/
theorem mtkI2cInit_within (slaveAddr : UInt8) :
    (within (MtkAccess base dmaBase)).world.wpS (mtkI2cInit base dmaBase slaveAddr)
      (fun status c' _ ↦ status.isError = false →
        c'.base = base ∧ c'.dmaBase = dmaBase ∧ c'.slaveAddr = slaveAddr) c () := by
  unfold mtkI2cInit
  rw [World.wpS_bind, World.wpS_get]
  split
  · exact fun h ↦ by contradiction
  split
  · exact fun h ↦ by contradiction
  rw [World.wpS_bind, World.wpS_set, World.wpS_bind]
  refine World.wpS_mono (wpS_within_mono (mtkMapWindows_quiet _ _) fun _ ↦ MtkQuiet.access)
    fun status c₁ _ h₁ ↦ ?_
  obtain ⟨mapped, rfl, -⟩ := h₁
  split
  · next herr => exact fun hok ↦ absurd herr (by rw [hok]; decide)
  rw [World.wpS_bind]
  refine World.wpS_mono (wpS_within_mono mtkAllocateTx_quiet fun _ ↦ MtkQuiet.access)
    fun status c₂ _ h₂ ↦ ?_
  obtain ⟨phys, buf, rfl⟩ := h₂
  split
  · next herr => exact fun hok ↦ absurd herr (by rw [hok]; decide)
  rw [World.wpS_bind]
  refine World.wpS_mono (wpS_within_mono mtkAllocateRx_quiet fun _ ↦ MtkQuiet.access)
    fun status c₃ _ h₃ ↦ ?_
  obtain ⟨⟨phys, buf, rfl⟩, -⟩ := h₃
  split
  · next herr => exact fun hok ↦ absurd herr (by rw [hok]; decide)
  · exact World.wpS_mono (mtkStart_within rfl rfl) fun _ c₄ _ h₄ _ ↦
      ⟨h₄.base, h₄.dmaBase, h₄.slaveAddr⟩

theorem mtkI2cReinit_within (hbase : c.base = base) (hdma : c.dmaBase = dmaBase) :
    (within (MtkAccess base dmaBase)).world.wpS mtkI2cReinit (fun _ c' _ ↦ SameInstance c c')
      c () := by
  unfold mtkI2cReinit
  rw [World.wpS_bind, World.wpS_get]
  split
  · exact SameInstance.refl _
  · rw [World.wpS_bind]
    exact World.wpS_mono (mtkInitHw_within hbase hdma) fun _ c' _ h ↦ h

/-! ## Transfers of the MediaTek master -/

private theorem mtkTransact_within (hbase : c.base = base) (hdma : c.dmaBase = dmaBase)
    (wLen rLen : ℕ) :
    (within (MtkAccess base dmaBase)).world.wpS (mtkTransact wLen rLen)
      (fun _ c' _ ↦ SameInstance c c') c () := by
  have htransfer := fun maskOn {c' : MtkI2c} (h : SameInstance c c') ↦
    wpS_within_mono (mtkDoTransfer_quiet (h.base.trans hbase) (h.dmaBase.trans hdma) wLen rLen
      maskOn) fun _ ↦ MtkQuiet.access
  unfold mtkTransact
  rw [World.wpS_bind, World.wpS_get, World.wpS_bind]
  refine World.wpS_mono (htransfer _ (SameInstance.refl _)) fun status c₁ _ h₁ ↦ ?_
  obtain ⟨acc, flag, rfl⟩ := h₁
  rw [World.wpS_bind, World.wpS_get]
  split
  · rw [World.wpS_bind, World.wpS_modify, World.wpS_bind]
    refine World.wpS_mono (mtkInitHw_within hbase hdma) fun _ c₂ _ h₂ ↦ ?_
    have h : SameInstance c c₂ :=
      ⟨⟨h₂.base, h₂.dmaBase, h₂.slaveAddr⟩, h₂.buffers⟩
    refine World.wpS_mono (htransfer _ h) fun _ c₃ _ h₃ ↦ ?_
    obtain ⟨acc, flag, rfl⟩ := h₃
    exact ⟨⟨h.base, h.dmaBase, h.slaveAddr⟩, h.buffers⟩
  · exact ⟨⟨rfl, rfl, rfl⟩, rfl⟩

/-- A transfer of the MediaTek master accesses its windows and leaves `RBuf` as large as it was. -/
theorem mtkI2cXfer_within (hbase : c.base = base) (hdma : c.dmaBase = dmaBase)
    {wBuf rBuf : Option (List UInt8)} {wLen rLen : ℕ} (hbuf : XferBuffers wBuf wLen rBuf rLen) :
    (within (MtkAccess base dmaBase)).world.wpS (mtkI2cXfer wBuf wLen rBuf rLen)
      (fun r c' _ ↦ SameInstance c c' ∧ SameSize rBuf r.2) c () := by
  have hrecover : ∀ status {c₁ : MtkI2c}, SameInstance c c₁ →
      (within (MtkAccess base dmaBase)).world.wpS (mtkRecover status)
        (fun _ c' _ ↦ SameInstance c c') c₁ () := by
    intro status c₁ h₁
    unfold mtkRecover
    split
    · exact World.wpS_mono (mtkInitHw_within (h₁.base.trans hbase) (h₁.dmaBase.trans hdma))
        fun _ _ _ h₂ ↦ h₁.trans h₂
    · exact h₁
  have hlift : ∀ {e : UefiOp} {Q : e.Ret → Unit → Prop}, MtkAccess base dmaBase e → (∀ r, Q r ()) →
      (within (MtkAccess base dmaBase)).world.wp (uefi e) Q () :=
    fun he h ↦ wp_uefi.mpr ⟨he, h⟩
  unfold mtkI2cXfer
  rw [World.wpS_bind, World.wpS_get]
  split
  · exact ⟨SameInstance.refl _, rfl⟩
  split
  · exact ⟨SameInstance.refl _, rfl⟩
  rw [World.wpS_bind]
  refine World.wpS_mono (wpS_within_mono (mtkFill_quiet hbuf.w) fun _ ↦ MtkQuiet.access)
    fun _ c₁ _ h₁ ↦ ?_
  subst h₁
  rw [World.wpS_bind, World.wpS_lift]
  refine hlift trivial fun _ ↦ ?_
  rw [World.wpS_bind]
  refine World.wpS_mono (mtkTransact_within hbase hdma _ _) fun status c₂ _ h₂ ↦ ?_
  rw [World.wpS_bind]
  refine World.wpS_mono (hrecover status h₂) fun _ c₃ _ h₃ ↦ ?_
  rw [World.wpS_bind, World.wpS_lift]
  refine hlift trivial fun _ ↦ ?_
  rw [World.wpS_bind]
  refine World.wpS_mono (wpS_within_mono (mtkCollect_quiet hbuf.r status) fun _ ↦ MtkQuiet.access)
    fun buf c₄ _ h₄ ↦ ?_
  obtain ⟨rfl, hsize⟩ := h₄
  exact ⟨h₃, hsize⟩

theorem mtkI2cDisable_within (hbase : c.base = base) (hdma : c.dmaBase = dmaBase) :
    (within (MtkAccess base dmaBase)).world.wpS mtkI2cDisable (fun _ c' _ ↦ c' = c) c () :=
  wpS_within_mono (mtkI2cDisable_quiet (fun _ ↦ hbase) fun _ ↦ hdma) fun _ ↦ MtkQuiet.access

end

/-! ## The selected transport -/

/-- Neither an MMIO nor a PCI access. -/
def NoAccess : UefiOp → Prop
  | .mmioRead8 _ | .mmioRead16 _ | .mmioRead32 _ => False
  | .mmioWrite8 _ _ | .mmioWrite16 _ _ | .mmioWrite32 _ _ => False
  | .pciRead8 _ _ | .pciRead16 _ _ | .pciRead32 _ _ | .pciWrite16 _ _ _ => False
  | .pciEnableMemory _ => False
  | _ => True

theorem FwRequest.noAccess {handle : ℕ} {e : UefiOp} (h : FwRequest handle e) : NoAccess e := by
  cases e <;> first | exact h | exact trivial

/-- What the selected transport may access: of a DesignWare controller at `base` the registers in
`R`, the windows of the MediaTek instance, or the firmware's controller. -/
def BusAccess (bus : I2cBus) (base : UInt64) (R : UInt64 → Prop) : UefiOp → Prop :=
  match bus.mKind with
  | .designWare => RegAccess base R
  | .mediaTek => MtkAccess bus.mtk.base bus.mtk.dmaBase
  | .firmware => FwRequest bus.mFw.handle

/-- The transport stays selected and targets the same device. -/
structure SameRoute (bus bus' : I2cBus) : Prop where
  mKind : bus'.mKind = bus.mKind
  mMtk : bus'.mMtk = bus.mMtk
  mFw : bus'.mFw = bus.mFw
  mtk : SameTarget bus.mtk bus'.mtk

/-- The same for the DMA buffers. -/
structure SameTransport (bus bus' : I2cBus) : Prop extends SameRoute bus bus' where
  buffers : bus'.mtk.buffers = bus.mtk.buffers

theorem SameTransport.refl (bus : I2cBus) : SameTransport bus bus :=
  ⟨⟨rfl, rfl, rfl, ⟨rfl, rfl, rfl⟩⟩, rfl⟩

section

variable {σ : Type} {W : World Uefi σ} {bus : I2cBus} {s : σ}

theorem wpS_onMtk {α : Type} {p : Mtk α} {Q : α → I2cBus → σ → Prop} :
    W.wpS (onMtk p) Q bus s ↔
      W.wpS p (fun a c s' ↦ Q a { bus with mtk := c } s') bus.mtk s := by
  unfold onMtk
  rw [World.wpS_bind, World.wpS_get, World.wpS_bind, World.wpS_lift]
  rfl

end

variable {P : UefiOp → Prop}

theorem fwXfer_within {fw : I2cFwBus} (hP : ∀ e, FwRequest fw.handle e → P e)
    {wBuf rBuf : Option (List UInt8)} {wLen rLen : ℕ} (hbuf : XferBuffers wBuf wLen rBuf rLen) :
    (fwXfer fw wBuf wLen rBuf rLen).Within P fun r ↦ SameSize rBuf r.2 := by
  have hfill : ∀ bytes : Filled rLen, ∃ buf, fwFill rBuf rLen bytes = .ok buf ∧
      SameSize rBuf buf := by
    intro bytes
    unfold fwFill
    split
    · next hpos =>
      have hr := hbuf.r
      cases rBuf with
      | none =>
        rw [Option.getD_none, List.length_nil] at hr
        omega
      | some buf =>
        rw [Option.getD_some] at hr
        have hlen : 0 + rLen ≤ bytes.1.length := by rw [bytes.2, Nat.zero_add]
        refine ⟨_, by dsimp only; rw [copyMem_ok hr hlen]; rfl, ?_⟩
        rw [List.drop_zero, List.take_of_length_le bytes.2.le]
        simp only [SameSize, Option.map_some, List.length_append, bytes.2, List.length_drop,
          Option.some.injEq]
        omega
    · exact ⟨_, rfl, rfl⟩
  unfold fwXfer
  rw [copyMem_ok (by rw [List.length_replicate]) (by rw [Nat.zero_add]; exact hbuf.w)]
  rw [Prog.Within, World.wp_bind]
  refine World.wp_ofChecked.mpr ⟨_, rfl, ?_⟩
  split
  · rw [World.wp_bind]
    refine wp_uefi.mpr ⟨hP _ rfl, fun r ↦ ?_⟩
    obtain ⟨status, xferStatus, bytes⟩ := r
    obtain ⟨buf, hbuf, hsize⟩ := hfill bytes
    rw [World.wp_bind]
    exact World.wp_liftChecked.mpr ⟨buf, hbuf, hsize⟩
  split
  · rw [World.wp_bind]
    refine wp_uefi.mpr ⟨hP _ rfl, fun r ↦ ?_⟩
    obtain ⟨status, xferStatus, bytes⟩ := r
    obtain ⟨buf, hbuf, hsize⟩ := hfill bytes
    rw [World.wp_bind]
    exact World.wp_liftChecked.mpr ⟨buf, hbuf, hsize⟩
  · exact rfl

/-- **The footprint of a transfer** on the selected transport. -/
theorem i2cBusXfer_within {bus : I2cBus} {base : UInt64} {R : UInt64 → Prop}
    (hP : ∀ e, BusAccess bus base R e → P e) (hR : ∀ off ∈ xferOffsets, R off)
    {wBuf rBuf : Option (List UInt8)} {wLen rLen : ℕ} (hbuf : XferBuffers wBuf wLen rBuf rLen) :
    (within P).world.wpS (i2cBusXfer base wBuf wLen rBuf rLen)
      (fun r bus' _ ↦ SameTransport bus bus' ∧ SameSize rBuf r.2) bus () := by
  have hsame := SameTransport.refl bus
  unfold i2cBusXfer
  rw [World.wpS_bind, World.wpS_get]
  unfold BusAccess at hP
  cases hkind : bus.mKind with
  | mediaTek =>
    rw [hkind] at hP
    dsimp only
    split
    · rw [wpS_onMtk]
      exact wpS_within_mono (World.wpS_mono (mtkI2cXfer_within rfl rfl hbuf)
        fun _ c _ h ↦ ⟨⟨⟨hkind.symm ▸ rfl, rfl, rfl, h.1.toSameTarget⟩, h.1.buffers⟩, h.2⟩) hP
    · exact ⟨hsame, rfl⟩
  | firmware =>
    rw [hkind] at hP
    dsimp only
    rw [World.wpS_lift]
    exact World.wp_mono (fwXfer_within hP hbuf)
      fun _ _ h ↦ ⟨hsame, h⟩
  | designWare =>
    rw [hkind] at hP
    dsimp only
    rw [World.wpS_lift]
    exact World.wp_mono (Prog.Within.mono (dwI2cXfer_within hR hbuf) hP)
      fun _ _ h ↦ ⟨hsame, h⟩

/-- The same transport over the same windows, buffers and controller of the firmware; only the
address of the device may change. -/
structure SameWindows (bus bus' : I2cBus) : Prop where
  mKind : bus'.mKind = bus.mKind
  mMtk : bus'.mMtk = bus.mMtk
  base : bus'.mtk.base = bus.mtk.base
  dmaBase : bus'.mtk.dmaBase = bus.mtk.dmaBase
  buffers : bus'.mtk.buffers = bus.mtk.buffers
  handle : bus'.mFw.handle = bus.mFw.handle

theorem SameTransport.windows {bus bus' : I2cBus} (h : SameTransport bus bus') :
    SameWindows bus bus' :=
  ⟨h.mKind, h.mMtk, h.mtk.base, h.mtk.dmaBase, h.buffers, congrArg (·.handle) h.mFw⟩

theorem SameWindows.trans {bus bus' bus'' : I2cBus} (h : SameWindows bus bus')
    (h' : SameWindows bus' bus'') : SameWindows bus bus'' :=
  ⟨h'.mKind.trans h.mKind, h'.mMtk.trans h.mMtk, h'.base.trans h.base,
    h'.dmaBase.trans h.dmaBase, h'.buffers.trans h.buffers, h'.handle.trans h.handle⟩

theorem SameWindows.refl (bus : I2cBus) : SameWindows bus bus := ⟨rfl, rfl, rfl, rfl, rfl, rfl⟩

/-- What may be accessed depends on the windows only. -/
theorem SameWindows.access {bus bus' : I2cBus} (h : SameWindows bus bus') (base : UInt64)
    (R : UInt64 → Prop) : BusAccess bus' base R = BusAccess bus base R := by
  unfold BusAccess
  rw [h.mKind, h.base, h.dmaBase, h.handle]

theorem i2cBusReinit_within {bus : I2cBus} {base : UInt64} {R : UInt64 → Prop}
    (hP : ∀ e, BusAccess bus base R e → P e) (hR : ∀ off, IsDwOffset off → R off)
    (slaveAddr : UInt8) :
    (within P).world.wpS (i2cBusReinit base slaveAddr) (fun _ bus' _ ↦ SameWindows bus bus')
      bus () := by
  unfold i2cBusReinit
  rw [World.wpS_bind, World.wpS_get]
  unfold BusAccess at hP
  cases hkind : bus.mKind with
  | mediaTek =>
    rw [hkind] at hP
    dsimp only
    split
    · rw [wpS_onMtk, World.wpS_bind, World.wpS_modify]
      refine wpS_within_mono (World.wpS_mono (mtkI2cReinit_within rfl rfl) fun _ c _ h ↦ ?_) hP
      exact ⟨hkind.symm ▸ rfl, rfl, h.base, h.dmaBase, h.buffers, rfl⟩
    · exact SameWindows.refl bus
  | firmware =>
    dsimp only
    rw [World.wpS_bind, World.wpS_set]
    exact ⟨hkind.symm, rfl, rfl, rfl, rfl, rfl⟩
  | designWare =>
    rw [hkind] at hP
    dsimp only
    rw [World.wpS_lift]
    exact World.wp_mono (Prog.Within.mono (dwI2cInit_within hR slaveAddr none) hP)
      fun _ _ _ ↦ SameWindows.refl bus

theorem i2cBusDisable_within {bus : I2cBus} {base : UInt64} {R : UInt64 → Prop}
    (hP : ∀ e, BusAccess bus base R e → P e) (hR : ∀ off ∈ disableOffsets, R off) :
    (within P).world.wpS (i2cBusDisable base) (fun _ bus' _ ↦ SameWindows bus bus') bus () := by
  unfold i2cBusDisable
  rw [World.wpS_bind, World.wpS_get]
  unfold BusAccess at hP
  cases hkind : bus.mKind with
  | mediaTek =>
    rw [hkind] at hP
    dsimp only
    split
    · rw [wpS_onMtk]
      refine wpS_within_mono (World.wpS_mono (mtkI2cDisable_within rfl rfl) fun _ c _ h ↦ ?_) hP
      subst h
      exact SameWindows.refl bus
    · exact SameWindows.refl bus
  | firmware => exact SameWindows.refl bus
  | designWare =>
    rw [hkind] at hP
    dsimp only
    rw [World.wpS_bind, World.wpS_lift]
    exact World.wp_mono (Prog.Within.mono (dwI2cDisable_within hR) hP)
      fun _ _ _ ↦ SameWindows.refl bus

/-! ## HID over I2C -/

section

variable {bus : I2cBus} {base : UInt64} {R : UInt64 → Prop}

theorem i2cHidReadRegister_within (hP : ∀ e, BusAccess bus base R e → P e)
    (hR : ∀ off ∈ xferOffsets, R off) (reg : UInt16) {buf : Option (List UInt8)} {len : ℕ}
    (hbuf : len ≤ (buf.getD []).length) :
    (within P).world.wpS (i2cHidReadRegister base reg buf len)
      (fun r bus' _ ↦ SameTransport bus bus' ∧ SameSize buf r.2) bus () :=
  i2cBusXfer_within hP hR ⟨le_rfl, hbuf⟩

theorem ofBytes_ok {desc : I2cHidDescriptor} {buf : Option (List UInt8)}
    (h : SameSize (some desc.bytes) buf) : ∃ desc', I2cHidDescriptor.ofBytes buf = .ok desc' := by
  cases buf with
  | none => contradiction
  | some bytes =>
    have hlen : bytes.length = i2cHidDescriptorSize :=
      (Option.some.inj h).trans desc.length_bytes
    exact ⟨⟨bytes, hlen⟩, dif_pos hlen⟩

/-- A descriptor that is read successfully has passed its checks. -/
theorem i2cHidReadDescriptor_within (hP : ∀ e, BusAccess bus base R e → P e)
    (hR : ∀ off ∈ xferOffsets, R off) (descReg : UInt16) (desc : I2cHidDescriptor) :
    (within P).world.wpS (i2cHidReadDescriptor base descReg desc)
      (fun r bus' _ ↦ SameTransport bus bus' ∧ (r.1.isError = false → r.2.valid = true)) bus () := by
  rw [i2cHidReadDescriptor, World.wpS_bind]
  refine World.wpS_mono (i2cHidReadRegister_within hP hR descReg desc.length_bytes.ge)
    fun ⟨status, buf⟩ bus' _ ⟨hroute, hsize⟩ ↦ ?_
  obtain ⟨desc', hdesc'⟩ := ofBytes_ok hsize
  rw [World.wpS_bind, World.wpS_liftChecked]
  refine ⟨desc', hdesc', ?_⟩
  split
  · next herr => exact ⟨hroute, fun h ↦ absurd herr (by rw [h]; decide)⟩
  split
  · next hvalid => exact ⟨hroute, fun _ ↦ hvalid⟩
  · exact ⟨hroute, fun h ↦ by contradiction⟩

end

/-! ## Finding a controller of the firmware -/

/-- The test of a node stays inside the node. -/
theorem nodeMatches_ok (acpiHid : String) (acpiUid : UInt32) (node : DevicePathNode) :
    ∃ b, nodeMatches acpiHid acpiUid node = .ok b := by
  unfold nodeMatches
  split
  · exact ⟨false, rfl⟩
  · next h =>
    have hlen : acpiExtendedUidOffset + 4 ≤ node.body.length := by
      unfold acpiExtendedBodySize at h
      unfold acpiExtendedUidOffset
      omega
    dsimp only
    split
    · exact ⟨false, rfl⟩
    · obtain ⟨uid, huid⟩ := readU32_ok hlen
      rw [huid]
      exact ⟨_, rfl⟩

theorem pathHasAcpiNode_ok (path : Option (List DevicePathNode)) (acpiHid : String)
    (acpiUid : UInt32) : ∃ b, pathHasAcpiNode path acpiHid acpiUid = .ok b := by
  cases path with
  | none => exact ⟨false, rfl⟩
  | some path =>
    change ∃ b, anyNodeMatches acpiHid acpiUid path = .ok b
    induction path with
    | nil => exact ⟨false, rfl⟩
    | cons node path ih =>
      obtain ⟨b, hb⟩ := nodeMatches_ok acpiHid acpiUid node
      rw [anyNodeMatches, hb, ok_bind]
      cases b with
      | true => exact ⟨true, rfl⟩
      | false => exact ih

end TouchI2c
