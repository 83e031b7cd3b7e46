import TouchI2c.DwI2c.CommandStream
import TouchI2c.Interaction.Footprint

/-!
# The footprint of the DesignWare master

Which registers each function of `DwI2c.c` accesses: always those of the controller at `Base`, and
in a transfer only the ones in `xferOffsets`. A footprint also says that the function does not
fault, and what it returns.

Two controllers have different windows, and the registers of two windows are apart (`register_inj`):
a register of one is never a register of the other, whatever the offsets, since bases are multiples
of the window size and offsets lie below it. That is what lets a property of one controller survive
the accesses to another.
-/

namespace TouchI2c

open CMemory Interaction

/-- An access to a register of the controller at `base` whose offset satisfies `R`. -/
def RegAccess (base : UInt64) (R : UInt64 → Prop) : UefiOp → Prop
  | .mmioRead32 a => ∃ off, R off ∧ a = base + off
  | .mmioWrite32 a _ => ∃ off, R off ∧ a = base + off
  | _ => False

/-- A register of the DesignWare block. -/
abbrev IsDwOffset (off : UInt64) : Prop := off < 0x100

/-- The registers that a disable accesses. -/
def disableOffsets : List UInt64 := [dwIcEnable, dwIcEnableStatus]

/-- The registers that a transfer accesses. -/
def xferOffsets : List UInt64 :=
  [dwIcDataCmd, dwIcRawIntrStat, dwIcClrTxAbrt, dwIcClrStopDet, dwIcEnable, dwIcStatus,
   dwIcTxAbrtSource, dwIcEnableStatus]

/-- The registers that programming speed and timing accesses. -/
def timingOffsets : List UInt64 :=
  [dwIcCon, dwIcSsSclHcnt, dwIcSsSclLcnt, dwIcFsSclHcnt, dwIcFsSclLcnt, dwIcSdaHold]

/-- The registers that an initialisation accesses. -/
def initOffsets : List UInt64 :=
  disableOffsets ++ timingOffsets ++ [dwIcIntrMask, dwIcTxTl, dwIcRxTl, dwIcTar]

theorem isDwOffset_of_mem_timing {off : UInt64} (h : off ∈ timingOffsets) : IsDwOffset off := by
  simp only [timingOffsets, List.mem_cons, List.not_mem_nil, or_false] at h
  rcases h with rfl | rfl | rfl | rfl | rfl | rfl <;> decide

theorem isDwOffset_of_mem_disable {off : UInt64} (h : off ∈ disableOffsets) : IsDwOffset off := by
  simp only [disableOffsets, List.mem_cons, List.not_mem_nil, or_false] at h
  rcases h with rfl | rfl <;> decide

theorem isDwOffset_of_mem_xfer {off : UInt64} (h : off ∈ xferOffsets) : IsDwOffset off := by
  simp only [xferOffsets, List.mem_cons, List.not_mem_nil, or_false] at h
  rcases h with rfl | rfl | rfl | rfl | rfl | rfl | rfl | rfl <;> decide

theorem mem_xfer_of_mem_disable {off : UInt64} (h : off ∈ disableOffsets) : off ∈ xferOffsets := by
  simp only [disableOffsets, List.mem_cons, List.not_mem_nil, or_false] at h
  rcases h with rfl | rfl <;> simp [xferOffsets]

theorem RegAccess.mono {base : UInt64} {R R' : UInt64 → Prop} (hR : ∀ off, R off → R' off)
    {e : UefiOp} (h : RegAccess base R e) : RegAccess base R' e := by
  cases e with
  | mmioRead32 a =>
    obtain ⟨off, hoff, ha⟩ := h
    exact ⟨off, hR off hoff, ha⟩
  | mmioWrite32 a v =>
    obtain ⟨off, hoff, ha⟩ := h
    exact ⟨off, hR off hoff, ha⟩
  | _ => exact absurd h id

/-! ## Windows -/

/-- The window of the MediaTek DMA engine. -/
def mtkDmaWindow : UInt64 := 0x16AA0000

/-- A 4 KiB window for the registers of a DesignWare controller. -/
def IsController (base : UInt64) : Prop := base % 0x1000 = 0 ∧ base ≠ mtkDmaWindow

instance (base : UInt64) : Decidable (IsController base) := inferInstanceAs (Decidable (_ ∧ _))

/-- The registers of two windows are apart. -/
theorem register_inj {base base' off off' : UInt64} (h : base % 0x1000 = 0)
    (h' : base' % 0x1000 = 0) (hoff : off < 0x1000) (hoff' : off' < 0x1000)
    (heq : base + off = base' + off') : base = base' ∧ off = off' := by
  rw [← UInt64.toNat_inj] at h h' heq
  rw [UInt64.lt_iff_toNat_lt] at hoff hoff'
  simp only [UInt64.toNat_add, UInt64.toNat_mod, UInt64.reduceToNat] at h h' heq hoff hoff'
  have hb := base.toNat_lt
  have hb' := base'.toNat_lt
  constructor <;> rw [← UInt64.toNat_inj] <;> omega

/-- An operation that accesses no register in `R` of any controller. -/
def Elsewhere (R : UInt64 → Prop) (e : UefiOp) : Prop :=
  ∀ base, IsController base → ¬RegAccess base R e

theorem elsewhere_of_regAccess {base : UInt64} {R R' : UInt64 → Prop} (hbase : base % 0x1000 = 0)
    (hR : ∀ off, R off → off < 0x1000) (hR' : ∀ off, R' off → off < 0x1000 ∧ ¬R off) {e : UefiOp}
    (h : RegAccess base R' e) : Elsewhere R e := by
  have hapart : ∀ {base' off' off : UInt64}, base' % 0x1000 = 0 → R off' → R' off →
      base' + off' ≠ base + off := by
    intro base' off' off hbase' hoff' hoff heq
    obtain ⟨hlt, hnot⟩ := hR' off hoff
    obtain ⟨-, rfl⟩ := register_inj hbase' hbase (hR off' hoff') hlt heq
    exact hnot hoff'
  intro base' hbase' hreg
  cases e with
  | mmioRead32 a | mmioWrite32 a v =>
    obtain ⟨off, hoff, rfl⟩ := h
    obtain ⟨off', hoff', heq⟩ := hreg
    exact hapart hbase'.1 hoff' hoff heq.symm
  | _ => exact h

section

variable {base : UInt64} {R : UInt64 → Prop}

theorem regRd_within {off : UInt64} {Q : UInt32 → Unit → Prop} (hoff : R off) (h : ∀ v, Q v ()) :
    (within (RegAccess base R)).world.wp (regRd base off) Q () :=
  wp_regRd.mpr ⟨⟨off, hoff, rfl⟩, h⟩

theorem regWr_within {off : UInt64} (hoff : R off) (val : UInt32) :
    (regWr base off val).Within (RegAccess base R) fun _ ↦ True :=
  wp_regWr.mpr ⟨⟨off, hoff, rfl⟩, trivial⟩

theorem pollReg_within {off : UInt64} (hoff : R off) (test : UInt32 → Bool) (n : ℕ) :
    (pollReg base off test n).Within (RegAccess base R) fun _ ↦ True :=
  wp_pollReg (fun _ ↦ True) (fun _ _ ↦ regRd_within hoff fun _ ↦ ⟨fun _ ↦ trivial, fun _ ↦ trivial⟩)
    (fun _ _ ↦ trivial) trivial

theorem dwI2cControllerPresent_within (hoff : R dwIcCompType) :
    (dwI2cControllerPresent base).Within (RegAccess base R) fun _ ↦ True := by
  rw [dwI2cControllerPresent, Prog.Within, World.wp_bind]
  exact regRd_within hoff fun _ ↦ trivial

theorem dwI2cDisable_within (hR : ∀ off ∈ disableOffsets, R off) :
    (dwI2cDisable base).Within (RegAccess base R) fun _ ↦ True := by
  rw [dwI2cDisable, Prog.Within, World.wp_bind]
  refine World.wp_mono (regWr_within (hR _ (by decide)) _) fun _ _ _ ↦ ?_
  rw [World.wp_bind]
  refine World.wp_mono (pollReg_within (hR _ (by decide)) _ _) fun done _ _ ↦ ?_
  cases done <;> exact trivial

theorem dwI2cRecover_within (hR : ∀ off ∈ xferOffsets, R off) :
    (dwI2cRecover base).Within (RegAccess base R) fun _ ↦ True := by
  rw [dwI2cRecover, Prog.Within, World.wp_bind]
  refine World.wp_mono
    (dwI2cDisable_within fun off h ↦ hR off (mem_xfer_of_mem_disable h)) fun status _ _ ↦ ?_
  split
  · exact trivial
  · rw [World.wp_bind]
    refine World.wp_mono (regWr_within (hR _ (by decide)) _) fun _ _ _ ↦ ?_
    rw [World.wp_bind]
    refine World.wp_mono (pollReg_within (hR _ (by decide)) _ _) fun _ _ _ ↦ ?_
    rw [World.wp_bind]
    refine regRd_within (hR _ (by decide)) fun _ ↦ ?_
    rw [World.wp_bind]
    exact regRd_within (hR _ (by decide)) fun _ ↦ trivial

theorem handleAbort_within (hR : ∀ off ∈ xferOffsets, R off) :
    (handleAbort base).Within (RegAccess base R) fun status ↦ status ≠ .success := by
  rw [Prog.Within, handleAbort, classifyAbort, World.wp_bind, World.wp_bind]
  refine regRd_within (hR _ (by decide)) fun src ↦ ?_
  rw [World.wp_bind]
  refine regRd_within (hR _ (by decide)) fun _ ↦ ?_
  simp only [Prog.pure_eq, World.wp_pure]
  split
  · exact EfiStatus.noConfusion
  · rw [if_pos rfl, World.wp_bind]
    exact World.wp_mono (dwI2cRecover_within hR) fun _ _ _ ↦ EfiStatus.noConfusion

/-! ## Initialisation -/

theorem programCounts_within {hcntOff lcntOff : UInt64} (hhcnt : R hcntOff) (hlcnt : R lcntOff)
    (force : Bool) (hcnt lcnt : UInt16) :
    (programCounts base hcntOff lcntOff force hcnt lcnt).Within (RegAccess base R)
      fun _ ↦ True := by
  have hmissing : (countsMissing base hcntOff lcntOff force).Within (RegAccess base R)
      fun _ ↦ True := by
    unfold countsMissing
    split
    · exact trivial
    · rw [Prog.Within, World.wp_bind]
      refine regRd_within hhcnt fun v ↦ ?_
      split
      · exact trivial
      · rw [World.wp_bind]
        exact regRd_within hlcnt fun _ ↦ trivial
  rw [programCounts, Prog.Within, World.wp_bind]
  refine World.wp_mono hmissing fun missing _ _ ↦ ?_
  cases missing with
  | false => exact trivial
  | true =>
    rw [if_pos rfl, World.wp_bind]
    exact World.wp_mono (regWr_within hhcnt _) fun _ _ _ ↦ regWr_within hlcnt _

theorem programTiming_within (hR : ∀ off ∈ timingOffsets, R off) (timing : Option DwI2cTiming) :
    (programTiming base timing).Within (RegAccess base R) fun _ ↦ True := by
  have hspeed : ∀ speed force timing, (programSpeed base speed force timing).Within
      (RegAccess base R) fun _ ↦ True := by
    intro speed force timing
    unfold programSpeed
    split <;> exact programCounts_within (hR _ (by decide)) (hR _ (by decide)) _ _ _
  rw [programTiming, Prog.Within, World.wp_bind]
  refine regRd_within (hR _ (by decide)) fun con ↦ ?_
  rw [World.wp_bind]
  refine World.wp_mono (regWr_within (hR _ (by decide)) _) fun _ _ _ ↦ ?_
  rw [World.wp_bind]
  refine World.wp_mono (hspeed _ _ _) fun _ _ _ ↦ ?_
  split
  · exact regWr_within (hR _ (by decide)) _
  · exact trivial

theorem dwI2cInit_within_offsets (hR : ∀ off ∈ initOffsets, R off) (slaveAddr : UInt8)
    (timing : Option DwI2cTiming) :
    (dwI2cInit base slaveAddr timing).Within (RegAccess base R) fun _ ↦ True := by
  rw [dwI2cInit, Prog.Within, World.wp_bind]
  refine World.wp_mono
    (dwI2cDisable_within fun off h ↦ hR off (by simp [initOffsets, h])) fun status _ _ ↦ ?_
  split
  · exact trivial
  · rw [World.wp_bind]
    refine World.wp_mono
      (programTiming_within (fun off h ↦ hR off (by simp [initOffsets, h])) timing) fun _ _ _ ↦ ?_
    rw [World.wp_bind]
    refine World.wp_mono (regWr_within (hR _ (by decide)) _) fun _ _ _ ↦ ?_
    rw [World.wp_bind]
    refine World.wp_mono (regWr_within (hR _ (by decide)) _) fun _ _ _ ↦ ?_
    rw [World.wp_bind]
    refine World.wp_mono (regWr_within (hR _ (by decide)) _) fun _ _ _ ↦ ?_
    rw [World.wp_bind]
    refine World.wp_mono (regWr_within (hR _ (by decide)) _) fun _ _ _ ↦ ?_
    rw [World.wp_bind]
    refine World.wp_mono (regWr_within (hR _ (by decide)) _) fun _ _ _ ↦ ?_
    rw [World.wp_bind]
    refine World.wp_mono (pollReg_within (hR _ (by decide)) _ _) fun done _ _ ↦ ?_
    cases done <;> exact trivial

theorem dwI2cInit_within (hR : ∀ off, IsDwOffset off → R off) (slaveAddr : UInt8)
    (timing : Option DwI2cTiming) :
    (dwI2cInit base slaveAddr timing).Within (RegAccess base R) fun _ ↦ True := by
  refine dwI2cInit_within_offsets (fun off hoff ↦ hR off ?_) slaveAddr timing
  simp only [initOffsets, List.mem_append] at hoff
  rcases hoff with (hoff | hoff) | hoff
  · exact isDwOffset_of_mem_disable hoff
  · exact isDwOffset_of_mem_timing hoff
  · simp only [List.mem_cons, List.not_mem_nil, or_false] at hoff
    rcases hoff with rfl | rfl | rfl | rfl <;> decide

/-! ## Transfers -/

/-- The buffers of a transfer hold what its lengths ask for. -/
structure XferBuffers (wBuf : Option (List UInt8)) (wLen : ℕ) (rBuf : Option (List UInt8))
    (rLen : ℕ) : Prop where
  w : wLen ≤ (wBuf.getD []).length
  r : rLen ≤ (rBuf.getD []).length

/-- What every transport leaves of `RBuf`: a buffer of the same size. -/
def SameSize (rBuf rBuf' : Option (List UInt8)) : Prop := rBuf'.map List.length = rBuf.map List.length

theorem sameSize_stored {rBuf : Option (List UInt8)} {got : List UInt8}
    (h : got.length ≤ (rBuf.getD []).length) : SameSize rBuf (stored rBuf got) := by
  cases rBuf with
  | none => rfl
  | some bytes =>
    rw [Option.getD_some] at h
    simp only [SameSize, stored, Option.map_some, List.length_append, List.length_drop,
      Option.some.injEq]
    omega

/-- What a transfer that has received `got` keeps, whatever the registers read. -/
private def Received (x : XferArgs) (n : ℕ) (got : List UInt8) (_ : Unit) : Prop :=
  n ≤ x.wLen + x.rLen ∧ got.length ≤ x.rLen

private theorem footprintRules {x : XferArgs} (hR : ∀ off ∈ xferOffsets, R off) :
    TransferRules (within (RegAccess x.base R)).world x (Received x)
      (fun _ got _ ↦ got.length ≤ x.rLen) where
  rawIntr {n got s} h := by
    refine regRd_within (hR _ (by decide)) fun r ↦ ?_
    split
    · exact World.wp_mono (handleAbort_within hR) fun _ _ _ ↦ h.2
    · exact h
  status {n got s} h := by
    refine regRd_within (hR _ (by decide)) fun r ↦ ⟨h, fun _ hlt ↦ ?_⟩
    refine regRd_within (hR _ (by decide)) fun v ↦ ⟨h.1, ?_⟩
    have := h.1
    rw [List.length_append, List.length_singleton]
    omega
  dataCmd {n got s} h hlt hroom :=
    World.wp_mono (regWr_within (hR _ (by decide)) _) fun _ _ _ ↦ ⟨hlt, h.2⟩
  recover {n got s} h := World.wp_mono (dwI2cRecover_within hR) fun _ _ _ ↦ h.2
  finish {got s} h hgot := regRd_within (hR _ (by decide)) fun _ ↦ hgot.le

/-- A transfer accesses the registers in `xferOffsets` and leaves `RBuf` as large as it was. -/
theorem dwI2cXfer_within (hR : ∀ off ∈ xferOffsets, R off) {wBuf rBuf : Option (List UInt8)}
    {wLen rLen : ℕ} (hbuf : XferBuffers wBuf wLen rBuf rLen) :
    (dwI2cXfer base wBuf wLen rBuf rLen).Within (RegAccess base R)
      fun r ↦ SameSize rBuf r.2 := by
  by_cases hvalid : xferInvalid wBuf wLen rBuf rLen = true
  · rw [dwI2cXfer, if_pos hvalid]
    exact rfl
  · have hx : (⟨base, wBuf, wLen, rLen⟩ : XferArgs).Valid rBuf := ⟨hbuf.w, hbuf.r⟩
    have hstart : (within (RegAccess base R)).world.wp (regRd base dwIcClrTxAbrt) (fun _ ↦
        (within (RegAccess base R)).world.wp (regRd base dwIcClrStopDet) (fun _ ↦
          Received ⟨base, wBuf, wLen, rLen⟩ 0 [])) () :=
      regRd_within (hR _ (by decide)) fun _ ↦ regRd_within (hR _ (by decide)) fun _ ↦
        ⟨Nat.zero_le _, Nat.zero_le _⟩
    refine World.wp_mono ((footprintRules hR).wp_dwI2cXfer hx (by simpa using hvalid) hstart)
      fun r _ hr ↦ ?_
    obtain ⟨got, hbuffer, hgot⟩ := hr
    rw [hbuffer]
    exact sameSize_stored (le_trans hgot hbuf.r)

end

end TouchI2c
