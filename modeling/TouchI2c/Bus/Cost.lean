import TouchI2c.Bus.Footprint
import TouchI2c.DwI2c.Cost

/-!
# How long the transports take

The bounds of `DwI2c.Cost` for the MediaTek master, whose poll stalls on a budget, and for the
selected transport.

A poll of the MediaTek master accesses two registers before each stall of 20 us and once more after
the last, and its budget is capped, so a transaction is bounded by the cap and the accesses that go
with it, and a transfer by two of them and their resets. On the firmware's transport a transfer is
one request, whose time is a parameter: the driver hands it over and waits.
-/

namespace TouchI2c

open CMemory Interaction

variable {access request : ℕ} {c : MtkI2c} {s : ℕ}

/-! ## Accesses -/

private theorem wpS_i2cRd_clock {off : UInt64} {Q : UInt16 → MtkI2c → ℕ → Prop} :
    (clock access request).wpS (i2cRd off) Q c s ↔ ∀ v, Q v c (s + access) :=
  wpS_i2cRd_iff.trans wp_perform_metering

private theorem wpS_i2cWr_clock {off : UInt64} {val : UInt16} {Q : Unit → MtkI2c → ℕ → Prop} :
    (clock access request).wpS (i2cWr off val) Q c s ↔ Q () c (s + access) :=
  wpS_i2cWr_iff.trans (wp_perform_metering.trans ⟨fun h ↦ h (), fun h _ ↦ h⟩)

private theorem wpS_dmaRd_clock {off : UInt64} {Q : UInt32 → MtkI2c → ℕ → Prop} :
    (clock access request).wpS (dmaRd off) Q c s ↔ ∀ v, Q v c (s + access) :=
  wpS_dmaRd_iff.trans wp_perform_metering

private theorem wpS_dmaWr_clock {off : UInt64} {val : UInt32} {Q : Unit → MtkI2c → ℕ → Prop} :
    (clock access request).wpS (dmaWr off val) Q c s ↔ Q () c (s + access) :=
  wpS_dmaWr_iff.trans (wp_perform_metering.trans ⟨fun h ↦ h (), fun h _ ↦ h⟩)

private theorem wp_stall_clock {us : ℕ} {Q : Unit → ℕ → Prop} :
    (clock access request).wp (stall us) Q s ↔ Q () (s + us) :=
  wp_perform_metering.trans ⟨fun h ↦ h (), fun h _ ↦ h⟩

/-! ## The MediaTek master -/

/-- The time that a reset takes at most. -/
def mtkInitTime (access : ℕ) : ℕ := 20 * access + 30

theorem mtkInitHw_takes : (clock access request).wpS mtkInitHw
    (fun _ _ s' ↦ s' ≤ s + mtkInitTime access) c s := by
  unfold mtkInitHw
  simp only [World.wpS_bind, wpS_i2cWr_clock, wpS_i2cRd_clock, wpS_dmaWr_clock, World.wpS_get,
    World.wpS_modify, World.wpS_lift, wp_stall_clock]
  intro _
  unfold mtkInitTime
  omega

/-- How often a poll stalls at most. -/
def mtkPollTurns (budget : ℕ) : ℕ := (budget + 19) / mtkXferPollStepUs

/-- A poll accesses two registers before each stall, and once more after the last. -/
theorem mtkPoll_takes (intrBits : UInt16) (budget : ℕ) :
    (clock access request).wp (mtkPoll c intrBits budget) (fun _ s' ↦
      s' ≤ s + mtkPollTurns budget * (2 * access + mtkXferPollStepUs) + 2 * access) s := by
  refine World.wp_iterate (fun st s' ↦
      s' + mtkPollTurns (budget - st.1) * (2 * access + mtkXferPollStepUs) ≤
        s + mtkPollTurns budget * (2 * access + mtkXferPollStepUs))
    (fun st ↦ mtkPollTurns (budget - st.1)) ?_ (by rw [Nat.sub_zero]) ?_
  · rintro ⟨waited, seen⟩ s₁ hle
    dsimp only at hle
    have haccumulate : ∀ {stat acc s}, (clock access request).wp (mtkAccumulate c stat acc)
        (fun _ s' ↦ s' ≤ s + access) s := by
      intro stat acc s
      unfold mtkAccumulate
      split
      · exact Nat.le_add_right s _
      · rw [World.wp_bind]
        exact wp_perform_metering.mpr fun _ ↦ le_rfl
    rw [mtkPollPass, World.wp_bind]
    refine wp_perform_metering.mpr fun stat ↦ ?_
    dsimp only
    rw [World.wp_bind]
    refine World.wp_mono haccumulate fun acc s₂ h₂ ↦ ?_
    change s₂ ≤ s₁ + access + access at h₂
    split
    · change s₂ ≤ _
      omega
    split
    · change s₂ ≤ _
      omega
    · next hbudget =>
      rw [World.wp_bind, wp_stall_clock]
      have hturn : mtkPollTurns (budget - waited) =
          mtkPollTurns (budget - (waited + mtkXferPollStepUs)) + 1 := by
        unfold mtkPollTurns mtkXferPollStepUs
        omega
      rw [hturn, Nat.succ_mul] at hle
      refine ⟨?_, ?_⟩
      · dsimp only
        omega
      · dsimp only
        omega
  · unfold mtkPollTurns mtkXferPollStepUs
    dsimp only
    omega

/-- The time that a transaction takes at most. -/
def mtkTransferTime (access budget : ℕ) : ℕ :=
  mtkPollTurns budget * (2 * access + mtkXferPollStepUs) + 23 * access

theorem mtkDoTransfer_takes (wLen rLen : ℕ) (maskOn : Bool) :
    (clock access request).wpS (mtkDoTransfer wLen rLen maskOn)
      (fun _ _ s' ↦ s' ≤ s + mtkTransferTime access (mtkXferBudget wLen rLen)) c s := by
  have hlengths : ∀ {c s}, (clock access request).wpS (mtkProgramLengths wLen rLen)
      (fun _ _ s' ↦ s' ≤ s + 3 * access) c s := by
    intro c s
    unfold mtkProgramLengths
    split <;> simp only [World.wpS_bind, wpS_i2cWr_clock] <;> omega
  have hdma : ∀ {c s}, (clock access request).wpS (mtkProgramDma wLen rLen)
      (fun _ _ s' ↦ s' ≤ s + 8 * access) c s := by
    intro c s
    unfold mtkProgramDma
    rw [World.wpS_bind, World.wpS_get]
    dsimp only
    split
    · simp only [World.wpS_bind, wpS_dmaWr_clock]
      omega
    split <;> simp only [World.wpS_bind, wpS_dmaWr_clock] <;> omega
  unfold mtkDoTransfer
  simp only [World.wpS_bind, wpS_i2cWr_clock, wpS_i2cRd_clock, wpS_dmaWr_clock, wpS_dmaRd_clock,
    World.wpS_get, World.wpS_modify, World.wpS_lift, World.wpS_pure]
  intro _
  refine World.wpS_mono hlengths fun _ c₁ s₁ h₁ ↦ ?_
  refine World.wpS_mono hdma fun _ c₂ s₂ h₂ ↦ ?_
  refine World.wp_mono (mtkPoll_takes _ _) fun acc s₃ h₃ ↦ ?_
  intro _
  unfold mtkTransferTime
  omega

/-- The time that `MtkI2cXfer` takes at most: two transactions, and the reset after each. -/
def mtkXferTime (access wLen rLen : ℕ) : ℕ :=
  2 * (mtkTransferTime access (mtkXferBudget wLen rLen) + mtkInitTime access)

theorem mtkI2cXfer_takes {wBuf rBuf : Option (List UInt8)} {wLen rLen : ℕ}
    (hbuf : XferBuffers wBuf wLen rBuf rLen) :
    (clock access request).wpS (mtkI2cXfer wBuf wLen rBuf rLen)
      (fun _ _ s' ↦ s' ≤ s + mtkXferTime access wLen rLen) c s := by
  have htransact : ∀ {c s}, (clock access request).wpS (mtkTransact wLen rLen) (fun _ _ s' ↦
      s' ≤ s + (2 * mtkTransferTime access (mtkXferBudget wLen rLen) + mtkInitTime access)) c s := by
    intro c s
    unfold mtkTransact
    rw [World.wpS_bind, World.wpS_get, World.wpS_bind]
    refine World.wpS_mono (mtkDoTransfer_takes wLen rLen _) fun status c₁ s₁ h₁ ↦ ?_
    rw [World.wpS_bind, World.wpS_get]
    split
    · rw [World.wpS_bind, World.wpS_modify, World.wpS_bind]
      refine World.wpS_mono mtkInitHw_takes fun _ c₂ s₂ h₂ ↦ ?_
      refine World.wpS_mono (mtkDoTransfer_takes wLen rLen _) fun _ c₃ s₃ h₃ ↦ ?_
      omega
    · rw [World.wpS_pure]
      omega
  have hrecover : ∀ {c s} status, (clock access request).wpS (mtkRecover status)
      (fun _ _ s' ↦ s' ≤ s + mtkInitTime access) c s := by
    intro c s status
    unfold mtkRecover
    split
    · exact mtkInitHw_takes
    · exact Nat.le_add_right s _
  have hfill : (clock access request).wpS (mtkFill wBuf wLen) (fun _ _ s' ↦ s' = s) c s := by
    unfold mtkFill
    split
    · rw [World.wpS_bind, World.wpS_liftChecked]
      refine ⟨_, copyMem_ok (by rw [List.length_replicate])
        (by rw [Nat.zero_add]; exact hbuf.w), ?_⟩
      rw [World.wpS_bind, World.wpS_get, World.wpS_lift]
      exact wp_perform_metering.mpr fun _ ↦ rfl
    · exact rfl
  have hcollect : ∀ {c s} status, (clock access request).wpS (mtkCollect rBuf rLen status)
      (fun _ _ s' ↦ s' = s) c s := by
    intro c s status
    unfold mtkCollect
    split
    · rw [World.wpS_bind, World.wpS_get, World.wpS_bind, World.wpS_lift]
      refine wp_perform_metering.mpr fun bytes ↦ ?_
      rw [World.wpS_bind, World.wpS_liftChecked]
      exact ⟨_, copyMem_ok hbuf.r (by rw [bytes.2, Nat.zero_add]), rfl⟩
    · exact rfl
  -- the accesses are those of the tries and the recovery; the rest takes no time
  unfold mtkI2cXfer
  rw [World.wpS_bind, World.wpS_get]
  split
  · exact Nat.le_add_right s _
  split
  · exact Nat.le_add_right s _
  rw [World.wpS_bind]
  refine World.wpS_mono hfill fun _ c₁ s₁ h₁ ↦ ?_
  rw [World.wpS_bind, World.wpS_lift]
  refine wp_perform_metering.mpr fun _ ↦ ?_
  rw [World.wpS_bind]
  refine World.wpS_mono htransact fun status c₂ s₂ h₂ ↦ ?_
  rw [World.wpS_bind]
  refine World.wpS_mono (hrecover status) fun _ c₃ s₃ h₃ ↦ ?_
  rw [World.wpS_bind, World.wpS_lift]
  refine wp_perform_metering.mpr fun _ ↦ ?_
  rw [World.wpS_bind]
  refine World.wpS_mono (hcollect status) fun buf c₄ s₄ h₄ ↦ ?_
  change s₂ ≤ s₁ + 0 + _ at h₂
  change s₄ = s₃ + 0 at h₄
  rw [World.wpS_pure]
  unfold mtkXferTime
  omega

theorem mtkI2cReinit_takes : (clock access request).wpS mtkI2cReinit
    (fun _ _ s' ↦ s' ≤ s + mtkInitTime access) c s := by
  unfold mtkI2cReinit
  rw [World.wpS_bind, World.wpS_get]
  split
  · exact Nat.le_add_right s _
  · rw [World.wpS_bind]
    exact mtkInitHw_takes

theorem mtkI2cDisable_takes : (clock access request).wpS mtkI2cDisable
    (fun _ _ s' ↦ s' ≤ s + 5 * access) c s := by
  unfold mtkI2cDisable
  rw [World.wpS_bind, World.wpS_get]
  split
  · exact Nat.le_add_right s _
  · simp only [World.wpS_bind, wpS_i2cWr_clock, wpS_i2cRd_clock, wpS_dmaWr_clock]
    intro _
    omega

/-! ## The selected transport -/

/-- The time that a transfer takes at most. -/
def I2cBusKind.xferTime (access request wLen rLen : ℕ) : I2cBusKind → ℕ
  | .designWare => xferAccesses wLen rLen * access
  | .mediaTek => mtkXferTime access wLen rLen
  | .firmware => request

/-- The time that the recovery of a transport takes at most. -/
def I2cBusKind.reinitTime (access : ℕ) : I2cBusKind → ℕ
  | .designWare => initAccesses * access
  | .mediaTek => mtkInitTime access
  | .firmware => 0

/-- The time that it takes to quiesce a transport at most. -/
def I2cBusKind.disableTime (access : ℕ) : I2cBusKind → ℕ
  | .designWare => disableAccesses * access
  | .mediaTek => 5 * access
  | .firmware => 0

variable {bus : I2cBus} {base : UInt64}

theorem fwXfer_takes (fw : I2cFwBus) {wBuf rBuf : Option (List UInt8)} {wLen rLen : ℕ}
    (hbuf : XferBuffers wBuf wLen rBuf rLen) :
    (clock access request).wp (fwXfer fw wBuf wLen rBuf rLen)
      (fun _ s' ↦ s' ≤ s + request) s := by
  have hfill : ∀ {s} (bytes : Filled rLen) status,
      (clock access request).wp (do return (status, ← fwFill rBuf rLen bytes) :
        Prog Uefi (EfiStatus × Option (List UInt8))) (fun _ s' ↦ s' = s) s := by
    intro s bytes status
    rw [World.wp_bind, World.wp_liftChecked]
    unfold fwFill
    split
    · cases rBuf with
      | none =>
        have hr : rLen ≤ 0 := hbuf.r
        omega
      | some buf =>
        have hr : rLen ≤ buf.length := hbuf.r
        dsimp only
        rw [copyMem_ok hr (by rw [bytes.2, Nat.zero_add])]
        exact ⟨_, rfl, rfl⟩
    · exact ⟨_, rfl, rfl⟩
  unfold fwXfer
  rw [World.wp_bind, World.wp_liftChecked]
  refine ⟨_, copyMem_ok (by rw [List.length_replicate])
    (by rw [Nat.zero_add]; exact hbuf.w), ?_⟩
  split
  · rw [World.wp_bind]
    refine wp_perform_metering.mpr fun r ↦ ?_
    exact World.wp_mono (hfill r.2.2 _) fun _ _ h ↦ h.le
  split
  · rw [World.wp_bind]
    refine wp_perform_metering.mpr fun r ↦ ?_
    exact World.wp_mono (hfill r.2.2 _) fun _ _ h ↦ h.le
  · exact Nat.le_add_right s _

theorem i2cBusXfer_takes {wBuf rBuf : Option (List UInt8)} {wLen rLen : ℕ}
    (hbuf : XferBuffers wBuf wLen rBuf rLen) :
    (clock access request).wpS (i2cBusXfer base wBuf wLen rBuf rLen)
      (fun _ _ s' ↦ s' ≤ s + bus.mKind.xferTime access request wLen rLen) bus s := by
  unfold i2cBusXfer
  rw [World.wpS_bind, World.wpS_get]
  cases hkind : bus.mKind with
  | mediaTek =>
    dsimp only
    split
    · rw [wpS_onMtk]
      exact mtkI2cXfer_takes hbuf
    · exact Nat.le_add_right s _
  | firmware =>
    dsimp only
    rw [World.wpS_lift]
    exact fwXfer_takes bus.mFw hbuf
  | designWare =>
    dsimp only
    rw [World.wpS_lift]
    exact dwI2cXfer_takes hbuf

theorem i2cBusReinit_takes (slaveAddr : UInt8) :
    (clock access request).wpS (i2cBusReinit base slaveAddr)
      (fun _ _ s' ↦ s' ≤ s + bus.mKind.reinitTime access) bus s := by
  unfold i2cBusReinit
  rw [World.wpS_bind, World.wpS_get]
  cases hkind : bus.mKind with
  | mediaTek =>
    dsimp only
    split
    · rw [wpS_onMtk, World.wpS_bind, World.wpS_modify]
      exact mtkI2cReinit_takes
    · exact Nat.le_add_right s _
  | firmware => exact Nat.le_refl s
  | designWare =>
    dsimp only
    rw [World.wpS_lift]
    exact dwI2cInit_takes slaveAddr none

theorem i2cBusDisable_takes : (clock access request).wpS (i2cBusDisable base)
    (fun _ _ s' ↦ s' ≤ s + bus.mKind.disableTime access) bus s := by
  unfold i2cBusDisable
  rw [World.wpS_bind, World.wpS_get]
  cases hkind : bus.mKind with
  | mediaTek =>
    dsimp only
    split
    · rw [wpS_onMtk]
      exact mtkI2cDisable_takes
    · exact Nat.le_add_right s _
  | firmware => exact Nat.le_refl s
  | designWare =>
    dsimp only
    rw [World.wpS_bind, World.wpS_lift]
    exact dwI2cDisable_takes

end TouchI2c
