import TouchI2c.Bus.Outcome

/-!
# The stall budget against a slow bus

A controller that completes every transaction within a deadline and reports no error. On a bus at
100 kHz a byte takes 90 us, which the allowance of 100 us a byte covers, but the cap of the budget
does not cover it for every length that a descriptor may ask for.

The world is the controller of `Bus.Outcome` with a clock that the stalls of the driver advance. All
that a transfer relies on is that the deadline lies within the budget of the poll: then the last
look comes after the deadline, and sees the completion. Conversely a controller that stays silent
for longer than the budget is given up, and such a controller can answer everything the driver does
before the deadline, so the run exists.
-/

namespace TouchI2c

open CMemory Interaction

/-! ## A controller with a deadline -/

/-- What an operation of the driver does to a controller that completes a transaction by the time
that the driver has waited for `deadline` microseconds since it was started. -/
def MtkBus.Paced (deadline : ℕ) (base dmaBase : UInt64) (m : MtkBus) :
    (e : UefiOp) → e.Ret → MtkBus → Prop
  | .mmioRead16 a, r, m' => m' = m ∧ (a - base = mtkRegIntrStat →
      r &&& 0x1F = m.latched &&& 0x1F ∧
        (m.running = true → deadline ≤ m.waited → m.raised &&& mtkCompletion ≠ 0))
  | .mmioWrite16 a val, _, m' => m' = m.written (a - base) val
  | .mmioWrite32 a val, _, m' => m' = m.dmaWritten (a - dmaBase) val
  | .stall us, _, m' => m' = { m with waited := m.waited + us }
  | _, _, m' => m' = m

/-- The controller as the environment of the driver. Nothing goes wrong on the bus. -/
def mtkPaced (deadline wLen rLen : ℕ) (base dmaBase : UInt64) : World Uefi MtkBus where
  drift := Relation.ReflTransGen (MtkBus.Step (.acked []) wLen rLen false)
  Allowed _ _ := True
  answer := MtkBus.Paced deadline base dmaBase

/-- The time in microseconds that `n` bytes take at 100 kHz, with the acknowledge bits. -/
def slowBusUs (n : ℕ) : ℕ := 90 * n

theorem slowBusUs_le_budget {wLen rLen : ℕ} (h : slowBusUs (wLen + rLen) ≤ mtkXferBudgetCapUs) :
    slowBusUs (wLen + rLen) ≤ mtkXferBudget wLen rLen := by
  refine le_min ?_ h
  unfold slowBusUs mtkXferBudgetFloorUs mtkXferBudgetPerByte
  omega

section

variable {deadline wLen rLen : ℕ} {base dmaBase : UInt64} {m m' : MtkBus}

/-- A deadline within the budget is all that a transfer relies on. -/
theorem MtkBus.Paced.answers {e : UefiOp} {r : e.Ret} (h : m.Paced deadline base dmaBase e r m')
    (hdeadline : deadline ≤ mtkXferBudget wLen rLen) :
    m.Answers (.acked []) wLen rLen base dmaBase e r m' := by
  cases e with
  | mmioRead16 a =>
    refine ⟨h.1, fun hoff ↦ ⟨(h.2 hoff).1, fun _ hrunning hspent ↦ ?_⟩⟩
    exact (h.2 hoff).2 hrunning (hdeadline.trans hspent)
  | loadDma phys n =>
    refine ⟨h, fun data hdata _ _ _ _ ↦ ?_⟩
    obtain rfl : [] = data := BusOutcome.acked.inj hdata
    rw [List.take_nil]
    exact List.nil_prefix
  | _ => exact h

/-- **The budget covers a slow bus up to its cap**: a transaction that takes 90 us a byte is seen to
complete, as long as all of that is within the cap. -/
theorem mtkDoTransfer_in_time {wLen rLen : ℕ} (hcap : slowBusUs (wLen + rLen) ≤ mtkXferBudgetCapUs)
    (ctl : MtkI2c) (maskOn : Bool) :
    (within fun _ ↦ True).world.wpS (mtkDoTransfer wLen rLen maskOn) (fun _ _ _ ↦ True) ctl () ∧
    ∀ m m' t status ctl', m.running = false →
      ((mtkDoTransfer wLen rLen maskOn).run ctl).Returns t (status, ctl') →
      (mtkPaced (slowBusUs (wLen + rLen)) wLen rLen ctl.base ctl.dmaBase).Path m t m' →
        status = .success := by
  refine ⟨?_, fun m m' t status ctl' hidle hret hpath ↦ ?_⟩
  · have hquiet := mtkDoTransfer_quiet (c := ctl) rfl rfl wLen rLen maskOn
    exact World.wpS_mono (wpS_within_mono hquiet fun _ _ ↦ trivial) fun _ _ _ _ ↦ trivial
  · have hpath' := hpath.mono (V := mtkBus (.acked []) wLen rLen false ctl.base ctl.dmaBase)
      (fun _ _ h ↦ h) fun _ _ _ _ h ↦ MtkBus.Paced.answers h (slowBusUs_le_budget hcap)
    exact (World.returns_of_wpS (wpS_mtkDoTransfer_acked rfl rfl hidle) hret hpath' :)

/-! ## Beyond the cap -/

/-- The controller that is slower than the driver: it never gets to the deadline. -/
def mtkSilent (deadline : ℕ) (base dmaBase : UInt64) : World Uefi MtkBus where
  drift m m' := m' = m
  Allowed m e := ∀ a, e = .mmioRead16 a → m.running = true → m.waited < deadline
  answer := MtkBus.Paced deadline base dmaBase

/-- Nothing has been reported. -/
private structure Silent (on : Bool) (us : ℕ) (m : MtkBus) : Prop where
  running : m.running = on
  waited : on = true → m.waited = us
  raised : m.raised = 0
  latched : m.latched = 0

private theorem Silent.written {off : UInt64} {val : UInt16} {on : Bool} {us : ℕ}
    (h : Silent on us m) (hstart : off ≠ mtkRegStart)
    (hreset : off ≠ mtkRegSoftreset) : Silent on us (m.written off val) := by
  unfold MtkBus.written
  split
  · exact { h with latched := by rw [h.latched, UInt16.zero_and] }
  split
  · exact { h with }
  rw [if_neg fun hboth ↦ hreset hboth.1]
  exact h

private theorem Silent.dmaWritten {off : UInt64} {val : UInt32} {on : Bool} {us : ℕ}
    (h : Silent on us m) : Silent on us (m.dmaWritten off val) := by
  unfold MtkBus.dmaWritten
  split
  · exact { h with }
  split
  · exact { h with }
  split
  · exact { h with }
  · exact h

section

variable {c : MtkI2c}

private theorem wpS_i2cRd_silent {off : UInt64} {Q : UInt16 → MtkI2c → MtkBus → Prop}
    (hidle : m.running = false) (hQ : ∀ v, Q v c m) :
    (mtkSilent deadline base dmaBase).wpS (i2cRd off) Q c m := by
  refine (wpS_i2cRd_still (fun _ ↦ Iff.rfl) Iff.rfl fun _ _ ↦ and_comm).mpr ⟨?_, fun v _ ↦ hQ v⟩
  intro a _ hrunning
  rw [hidle] at hrunning
  contradiction

private theorem wpS_i2cWr_silent {off : UInt64} {val : UInt16} {Q : Unit → MtkI2c → MtkBus → Prop}
    (h : Q () c (m.written off val)) :
    (mtkSilent deadline c.base dmaBase).wpS (i2cWr off val) Q c m := by
  refine (wpS_i2cWr_still (fun _ ↦ Iff.rfl) (iff_true_intro fun a ha ↦ by contradiction)
    fun m' ↦ ?_).mpr ⟨trivial, h⟩
  simp only [mtkSilent, MtkBus.Paced, add_sub_base]

private theorem wpS_dmaRd_silent {off : UInt64} {Q : UInt32 → MtkI2c → MtkBus → Prop}
    (h : ∀ v, Q v c m) : (mtkSilent deadline base dmaBase).wpS (dmaRd off) Q c m :=
  wpS_dmaRd_iff.mpr ((wp_uefi_still (fun _ ↦ Iff.rfl) (iff_true_intro fun a ha ↦ by contradiction)
    fun _ _ ↦ (and_iff_right trivial).symm).mpr ⟨trivial, fun v _ ↦ h v⟩)

private theorem wpS_dmaWr_silent {off : UInt64} {val : UInt32} {Q : Unit → MtkI2c → MtkBus → Prop}
    (h : Q () c (m.dmaWritten off val)) :
    (mtkSilent deadline base c.dmaBase).wpS (dmaWr off val) Q c m := by
  refine (wpS_dmaWr_still (fun _ ↦ Iff.rfl) (iff_true_intro fun a ha ↦ by contradiction)
    fun m' ↦ ?_).mpr ⟨trivial, h⟩
  simp only [mtkSilent, MtkBus.Paced, add_sub_base]

private theorem wp_mtkPoll_silent {budget : ℕ} (hbudget : budget + 20 ≤ deadline)
    (h : Silent true 0 m) :
    (mtkSilent deadline c.base dmaBase).wp (mtkPoll c (mtkIntrBits wLen rLen) budget)
      (fun acc _ ↦ acc = 0) m := by
  refine World.wp_iterate
    (fun st m ↦ st.2 = 0 ∧ st.1 < budget + 20 ∧ Silent true st.1 m)
    (fun st ↦ (budget - st.1 + 19) / 20) ?_ ⟨rfl, by omega, h⟩ ?_
  · rintro st m₁ ⟨hacc, hleft, hsilent⟩
    rw [mtkPollPass, World.wp_bind]
    intro m₂ hdrift
    obtain rfl : m₂ = m₁ := hdrift
    refine ⟨fun _ _ _ ↦ ?_, fun r m₃ hanswer ↦ ?_⟩
    · rw [hsilent.waited rfl]
      omega
    · obtain ⟨rfl, hread⟩ := hanswer
      obtain ⟨hlatched, -⟩ := hread (add_sub_base _ _)
      have hnothing : r &&& mtkIntrBits wLen rLen = 0 := by
        have hbits : mtkIntrBits wLen rLen = 0x1F &&& mtkIntrBits wLen rLen := by
          unfold mtkIntrBits
          dsimp only
          split <;> decide
        rw [hbits, ← UInt16.and_assoc, hlatched, hsilent.latched, UInt16.zero_and, UInt16.zero_and]
      rw [World.wp_pure, hnothing, World.wp_bind]
      refine World.wp_mono (Q := fun acc m' ↦ acc = 0 ∧ m' = m₃) ⟨hacc, rfl⟩ fun acc m₄ h₄ ↦ ?_
      obtain ⟨rfl, rfl⟩ := h₄
      rw [if_neg (by simp)]
      split
      · rfl
      · next hmore =>
        rw [World.wp_bind]
        intro m₅ hdrift
        obtain rfl : m₅ = m₄ := hdrift
        refine ⟨fun _ ha ↦ by contradiction, fun _ m₆ hanswer ↦ ?_⟩
        obtain rfl : m₆ = { m₅ with waited := m₅.waited + mtkXferPollStepUs } := hanswer
        refine ⟨⟨rfl, ?_, { hsilent with waited := fun _ ↦ ?_ }⟩, ?_⟩
        · unfold mtkXferPollStepUs
          dsimp only
          omega
        · exact congrArg (· + mtkXferPollStepUs) (hsilent.waited rfl)
        · unfold mtkXferPollStepUs
          dsimp only
          omega
  · unfold mtkXferPollStepUs
    dsimp only
    omega

private theorem wpS_mtkProgramLengths_silent {Q : Unit → MtkI2c → MtkBus → Prop}
    (h : Silent false 0 m) (hQ : ∀ m', Silent false 0 m' → Q () c m') :
    (mtkSilent deadline c.base dmaBase).wpS (mtkProgramLengths wLen rLen) Q c m := by
  unfold mtkProgramLengths
  split
  · rw [World.wpS_bind]
    refine wpS_i2cWr_silent ?_
    rw [World.wpS_bind]
    refine wpS_i2cWr_silent (wpS_i2cWr_silent (hQ _ ?_))
    exact ((h.written (by decide) (by decide)).written (by decide) (by decide)).written (by decide)
      (by decide)
  · rw [World.wpS_bind]
    refine wpS_i2cWr_silent (wpS_i2cWr_silent (hQ _ ?_))
    exact (h.written (by decide) (by decide)).written (by decide) (by decide)

private theorem wpS_mtkProgramDma_silent {Q : Unit → MtkI2c → MtkBus → Prop}
    (h : Silent false 0 m) (hQ : ∀ m', Silent false 0 m' → Q () c m') :
    (mtkSilent deadline c.base c.dmaBase).wpS (mtkProgramDma wLen rLen) Q c m := by
  have hwrite : ∀ {off val} {k : Mtk Unit},
      (∀ m', Silent false 0 m' → (mtkSilent deadline c.base c.dmaBase).wpS k Q c m') →
      ∀ m, Silent false 0 m →
        (mtkSilent deadline c.base c.dmaBase).wpS (do dmaWr off val; k) Q c m := by
    intro off val k hk m hm
    rw [World.wpS_bind]
    exact wpS_dmaWr_silent (hk _ hm.dmaWritten)
  have hlast : ∀ {off val} m, Silent false 0 m →
      (mtkSilent deadline c.base c.dmaBase).wpS (dmaWr off val) Q c m :=
    fun m hm ↦ wpS_dmaWr_silent (hQ _ hm.dmaWritten)
  unfold mtkProgramDma
  rw [World.wpS_bind, World.wpS_get]
  dsimp only
  split
  · exact hwrite (hwrite (hwrite (hwrite hlast))) m h
  split
  · exact hwrite (hwrite (hwrite (hwrite hlast))) m h
  · exact hwrite (hwrite (hwrite (hwrite (hwrite (hwrite (hwrite hlast)))))) m h

/-- A transaction of a controller that stays silent for longer than the budget times out. -/
private theorem wpS_mtkDoTransfer_silent {maskOn : Bool}
    (hdeadline : mtkXferBudget wLen rLen + 20 ≤ deadline) (h : Silent false 0 m) :
    (mtkSilent deadline c.base c.dmaBase).wpS (mtkDoTransfer wLen rLen maskOn)
      (fun status _ _ ↦ status = .timeout) c m := by
  have hstart : (if decide (0 < wLen ∧ 0 < rLen) = true then mtkI2cTransacStart
      else mtkI2cTransacStart ||| mtkI2cRsMulTrig) ≠ mtkI2cChnClrFlag := by
    split <;> decide
  have hwrite : ∀ {off val} {Q : Unit → MtkI2c → MtkBus → Prop}, off ≠ mtkRegStart →
      off ≠ mtkRegSoftreset → (∀ m', Silent false 0 m' → Q () c m') → ∀ m, Silent false 0 m →
        (mtkSilent deadline c.base c.dmaBase).wpS (i2cWr off val) Q c m :=
    fun hoff hreset hQ m hm ↦ wpS_i2cWr_silent (hQ _ (hm.written hoff hreset))
  unfold mtkDoTransfer
  rw [World.wpS_bind]
  refine wpS_i2cRd_silent h.running fun control ↦ ?_
  rw [World.wpS_bind]
  refine hwrite (by decide) (by decide) (fun m₁ h₁ ↦ ?_) m h
  rw [World.wpS_bind, World.wpS_get, World.wpS_bind]
  refine hwrite (by decide) (by decide) (fun m₂ h₂ ↦ ?_) m₁ h₁
  rw [World.wpS_bind]
  refine hwrite (by decide) (by decide) (fun m₃ h₃ ↦ ?_) m₂ h₂
  rw [World.wpS_bind]
  refine hwrite (by decide) (by decide) (fun m₄ h₄ ↦ ?_) m₃ h₃
  rw [World.wpS_bind]
  refine hwrite (by decide) (by decide) (fun m₅ h₅ ↦ ?_) m₄ h₄
  rw [World.wpS_bind]
  refine wpS_mtkProgramLengths_silent h₅ fun m₆ h₆ ↦ ?_
  rw [World.wpS_bind]
  refine wpS_mtkProgramDma_silent h₆ fun m₇ h₇ ↦ ?_
  rw [World.wpS_bind]
  refine wpS_dmaWr_silent ?_
  rw [World.wpS_bind]
  refine wpS_i2cWr_silent ?_
  rw [World.wpS_bind, World.wpS_get, World.wpS_bind, World.wpS_lift]
  -- the last write is the start, from which on the silence counts
  have hrunning : Silent true 0 ((m₇.dmaWritten mtkDmaEn mtkDmaStartEn).written mtkRegStart
      (if decide (0 < wLen ∧ 0 < rLen) = true then mtkI2cTransacStart
        else mtkI2cTransacStart ||| mtkI2cRsMulTrig)) := by
    have h₈ : Silent false 0 (m₇.dmaWritten mtkDmaEn mtkDmaStartEn) := h₇.dmaWritten
    unfold MtkBus.written
    rw [if_neg (by decide), if_neg (by decide), if_pos rfl, if_neg hstart]
    exact ⟨rfl, fun _ ↦ rfl, rfl, h₈.latched⟩
  refine World.wp_mono (wp_mtkPoll_silent hdeadline hrunning) fun acc m₈ hacc ↦ ?_
  subst hacc
  rw [World.wpS_bind]
  refine wpS_i2cWr_silent ?_
  rw [World.wpS_bind, World.wpS_modify, World.wpS_bind]
  refine wpS_dmaRd_silent fun flag ↦ ?_
  rw [World.wpS_bind, World.wpS_modify, World.wpS_pure]
  decide

end

private theorem silent_answered (m : MtkBus) (e : UefiOp)
    (h : (mtkSilent deadline base dmaBase).Allowed m e) :
    ∃ r m', m.Paced deadline base dmaBase e r m' := by
  cases e with
  | mmioRead16 a =>
    refine ⟨m.latched, m, rfl, fun _ ↦ ⟨rfl, fun hrunning hspent ↦ ?_⟩⟩
    exact absurd hspent (Nat.not_le_of_lt (h a rfl hrunning))
  | mmioWrite16 | mmioWrite32 | stall => exact ⟨(), _, rfl⟩
  | _ => exact ⟨UefiOp.zeros _, m, rfl⟩

/-- The largest report descriptor takes longer on a slow bus than the cap allows. -/
theorem slow_descriptor_times_out :
    ¬∀ wLen ∈ [0, 2, 4], ∀ rLen ≤ 4096, ∀ ctl maskOn m m' t status ctl', m.running = false →
      ((mtkDoTransfer wLen rLen maskOn).run ctl).Returns t (status, ctl') →
      (mtkPaced (slowBusUs (wLen + rLen)) wLen rLen ctl.base ctl.dmaBase).Path m t m' →
        status = .success := by
  intro hcovered
  have hsilent : Silent false 0 ⟨false, 0, 0, 0, 0, 0, 0, 0⟩ :=
    ⟨rfl, fun htrue ↦ by contradiction, rfl, rfl⟩
  have hwp := @wpS_mtkDoTransfer_silent (slowBusUs (2 + 4096)) 2 4096 _ {} false (by decide) hsilent
  obtain ⟨⟨status, ctl'⟩, m', ⟨t, hret, hpath⟩, hstatus⟩ :=
    World.exists_runs_in (J := fun _ ↦ True)
      (V := mtkPaced (slowBusUs (2 + 4096)) 2 4096 ({} : MtkI2c).base ({} : MtkI2c).dmaBase)
      (fun _ ↦ rfl) (fun _ ↦ .refl) (fun m e _ hallowed ↦ by
        obtain ⟨r, m', h⟩ := silent_answered m e hallowed
        exact ⟨r, m', h, h, trivial⟩) hwp trivial
  have hsuccess := hcovered 2 (by simp) 4096 le_rfl {} false _ m' t status ctl' rfl hret hpath
  obtain rfl : status = .timeout := hstatus
  contradiction

private theorem mtkPaced_live : (mtkPaced deadline wLen rLen base dmaBase).Live
    fun m ↦ m.raised = 0 ∨ m.raised &&& mtkCompletion ≠ 0 := by
  intro m e hm
  have hcomplete : (0 ||| mtkI2cTransacComp) &&& mtkCompletion ≠ 0 := by decide
  have hwritten : ∀ off val, (m.written off val).raised = 0 ∨
      (m.written off val).raised &&& mtkCompletion ≠ 0 := by
    intro off val
    unfold MtkBus.written
    split
    · exact hm
    split
    · exact hm
    split
    · split
      · exact hm
      · exact .inl rfl
    split <;> exact hm
  obtain ⟨r⟩ := UefiOp.nonempty_ret e
  cases e with
  | mmioRead16 a =>
    by_cases hraised : m.raised = 0
    · cases hrunning : m.running with
      | false =>
        refine ⟨m, m.latched, m, .refl, ⟨rfl, fun _ ↦ ⟨rfl, fun hon ↦ ?_⟩⟩, hm⟩
        rw [hrunning] at hon
        contradiction
      | true =>
        refine ⟨_, _, _, .single (.complete hrunning id hraised
          (.inl rfl)), ⟨rfl, fun _ ↦ ⟨rfl, fun _ _ ↦ hcomplete⟩⟩, .inr hcomplete⟩
    · have hdone := hm.resolve_left hraised
      exact ⟨m, m.latched, m, .refl, ⟨rfl, fun _ ↦ ⟨rfl, fun _ _ ↦ hdone⟩⟩, hm⟩
  | mmioWrite16 a val => exact ⟨m, (), _, .refl, rfl, hwritten _ _⟩
  | mmioWrite32 a val =>
    refine ⟨m, (), _, .refl, rfl, ?_⟩
    unfold MtkBus.dmaWritten
    split
    · exact hm
    split
    · exact hm
    split <;> exact hm
  | stall us => exact ⟨m, (), _, .refl, rfl, hm⟩
  | _ => exact ⟨m, r, m, .refl, rfl, hm⟩

/-- The largest touch report. -/
theorem mtkDoTransfer_in_time_report : ∃ t ctl' m',
    ((mtkDoTransfer 0 1024 false).run {}).Returns t (.success, ctl') ∧
      (mtkPaced (slowBusUs 1024) 0 1024 0 0).Path ⟨false, 0, 0, 0, 0, 0, 0, 0⟩ t m' := by
  have hwp : (mtkPaced (slowBusUs 1024) 0 1024 0 0).wp ((mtkDoTransfer 0 1024 false).run {})
      (fun _ _ ↦ True) ⟨false, 0, 0, 0, 0, 0, 0, 0⟩ :=
    World.wp_mono (World.wp_of_within (J := fun _ ↦ True)
      (mtkDoTransfer_in_time (by decide) {} false).1 (fun _ _ _ _ ↦ trivial)
      (fun _ _ _ _ ↦ ⟨trivial, fun _ _ _ ↦ trivial⟩) trivial) fun _ _ _ ↦ trivial
  obtain ⟨⟨status, ctl'⟩, m', t, hret, hpath⟩ := World.exists_runs mtkPaced_live hwp (.inl rfl)
  have hsuccess := (@mtkDoTransfer_in_time 0 1024 (by decide) {} false).2 _ m' t status ctl' rfl
    hret hpath
  exact ⟨t, ctl', m', hsuccess ▸ hret, hpath⟩

end

end TouchI2c
