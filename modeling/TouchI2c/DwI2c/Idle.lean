import TouchI2c.DwI2c.Stuck

/-!
# Controllers that are left enabled

A controller is idle when `IC_ENABLE` has been cleared since it was last set. `DwI2cInit` sets it
and leaves it set, also when the controller never reports that it is enabled. So a controller that
was initialised is idle again only after its next disable, be it one that times out: the request
alone makes it idle.

`Quiesced C P s` says that the trace `s` meets the condition `C` and that every controller is idle
in it, or in `P`. What does not access `IC_ENABLE` of any controller enables none, and what accesses
the registers of one controller enables no other; so a function at one base keeps it where that base
is in `P`. `DwI2cDisable` takes its base out of `P` again.

An initialisation that fails leaves the controller enabled only if the failure is the timeout of its
last poll. That case is kept apart as `EndsIn (InitTimedOut base)`, because the source treats all
failures alike.
-/

namespace TouchI2c

open CMemory Interaction

/-! ## Parts of a trace -/

/-- The request that enables a controller. -/
def enableRequest (base : UInt64) : Event Uefi :=
  ⟨.mmioWrite32 (base + dwIcEnable) dwIcEnableEnable, ()⟩

/-- `IC_ENABLE` of the controller at `base` has been cleared since it was last set. -/
def Idle (base : UInt64) (t : List (Event Uefi)) : Prop :=
  Answered (· = [enableRequest base]) (· = [disableRequest base]) t

/-- `DwI2cInit` of the controller at `base` times out. -/
def InitTimedOut (base : UInt64) (t : List (Event Uefi)) : Prop :=
  ∃ slaveAddr timing, (dwI2cInit base slaveAddr timing).Returns t .timeout

/-- An initialisation that times out has used up the limit of its polls. -/
theorem InitTimedOut.length_lt {base : UInt64} {t : List (Event Uefi)} (h : InitTimedOut base t) :
    dwPollLimit < t.length := by
  obtain ⟨slaveAddr, timing, hret⟩ := h
  obtain ⟨t₁, t₂, status, rfl, -, hret⟩ := Prog.returns_bind.mp hret
  split at hret
  · exact absurd (Prog.returns_pure.mp hret).2 (by decide)
  · obtain ⟨_, _, _, rfl, -, h₁⟩ := Prog.returns_bind.mp hret
    obtain ⟨_, _, _, rfl, -, h₂⟩ := Prog.returns_bind.mp h₁
    obtain ⟨_, _, _, rfl, -, h₃⟩ := Prog.returns_bind.mp h₂
    obtain ⟨_, _, _, rfl, -, h₄⟩ := Prog.returns_bind.mp h₃
    obtain ⟨_, _, _, rfl, -, h₅⟩ := Prog.returns_bind.mp h₄
    obtain ⟨t₃, _, _, rfl, henable, h₆⟩ := Prog.returns_bind.mp h₅
    have ht₃ : t₃ = [enableRequest base] := Prog.returns_perform.mp henable
    obtain ⟨t₄, _, done, rfl, hpoll, hend⟩ := Prog.returns_bind.mp h₆
    cases done with
    | true => exact absurd (Prog.returns_pure.mp hend).2 (by decide)
    | false =>
      obtain ⟨vs, hlen, -, rfl⟩ := returns_pollReg_false.mp hpoll
      simp only [ht₃, List.length_append, List.length_singleton, reads, List.length_map]
      omega

section

variable {base : UInt64} {s : List (Event Uefi)} {ev : Event Uefi}

theorem idle_nil : Idle base [] := by
  rintro t₁ t₂ t₃ heq rfl
  have hlen := congrArg List.length heq
  simp only [List.length_nil, List.length_append, List.length_singleton] at hlen
  omega

private theorem noneAfter_enable (hne : ev ≠ enableRequest base) :
    NoneAfter (· = [enableRequest base]) s.length (s ++ [ev]) := by
  refine (noneAfter_length s).concat ?_
  rintro ⟨t₁, t₂, heq, rfl⟩
  exact hne (List.singleton_inj.mp (List.append_inj_right' heq rfl))

theorem Idle.concat (h : Idle base s) (hne : ev ≠ enableRequest base) : Idle base (s ++ [ev]) :=
  h.append (noneAfter_enable hne)

/-- The request of a disable makes a controller idle. -/
theorem idle_disable : Idle base (s ++ [disableRequest base]) :=
  answered_of_reply rfl (noneAfter_enable fun heq ↦
    absurd (UefiOp.mmioWrite32.inj (congrArg Event.op heq)).2 (by decide))

theorem Idle.concat_op {e : UefiOp} (h : Idle base s) (he : ¬RegAccess base (· = dwIcEnable) e)
    (r : e.Ret) : Idle base (s ++ [⟨e, r⟩]) := by
  refine h.concat fun heq ↦ he ?_
  obtain rfl : e = .mmioWrite32 (base + dwIcEnable) dwIcEnableEnable := congrArg Event.op heq
  exact ⟨dwIcEnable, rfl, rfl⟩

end

/-! ## Sets of controllers -/

/-- A set of controllers that grows with the trace. -/
def Growing (P : List (Event Uefi) → UInt64 → Prop) : Prop := ∀ s t base, P s base → P (s ++ t) base

/-- One more controller. -/
def besides (P : List (Event Uefi) → UInt64 → Prop) (base : UInt64) (s : List (Event Uefi))
    (base' : UInt64) : Prop := P s base' ∨ base' = base

/-- Every controller outside of `P` is idle, in a trace in `C`. -/
structure Quiesced (C : List (Event Uefi) → Prop) (P : List (Event Uefi) → UInt64 → Prop)
    (s : List (Event Uefi)) : Prop where
  mem : C s
  idle : ∀ base, IsController base → Idle base s ∨ P s base

/-- The world of the runs that stay in `C`. -/
abbrev observing (C : List (Event Uefi) → Prop) : World Uefi (List (Event Uefi)) :=
  recording (fun _ _ ↦ True) C

section

variable {C : List (Event Uefi) → Prop} {P P' : List (Event Uefi) → UInt64 → Prop}
  {base : UInt64} {s : List (Event Uefi)}

theorem Growing.besides (hP : Growing P) (base : UInt64) : Growing (besides P base) :=
  fun s t base' h ↦ h.imp_left (hP s t base')

theorem Quiesced.mono (h : Quiesced C P s) (hP : ∀ base, IsController base → P s base → P' s base) :
    Quiesced C P' s :=
  ⟨h.mem, fun base hbase ↦ (h.idle base hbase).imp_right (hP base hbase)⟩

/-- What does not access `IC_ENABLE` of any controller enables none. -/
theorem keeps_quiesced (hP : Growing P) :
    (observing C).Keeps (Elsewhere (· = dwIcEnable)) (Quiesced C P) := by
  refine fun e s he h ↦ wp_perform_recording.mpr ⟨trivial, fun r hC ↦ ⟨hC, fun base hbase ↦ ?_⟩⟩
  rcases h.idle base hbase with hidle | hin
  · exact .inl (hidle.concat_op (he base hbase) r)
  · exact .inr (hP s _ base hin)

/-- What accesses the registers of one controller enables no other. -/
theorem keeps_quiesced_regs (hP : Growing P) (hbase : IsController base) :
    (observing C).Keeps (RegAccess base (· < 0x1000)) fun s ↦ Quiesced C P s ∧ P s base := by
  rintro e s he ⟨h, hin⟩
  refine wp_perform_recording.mpr ⟨trivial, fun r hC ↦ ⟨⟨hC, fun base' hbase' ↦ ?_⟩, hP s _ base hin⟩⟩
  rcases h.idle base' hbase' with hidle | hin'
  · by_cases heq : base' = base
    · exact .inr (heq ▸ hP s _ base hin)
    · refine .inl (hidle.concat_op (fun he' ↦ heq ?_) r)
      cases e with
      | mmioRead32 a | mmioWrite32 a v =>
        obtain ⟨off, hoff, rfl⟩ := he
        obtain ⟨off', rfl, heq'⟩ := he'
        exact (register_inj hbase'.1 hbase.1 (by decide) hoff heq'.symm).1
      | _ => exact he.elim
  · exact .inr (hP s _ base' hin')

/-! ## The functions of the master -/

/-- **`DwI2cDisable`** leaves the controller idle, whatever it returns. -/
theorem wp_dwI2cDisable_idle (hP : Growing P) (hbase : IsController base)
    (h : Quiesced C (besides P base) s) :
    (observing C).wp (dwI2cDisable base) (fun _ s' ↦ Quiesced C P s') s := by
  rw [dwI2cDisable, World.wp_bind]
  refine wp_perform_recording.mpr ⟨trivial, fun r hC ↦ ?_⟩
  have hdisabled : Quiesced C P (s ++ [disableRequest base]) := by
    refine ⟨hC, fun base' hbase' ↦ ?_⟩
    rcases h.idle base' hbase' with hidle | hin | rfl
    · refine .inl (hidle.concat fun heq ↦ ?_)
      exact absurd (UefiOp.mmioWrite32.inj (congrArg Event.op heq)).2 (by decide)
    · exact .inr (hP s _ base' hin)
    · exact .inl idle_disable
  have hpoll : (pollReg base dwIcEnableStatus (fun v ↦ v &&& dwIcEnableStatusEn == 0)
      dwPollLimit).Within (Elsewhere (· = dwIcEnable)) fun _ ↦ True := by
    refine (pollReg_within (R := (· = dwIcEnableStatus)) rfl _ _).mono fun e he ↦ ?_
    refine @elsewhere_of_regAccess _ (· = dwIcEnable) _ hbase.1 (fun _ h ↦ ?_) (fun _ h ↦ ?_) e he
    · rw [h]
      decide
    · rw [h]
      decide
  rw [World.wp_bind]
  refine World.wp_mono ((keeps_quiesced hP).wp hpoll hdisabled) fun done s' h' ↦ ?_
  cases done <;> exact h'.2

/-- **`DwI2cInit`** may leave the controller enabled. A failure does so only if it is a timeout. -/
theorem wp_dwI2cInit_idle (hP : Growing P) (hbase : IsController base) (slaveAddr : UInt8)
    (timing : Option DwI2cTiming) (h : Quiesced C (besides P base) s) :
    (observing C).wp (dwI2cInit base slaveAddr timing) (fun status s' ↦
      Quiesced C (besides P base) s' ∧
        (status.isError = true → Quiesced C P s' ∨ EndsIn (InitTimedOut base) s')) s := by
  have hkeeps := keeps_quiesced_regs (C := C) (hP.besides base) hbase
  have hpart : ∀ {α : Type} {p : Prog Uefi α} {Q : α → Prop} {s : List (Event Uefi)},
      p.Within (RegAccess base (· < 0x1000)) Q → Quiesced C (besides P base) s →
      (observing C).wp p (fun _ s' ↦ Quiesced C (besides P base) s') s :=
    fun hp h ↦ World.wp_mono (hkeeps.wp hp ⟨h, .inr rfl⟩) fun _ _ h' ↦ h'.2.1
  have hwr : ∀ {off : UInt64}, off < 0x1000 → ∀ val {s : List (Event Uefi)},
      Quiesced C (besides P base) s → (observing C).wp (regWr base off val)
        (fun _ s' ↦ Quiesced C (besides P base) s') s := fun hoff val _ h ↦
    hpart (regWr_within (R := (· < 0x1000)) hoff val) h
  have hinit : (observing C).wp (dwI2cInit base slaveAddr timing) (fun status s' ↦
      Quiesced C (besides P base) s' ∧
        (status.isError = true → Quiesced C P s' ∨ status = .timeout)) s := by
    rw [dwI2cInit, World.wp_bind]
    refine World.wp_mono (wp_dwI2cDisable_idle hP hbase h) fun status s₁ h₁ ↦ ?_
    have hweak : Quiesced C (besides P base) s₁ := h₁.mono fun _ _ ↦ .inl
    split
    · exact ⟨hweak, fun _ ↦ .inl h₁⟩
    · rw [World.wp_bind]
      refine World.wp_mono (hpart (programTiming_within (fun off hoff ↦ ?_) timing) hweak)
        fun _ s₂ h₂ ↦ ?_
      · exact UInt64.lt_trans (isDwOffset_of_mem_timing hoff) (by decide)
      rw [World.wp_bind]
      refine World.wp_mono (hwr (by decide) _ h₂) fun _ s₃ h₃ ↦ ?_
      rw [World.wp_bind]
      refine World.wp_mono (hwr (by decide) _ h₃) fun _ s₄ h₄ ↦ ?_
      rw [World.wp_bind]
      refine World.wp_mono (hwr (by decide) _ h₄) fun _ s₅ h₅ ↦ ?_
      rw [World.wp_bind]
      refine World.wp_mono (hwr (by decide) _ h₅) fun _ s₆ h₆ ↦ ?_
      rw [World.wp_bind]
      refine World.wp_mono (hwr (by decide) _ h₆) fun _ s₇ h₇ ↦ ?_
      rw [World.wp_bind]
      refine World.wp_mono (hpart (pollReg_within (by decide) _ _) h₇) fun done s₈ h₈ ↦ ?_
      cases done with
      | true => exact ⟨h₈, fun herr ↦ by contradiction⟩
      | false => exact ⟨h₈, fun _ ↦ .inr rfl⟩
  -- what fails behind the disable is the last poll
  refine World.wp_mono (wp_trace hinit h.mem) fun status s' h' ↦ ?_
  obtain ⟨⟨hkept, herr⟩, -, t, rfl, hret⟩ := h'
  refine ⟨hkept, fun hfail ↦ (herr hfail).imp_right fun htimeout ↦ ?_⟩
  rw [htimeout] at hret
  exact ⟨s, t, rfl, slaveAddr, timing, hret⟩

end

end TouchI2c
