import TouchI2c.Bus.Footprint
import TouchI2c.Touch.BringUp

/-!
# Rules for the driver

How the weakest precondition of the driver follows from those of its parts, in any world: programs
over a part of the state, loops over candidates, detection from its passes, and runs of the whole
driver from its dispatches.

## Detection

The loops of detection differ in what they go over, not in how: a candidate that fails leaves what
the next one needs. `ControllerRules` says it for one DesignWare controller, with one property for
each place between its operations: before it is probed, once it is initialised, when it has failed
and when the panel is found. `ProbeRules` says it for the fixed and the swept controllers of all
profiles and for the probe of a MediaTek profile; `DetectRules` are the passes, which follow. So a
property of detection is shown by instantiating the places, and no loop is ever unfolded again.

## Runs

`Dispatches` are the handlers in any order, each from the state the one before has left, and `Run`
an entry and then dispatches. `run_of_returns` makes a run of an entry that is followed by
dispatches in a given order, which is how runs are exhibited.
-/

namespace TouchI2c

open CMemory Interaction

variable {σ α : Type} {W : World Uefi σ} {d : TouchDev} {s : σ}

theorem wpS_onBus {p : Bus α} {Q : α → TouchDev → σ → Prop} :
    W.wpS (onBus p) Q d s ↔ W.wpS p (fun a bus s' ↦ Q a { d with bus := bus } s') d.bus s := by
  unfold onBus
  rw [World.wpS_bind, World.wpS_get, World.wpS_bind, World.wpS_lift]
  rfl

theorem returns_onBus {p : Bus α} {t : List (Event Uefi)} {a : α} {d' : TouchDev} :
    ((onBus p).run d).Returns t (a, d') ↔
      ∃ bus, (p.run d.bus).Returns t (a, bus) ∧ { d with bus := bus } = d' := by
  unfold onBus
  simp only [Prog.returnsS_bind, Prog.returnsS_get, Prog.returnsS_lift, Prog.returnsS_set,
    Prog.returnsS_pure]
  constructor
  · rintro ⟨_, _, _, _, rfl, ⟨rfl, rfl, rfl⟩, t₁, _, ⟨a', bus⟩, _, rfl, ⟨hp, rfl⟩, _, _, _, _, rfl,
      ⟨rfl, rfl⟩, rfl, rfl, rfl⟩
    exact ⟨bus, by simpa using hp, rfl⟩
  · rintro ⟨bus, hp, rfl⟩
    exact ⟨[], t, _, _, rfl, ⟨rfl, rfl, rfl⟩, t, [], (a, bus), _, (List.append_nil t).symm, ⟨hp, rfl⟩,
      [], [], ⟨⟩, _, rfl, ⟨rfl, rfl⟩, rfl, rfl, rfl⟩

theorem wpS_readHidDesc {base : UInt64} {descReg : UInt16}
    {Q : EfiStatus → TouchDev → σ → Prop} :
    W.wpS (readHidDesc base descReg) Q d s ↔ W.wpS (i2cHidReadDescriptor base descReg d.hidDesc)
      (fun r bus s' ↦ Q r.1 { d with bus := bus, hidDesc := r.2 } s') d.bus s := by
  unfold readHidDesc
  rw [World.wpS_bind, World.wpS_get, World.wpS_bind, wpS_onBus]
  rfl

theorem wpS_noteFound {prof : TouchProfile} {base : UInt64} {slaveAddr : UInt8} {status : EfiStatus}
    {Q Q' : TouchDev → σ → Prop}
    (h : if status.isError then Q' d s else Q (TouchDev.found prof base slaveAddr d) s) :
    W.wpS (noteFound prof base slaveAddr status)
      (fun found d' s' ↦ if found then Q d' s' else Q' d' s') d s := by
  unfold noteFound
  split
  · next herr => rwa [if_pos herr] at h
  · next hok => rwa [if_neg hok] at h

/-- A loop over candidates, with an invariant of those that are left. -/
theorem wpS_tryEach_rest {f : α → Touch Bool} {Q : TouchDev → σ → Prop}
    (inv : List α → TouchDev → σ → Prop) {as : List α}
    (hstep : ∀ a as d s, inv (a :: as) d s →
      W.wpS (f a) (fun found d' s' ↦ if found then Q d' s' else inv as d' s') d s)
    (h : inv as d s) :
    W.wpS (tryEach f as) (fun found d' s' ↦ if found then Q d' s' else inv [] d' s') d s := by
  induction as generalizing d s with
  | nil => exact h
  | cons a as ih =>
    rw [tryEach, World.wpS_bind]
    refine World.wpS_mono (hstep a as d s h) fun found d' s' h' ↦ ?_
    cases found with
    | true => exact h'
    | false => exact ih h'

/-- A loop over candidates keeps what a failed one keeps. -/
theorem wpS_tryEach {f : α → Touch Bool} {Q : TouchDev → σ → Prop} (inv : TouchDev → σ → Prop)
    {as : List α} (hstep : ∀ a ∈ as, ∀ d s, inv d s →
      W.wpS (f a) (fun found d' s' ↦ if found then Q d' s' else inv d' s') d s)
    (h : inv d s) :
    W.wpS (tryEach f as) (fun found d' s' ↦ if found then Q d' s' else inv d' s') d s := by
  refine World.wpS_mono (wpS_tryEach_rest (Q := Q)
    (fun rest d s ↦ (∀ a ∈ rest, a ∈ as) ∧ inv d s) (fun a rest d s h ↦ ?_) ⟨fun _ ha ↦ ha, h⟩)
    fun found d' s' h' ↦ ?_
  · obtain ⟨hrest, h⟩ := h
    refine World.wpS_mono (hstep a (hrest a List.mem_cons_self) d s h) fun found d' s' h' ↦ ?_
    cases found with
    | true => exact h'
    | false => exact ⟨fun b hb ↦ hrest b (List.mem_cons_of_mem a hb), h'⟩
  · cases found with
    | true => exact h'
    | false => exact h'.2

/-! ## Probing a DesignWare controller -/

/-- What the probe of the controller at `base` is built from. `Pick` holds when the controller is
chosen, `Present` once it has answered, `Inited a` while it is initialised for the address `a`,
`Done` when an address has been given up, `Left` when the controller has, and `Found` once the
panel is found. -/
structure ControllerRules (W : World Uefi σ) (prof : TouchProfile) (base : UInt64)
    (timing : Option DwI2cTiming) (Pick Present Done Left Found : TouchDev → σ → Prop)
    (Inited : UInt8 → TouchDev → σ → Prop) : Prop where
  present : ∀ {d s}, Pick d s → W.wp (dwI2cControllerPresent base)
    (fun ok s' ↦ if ok then Present d s' else Left d s') s
  init : ∀ {d s} (a : UInt8), Present d s → W.wp (dwI2cInit base a timing)
    (fun status s' ↦ if status.isError then Done d s' else Inited a d s') s
  read : ∀ {d s a} (descReg : UInt16), Inited a d s → W.wpS (readHidDesc base descReg)
    (fun status d' s' ↦ if status.isError then Inited a d' s'
      else Found (TouchDev.found prof base a d') s') d s
  again : ∀ {d s}, Done d s → Present d s
  leave : ∀ {d s}, Done d s → Left d s

namespace ControllerRules

variable {prof : TouchProfile} {base : UInt64} {timing : Option DwI2cTiming}
  {Pick Present Done Left Found : TouchDev → σ → Prop} {Inited : UInt8 → TouchDev → σ → Prop}

/-- Rules that are there only for some controllers. -/
theorem when {Usable : Prop} (rules : Usable →
      ControllerRules W prof base timing Pick Present Done Left Found Inited) :
    ControllerRules W prof base timing (fun d s ↦ Usable ∧ Pick d s)
      (fun d s ↦ Usable ∧ Present d s) (fun d s ↦ Usable ∧ Done d s) Left Found
      (fun a d s ↦ Usable ∧ Inited a d s) where
  present h := by
    refine World.wp_mono ((rules h.1).present h.2) fun ok _ h' ↦ ?_
    cases ok with
    | true => exact ⟨h.1, h'⟩
    | false => exact h'
  init a h := by
    refine World.wp_mono ((rules h.1).init a h.2) fun status _ h' ↦ ?_
    split
    · next herr =>
      rw [if_pos herr] at h'
      exact ⟨h.1, h'⟩
    · next hok =>
      rw [if_neg hok] at h'
      exact ⟨h.1, h'⟩
  read descReg h := by
    refine World.wpS_mono ((rules h.1).read descReg h.2) fun status _ _ h' ↦ ?_
    split
    · next herr =>
      rw [if_pos herr] at h'
      exact ⟨h.1, h'⟩
    · next hok => rwa [if_neg hok] at h'
  again h := ⟨h.1, (rules h.1).again h.2⟩
  leave h := (rules h.1).leave h.2

theorem wpS_dwProbe
    (rules : ControllerRules W prof base timing Pick Present Done Left Found Inited)
    (a : UInt8) (descReg : UInt16) (h : Present d s) :
    W.wpS (dwProbe base a descReg timing) (fun status d' s' ↦
      if status.isError then Done d' s' ∨ Inited a d' s'
      else Found (TouchDev.found prof base a d') s') d s := by
  rw [dwProbe, World.wpS_bind, World.wpS_lift]
  refine World.wp_mono (rules.init a h) fun status s₁ h₁ ↦ ?_
  split
  · next herr =>
    rw [if_pos herr] at h₁
    rw [World.wpS_pure, if_pos herr]
    exact .inl h₁
  · next hok =>
    rw [if_neg hok] at h₁
    refine World.wpS_mono (rules.read descReg h₁) fun status₂ d₂ s₂ h₂ ↦ ?_
    split
    · next herr =>
      rw [if_pos herr] at h₂
      exact .inr h₂
    · next hok =>
      rw [if_neg hok] at h₂
      exact h₂

private theorem wpS_sweepAddr
    (rules : ControllerRules W prof base timing Pick Present Done Left Found Inited)
    (disable : ∀ {a d s}, Inited a d s → W.wp (dwI2cDisable base) (fun _ s' ↦ Done d s') s)
    (a : UInt8) (h : Present d s) :
    W.wpS (sweepAddr prof base timing a)
      (fun found d' s' ↦ if found then Found d' s' else Done d' s') d s := by
  rw [sweepAddr, World.wpS_bind, World.wpS_lift]
  refine World.wp_mono (rules.init a h) fun status s₁ h₁ ↦ ?_
  split
  · next herr =>
    rw [if_pos herr] at h₁
    exact h₁
  · next hok =>
    rw [if_neg hok] at h₁
    have hreg : ∀ descReg ∈ mCandidateDescRegs, ∀ d s, Inited a d s →
        W.wpS (sweepReg prof base a descReg)
          (fun found d' s' ↦ if found then Found d' s' else Inited a d' s') d s := by
      intro descReg _ d₂ s₂ h₂
      rw [sweepReg, World.wpS_bind]
      refine World.wpS_mono (rules.read descReg h₂) fun status₃ d₃ s₃ h₃ ↦ ?_
      unfold noteFound
      split
      · next herr =>
        rw [if_pos herr] at h₃
        exact h₃
      · next hok =>
        rw [if_neg hok] at h₃
        exact h₃
    rw [World.wpS_bind]
    refine World.wpS_mono (wpS_tryEach (Inited a) hreg h₁) fun found d₂ s₂ h₂ ↦ ?_
    cases found with
    | true => exact h₂
    | false =>
      rw [if_neg Bool.false_ne_true, World.wpS_bind, World.wpS_lift]
      exact World.wp_mono (disable h₂) fun _ s₃ h₃ ↦ h₃

theorem wpS_sweepBase
    (rules : ControllerRules W prof base timing Pick Present Done Left Found Inited)
    (disable : ∀ {a d s}, Inited a d s → W.wp (dwI2cDisable base) (fun _ s' ↦ Done d s') s)
    (h : Pick d s) : W.wpS (sweepBase prof (base, timing))
      (fun found d' s' ↦ if found then Found d' s' else Left d' s') d s := by
  rw [sweepBase, World.wpS_bind, World.wpS_lift]
  refine World.wp_mono (rules.present h) fun ok s₁ h₁ ↦ ?_
  split
  · next hok =>
    rw [if_pos hok] at h₁
    -- the list of addresses is not empty, so at least one has been given up at the end
    have haddrs : mCandidateAddrs = nvtkI2cAddr :: mCandidateAddrs.tail := rfl
    rw [haddrs, tryEach, World.wpS_bind]
    refine World.wpS_mono (rules.wpS_sweepAddr disable _ h₁) fun found d₂ s₂ h₂ ↦ ?_
    cases found with
    | true => exact h₂
    | false =>
      have hrest : ∀ a ∈ mCandidateAddrs.tail, ∀ d s, Done d s →
          W.wpS (sweepAddr prof base timing a)
            (fun found d' s' ↦ if found then Found d' s' else Done d' s') d s :=
        fun a _ d₃ s₃ h₃ ↦ rules.wpS_sweepAddr disable a (rules.again h₃)
      refine World.wpS_mono (wpS_tryEach Done hrest h₂) fun found d₃ s₃ h₃ ↦ ?_
      cases found with
      | true => exact h₃
      | false => exact rules.leave h₃
  · next hno =>
    rw [if_neg hno] at h₁
    exact h₁

end ControllerRules

section

variable {prof : TouchProfile} {Left Found : TouchDev → σ → Prop}
  {Pick Present Done : UInt64 → Option DwI2cTiming → TouchDev → σ → Prop}
  {Inited : UInt64 → Option DwI2cTiming → UInt8 → TouchDev → σ → Prop}
  (rules : ∀ base timing, ControllerRules W prof base timing (Pick base timing)
    (Present base timing) (Done base timing) Left Found (Inited base timing))

include rules

/-- The pass of an Intel profile. -/
theorem wpS_intelPass
    (prepare : W.wp (intelLpssPrepareI2c prof.pciDid prof.pciDev prof.pciFunc) (fun r s' ↦
      if r.1.isError then Left d s'
      else Pick r.2.1 (if r.2.2 then some gDwTimingIntelLpss133M else none) d s') s)
    (giveUp : ∀ {base timing a d s}, Inited base timing a d s → Left d s) :
    W.wpS (intelPass prof) (fun found d' s' ↦ if found then Found d' s' else Left d' s') d s := by
  rw [intelPass, World.wpS_bind, World.wpS_lift]
  refine World.wp_mono prepare fun r s₁ h₁ ↦ ?_
  obtain ⟨status, base, fresh⟩ := r
  dsimp only at h₁ ⊢
  split
  · next herr =>
    rw [if_pos herr] at h₁
    exact h₁
  · next hok =>
    rw [if_neg hok] at h₁
    have hrules := rules base (if fresh then some gDwTimingIntelLpss133M else none)
    rw [World.wpS_bind, World.wpS_lift]
    refine World.wp_mono (hrules.present h₁) fun ok s₂ h₂ ↦ ?_
    split
    · next hpresent =>
      rw [if_pos hpresent] at h₂
      rw [World.wpS_bind]
      refine World.wpS_mono (hrules.wpS_dwProbe _ _ h₂) fun status₃ d₃ s₃ h₃ ↦ ?_
      unfold noteFound
      split
      · next herr =>
        rw [if_pos herr] at h₃
        exact h₃.elim hrules.leave giveUp
      · next hok =>
        rw [if_neg hok] at h₃
        exact h₃
    · next habsent =>
      rw [if_neg habsent] at h₂
      exact h₂

/-- The pass of a fixed AMD profile. -/
theorem wpS_amdPass {p : ℕ}
    (power : W.wp (fchAoacPowerOnI2c prof.aoacDev) (fun r s' ↦ if r.1.isError then Left d s'
      else Pick prof.i2cBase.toUInt64 (if r.2 then some gDwTimingAmdFch150M else none) d s') s)
    (kick : ∀ {timing status d s}, (Done prof.i2cBase.toUInt64 timing d s ∨
      Inited prof.i2cBase.toUInt64 timing prof.slaveAddr d s) → W.wpS (kickOnce p prof status)
        (fun _ d' s' ↦ Left d' s') d s) :
    W.wpS (amdPass p prof) (fun found d' s' ↦ if found then Found d' s' else Left d' s') d s := by
  rw [amdPass, World.wpS_bind, World.wpS_lift]
  refine World.wp_mono power fun r s₁ h₁ ↦ ?_
  obtain ⟨status, fresh⟩ := r
  dsimp only at h₁ ⊢
  split
  · next herr =>
    rw [if_pos herr] at h₁
    exact h₁
  · next hok =>
    rw [if_neg hok] at h₁
    have hrules := rules prof.i2cBase.toUInt64 (if fresh then some gDwTimingAmdFch150M else none)
    rw [World.wpS_bind, World.wpS_lift]
    refine World.wp_mono (hrules.present h₁) fun ok s₂ h₂ ↦ ?_
    split
    · next hpresent =>
      rw [if_pos hpresent] at h₂
      rw [World.wpS_bind]
      refine World.wpS_mono (hrules.wpS_dwProbe _ _ h₂) fun status₃ d₃ s₃ h₃ ↦ ?_
      unfold noteFound
      split
      · next herr =>
        rw [if_pos herr] at h₃
        rw [World.wpS_bind, World.wpS_pure, if_neg Bool.false_ne_true, World.wpS_bind]
        exact World.wpS_mono (kick h₃) fun _ d₄ s₄ h₄ ↦ h₄
      · next hok =>
        rw [if_neg hok] at h₃
        exact h₃
    · next habsent =>
      rw [if_neg habsent] at h₂
      exact h₂

end

/-! ## Detection -/

/-- What detection is built from. `Pass p` holds before the pass of profile `p`, `Sweep p` before
its sweep, `Idle` once nothing has been found, and `Found` once the panel is. Only the passes of
the profiles that match the identity `dmi` are run. -/
structure StagedRules (W : World Uefi σ) (dmi : DmiIdentity) (Pass Sweep : ℕ → TouchDev → σ → Prop)
    (Idle Found : TouchDev → σ → Prop) : Prop where
  passIdentity : ∀ {p d s}, Pass p d s → d.dmi = dmi
  sweepIdentity : ∀ {p d s}, Sweep p d s → d.dmi = dmi
  passOther : ∀ {p d s}, Pass p d s → Pass (p + 1) d s
  sweepOther : ∀ {p prof}, mProfiles[p]? = some prof →
    touchProfileMatchesIdentity dmi prof = false → ∀ {d s}, Sweep p d s → Sweep (p + 1) d s
  profile : ∀ {p prof}, mProfiles[p]? = some prof → touchProfileMatchesIdentity dmi prof = true →
    ∀ {d s}, Pass p d s → W.wpS (profilePass p prof)
      (fun found d' s' ↦ if found then Found d' s' else Pass (p + 1) d' s') d s
  mtkSweep : ∀ {p prof}, mProfiles[p]? = some prof → touchProfileMatchesIdentity dmi prof = true →
    prof.platform = .mtkI2c → ∀ {d s}, Sweep p d s →
      W.wpS (tryEach (mtkSweepOne prof) mCandidates)
        (fun found d' s' ↦ if found then Found d' s' else Sweep (p + 1) d' s') d s
  dwSweep : ∀ {p prof}, mProfiles[p]? = some prof → touchProfileMatchesIdentity dmi prof = true →
    prof.platform ≠ .mtkI2c → ∀ {d s}, Sweep p d s →
      W.wpS (do tryEach (sweepBase prof) (← sweepTargets prof))
        (fun found d' s' ↦ if found then Found d' s' else Sweep (p + 1) d' s') d s
  turn : ∀ {d s}, Pass mProfiles.length d s → Sweep 0 d s
  unmatched : (∀ prof ∈ mProfiles, touchProfileMatchesIdentity dmi prof = false) →
    ∀ {d s}, Pass mProfiles.length d s → Idle d s
  swept : ∀ {d s}, Sweep mProfiles.length d s → Idle d s

namespace StagedRules

variable {dmi : DmiIdentity} {Pass Sweep : ℕ → TouchDev → σ → Prop} {Idle Found : TouchDev → σ → Prop}
  {p : ℕ} {prof : TouchProfile} {profs : List TouchProfile}

private theorem getElem?_of_drop (hprofs : mProfiles.drop p = prof :: profs) :
    mProfiles[p]? = some prof ∧ mProfiles.drop (p + 1) = profs := by
  constructor
  · rw [← List.head?_drop, hprofs, List.head?_cons]
  · rw [← List.tail_drop, hprofs, List.tail_cons]

private theorem wpS_profilePasses (rules : StagedRules W dmi Pass Sweep Idle Found)
    {matched : Bool} (hp : p ≤ mProfiles.length) (hprofs : mProfiles.drop p = profs)
    (h : Pass p d s) (hmatched : matched = false →
      ∀ prof ∈ mProfiles.take p, touchProfileMatchesIdentity dmi prof = false) :
    W.wpS (profilePasses p matched profs) (fun r d' s' ↦
      (r = none → Found d' s') ∧ (∀ matched', r = some matched' → Pass mProfiles.length d' s' ∧
        (matched' = false → ∀ prof ∈ mProfiles, touchProfileMatchesIdentity dmi prof = false)))
      d s := by
  induction profs generalizing p matched d s with
  | nil =>
    obtain rfl : p = mProfiles.length := Nat.le_antisymm hp (List.drop_eq_nil_iff.mp hprofs)
    rw [List.take_length] at hmatched
    refine ⟨(fun h ↦ by contradiction), fun matched' heq ↦ ⟨h, ?_⟩⟩
    rwa [← Option.some.inj heq]
  | cons prof profs ih =>
    obtain ⟨hprof, hrest⟩ := getElem?_of_drop hprofs
    have hlt : p < mProfiles.length := (List.getElem?_eq_some_iff.mp hprof).1
    rw [profilePasses, World.wpS_bind, World.wpS_get, rules.passIdentity h]
    split
    · next hmatch =>
      rw [World.wpS_bind]
      refine World.wpS_mono (rules.profile hprof hmatch h) fun found d' s' h' ↦ ?_
      cases found with
      | true => exact ⟨fun _ ↦ h', fun _ heq ↦ by contradiction⟩
      | false => exact ih hlt hrest h' fun heq ↦ by contradiction
    · next hother =>
      refine ih hlt hrest (rules.passOther h) fun heq prof' hmem ↦ ?_
      rw [List.take_add_one, hprof, Option.toList_some, List.mem_append, List.mem_singleton] at hmem
      rcases hmem with hmem | rfl
      · exact hmatched heq prof' hmem
      · simpa using hother

private theorem wpS_sweepPass (rules : StagedRules W dmi Pass Sweep Idle Found)
    (hprof : mProfiles[p]? = some prof) (h : Sweep p d s) : W.wpS (sweepPass prof)
      (fun found d' s' ↦ if found then Found d' s' else Sweep (p + 1) d' s') d s := by
  rw [sweepPass, World.wpS_bind, World.wpS_get, rules.sweepIdentity h]
  split
  · next hmatch =>
    have hdw := fun hplatform ↦ rules.dwSweep hprof hmatch hplatform h
    cases hplatform : prof.platform with
    | mtkI2c => exact rules.mtkSweep hprof hmatch hplatform h
    | amdFch => exact hdw (by rw [hplatform]; decide)
    | intelLpss => exact hdw (by rw [hplatform]; decide)
  · next hother => exact rules.sweepOther hprof (by simpa using hother) h

/-- **The rule of detection.** Without a matching profile it ends at once. -/
theorem wpS_touchDetect (rules : StagedRules W dmi Pass Sweep Idle Found)
    (h : Pass 0 { d with bus := { d.bus with mKind := .designWare } } s) :
    W.wpS touchDetect (fun status d' s' ↦ if status.isError then Idle d' s' else Found d' s')
      d s := by
  rw [touchDetect, World.wpS_bind, wpS_onBus, i2cBusSelectDesignWare, World.wpS_modify,
    World.wpS_bind]
  refine World.wpS_mono (rules.wpS_profilePasses (Nat.zero_le _) rfl h
    fun _ _ hmem ↦ absurd hmem List.not_mem_nil) fun r d₁ s₁ h₁ ↦ ?_
  obtain ⟨hfound, hpass⟩ := h₁
  cases r with
  | none => exact hfound rfl
  | some matched =>
    obtain ⟨h₁, hnone⟩ := hpass matched rfl
    cases matched with
    | false => exact rules.unmatched (hnone rfl) h₁
    | true =>
      rw [World.wpS_bind]
      refine World.wpS_mono (wpS_tryEach_rest (Q := Found)
        (fun profs d s ↦ ∃ p ≤ mProfiles.length, mProfiles.drop p = profs ∧ Sweep p d s)
        (fun prof profs d s h ↦ ?_) ⟨0, Nat.zero_le _, rfl, rules.turn h₁⟩) fun found d₂ s₂ h₂ ↦ ?_
      · obtain ⟨p, -, hprofs, h⟩ := h
        obtain ⟨hprof, hrest⟩ := getElem?_of_drop hprofs
        refine World.wpS_mono (rules.wpS_sweepPass hprof h) fun found d' s' h' ↦ ?_
        cases found with
        | true => exact h'
        | false => exact ⟨p + 1, (List.getElem?_eq_some_iff.mp hprof).1, hrest, h'⟩
      · cases found with
        | true => exact h₂
        | false =>
          obtain ⟨p, hp, hnil, h₂⟩ := h₂
          obtain rfl : p = mProfiles.length := Nat.le_antisymm hp (List.drop_eq_nil_iff.mp hnil)
          exact rules.swept h₂

end StagedRules

/-- What detection is built from when `Idle` holds between all passes. -/
structure DetectRules (W : World Uefi σ) (dmi : DmiIdentity) (Idle Found : TouchDev → σ → Prop) :
    Prop where
  identity : ∀ {d s}, Idle d s → d.dmi = dmi
  profile : ∀ {p prof}, mProfiles[p]? = some prof → touchProfileMatchesIdentity dmi prof = true →
    ∀ {d s}, Idle d s → W.wpS (profilePass p prof)
      (fun found d' s' ↦ if found then Found d' s' else Idle d' s') d s
  mtkSweep : ∀ {prof}, prof ∈ mProfiles → touchProfileMatchesIdentity dmi prof = true →
    prof.platform = .mtkI2c → ∀ {candidate}, candidate ∈ mCandidates → ∀ {d s}, Idle d s →
      W.wpS (mtkSweepOne prof candidate)
        (fun found d' s' ↦ if found then Found d' s' else Idle d' s') d s
  dwSweep : ∀ {prof}, prof ∈ mProfiles → touchProfileMatchesIdentity dmi prof = true →
    prof.platform ≠ .mtkI2c → ∀ {d s}, Idle d s →
      W.wpS (do tryEach (sweepBase prof) (← sweepTargets prof))
        (fun found d' s' ↦ if found then Found d' s' else Idle d' s') d s

namespace DetectRules

variable {dmi : DmiIdentity} {Idle Found : TouchDev → σ → Prop}

private theorem staged (rules : DetectRules W dmi Idle Found) :
    StagedRules W dmi (fun _ ↦ Idle) (fun _ ↦ Idle) Idle Found where
  passIdentity := rules.identity
  sweepIdentity := rules.identity
  passOther h := h
  sweepOther _ _ _ _ h := h
  profile hprof hmatch _ _ h := rules.profile hprof hmatch h
  mtkSweep hprof hmatch hplatform _ _ h := wpS_tryEach Idle (fun _ hc _ _ h ↦
    rules.mtkSweep (List.mem_of_getElem? hprof) hmatch hplatform hc h) h
  dwSweep hprof hmatch hplatform _ _ h :=
    rules.dwSweep (List.mem_of_getElem? hprof) hmatch hplatform h
  turn h := h
  unmatched _ _ _ h := h
  swept h := h

/-- **The rule of detection.** -/
theorem wpS_touchDetect (rules : DetectRules W dmi Idle Found)
    (h : Idle { d with bus := { d.bus with mKind := .designWare } } s) :
    W.wpS touchDetect (fun status d' s' ↦ if status.isError then Idle d' s' else Found d' s')
      d s := rules.staged.wpS_touchDetect h

end DetectRules

/-! ## Detection with one invariant -/

/-- What detection is built from, but for the pass of a fixed AMD profile, when one property `Idle`
holds wherever no controller is initialised. Every controller that is probed is at a base in
`Usable`. -/
structure PassRules (W : World Uefi σ) (dmi : DmiIdentity) (Usable : UInt64 → Prop)
    (Idle Found : TouchDev → σ → Prop) (Inited : UInt64 → UInt8 → TouchDev → σ → Prop) :
    Prop where
  identity : ∀ {d s}, Idle d s → d.dmi = dmi
  fixed : ∀ {prof}, prof ∈ mProfiles → prof.platform ≠ .mtkI2c → prof.i2cBase ≠ 0 →
    Usable prof.i2cBase.toUInt64
  sweep : ∀ {base}, base ∈ mSweepBases → Usable base.toUInt64
  controller : ∀ {prof}, prof ∈ mProfiles → touchProfileMatchesIdentity dmi prof = true →
    prof.platform ≠ .mtkI2c → ∀ {base}, Usable base → ∀ timing,
      ControllerRules W prof base timing Idle Idle Idle Idle Found (Inited base)
  disable : ∀ {base a d s}, Usable base → Inited base a d s →
    W.wp (dwI2cDisable base) (fun _ s' ↦ Idle d s') s
  giveUp : ∀ {base a d s}, Inited base a d s → Idle d s
  power : ∀ {d s} (dev : UInt8), Idle d s →
    W.wp (fchAoacPowerOnI2c dev) (fun _ s' ↦ Idle d s') s
  lpss : ∀ {prof}, prof ∈ mProfiles → touchProfileMatchesIdentity dmi prof = true →
    prof.platform = .intelLpss → ∀ {d s}, Idle d s →
      W.wp (intelLpssPrepareI2c prof.pciDid prof.pciDev prof.pciFunc)
        (fun r s' ↦ Idle d s' ∧ (r.1.isError = false → Usable r.2.1)) s
  mtk : ∀ {prof}, prof ∈ mProfiles → touchProfileMatchesIdentity dmi prof = true →
    prof.platform = .mtkI2c → ∀ {d s} (slaveAddr : UInt8) (descReg : UInt16), Idle d s →
      W.wpS (touchMtkProbe prof slaveAddr descReg) (fun status d' s' ↦
        if status.isError then Idle d' s'
        else Found (TouchDev.found prof prof.i2cBase.toUInt64 slaveAddr d') s') d s

/-- What detection is built from when any profile may kick its reset line. -/
structure ProbeRules (W : World Uefi σ) (dmi : DmiIdentity) (Usable : UInt64 → Prop)
    (Idle Found : TouchDev → σ → Prop) (Inited : UInt64 → UInt8 → TouchDev → σ → Prop) : Prop
    extends PassRules W dmi Usable Idle Found Inited where
  kick : ∀ {p prof}, mProfiles[p]? = some prof → touchProfileMatchesIdentity dmi prof = true →
    ∀ {d s} (status : EfiStatus), Idle d s →
      W.wpS (kickOnce p prof status) (fun _ d' s' ↦ Idle d' s') d s

section

variable {dmi : DmiIdentity} {Usable : UInt64 → Prop} {Idle Found : TouchDev → σ → Prop}
  {Inited : UInt64 → UInt8 → TouchDev → σ → Prop} {prof : TouchProfile}

namespace PassRules

private theorem wp_sweepPowerOn (rules : PassRules W dmi Usable Idle Found Inited)
    (h : Idle d s) (devs : List UInt8) : W.wp (sweepPowerOn devs) (fun _ s' ↦ Idle d s') s := by
  induction devs generalizing s with
  | nil => exact h
  | cons dev devs ih =>
    rw [sweepPowerOn, World.wp_bind]
    refine World.wp_mono (rules.power dev h) fun r s₁ h₁ ↦ ?_
    rw [World.wp_bind]
    exact World.wp_mono (ih h₁) fun _ _ h₂ ↦ h₂

private theorem wp_sweepTargets (rules : PassRules W dmi Usable Idle Found Inited)
    (hprof : prof ∈ mProfiles) (hmatch : touchProfileMatchesIdentity dmi prof = true)
    (hplatform : prof.platform ≠ .mtkI2c) (h : Idle d s) :
    W.wp (sweepTargets prof)
      (fun targets s' ↦ Idle d s' ∧ ∀ target ∈ targets, Usable target.1) s := by
  unfold sweepTargets
  cases hp : prof.platform with
  | intelLpss =>
    dsimp only
    rw [World.wp_bind]
    refine World.wp_mono (rules.lpss hprof hmatch hp h) fun r s₁ h₁ ↦ ?_
    obtain ⟨status, base, fresh⟩ := r
    dsimp only
    split
    · exact ⟨h₁.1, fun _ htarget ↦ absurd htarget List.not_mem_nil⟩
    · next hok =>
      refine ⟨h₁.1, fun target htarget ↦ ?_⟩
      obtain rfl := List.mem_singleton.mp htarget
      exact h₁.2 (by simpa using hok)
  | mtkI2c => exact absurd hp hplatform
  | amdFch =>
    dsimp only
    split
    · next hbase =>
      refine ⟨h, fun target htarget ↦ ?_⟩
      obtain rfl := List.mem_singleton.mp htarget
      exact rules.fixed hprof hplatform (by simpa using hbase)
    · rw [World.wp_bind]
      refine World.wp_mono (rules.wp_sweepPowerOn h sweepTiles) fun fresh s₁ h₁ ↦
        ⟨h₁, fun target htarget ↦ ?_⟩
      obtain ⟨⟨base, b⟩, hmem, rfl⟩ := List.mem_map.mp htarget
      exact rules.sweep (List.fst_mem_of_mem_zipIdx hmem)

private theorem controllerRules (rules : PassRules W dmi Usable Idle Found Inited)
    (hprof : prof ∈ mProfiles) (hmatch : touchProfileMatchesIdentity dmi prof = true)
    (hplatform : prof.platform ≠ .mtkI2c) (base : UInt64) (timing : Option DwI2cTiming) :
    ControllerRules W prof base timing (fun d s ↦ Usable base ∧ Idle d s)
      (fun d s ↦ Usable base ∧ Idle d s) (fun d s ↦ Usable base ∧ Idle d s) Idle Found
      (fun a d s ↦ Usable base ∧ Inited base a d s) :=
  .when fun husable ↦ rules.controller hprof hmatch hplatform husable timing

/-- The passes of detection, from those of the fixed AMD profiles. -/
theorem detectRules (rules : PassRules W dmi Usable Idle Found Inited)
    (amd : ∀ {p prof}, mProfiles[p]? = some prof → touchProfileMatchesIdentity dmi prof = true →
      prof.platform = .amdFch → prof.i2cBase ≠ 0 → ∀ {d s}, Idle d s → W.wpS (amdPass p prof)
        (fun found d' s' ↦ if found then Found d' s' else Idle d' s') d s) :
    DetectRules W dmi Idle Found where
  identity := rules.identity
  profile {p prof} hp hmatch d s h := by
    have hprof : prof ∈ mProfiles := List.mem_of_getElem? hp
    unfold profilePass
    cases hplatform : prof.platform with
    | intelLpss =>
      have hcontroller := rules.controllerRules hprof hmatch (by rw [hplatform]; decide)
      refine wpS_intelPass hcontroller (World.wp_mono
        (rules.lpss hprof hmatch hplatform h) fun r _ h₁ ↦ ?_) fun h₁ ↦ rules.giveUp h₁.2
      split
      · exact h₁.1
      · next hok => exact ⟨h₁.2 (by simpa using hok), h₁.1⟩
    | mtkI2c =>
      dsimp only
      rw [mtkPass, World.wpS_bind]
      exact World.wpS_mono (rules.mtk hprof hmatch hplatform _ _ h) fun _ _ _ ↦ wpS_noteFound
    | amdFch =>
      dsimp only
      split
      · exact h
      · next hbase => exact amd hp hmatch hplatform (by simpa using hbase) h
  mtkSweep {prof} hprof hmatch hplatform candidate _ d s h := by
    rw [mtkSweepOne]
    split
    · exact h
    · rw [World.wpS_bind]
      exact World.wpS_mono (rules.mtk hprof hmatch hplatform _ _ h) fun _ _ _ ↦ wpS_noteFound
  dwSweep {prof} hprof hmatch hplatform d s h := by
    rw [World.wpS_bind, World.wpS_lift]
    refine World.wp_mono (rules.wp_sweepTargets hprof hmatch hplatform h) fun targets s₁ h₁ ↦
      wpS_tryEach Idle (fun target htarget d s h ↦ ?_) h₁.1
    have husable := h₁.2 target htarget
    exact (rules.controller hprof hmatch hplatform husable target.2).wpS_sweepBase
      (rules.disable husable) h

end PassRules

theorem ProbeRules.detectRules (rules : ProbeRules W dmi Usable Idle Found Inited) :
    DetectRules W dmi Idle Found :=
  rules.toPassRules.detectRules fun {p prof} hp hmatch hplatform hbase {d s} h ↦ by
    have hprof : prof ∈ mProfiles := List.mem_of_getElem? hp
    have hplatform' : prof.platform ≠ .mtkI2c := by rw [hplatform]; decide
    refine wpS_amdPass (rules.controllerRules hprof hmatch hplatform') (World.wp_mono
      (rules.power _ h) fun r _ h₁ ↦ ?_) fun h₁ ↦ rules.kick hp hmatch _ (h₁.elim And.right
        fun h₂ ↦ rules.giveUp h₂.2)
    split
    · exact h₁
    · exact ⟨rules.fixed hprof hplatform' hbase, h₁⟩

end

/-! ## Runs of the driver -/

/-- A step of a run: the state before it, what was dispatched, and what happened. -/
structure Step where
  before : TouchDev
  dispatch : Dispatch
  trace : List (Event Uefi)

/-- The driver goes from one state to another by any dispatches in any order. -/
inductive Dispatches : TouchDev → List Step → TouchDev → Prop
  | nil (d : TouchDev) : Dispatches d [] d
  | snoc {d d' d'' : TouchDev} {steps : List Step} (h : Dispatches d steps d') (e : Dispatch)
      {t : List (Event Uefi)} (hstep : ((touchDispatch e).run d').Returns t ((), d'')) :
      Dispatches d (steps ++ [⟨d', e, t⟩]) d''

/-- A run of the driver: its entry, which performs `t₀`, and then any dispatches. It leaves the
state `d`. -/
def Run (entry : Touch Unit) (t₀ : List (Event Uefi)) (steps : List Step) (d : TouchDev) : Prop :=
  ∃ d₀, (entry.run {}).Returns t₀ ((), d₀) ∧ Dispatches d₀ steps d

/-- Dispatches one after the other. -/
def touchDispatches : List Dispatch → Touch Unit
  | [] => return ()
  | call :: calls => do
    touchDispatch call
    touchDispatches calls

private theorem dispatches_of_returns {calls : List Dispatch} {d₀ d d' : TouchDev}
    {before : List Step} {t : List (Event Uefi)} (hbefore : Dispatches d₀ before d)
    (h : ((touchDispatches calls).run d).Returns t ((), d')) :
    ∃ steps, t = steps.flatMap Step.trace ∧ steps.map Step.dispatch = calls ∧
      Dispatches d₀ (before ++ steps) d' := by
  induction calls generalizing before d t with
  | nil =>
    obtain ⟨rfl, -, rfl⟩ := Prog.returnsS_pure.mp h
    exact ⟨[], rfl, rfl, by rwa [List.append_nil]⟩
  | cons call calls ih =>
    obtain ⟨t₁, t₂, _, d₁, rfl, hcall, hrest⟩ := Prog.returnsS_bind.mp h
    obtain ⟨steps, rfl, hmap, hsteps⟩ := ih (hbefore.snoc call hcall) hrest
    refine ⟨⟨d, call, t₁⟩ :: steps, rfl, ?_, ?_⟩
    · rw [List.map_cons, hmap]
    · rwa [List.append_assoc, List.singleton_append] at hsteps

/-- An entry that is followed by dispatches is a run of them. -/
theorem run_of_returns {entry : Touch Unit} {calls : List Dispatch} {d : TouchDev}
    {t : List (Event Uefi)}
    (h : ((do entry; touchDispatches calls).run {}).Returns t ((), d)) :
    ∃ t₀ steps, t = t₀ ++ steps.flatMap Step.trace ∧ steps.map Step.dispatch = calls ∧
      Run entry t₀ steps d := by
  obtain ⟨t₀, t', _, d₀, rfl, hentry, hrest⟩ := Prog.returnsS_bind.mp h
  obtain ⟨steps, rfl, hmap, hsteps⟩ := dispatches_of_returns (.nil d₀) hrest
  exact ⟨t₀, steps, rfl, hmap, d₀, hentry, hsteps⟩

end TouchI2c
