import TouchI2c.DwI2c.Footprint
import TouchI2c.Interaction.Recording

/-!
# Disables that time out

A controller whose disable has timed out keeps its old target and timing, so no command may go to it
before `DwI2cInit` has succeeded again. `DwI2cInit` itself gives up when its disable times out.
`DwI2cRecover` does not tell its caller: the transfer returns its own status, and the next one is
made on the controller as it is. So what is shown here rests on transfers that do not end that way.

## Which parts of a trace are disables

A disable that times out is known by its events: the request, and then as many polls of
`IC_ENABLE_STATUS` as the limit allows, all of which show the controller enabled
(`disableTimedOut_iff`). So it ends with such a poll, and no other event can end one. Polls after a
write of another function end no disable either, unless the write was the request itself.

`Untroubled` is the statement that no disable has timed out since a given moment, and it has one
rule for each kind of operation: an operation that reads no `IC_ENABLE_STATUS` keeps it, and the
polls of a disable and of an enable are treated apart. A success of `DwI2cInit` clears whatever has
timed out before.
-/

namespace TouchI2c

open CMemory Interaction

/-! ## Parts of a trace -/

/-- `DwI2cDisable` of the controller at `base` times out. -/
def DisableTimedOut (base : UInt64) (t : List (Event Uefi)) : Prop :=
  (dwI2cDisable base).Returns t .timeout

/-- `DwI2cInit` of the controller at `base` succeeds. -/
def InitSucceeded (base : UInt64) (t : List (Event Uefi)) : Prop :=
  ∃ slaveAddr timing, (dwI2cInit base slaveAddr timing).Returns t .success

/-- A transfer that ends with a disable that times out. -/
def StuckTransfer (t : List (Event Uefi)) : Prop :=
  ∃ base wBuf wLen rBuf rLen r u v, t = u ++ v ∧
    (dwI2cXfer base wBuf wLen rBuf rLen).Returns t r ∧ DisableTimedOut base v

/-- After every disable of the controller that timed out an initialisation has succeeded. -/
def Cleared (base : UInt64) (t : List (Event Uefi)) : Prop :=
  Answered (DisableTimedOut base) (InitSucceeded base) t

/-- An operation that is no command to a controller. -/
def NoCommand (e : UefiOp) : Prop :=
  ∀ base v, IsController base → e ≠ .mmioWrite32 (base + dwIcDataCmd) v

/-- A command goes only to a controller whose disables are cleared. -/
def CommandsCleared (t : List (Event Uefi)) (e : UefiOp) : Prop :=
  ∀ base v, IsController base → e = .mmioWrite32 (base + dwIcDataCmd) v → Cleared base t

/-! ## Registers -/

theorem NoCommand.cleared {e : UefiOp} (h : NoCommand e) (t : List (Event Uefi)) :
    CommandsCleared t e := fun base v hbase heq ↦ absurd heq (h base v hbase)

/-- An access to a register other than `IC_DATA_CMD`. -/
theorem noCommand_of_regAccess {base : UInt64} {R : UInt64 → Prop} (hbase : base % 0x1000 = 0)
    (hR : ∀ off, R off → off < 0x1000 ∧ off ≠ dwIcDataCmd) {e : UefiOp} (h : RegAccess base R e) :
    NoCommand e := by
  rintro base' v ⟨hbase', -⟩ rfl
  obtain ⟨off, hoff, heq⟩ := h
  obtain ⟨hlt, hne⟩ := hR off hoff
  exact hne (register_inj hbase' hbase (by decide) hlt heq).2.symm

theorem noCommand_read (a : UInt64) : NoCommand (.mmioRead32 a) := fun _ _ _ ↦ UefiOp.noConfusion

/-- A write to a register other than `IC_DATA_CMD`. -/
theorem noCommand_write {base off : UInt64} (hbase : IsController base)
    (hoff : off < 0x1000 ∧ off ≠ dwIcDataCmd) (val : UInt32) :
    NoCommand (.mmioWrite32 (base + off) val) :=
  @noCommand_of_regAccess base (fun o ↦ o < 0x1000 ∧ o ≠ dwIcDataCmd) hbase.1 (fun _ h ↦ h)
    (.mmioWrite32 (base + off) val) ⟨off, hoff, rfl⟩

/-! ## Polls -/

/-- Reads of one register. -/
def reads (a : UInt64) (vs : List UInt32) : List (Event Uefi) :=
  vs.map fun v ↦ ⟨.mmioRead32 a, v⟩

theorem reads_append (a : UInt64) (vs : List UInt32) (v : UInt32) :
    reads a (vs ++ [v]) = reads a vs ++ [⟨.mmioRead32 a, v⟩] := List.map_append

theorem returns_pollReg_false {base off : UInt64} {test : UInt32 → Bool} {n : ℕ}
    {t : List (Event Uefi)} : (pollReg base off test n).Returns t false ↔
      ∃ vs : List UInt32, vs.length = n ∧ (∀ v ∈ vs, test v = false) ∧
        t = reads (base + off) vs := by
  induction n generalizing t with
  | zero =>
    rw [pollReg, Prog.pure_eq, Prog.returns_pure]
    constructor
    · rintro ⟨rfl, -⟩
      exact ⟨[], rfl, by simp, rfl⟩
    · rintro ⟨vs, hlen, -, rfl⟩
      rw [List.length_eq_zero_iff.mp hlen]
      exact ⟨rfl, rfl⟩
  | succ n ih =>
    have hone : ∀ {t : List (Event Uefi)} {v : UInt32}, (regRd base off).Returns t v ↔
        t = [⟨.mmioRead32 (base + off), v⟩] := Prog.returns_perform
    rw [pollReg, Prog.returns_bind]
    constructor
    · rintro ⟨t₁, t₂, v, rfl, hread, hrest⟩
      rw [hone.mp hread]
      cases htest : test v with
      | true =>
        rw [htest, if_pos rfl, Prog.pure_eq, Prog.returns_pure] at hrest
        exact absurd hrest.2 (by decide)
      | false =>
        rw [htest, if_neg (by decide)] at hrest
        obtain ⟨vs, hlen, hall, rfl⟩ := ih.mp hrest
        exact ⟨v :: vs, by rw [List.length_cons, hlen], List.forall_mem_cons.mpr ⟨htest, hall⟩, rfl⟩
    · rintro ⟨vs, hlen, hall, rfl⟩
      cases vs with
      | nil => exact absurd hlen (by simp)
      | cons v vs =>
        obtain ⟨htest, hall⟩ := List.forall_mem_cons.mp hall
        refine ⟨[_], reads (base + off) vs, v, rfl, hone.mpr rfl, ?_⟩
        rw [htest, if_neg (by decide)]
        exact ih.mpr ⟨vs, by simpa using hlen, hall, rfl⟩

/-- The request of a disable. -/
def disableRequest (base : UInt64) : Event Uefi := ⟨.mmioWrite32 (base + dwIcEnable) 0, ()⟩

/-- What a disable that times out does. -/
theorem disableTimedOut_iff {base : UInt64} {t : List (Event Uefi)} : DisableTimedOut base t ↔
    ∃ vs : List UInt32, vs.length = dwPollLimit ∧
      (∀ v ∈ vs, (v &&& dwIcEnableStatusEn == 0) = false) ∧
      t = disableRequest base :: reads (base + dwIcEnableStatus) vs := by
  have hone : ∀ {t : List (Event Uefi)} {u : Unit}, (regWr base dwIcEnable 0).Returns t u ↔
      t = [disableRequest base] := Prog.returns_perform
  rw [DisableTimedOut, dwI2cDisable, Prog.returns_bind]
  constructor
  · rintro ⟨t₁, t₂, _, rfl, hwrite, hrest⟩
    rw [hone.mp hwrite]
    obtain ⟨t₃, t₄, done, rfl, hpoll, hend⟩ := Prog.returns_bind.mp hrest
    cases done with
    | true => exact absurd (Prog.returns_pure.mp hend).2 (by decide)
    | false =>
      obtain ⟨rfl, -⟩ := Prog.returns_pure.mp hend
      obtain ⟨vs, hlen, hall, rfl⟩ := returns_pollReg_false.mp hpoll
      exact ⟨vs, hlen, hall, by rw [List.append_nil, List.singleton_append]⟩
  · rintro ⟨vs, hlen, hall, rfl⟩
    refine ⟨[_], _, (), rfl, hone.mpr rfl, Prog.returns_bind.mpr ⟨_, [], false,
      (List.append_nil _).symm, returns_pollReg_false.mpr ⟨vs, hlen, hall, rfl⟩, .refl _⟩⟩

/-! ## Between the ends of disables -/

section

variable {base : UInt64} {n : ℕ} {s t : List (Event Uefi)} {ev : Event Uefi}

/-- A disable that times out ends with a read of `IC_ENABLE_STATUS` that shows the controller
enabled. -/
theorem not_endsIn_disable
    (h : ∀ v, v &&& dwIcEnableStatusEn ≠ 0 → ev ≠ ⟨.mmioRead32 (base + dwIcEnableStatus), v⟩) :
    ¬EndsIn (DisableTimedOut base) (s ++ [ev]) := by
  rintro ⟨t₁, t₂, heq, htimeout⟩
  obtain ⟨vs, hlen, hall, rfl⟩ := disableTimedOut_iff.mp htimeout
  rcases List.eq_nil_or_concat vs with rfl | ⟨us, v, rfl⟩
  · exact absurd hlen (by decide)
  · rw [List.concat_eq_append] at heq hall
    rw [reads_append, ← List.cons_append, ← List.append_assoc] at heq
    have hev := List.append_inj_right' heq rfl
    exact h v (by simpa using hall v (by simp)) (List.singleton_inj.mp hev)

/-- Only reads of `IC_ENABLE_STATUS` end a disable. -/
theorem Cleared.concat_op {e : UefiOp} (h : Cleared base s)
    (he : e ≠ .mmioRead32 (base + dwIcEnableStatus)) (r : e.Ret) : Cleared base (s ++ [⟨e, r⟩]) :=
  h.append ((noneAfter_length s).concat
    (not_endsIn_disable fun _ _ heq ↦ he (congrArg Event.op heq)))

private theorem append_cons_inj {α : Type} {p : α → Prop} {x₁ x₂ z₁ z₂ : List α} {a₁ a₂ : α}
    (heq : x₁ ++ a₁ :: z₁ = x₂ ++ a₂ :: z₂) (h₁ : ∀ z ∈ z₁, p z) (h₂ : ∀ z ∈ z₂, p z)
    (ha₁ : ¬p a₁) (ha₂ : ¬p a₂) : a₁ = a₂ ∧ z₁ = z₂ := by
  rcases List.append_eq_append_iff.mp heq with ⟨u, -, hu⟩ | ⟨u, -, hu⟩
  · cases u with
    | nil => exact List.cons_eq_cons.mp hu
    | cons b u =>
      obtain ⟨-, rfl⟩ := List.cons_eq_cons.mp hu
      exact absurd (h₁ a₂ (by simp)) ha₂
  · cases u with
    | nil =>
      obtain ⟨ha, hz⟩ := List.cons_eq_cons.mp hu
      exact ⟨ha.symm, hz.symm⟩
    | cons b u =>
      obtain ⟨-, rfl⟩ := List.cons_eq_cons.mp hu
      exact absurd (h₂ a₁ (by simp)) ha₁

/-- Polls of `IC_ENABLE_STATUS` after a write end no disable, unless the write was its request and
they used up its limit. -/
theorem not_endsIn_polls {a : UInt64} {w : UInt32} {us : List UInt32}
    (h : a = base + dwIcEnable → w = 0 → us.length < dwPollLimit) :
    ¬EndsIn (DisableTimedOut base)
      (s ++ ⟨.mmioWrite32 a w, ()⟩ :: reads (base + dwIcEnableStatus) us) := by
  rintro ⟨t₁, t₂, heq, htimeout⟩
  obtain ⟨vs, hlen, -, rfl⟩ := disableTimedOut_iff.mp htimeout
  have hreads : ∀ us, ∀ ev ∈ reads (base + dwIcEnableStatus) us,
      ev.op = .mmioRead32 (base + dwIcEnableStatus) := by
    intro us ev hev
    obtain ⟨v, -, rfl⟩ := List.mem_map.mp hev
    rfl
  obtain ⟨hw, hus⟩ := append_cons_inj heq (hreads us) (hreads vs) UefiOp.noConfusion
    UefiOp.noConfusion
  have hop := UefiOp.mmioWrite32.inj (congrArg Event.op hw)
  have hlen' : us.length = vs.length := by
    have := congrArg List.length hus
    simpa only [reads, List.length_map] using this
  have := h hop.1 hop.2
  omega

end

/-! ## The functions of the master -/

/-- No disable of the controller has timed out since `s₀`, in a trace in `C`. -/
structure Untroubled (C : List (Event Uefi) → Prop) (base : UInt64) (s₀ s : List (Event Uefi)) :
    Prop where
  mem : C s
  since : s₀ <+: s
  none : NoneAfter (DisableTimedOut base) s₀.length s

section

variable {C : List (Event Uefi) → Prop} {base : UInt64} {s₀ s : List (Event Uefi)}

theorem Untroubled.refl (h : C s) : Untroubled C base s s :=
  ⟨h, List.prefix_rfl, noneAfter_length s⟩

theorem Untroubled.cleared (h : Untroubled C base s₀ s) (h₀ : Cleared base s₀) :
    Cleared base s := by
  obtain ⟨-, ⟨t, rfl⟩, hnone⟩ := h
  exact h₀.append hnone

theorem Untroubled.concat (h : Untroubled C base s₀ s) {ev : Event Uefi} (hC : C (s ++ [ev]))
    (hends : ¬EndsIn (DisableTimedOut base) (s ++ [ev])) : Untroubled C base s₀ (s ++ [ev]) :=
  ⟨hC, h.since.trans (List.prefix_append s [ev]), h.none.concat hends⟩

theorem Untroubled.wp_op (h : Untroubled C base s₀ s) {e : UefiOp} (he : CommandsCleared s e)
    (hne : e ≠ .mmioRead32 (base + dwIcEnableStatus)) {Q : e.Ret → List (Event Uefi) → Prop}
    (hQ : ∀ r s', Untroubled C base s₀ s' → Q r s') :
    (recording CommandsCleared C).wp (uefi e) Q s := by
  refine wp_op_recording.mpr ⟨he, fun r hC ↦ hQ r _ (h.concat hC ?_)⟩
  exact not_endsIn_disable fun _ _ heq ↦ hne (congrArg Event.op heq)

/-- A read of a register of the controller other than `IC_ENABLE_STATUS`. -/
theorem Untroubled.wp_regRd (h : Untroubled C base s₀ s) {off : UInt64}
    (hoff : off ≠ dwIcEnableStatus) {Q : UInt32 → List (Event Uefi) → Prop}
    (hQ : ∀ v s', Untroubled C base s₀ s' → Q v s') :
    (recording CommandsCleared C).wp (regRd base off) Q s := by
  refine h.wp_op ((noCommand_read _).cleared s) (fun heq ↦ hoff ?_) hQ
  exact UInt64.add_right_inj base |>.mp (UefiOp.mmioRead32.inj heq)

/-- A write to a register of the controller other than `IC_DATA_CMD`. -/
theorem Untroubled.wp_regWr (hbase : IsController base) (h : Untroubled C base s₀ s)
    {off : UInt64} (hoff : off < 0x1000 ∧ off ≠ dwIcDataCmd) (val : UInt32)
    {Q : Unit → List (Event Uefi) → Prop} (hQ : ∀ u s', Untroubled C base s₀ s' → Q u s') :
    (recording CommandsCleared C).wp (regWr base off val) Q s :=
  h.wp_op ((noCommand_write hbase hoff val).cleared s) UefiOp.noConfusion hQ

private theorem wp_disablePolls {us : List UInt32} {k : ℕ} (hlen : us.length + k = dwPollLimit)
    (h : Untroubled C base s₀
      (s ++ disableRequest base :: reads (base + dwIcEnableStatus) us)) :
    (recording CommandsCleared C).wp
      (pollReg base dwIcEnableStatus (fun v ↦ v &&& dwIcEnableStatusEn == 0) k)
      (fun done s' ↦ done = true → Untroubled C base s₀ s')
      (s ++ disableRequest base :: reads (base + dwIcEnableStatus) us) := by
  induction k generalizing us with
  | zero => exact fun hdone ↦ by contradiction
  | succ k ih =>
    rw [pollReg, World.wp_bind]
    refine wp_perform_recording.mpr ⟨(noCommand_read _).cleared _, fun v hC ↦ ?_⟩
    split
    · next hclear =>
      refine fun _ ↦ h.concat hC (not_endsIn_disable fun v' hv' heq ↦ ?_)
      cases heq
      exact hv' (by simpa using hclear)
    · -- the limit is used up by the last poll only
      cases k with
      | zero => exact fun hdone ↦ by contradiction
      | succ k =>
        have hnext : s ++ disableRequest base :: reads (base + dwIcEnableStatus) us ++
            [⟨.mmioRead32 (base + dwIcEnableStatus), v⟩]
            = s ++ disableRequest base :: reads (base + dwIcEnableStatus) (us ++ [v]) := by
          rw [reads_append, List.append_assoc, List.cons_append]
        have hends : ¬EndsIn (DisableTimedOut base)
            (s ++ disableRequest base :: reads (base + dwIcEnableStatus) (us ++ [v])) :=
          not_endsIn_polls fun _ _ ↦ by
            rw [List.length_append, List.length_singleton]
            omega
        rw [← hnext] at hends
        have hkept := h.concat hC hends
        rw [hnext] at hkept ⊢
        refine ih ?_ hkept
        rw [List.length_append, List.length_singleton]
        omega

theorem wp_dwI2cDisable_cleared (hbase : IsController base) (h : Untroubled C base s₀ s) :
    (recording CommandsCleared C).wp (dwI2cDisable base)
      (fun status s' ↦ status = .success ∧ Untroubled C base s₀ s' ∨ status = .timeout) s := by
  rw [dwI2cDisable, World.wp_bind]
  refine wp_perform_recording.mpr
    ⟨(noCommand_write hbase (by decide) _).cleared s, fun u hC ↦ ?_⟩
  have hrequest : Untroubled C base s₀ (s ++ [disableRequest base]) :=
    h.concat hC (not_endsIn_disable fun _ _ ↦ by intro heq; cases heq)
  rw [World.wp_bind]
  refine World.wp_mono (@wp_disablePolls C base s₀ s [] _ (Nat.zero_add _) hrequest)
    fun done s' hdone ↦ ?_
  cases done with
  | true => exact .inl ⟨rfl, hdone rfl⟩
  | false => exact .inr rfl

private theorem wp_enablePolls {us : List UInt32} {k : ℕ}
    (h : Untroubled C base s₀ (s ++ ⟨.mmioWrite32 (base + dwIcEnable) dwIcEnableEnable, ()⟩ ::
      reads (base + dwIcEnableStatus) us)) :
    (recording CommandsCleared C).wp
      (pollReg base dwIcEnableStatus (fun v ↦ v &&& dwIcEnableStatusEn != 0) k)
      (fun _ s' ↦ Untroubled C base s₀ s')
      (s ++ ⟨.mmioWrite32 (base + dwIcEnable) dwIcEnableEnable, ()⟩ ::
        reads (base + dwIcEnableStatus) us) := by
  induction k generalizing us with
  | zero => exact h
  | succ k ih =>
    rw [pollReg, World.wp_bind]
    refine wp_perform_recording.mpr ⟨(noCommand_read _).cleared _, fun v hC ↦ ?_⟩
    have hnext : s ++ ⟨.mmioWrite32 (base + dwIcEnable) dwIcEnableEnable, ()⟩ ::
          reads (base + dwIcEnableStatus) us ++ [⟨.mmioRead32 (base + dwIcEnableStatus), v⟩]
        = s ++ ⟨.mmioWrite32 (base + dwIcEnable) dwIcEnableEnable, ()⟩ ::
          reads (base + dwIcEnableStatus) (us ++ [v]) := by
      rw [reads_append, List.append_assoc, List.cons_append]
    have hends : ¬EndsIn (DisableTimedOut base)
        (s ++ ⟨.mmioWrite32 (base + dwIcEnable) dwIcEnableEnable, ()⟩ ::
          reads (base + dwIcEnableStatus) (us ++ [v])) :=
      not_endsIn_polls fun _ h ↦ absurd h (by decide)
    rw [← hnext] at hends
    have hkept := h.concat hC hends
    rw [hnext] at hkept ⊢
    split
    · exact hkept
    · exact ih hkept

private theorem wp_enable (hbase : IsController base) (h : Untroubled C base s₀ s) {α : Type}
    {f : Bool → Prog Uefi α} {Q : α → List (Event Uefi) → Prop}
    (hf : ∀ done s', Untroubled C base s₀ s' → (recording CommandsCleared C).wp (f done) Q s') :
    (recording CommandsCleared C).wp (do
      regWr base dwIcEnable dwIcEnableEnable
      f (← pollReg base dwIcEnableStatus (fun v ↦ v &&& dwIcEnableStatusEn != 0) dwPollLimit)) Q
      s := by
  rw [World.wp_bind]
  refine wp_perform_recording.mpr
    ⟨(noCommand_write hbase (by decide) _).cleared s, fun u hC ↦ ?_⟩
  have hwritten : Untroubled C base s₀
      (s ++ [⟨.mmioWrite32 (base + dwIcEnable) dwIcEnableEnable, ()⟩]) :=
    h.concat hC (not_endsIn_disable fun _ _ ↦ by intro heq; cases heq)
  rw [World.wp_bind]
  exact World.wp_mono (@wp_enablePolls C base s₀ s [] _ hwritten) hf

private theorem wp_programTiming_cleared (hbase : IsController base) (timing : Option DwI2cTiming)
    (h : Untroubled C base s₀ s) : (recording CommandsCleared C).wp (programTiming base timing)
      (fun _ s' ↦ Untroubled C base s₀ s') s := by
  have hoff : ∀ off ∈ timingOffsets,
      (off < 0x1000 ∧ off ≠ dwIcDataCmd) ∧ off ≠ dwIcEnableStatus := by
    intro off hmem
    simp only [timingOffsets, List.mem_cons, List.not_mem_nil, or_false] at hmem
    rcases hmem with rfl | rfl | rfl | rfl | rfl | rfl <;> decide
  refine World.wp_mono (wp_recording_of_within (J := Untroubled C base s₀)
    (programTiming_within (fun _ h ↦ h) timing) (fun s e h he ↦ ?_) h) fun _ _ h ↦ h.2
  have hcommand := noCommand_of_regAccess hbase.1 (fun off h ↦ (hoff off h).1) he
  refine ⟨hcommand.cleared s, fun r hC ↦ h.concat hC (not_endsIn_disable fun v _ heq ↦ ?_)⟩
  cases heq
  obtain ⟨off, hmem, heq⟩ := he
  exact (hoff off hmem).2 ((UInt64.add_right_inj base).mp heq).symm

/-- **`DwI2cInit`.** Whatever has timed out before, a success clears it. -/
theorem wp_dwI2cInit_cleared (hbase : IsController base) (slaveAddr : UInt8)
    (timing : Option DwI2cTiming) (hs : C s) :
    (recording CommandsCleared C).wp (dwI2cInit base slaveAddr timing)
      (fun status s' ↦ C s' ∧ (status.isError = false → Cleared base s')) s := by
  have hinit : (recording CommandsCleared C).wp (dwI2cInit base slaveAddr timing)
      (fun status s' ↦ status = .success ∧ Untroubled C base s s' ∨ status.isError = true) s := by
    rw [dwI2cInit, World.wp_bind]
    refine World.wp_mono (wp_dwI2cDisable_cleared hbase (.refl hs)) fun status s₁ h₁ ↦ ?_
    rcases h₁ with ⟨rfl, h₁⟩ | rfl
    · have hwrite : ∀ {off : UInt64}, off < 0x1000 ∧ off ≠ dwIcDataCmd → ∀ val {s'},
          Untroubled C base s s' → (recording CommandsCleared C).wp (regWr base off val)
            (fun _ s'' ↦ Untroubled C base s s'') s' :=
        fun hoff val _ h ↦ h.wp_regWr hbase hoff val fun _ _ h' ↦ h'
      rw [if_neg (by decide), World.wp_bind]
      refine World.wp_mono (wp_programTiming_cleared hbase timing h₁) fun _ s₂ h₂ ↦ ?_
      rw [World.wp_bind]
      refine World.wp_mono (hwrite (by decide) _ h₂) fun _ s₃ h₃ ↦ ?_
      rw [World.wp_bind]
      refine World.wp_mono (hwrite (by decide) _ h₃) fun _ s₄ h₄ ↦ ?_
      rw [World.wp_bind]
      refine World.wp_mono (hwrite (by decide) _ h₄) fun _ s₅ h₅ ↦ ?_
      rw [World.wp_bind]
      refine World.wp_mono (hwrite (by decide) _ h₅) fun _ s₆ h₆ ↦ ?_
      refine wp_enable hbase h₆ fun done s₇ h₇ ↦ ?_
      cases done with
      | true => exact .inl ⟨rfl, h₇⟩
      | false => exact .inr rfl
    · exact .inr rfl
  refine World.wp_mono (wp_trace hinit hs) fun status s' h ↦ ?_
  obtain ⟨hend, hC, t, rfl, hret⟩ := h
  refine ⟨hC, fun hok ↦ ?_⟩
  rcases hend with ⟨rfl, hsince⟩ | herr
  · exact answered_of_reply ⟨slaveAddr, timing, hret⟩ hsince.none
  · exact absurd herr (by rw [hok]; decide)

/-- `DwI2cRecover` leaves nothing that has timed out, or ends with a disable that has. -/
theorem wp_dwI2cRecover_cleared (hbase : IsController base) (h : Untroubled C base s₀ s) :
    (recording CommandsCleared C).wp (dwI2cRecover base) (fun _ s' ↦
      Untroubled C base s₀ s' ∨ ∃ v, s' = s ++ v ∧ DisableTimedOut base v) s := by
  rw [dwI2cRecover, World.wp_bind]
  refine World.wp_mono (wp_trace (wp_dwI2cDisable_cleared hbase h) h.mem) fun status s₁ h₁ ↦ ?_
  obtain ⟨hend, -, v, rfl, hret⟩ := h₁
  rcases hend with ⟨rfl, hkept⟩ | rfl
  · rw [if_neg (by decide)]
    refine wp_enable hbase hkept fun done s₂ h₂ ↦ ?_
    rw [World.wp_bind]
    refine h₂.wp_regRd (by decide) fun _ s₃ h₃ ↦ ?_
    rw [World.wp_bind]
    exact h₃.wp_regRd (by decide) fun _ s₄ h₄ ↦ .inl h₄
  · exact .inr ⟨v, rfl, hret⟩

/-- How a transfer ends that started in `s₀`. -/
private def XferEnd (C : List (Event Uefi) → Prop) (base : UInt64) (s₀ s : List (Event Uefi)) :
    Prop :=
  Untroubled C base s₀ s ∨ ∃ u v, s = s₀ ++ u ++ v ∧ DisableTimedOut base v

private theorem wp_recover_end (hbase : IsController base) (h : Untroubled C base s₀ s) :
    (recording CommandsCleared C).wp (dwI2cRecover base) (fun _ s' ↦ XferEnd C base s₀ s') s := by
  refine World.wp_mono (wp_dwI2cRecover_cleared hbase h) fun _ s' h' ↦ ?_
  obtain ⟨u, rfl⟩ := h.since
  rcases h' with h' | ⟨v, rfl, hv⟩
  · exact .inl h'
  · exact .inr ⟨u, v, rfl, hv⟩

private theorem wp_handleAbort_end (hbase : IsController base) (h : Untroubled C base s₀ s) :
    (recording CommandsCleared C).wp (handleAbort base) (fun _ s' ↦ XferEnd C base s₀ s') s := by
  rw [handleAbort, World.wp_bind, classifyAbort, World.wp_bind]
  refine h.wp_regRd (by decide) fun src s₁ h₁ ↦ ?_
  rw [World.wp_bind]
  refine h₁.wp_regRd (by decide) fun _ s₂ h₂ ↦ ?_
  rw [Prog.pure_eq, World.wp_pure]
  split
  · exact .inl h₂
  · rw [if_pos rfl, World.wp_bind]
    exact World.wp_mono (wp_recover_end hbase h₂) fun _ _ h₃ ↦ h₃

private theorem clearedRules {x : XferArgs} (hbase : IsController x.base)
    (h₀ : Cleared x.base s₀) : TransferRules (recording CommandsCleared C) x
      (fun _ _ s ↦ Untroubled C x.base s₀ s) (fun _ _ s ↦ XferEnd C x.base s₀ s) where
  rawIntr h := by
    refine h.wp_regRd (by decide) fun v s₁ h₁ ↦ ?_
    split
    · exact wp_handleAbort_end hbase h₁
    · exact h₁
  status h := h.wp_regRd (by decide) fun _ _ h₁ ↦
    ⟨h₁, fun _ _ ↦ h₁.wp_regRd (by decide) fun _ _ h₂ ↦ h₂⟩
  dataCmd {n got s} h _ _ := by
    refine h.wp_op (fun base' v hbase' heq ↦ ?_) UefiOp.noConfusion fun _ _ h₁ ↦ h₁
    -- the register belongs to one controller only
    obtain ⟨rfl, -⟩ := register_inj hbase.1 hbase'.1 (by decide) (by decide)
      (UefiOp.mmioWrite32.inj heq).1
    exact h.cleared h₀
  recover h := wp_recover_end hbase h
  finish h _ := h.wp_regRd (by decide) fun _ _ h₁ ↦ .inl h₁

/-- **`DwI2cXfer`.** It leaves the disables cleared, where no transfer ends with one that times
out. -/
theorem wp_dwI2cXfer_cleared (hstuck : ∀ s, C s → Avoids StuckTransfer s)
    (hbase : IsController base) (hs : C s) (h : Cleared base s) {wBuf rBuf : Option (List UInt8)}
    {wLen rLen : ℕ} (hbuf : XferBuffers wBuf wLen rBuf rLen) :
    (recording CommandsCleared C).wp (dwI2cXfer base wBuf wLen rBuf rLen)
      (fun r s' ↦ (C s' ∧ Cleared base s') ∧ SameSize rBuf r.2) s := by
  refine World.wp_and_within ?_ (dwI2cXfer_within (fun _ h ↦ h) hbuf)
  by_cases hvalid : xferInvalid wBuf wLen rBuf rLen = true
  · rw [dwI2cXfer, if_pos hvalid]
    exact ⟨hs, h⟩
  have hx : (⟨base, wBuf, wLen, rLen⟩ : XferArgs).Valid rBuf := ⟨hbuf.w, hbuf.r⟩
  have hrules := (clearedRules (C := C) (x := ⟨base, wBuf, wLen, rLen⟩) hbase h)
  have hxfer := hrules.wp_dwI2cXfer hx (by simpa using hvalid)
    ((Untroubled.refl hs).wp_regRd (by decide) fun _ _ h₁ ↦
      h₁.wp_regRd (by decide) fun _ _ h₂ ↦ h₂)
  refine World.wp_mono (wp_trace hxfer hs) fun r s' h' ↦ ?_
  obtain ⟨⟨got, -, hend⟩, hC, t, rfl, hret⟩ := h'
  rcases hend with hkept | ⟨u, v, heq, hv⟩
  · exact ⟨hC, hkept.cleared h⟩
  · rw [List.append_assoc] at heq
    obtain rfl := List.append_cancel_left heq
    exact absurd ⟨base, wBuf, wLen, rBuf, rLen, r, u, v, rfl, hret, hv⟩
      (hstuck _ hC s (u ++ v) [] (by rw [List.append_nil]))

end

end TouchI2c
