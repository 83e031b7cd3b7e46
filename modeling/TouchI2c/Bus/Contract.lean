import TouchI2c.Bus.Outcome

/-!
# One contract for two masters

`DwI2cXfer` and `MtkI2cXfer` on a bus with the same outcome. The header of the MediaTek master
promises the contract of the other one, and both report every outcome alike but one: when the device
refuses a written byte, the DesignWare master reports `EFI_DEVICE_ERROR` and the MediaTek master
`EFI_NO_RESPONSE`, which its callers take for an empty address.

## Runs of both

Each side has been proved for all runs. That the two disagree on something also takes a run of each,
so both controllers are shown never to leave the driver without an answer. A DesignWare controller
has a step to take or is settled, and the steps that change something leave less to do; a settled
one answers every read. A MediaTek transaction completes unless the bus is stuck, and the receive
buffer can hold what was read.

## The equivalence

With both statuses determined by the outcome, honouring the same contract is a comparison of two
tables. Within the limit of the MediaTek master both refuse the same arguments, the empty transfers.
-/

namespace TouchI2c

open CMemory Interaction

/-! ## The DesignWare controller answers -/

namespace DwBus

variable {o : BusOutcome} {wLen rLen : ℕ} {b b' : DwBus}

/-- How much the controller has left to do. -/
def todo (o : BusOutcome) (wLen rLen : ℕ) (b : DwBus) : ℕ :=
  2 * (o.progress wLen rLen - b.done) + (!b.stopped).toNat + (!b.aborted).toNat

/-- A step that changes something leaves less to do. -/
theorem Step.todo_lt (hstep : Step o wLen rLen b b') (hne : b' ≠ b) :
    b'.todo o wLen rLen < b.todo o wLen rLen := by
  cases hstep with
  | execute hqueued hlimit =>
    unfold todo
    dsimp only
    omega
  | stop hacked hdone =>
    have hunset : b.stopped = false := by
      by_contra hset
      exact hne (by rw [Bool.not_eq_false] at hset; rw [← hset])
    simp [todo, hunset]
  | abort hfails hdone hqueued =>
    have hunset : b.aborted = false := by
      by_contra hset
      exact hne (by rw [Bool.not_eq_false] at hset; rw [← hset])
    simp [todo, hunset]

theorem exists_settled (b : DwBus) :
    ∃ b', Relation.ReflTransGen (Step o wLen rLen) b b' ∧ b'.Settled o wLen rLen := by
  induction htodo : b.todo o wLen rLen using Nat.strong_induction_on generalizing b with
  | h n ih =>
    by_cases hsettled : b.Settled o wLen rLen
    · exact ⟨b, .refl, hsettled⟩
    · unfold Settled at hsettled
      push Not at hsettled
      obtain ⟨b₁, hstep, hne⟩ := hsettled
      obtain ⟨b₂, hpath, hb₂⟩ := ih _ (htodo ▸ hstep.todo_lt hne) b₁ rfl
      exact ⟨b₂, .head hstep hpath, hb₂⟩

/-- No more bytes have gone over the bus than the outcome allows. -/
def Bounded (o : BusOutcome) (wLen rLen : ℕ) (b : DwBus) : Prop := b.done ≤ o.progress wLen rLen

theorem Bounded.step (h : b.Bounded o wLen rLen) (hstep : Step o wLen rLen b b') :
    b'.Bounded o wLen rLen := by
  cases hstep with
  | execute hqueued hlimit => exact hlimit
  | stop => exact h
  | abort => exact h

theorem exists_status (p q : Prop) : ∃ r : UInt32, r &&& dwIcStatusTfnf ≠ 0 ∧
    (r &&& dwIcStatusRfne ≠ 0 ↔ p) ∧ (r &&& dwIcStatusMstActivity ≠ 0 ↔ q) := by
  by_cases hp : p <;> by_cases hq : q
  · exact ⟨dwIcStatusTfnf ||| dwIcStatusRfne ||| dwIcStatusMstActivity, by decide,
      iff_of_true (by decide) hp, iff_of_true (by decide) hq⟩
  · exact ⟨dwIcStatusTfnf ||| dwIcStatusRfne, by decide,
      iff_of_true (by decide) hp, iff_of_false (by decide) hq⟩
  · exact ⟨dwIcStatusTfnf ||| dwIcStatusMstActivity, by decide,
      iff_of_false (by decide) hp, iff_of_true (by decide) hq⟩
  · exact ⟨dwIcStatusTfnf, by decide, iff_of_false (by decide) hp, iff_of_false (by decide) hq⟩

theorem exists_flag (bit : UInt32) (hbit : bit ≠ 0) (p : Prop) :
    ∃ r : UInt32, r &&& bit ≠ 0 ↔ p := by
  by_cases hp : p
  · exact ⟨bit, iff_of_true (by rwa [UInt32.and_self]) hp⟩
  · exact ⟨0, iff_of_false (by rw [UInt32.zero_and]; exact fun h ↦ h rfl) hp⟩

theorem Settled.exists_reads (h : b.Settled o wLen rLen) (hbounded : b.Bounded o wLen rLen)
    (hposs : o.Possible wLen rLen) (off : UInt64) :
    ∃ r b', Reads o wLen rLen b off r b' ∧ b'.Bounded o wLen rLen := by
  by_cases hraw : off = dwIcRawIntrStat
  · obtain ⟨r, hr⟩ := exists_flag dwIcIntrTxAbrt (by decide) (b.aborted = true)
    refine ⟨r, b, ?_, hbounded⟩
    rw [Reads, if_pos hraw]
    exact ⟨hr, .inl ⟨.inr h, rfl⟩⟩
  by_cases hstatus : off = dwIcStatus
  · obtain ⟨r, htfnf, hrfne, hactivity⟩ :=
      exists_status (wLen + b.popped < b.done) (0 < b.queued ∧ b.stopped = false)
    refine ⟨r, b, ?_, hbounded⟩
    rw [Reads, if_neg hraw, if_pos hstatus]
    exact ⟨fun _ _ ↦ htfnf, hrfne, hactivity, rfl⟩
  by_cases hdata : off = dwIcDataCmd
  · have hbyte : ∃ r, ∀ data, o = .acked data → wLen + b.popped < b.done →
        data[b.popped]? = some (dataByte r) := by
      cases o with
      | acked data =>
        by_cases hnext : wLen + b.popped < b.done
        · have hlen : data.length = rLen := hposs
          have hdone : b.done ≤ wLen + rLen := hbounded
          have hin : b.popped < data.length := by omega
          refine ⟨data[b.popped].toUInt32, fun data' ho _ ↦ ?_⟩
          obtain rfl := BusOutcome.acked.inj ho
          rw [List.getElem?_eq_getElem hin, dataByte, UInt32.toUInt8_and, UInt8.toUInt8_toUInt32]
          exact congrArg some UInt8.and_neg_one.symm
        · exact ⟨0, fun _ _ h ↦ absurd h hnext⟩
      | _ => exact ⟨0, fun _ ho ↦ by contradiction⟩
    obtain ⟨r, hr⟩ := hbyte
    refine ⟨r, { b with popped := b.popped + 1, lag := 0 }, ?_, hbounded⟩
    rw [Reads, if_neg hraw, if_neg hstatus, if_pos hdata]
    exact ⟨hr, rfl⟩
  by_cases hsource : off = dwIcTxAbrtSource
  · obtain ⟨r, hr⟩ := exists_flag dwIcAbrt7bAddrNoack (by decide) o.AddressRefused
    refine ⟨r, b, ?_, hbounded⟩
    rw [Reads, if_neg hraw, if_neg hstatus, if_neg hdata, if_pos hsource]
    exact ⟨fun _ ↦ hr, rfl⟩
  by_cases hclear : off = dwIcClrTxAbrt
  · refine ⟨0, { b with aborted := false }, ?_, hbounded⟩
    rw [Reads, if_neg hraw, if_neg hstatus, if_neg hdata, if_neg hsource, if_pos hclear]
  · refine ⟨0, b, ?_, hbounded⟩
    rw [Reads, if_neg hraw, if_neg hstatus, if_neg hdata, if_neg hsource, if_neg hclear]

/-- Whatever the driver does, the controller has an answer. -/
theorem live (hposs : o.Possible wLen rLen) (base : UInt64) :
    ((dwBus o wLen rLen).world base).Live (Bounded o wLen rLen) := by
  intro b e hb
  obtain ⟨b₁, hdrift, hsettled⟩ := @exists_settled o wLen rLen b
  have hstable : ((dwBus o wLen rLen).world base).Stable (Bounded o wLen rLen) :=
    Device.stable fun _ _ h hs ↦ h.step hs
  have hb₁ := hstable b b₁ hb hdrift
  have hret := UefiOp.nonempty_ret e
  cases e with
  | mmioRead32 a =>
    obtain ⟨r, b₂, hreads, hb₂⟩ := hsettled.exists_reads hb₁ hposs (a - base)
    exact ⟨b₁, r, b₂, hdrift, hreads, hb₂⟩
  | mmioWrite32 a v =>
    by_cases hdata : a - base = dwIcDataCmd
    · refine ⟨b₁, (), { b₁ with queued := b₁.queued + 1, lag := 0 }, hdrift, ?_, hb₁⟩
      change Writes _ _ v _
      rw [Writes, if_pos hdata]
    · refine ⟨b₁, (), b₁, hdrift, ?_, hb₁⟩
      change Writes _ _ v _
      rw [Writes, if_neg hdata]
  | _ =>
    obtain ⟨r⟩ := hret
    exact ⟨b₁, r, b₁, hdrift, rfl, hb₁⟩

end DwBus

/-! ## The MediaTek controller answers -/

namespace MtkBus

variable {o : BusOutcome} {wLen rLen : ℕ} {unmaskedOnly : Bool} {base dmaBase : UInt64}
  {m m' : MtkBus}

/-- A controller that is running has raised what a transaction raises. -/
def Sound (o : BusOutcome) (m : MtkBus) : Prop :=
  m.running = true → m.raised = 0 ∨ m.raised = o.mtkError ∨ m.raised &&& mtkCompletion ≠ 0

/-- A transaction completes unless the bus is stuck. -/
theorem Sound.exists_complete (h : m.Sound o) :
    ∃ m', Relation.ReflTransGen (Step o wLen rLen unmaskedOnly) m m' ∧ m'.Sound o ∧
      (¬o.Stuck → m'.running = true → m'.raised &&& mtkCompletion ≠ 0) := by
  by_cases hdone : ¬o.Stuck → m.running = true → m.raised &&& mtkCompletion ≠ 0
  · exact ⟨m, .refl, h, hdone⟩
  push Not at hdone
  obtain ⟨hstuck, hrunning, hopen⟩ := hdone
  -- what completes a transaction that has reported its error
  have hcomp : CompletesWith wLen rLen mtkI2cTransacComp := .inl rfl
  have hcomplete : ∀ m₁ : MtkBus, m₁.running = true → m₁.raised = o.mtkError →
      ∃ m', Step o wLen rLen unmaskedOnly m₁ m' ∧ m'.raised &&& mtkCompletion ≠ 0 :=
    fun m₁ hrunning₁ hraised ↦ ⟨_, .complete hrunning₁ hstuck hraised hcomp, hcomp.shows⟩
  rcases h hrunning with hraised | hraised | hraised
  · obtain ⟨m₂, hstep, hshows⟩ := hcomplete { m with
      raised := o.mtkError, latched := m.latched ||| m.latch unmaskedOnly o.mtkError } hrunning rfl
    exact ⟨m₂, .head (.error hrunning hraised) (.single hstep), fun _ ↦ .inr (.inr hshows),
      fun _ _ ↦ hshows⟩
  · obtain ⟨m₂, hstep, hshows⟩ := hcomplete m hrunning hraised
    exact ⟨m₂, .single hstep, fun _ ↦ .inr (.inr hshows), fun _ _ ↦ hshows⟩
  · exact absurd hopen hraised

theorem Sound.written (h : m.Sound o) (off : UInt64) (val : UInt16) :
    (m.written off val).Sound o := by
  unfold MtkBus.written
  split
  · exact h
  split
  · exact h
  split
  · split
    · exact Bool.noConfusion
    · exact fun _ ↦ .inl rfl
  split
  · exact Bool.noConfusion
  · exact h

theorem Sound.dmaWritten (h : m.Sound o) (off : UInt64) (val : UInt32) :
    (m.dmaWritten off val).Sound o := by
  unfold MtkBus.dmaWritten
  split
  · exact h
  split
  · exact h
  split <;> exact h

theorem exists_holds (o : BusOutcome) (m : MtkBus) (phys : UInt64) (n : ℕ) :
    ∃ bytes : Filled n, m.Holds o phys n bytes.1 := by
  cases o with
  | acked data =>
    have hlen : (data.take n ++ List.replicate (n - (data.take n).length) 0).length = n := by
      rw [List.length_append, List.length_replicate, List.length_take]
      omega
    refine ⟨⟨_, hlen⟩, fun data' ho _ _ _ _ ↦ ?_⟩
    obtain rfl := BusOutcome.acked.inj ho
    exact List.prefix_append _ _
  | _ => exact ⟨⟨List.replicate n 0, List.length_replicate⟩, fun _ ho ↦ by contradiction⟩

/-- Whatever the driver does, the controller has an answer. -/
theorem live : (mtkBus o wLen rLen unmaskedOnly base dmaBase).Live (Sound o) := by
  intro m e hm
  obtain ⟨m₁, hdrift, hm₁, hdone⟩ := @Sound.exists_complete o wLen rLen unmaskedOnly m hm
  have hret := UefiOp.nonempty_ret e
  cases e with
  | mmioRead16 a =>
    exact ⟨m₁, m₁.latched, m₁, hdrift, ⟨rfl, fun _ ↦ ⟨rfl, fun hstuck hrunning _ ↦
      hdone hstuck hrunning⟩⟩, hm₁⟩
  | mmioWrite16 a val => exact ⟨m₁, (), m₁.written (a - base) val, hdrift, rfl, hm₁.written _ _⟩
  | mmioWrite32 a val =>
    exact ⟨m₁, (), m₁.dmaWritten (a - dmaBase) val, hdrift, rfl, hm₁.dmaWritten _ _⟩
  | stall us => exact ⟨m₁, (), { m₁ with waited := m₁.waited + us }, hdrift, rfl, hm₁⟩
  | loadDma phys n =>
    obtain ⟨bytes, hbytes⟩ := exists_holds o m₁ phys n
    exact ⟨m₁, bytes, m₁, hdrift, ⟨rfl, hbytes⟩, hm₁⟩
  | _ =>
    obtain ⟨r⟩ := hret
    exact ⟨m₁, r, m₁, hdrift, rfl, hm₁⟩

end MtkBus

/-! ## The contract -/

/-- An instance that is ready for a transfer, as `MtkI2cInit` leaves it. -/
structure MtkI2c.Ready (c : MtkI2c) : Prop where
  initialized : c.initialized = true
  txBuf : c.txBuf ≠ 0
  rxBuf : c.rxBuf ≠ 0
  rxPhys : c.rxPhys = c.rxBuf

/-- Every run of `DwI2cXfer` and every run of `MtkI2cXfer` on a bus with the outcome `o` return the
same status and, on success, the same contents of `RBuf`. -/
def SameContract (o : BusOutcome) (dwBase : UInt64) (c : MtkI2c) (unmaskedOnly : Bool)
    (wBuf : Option (List UInt8)) (wLen : ℕ) (rBuf : Option (List UInt8)) (rLen : ℕ) : Prop :=
  ∀ stale b m c' m' r r', m.running = false →
    ((dwBus o wLen rLen).world dwBase).Runs (dwI2cXfer dwBase wBuf wLen rBuf rLen)
      (.idle stale) r b →
    (mtkBus o wLen rLen unmaskedOnly c.base c.dmaBase).Runs
      ((mtkI2cXfer wBuf wLen rBuf rLen).run c) m (r', c') m' →
    r.1 = r'.1 ∧ (r.1 = .success → r.2 = r'.2)

section

variable {o : BusOutcome} {dwBase : UInt64} {c : MtkI2c} {unmaskedOnly : Bool}
  {wBuf rBuf : Option (List UInt8)} {wLen rLen : ℕ}

/-- The arguments that are refused, given buffers: an empty transfer. -/
private theorem xferInvalid_iff (hbuf : XferBuffers wBuf wLen rBuf rLen) :
    xferInvalid wBuf wLen rBuf rLen = true ↔ wLen = 0 ∧ rLen = 0 := by
  have hw : ¬(0 < wLen ∧ wBuf = none) := by
    rintro ⟨hpos, rfl⟩
    exact absurd (Nat.lt_of_lt_of_le hpos hbuf.w) (lt_irrefl 0)
  have hr : ¬(0 < rLen ∧ rBuf = none) := by
    rintro ⟨hpos, rfl⟩
    exact absurd (Nat.lt_of_lt_of_le hpos hbuf.r) (lt_irrefl 0)
  simp only [xferInvalid, Bool.or_eq_true, Bool.and_eq_true, beq_iff_eq, decide_eq_true_iff,
    Option.isNone_iff_eq_none, hw, hr, or_false]

/-- Within the limit of the MediaTek master both refuse the same arguments. -/
private theorem mtkXferInvalid_eq (hw : wLen ≤ mtkI2cMaxXfer) (hr : rLen ≤ mtkI2cMaxXfer) :
    mtkXferInvalid wBuf wLen rBuf rLen = xferInvalid wBuf wLen rBuf rLen := by
  simp [mtkXferInvalid, xferInvalid, Nat.not_lt.mpr hw, Nat.not_lt.mpr hr]

private theorem sameContract_of_empty (hw : wLen ≤ mtkI2cMaxXfer) (hr : rLen ≤ mtkI2cMaxXfer)
    (hc : c.Ready) (hempty : xferInvalid wBuf wLen rBuf rLen = true) :
    SameContract o dwBase c unmaskedOnly wBuf wLen rBuf rLen := by
  rintro stale b m c' m' r r' - ⟨t, hret, hpath⟩ ⟨t', hret', hpath'⟩
  have hdw : ((dwBus o wLen rLen).world dwBase).wp (dwI2cXfer dwBase wBuf wLen rBuf rLen)
      (fun r _ ↦ r.1 = .invalidParameter) (.idle stale) := by
    unfold dwI2cXfer
    rw [if_pos hempty]
    exact rfl
  have hmtk : (mtkBus o wLen rLen unmaskedOnly c.base c.dmaBase).wpS
      (mtkI2cXfer wBuf wLen rBuf rLen) (fun r _ _ ↦ r.1 = .invalidParameter) c m := by
    have hready : ¬(!c.initialized || c.txBuf == 0 || c.rxBuf == 0) = true := by
      simp [hc.initialized, hc.txBuf, hc.rxBuf]
    unfold mtkI2cXfer
    rw [World.wpS_bind, World.wpS_get, if_neg hready, if_pos (by rw [mtkXferInvalid_eq hw hr, hempty])]
    exact rfl
  have hstatus := World.wp_returns hdw hret hpath
  have hstatus' := World.returns_of_wpS hmtk hret' hpath'
  exact ⟨hstatus.trans hstatus'.symm, fun hsuccess ↦ by rw [hstatus] at hsuccess; contradiction⟩

variable (hbuf : XferBuffers wBuf wLen rBuf rLen)
  (hvalid : xferInvalid wBuf wLen rBuf rLen = false) (hw : wLen ≤ mtkI2cMaxXfer)
  (hr : rLen ≤ mtkI2cMaxXfer) (hposs : o.Possible wLen rLen) (hc : c.Ready)

include hbuf hvalid hw hr hposs hc

private theorem wpS_mtkI2cXfer_ready {m : MtkBus} (hidle : m.running = false) :
    (mtkBus o wLen rLen unmaskedOnly c.base c.dmaBase).wpS (mtkI2cXfer wBuf wLen rBuf rLen)
      (fun r _ _ ↦ r.1 = o.mtkStatus ∧ ∀ data, o = .acked data → r.2 = stored rBuf data) c m :=
  wpS_mtkI2cXfer_outcome rfl rfl hc.initialized hc.txBuf hc.rxBuf hc.rxPhys hbuf
    ((mtkXferInvalid_eq hw hr).trans hvalid) hposs hidle

/-- Masters that make the same of an outcome honour the same contract. -/
private theorem sameContract_of_status (hstatus : o.dwStatus = o.mtkStatus) :
    SameContract o dwBase c unmaskedOnly wBuf wLen rBuf rLen := by
  rintro stale b m c' m' r r' hidle ⟨t, hret, hpath⟩ ⟨t', hret', hpath'⟩
  obtain ⟨hdw, hdata⟩ := World.wp_returns (wp_dwI2cXfer_outcome hbuf hvalid hposs stale) hret hpath
  obtain ⟨hmtk, hdata'⟩ := World.returns_of_wpS
    (wpS_mtkI2cXfer_ready hbuf hvalid hw hr hposs hc hidle) hret' hpath'
  refine ⟨hdw.trans (hstatus.trans hmtk.symm), fun hsuccess ↦ ?_⟩
  rw [hdw] at hsuccess
  cases o with
  | acked data => rw [hdata data rfl, hdata' data rfl]
  | addressNak repeated => contradiction
  | dataNak j => contradiction
  | arbitrationLost i => contradiction
  | stuck i => contradiction

/-- Each master has a run on a bus with the outcome, and reports it. -/
private theorem exists_runs_xfer : ∃ r b r' c' m',
    ((dwBus o wLen rLen).world dwBase).Runs (dwI2cXfer dwBase wBuf wLen rBuf rLen)
      (.idle false) r b ∧
    (mtkBus o wLen rLen unmaskedOnly c.base c.dmaBase).Runs
      ((mtkI2cXfer wBuf wLen rBuf rLen).run c) ⟨false, 0, 0, 0, 0, 0, 0, 0⟩ (r', c') m' ∧
    r.1 = o.dwStatus ∧ r'.1 = o.mtkStatus ∧ ∀ data, o = .acked data → r.2 = stored rBuf data := by
  have hdw : ((dwBus o wLen rLen).world dwBase).wp (dwI2cXfer dwBase wBuf wLen rBuf rLen) _ _ :=
    wp_dwI2cXfer_outcome hbuf hvalid hposs false
  have hmtk : (mtkBus o wLen rLen unmaskedOnly c.base c.dmaBase).wpS
      (mtkI2cXfer wBuf wLen rBuf rLen) _ c ⟨false, 0, 0, 0, 0, 0, 0, 0⟩ :=
    wpS_mtkI2cXfer_ready hbuf hvalid hw hr hposs hc rfl
  obtain ⟨r, b, hrun⟩ := World.exists_runs (DwBus.live hposs dwBase) hdw (Nat.zero_le _)
  obtain ⟨⟨r', c'⟩, m', hrun'⟩ := World.exists_runs MtkBus.live hmtk Bool.noConfusion
  refine ⟨r, b, r', c', m', hrun, hrun', ?_⟩
  obtain ⟨t, hret, hpath⟩ := hrun
  obtain ⟨t', hret', hpath'⟩ := hrun'
  have hreports := World.wp_returns hdw hret hpath
  exact ⟨hreports.1, (World.returns_of_wpS hmtk hret' hpath').1, hreports.2⟩

/-- Where both honour the same contract they make the same of the outcome. -/
private theorem status_of_sameContract
    (h : SameContract o dwBase c unmaskedOnly wBuf wLen rBuf rLen) : o.dwStatus = o.mtkStatus := by
  obtain ⟨r, b, r', c', m', hrun, hrun', hdw, hmtk, -⟩ :=
    exists_runs_xfer hbuf hvalid hw hr hposs hc
  rw [← hdw, (h _ _ _ _ _ _ _ rfl hrun hrun').1, hmtk]

end

/-- **One contract, but for a refused byte**: `DwI2cXfer` and `MtkI2cXfer` report an outcome alike,
and on success return the same bytes, exactly if the outcome is no NAK of a written byte. -/
theorem sameContract_iff {o : BusOutcome} {dwBase : UInt64} {c : MtkI2c} {unmaskedOnly : Bool}
    {wBuf rBuf : Option (List UInt8)} {wLen rLen : ℕ} (hbuf : XferBuffers wBuf wLen rBuf rLen)
    (hw : wLen ≤ mtkI2cMaxXfer) (hr : rLen ≤ mtkI2cMaxXfer) (hposs : o.Possible wLen rLen)
    (hc : c.Ready) :
    SameContract o dwBase c unmaskedOnly wBuf wLen rBuf rLen ↔ ∀ j, o ≠ .dataNak j := by
  cases hinvalid : xferInvalid wBuf wLen rBuf rLen with
  | true =>
    obtain ⟨rfl, rfl⟩ := (xferInvalid_iff hbuf).mp hinvalid
    refine iff_of_true (sameContract_of_empty hw hr hc hinvalid) fun j ho ↦ ?_
    subst ho
    exact Nat.not_lt_zero j hposs
  | false =>
    constructor
    · rintro h j rfl
      have hstatus := status_of_sameContract hbuf hinvalid hw hr hposs hc h
      contradiction
    · intro hother
      refine sameContract_of_status hbuf hinvalid hw hr hposs hc ?_
      cases o with
      | dataNak j => exact absurd rfl (hother j)
      | acked data => rfl
      | addressNak repeated => rfl
      | arbitrationLost i => rfl
      | stuck i => rfl

/-- An instance after `MtkI2cInit`. -/
def readyMtkI2c : MtkI2c :=
  { base := 0x16BA0000, dmaBase := 0x16AA0000, slaveAddr := 0x41, mapped := true,
    initialized := true, txBuf := 0x80000000, rxBuf := 0x80001000, txPhys := 0x80000000,
    rxPhys := 0x80001000 }

theorem readyMtkI2c_ready : readyMtkI2c.Ready := ⟨rfl, by decide, by decide, rfl⟩

/-- Both masters read the same two bytes after a register number. -/
theorem sameContract_registerRead : ∃ r b r' c' m',
    ((dwBus (.acked [0x1E, 0x00]) 2 2).world 0xFEDC5000).Runs
      (dwI2cXfer 0xFEDC5000 (some [0x01, 0x00]) 2 (some [0, 0]) 2) (.idle false) r b ∧
    (mtkBus (.acked [0x1E, 0x00]) 2 2 true readyMtkI2c.base readyMtkI2c.dmaBase).Runs
      ((mtkI2cXfer (some [0x01, 0x00]) 2 (some [0, 0]) 2).run readyMtkI2c)
      ⟨false, 0, 0, 0, 0, 0, 0, 0⟩ (r', c') m' ∧
    r = (.success, some [0x1E, 0x00]) ∧ r' = r := by
  have hbuf : XferBuffers (some [0x01, 0x00]) 2 (some [0, 0]) 2 := ⟨le_rfl, le_rfl⟩
  have hposs : (BusOutcome.acked [0x1E, 0x00]).Possible 2 2 := rfl
  obtain ⟨r, b, r', c', m', hrun, hrun', hstatus, -, hbytes⟩ := exists_runs_xfer hbuf rfl
    (by decide) (by decide) hposs readyMtkI2c_ready
  have hsame : r.1 = r'.1 ∧ (r.1 = .success → r.2 = r'.2) :=
    (sameContract_iff hbuf (by decide) (by decide) hposs readyMtkI2c_ready).mpr
      (fun _ ↦ BusOutcome.noConfusion) _ _ _ _ _ _ _ rfl hrun hrun'
  exact ⟨r, b, r', c', m', hrun, hrun', Prod.ext hstatus (hbytes _ rfl),
    Prod.ext hsame.1.symm (hsame.2 hstatus).symm⟩

/-- A device that refuses the only byte of a command. -/
theorem not_sameContract_refusedByte :
    ¬SameContract (.dataNak 0) 0xFEDC5000 readyMtkI2c false (some [0x08]) 1 none 0 := by
  intro h
  have hbuf : XferBuffers (some [0x08]) 1 none 0 := ⟨le_rfl, le_rfl⟩
  have hposs : (BusOutcome.dataNak 0).Possible 1 0 := Nat.one_pos
  have hstatus := status_of_sameContract hbuf rfl (by decide) (by decide) hposs
    readyMtkI2c_ready h
  contradiction

end TouchI2c
