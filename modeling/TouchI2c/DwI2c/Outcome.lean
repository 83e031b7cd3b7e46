import TouchI2c.DwI2c.Footprint
import TouchI2c.DwI2c.Device

/-!
# The outcome of a transfer on the DesignWare controller

What becomes of a transfer on the bus is decided by the other parties: everything may be
acknowledged, an address or a byte refused, the bus lost or stuck. `BusOutcome` is such a decision,
and `dwBus` a controller that reports it: through `TX_ABRT` and its source register, and by
`MST_ACTIVITY` for as long as the outcome is open. It may take its time, but not more than the
driver waits for, unless the bus is stuck.

## The invariant

`DwBus.InXfer` says how far the controller is in the stream and what the driver has seen of it. A
transfer that fails does not reach its end, so its controller latches an abort before; a controller
that has caught up without an abort has executed everything. With nothing queued in a pass a settled
controller has a byte, so a pass without progress is never answered by a controller that owes one.

## The wait for the STOP

The outcome is reported before `MST_ACTIVITY` reads clear. So a controller that shows idle has seen
the whole transfer acknowledged, and the status of the wait is the one the outcome calls for. On a
stuck bus neither is ever reported, and every poll of the driver uses up its limit.
-/

namespace TouchI2c

open CMemory Interaction

/-! ## Outcomes -/

/-- What becomes of a transfer on the bus. -/
inductive BusOutcome where
  /-- Everything is acknowledged and these bytes are read. -/
  | acked (data : List UInt8)
  /-- Nobody acknowledges the address, of the first START or of the repeated one. -/
  | addressNak (repeated : Bool)
  /-- The device refuses the written byte `j`. -/
  | dataNak (j : ℕ)
  /-- Another master takes the bus after `i` bytes. -/
  | arbitrationLost (i : ℕ)
  /-- Nothing happens any more after `i` bytes; after the last one the STOP never ends. -/
  | stuck (i : ℕ)

namespace BusOutcome

/-- The outcomes of a transfer that writes `wLen` bytes and reads `rLen`. -/
def Possible (wLen rLen : ℕ) : BusOutcome → Prop
  | acked data => data.length = rLen
  | addressNak repeated => repeated = true → 0 < wLen ∧ 0 < rLen
  | dataNak j => j < wLen
  | arbitrationLost i => i < wLen + rLen
  | stuck i => i ≤ wLen + rLen

/-- How many bytes go over the bus. -/
def progress (wLen rLen : ℕ) : BusOutcome → ℕ
  | acked _ => wLen + rLen
  | addressNak repeated => if repeated then wLen else 0
  | dataNak j => j
  | arbitrationLost i => i
  | stuck i => i

/-- The transfer is aborted. -/
def Fails : BusOutcome → Prop
  | addressNak _ | dataNak _ | arbitrationLost _ => True
  | _ => False

/-- Nobody acknowledges an address. -/
def AddressRefused : BusOutcome → Prop
  | addressNak _ => True
  | _ => False

/-- The transfer never completes. -/
def Stuck : BusOutcome → Prop
  | stuck _ => True
  | _ => False

/-- What `DwI2cXfer` makes of an outcome. -/
def dwStatus : BusOutcome → EfiStatus
  | acked _ => .success
  | addressNak _ => .noResponse
  | dataNak _ | arbitrationLost _ => .deviceError
  | stuck _ => .timeout

variable {o : BusOutcome} {wLen rLen : ℕ}

theorem Possible.progress_lt (h : o.Possible wLen rLen) (hfails : o.Fails)
    (hpos : 0 < wLen + rLen) : o.progress wLen rLen < wLen + rLen := by
  cases o with
  | acked data => exact hfails.elim
  | addressNak repeated =>
    cases repeated with
    | false => exact hpos
    | true =>
      have hboth := h rfl
      change wLen < wLen + rLen
      omega
  | dataNak j => exact Nat.lt_add_right rLen h
  | arbitrationLost i => exact h
  | stuck i => exact hfails.elim

end BusOutcome

/-! ## The controller -/

/-- The controller during one transfer. -/
structure DwBus where
  /-- Commands queued. -/
  queued : ℕ
  /-- Commands executed. -/
  done : ℕ
  /-- Bytes that the driver has taken. -/
  popped : ℕ
  stopped : Bool
  aborted : Bool
  /-- Looks at `IC_RAW_INTR_STAT` since the last command or byte that found it behind. -/
  lag : ℕ
  /-- All such looks. -/
  totalLag : ℕ

namespace DwBus

/-- One step of the controller towards the outcome. -/
inductive Step (o : BusOutcome) (wLen rLen : ℕ) : DwBus → DwBus → Prop
  | execute {b : DwBus} (hqueued : b.done < b.queued) (hlimit : b.done < o.progress wLen rLen) :
      Step o wLen rLen b { b with done := b.done + 1 }
  | stop {b : DwBus} {data : List UInt8} (hacked : o = .acked data)
      (hdone : b.done = wLen + rLen) : Step o wLen rLen b { b with stopped := true }
  | abort {b : DwBus} (hfails : o.Fails) (hdone : b.done = o.progress wLen rLen)
      (hqueued : b.done < b.queued) : Step o wLen rLen b { b with aborted := true }

/-- Nothing is left to do until the driver does something. -/
def Settled (o : BusOutcome) (wLen rLen : ℕ) (b : DwBus) : Prop :=
  ∀ b', Step o wLen rLen b b' → b' = b

/-- What a register may read, and the controller after it. -/
def Reads (o : BusOutcome) (wLen rLen : ℕ) (b : DwBus) (off : UInt64) (r : UInt32)
    (b' : DwBus) : Prop :=
  if off = dwIcRawIntrStat then
    (r &&& dwIcIntrTxAbrt ≠ 0 ↔ b.aborted = true) ∧
      ((o.Stuck ∨ b.Settled o wLen rLen) ∧ b' = b ∨
        b.lag + 1 < dwPollLimit ∧ b.totalLag < dwXferSpinBudget ∧
          b' = { b with lag := b.lag + 1, totalLag := b.totalLag + 1 })
  else if off = dwIcStatus then
    (¬o.Stuck → b.Settled o wLen rLen → r &&& dwIcStatusTfnf ≠ 0) ∧
      (r &&& dwIcStatusRfne ≠ 0 ↔ wLen + b.popped < b.done) ∧
      (r &&& dwIcStatusMstActivity ≠ 0 ↔ 0 < b.queued ∧ b.stopped = false) ∧ b' = b
  else if off = dwIcDataCmd then
    (∀ data, o = .acked data → wLen + b.popped < b.done →
      data[b.popped]? = some (dataByte r)) ∧ b' = { b with popped := b.popped + 1, lag := 0 }
  else if off = dwIcTxAbrtSource then
    (b.aborted = true → (r &&& dwIcAbrt7bAddrNoack ≠ 0 ↔ o.AddressRefused)) ∧ b' = b
  else if off = dwIcClrTxAbrt then b' = { b with aborted := false }
  else b' = b

/-- What a write to a register does. -/
def Writes (b : DwBus) (off : UInt64) (_ : UInt32) (b' : DwBus) : Prop :=
  if off = dwIcDataCmd then b' = { b with queued := b.queued + 1, lag := 0 } else b' = b

/-- Before the transfer, with or without the abort of an earlier one still latched. -/
def idle (stale : Bool) : DwBus := ⟨0, 0, 0, false, stale, 0, 0⟩

end DwBus

/-- The controller on a bus with the outcome `o`. -/
def dwBus (o : BusOutcome) (wLen rLen : ℕ) : Device DwBus where
  Step := DwBus.Step o wLen rLen
  Reads := DwBus.Reads o wLen rLen
  Writes := DwBus.Writes

/-! ## Register accesses -/

namespace DwBus

variable {o : BusOutcome} {wLen rLen : ℕ} {b b' : DwBus} {r : UInt32}

theorem reads_rawIntr (h : (dwBus o wLen rLen).Reads b dwIcRawIntrStat r b') :
    (r &&& dwIcIntrTxAbrt ≠ 0 ↔ b.aborted = true) ∧
      ((o.Stuck ∨ b.Settled o wLen rLen) ∧ b' = b ∨
        b.lag + 1 < dwPollLimit ∧ b.totalLag < dwXferSpinBudget ∧
          b' = { b with lag := b.lag + 1, totalLag := b.totalLag + 1 }) := h

theorem reads_status (h : (dwBus o wLen rLen).Reads b dwIcStatus r b') :
    (¬o.Stuck → b.Settled o wLen rLen → r &&& dwIcStatusTfnf ≠ 0) ∧
      (r &&& dwIcStatusRfne ≠ 0 ↔ wLen + b.popped < b.done) ∧
      (r &&& dwIcStatusMstActivity ≠ 0 ↔ 0 < b.queued ∧ b.stopped = false) ∧ b' = b := h

theorem reads_dataCmd (h : (dwBus o wLen rLen).Reads b dwIcDataCmd r b') :
    (∀ data, o = .acked data → wLen + b.popped < b.done →
      data[b.popped]? = some (dataByte r)) ∧ b' = { b with popped := b.popped + 1, lag := 0 } := h

theorem reads_abrtSource (h : (dwBus o wLen rLen).Reads b dwIcTxAbrtSource r b') :
    (b.aborted = true → (r &&& dwIcAbrt7bAddrNoack ≠ 0 ↔ o.AddressRefused)) ∧ b' = b := h

theorem reads_clrTxAbrt (h : (dwBus o wLen rLen).Reads b dwIcClrTxAbrt r b') :
    b' = { b with aborted := false } := h

theorem reads_clrStopDet (h : (dwBus o wLen rLen).Reads b dwIcClrStopDet r b') : b' = b := h

theorem writes_dataCmd {v : UInt32} (h : (dwBus o wLen rLen).Writes b dwIcDataCmd v b') :
    b' = { b with queued := b.queued + 1, lag := 0 } := h

end DwBus

/-! ## During a transfer -/

section

variable {o : BusOutcome} {x : XferArgs} {rBuf : Option (List UInt8)} {st : XferState}
  {n : ℕ} {got : List UInt8} {b b' : DwBus}

/-- The transfer has queued `n` commands and received `got`. -/
structure DwBus.InXfer (o : BusOutcome) (wLen rLen n : ℕ) (got : List UInt8) (b : DwBus) : Prop where
  queued : b.queued = n
  popped : b.popped = got.length
  done : b.done ≤ n
  limit : b.done ≤ o.progress wLen rLen
  aborted : b.aborted = true → o.Fails
  stopped : b.stopped = true → ∃ data, o = .acked data
  data : ∀ data, o = .acked data → got <+: data

theorem DwBus.InXfer.step {wLen rLen : ℕ} (h : b.InXfer o wLen rLen n got)
    (hstep : (dwBus o wLen rLen).Step b b') : b'.InXfer o wLen rLen n got := by
  cases hstep with
  | execute hqueued hlimit => exact { h with done := h.queued ▸ hqueued, limit := hlimit }
  | stop hacked hdone => exact { h with stopped := fun _ ↦ ⟨_, hacked⟩ }
  | abort hfails hdone hqueued => exact { h with aborted := fun _ ↦ hfails }

/-- A received byte stays until the driver takes it. -/
theorem DwBus.byte_step {wLen rLen : ℕ} (h : wLen + b.popped < b.done)
    (hstep : (dwBus o wLen rLen).Step b b') : wLen + b'.popped < b'.done := by
  cases hstep with
  | execute => exact Nat.lt_succ_of_lt h
  | stop => exact h
  | abort => exact h

/-- A controller that has caught up without an abort has executed everything. -/
theorem DwBus.InXfer.done_eq {wLen rLen : ℕ} (h : b.InXfer o wLen rLen n got)
    (hstuck : ¬o.Stuck) (hn : n ≤ wLen + rLen) (hsettled : b.Settled o wLen rLen)
    (hclear : b.aborted = false) : b.done = n := by
  have hdone := h.done
  have hlimit := h.limit
  by_contra hne
  have hqueued : b.done < b.queued := by
    rw [h.queued]
    omega
  rcases Nat.lt_or_ge b.done (o.progress wLen rLen) with hlt | hge
  · have hsame := congrArg DwBus.done (hsettled _ (.execute hqueued hlt))
    exact absurd hsame (Nat.succ_ne_self _)
  · have hend : b.done = o.progress wLen rLen := by omega
    cases o with
    | acked data =>
      have hall : b.done = wLen + rLen := hend
      omega
    | stuck i => exact hstuck trivial
    | addressNak repeated =>
      have hsame := congrArg DwBus.aborted (hsettled _ (.abort trivial hend hqueued))
      exact Bool.noConfusion (hsame.trans hclear)
    | dataNak j =>
      have hsame := congrArg DwBus.aborted (hsettled _ (.abort trivial hend hqueued))
      exact Bool.noConfusion (hsame.trans hclear)
    | arbitrationLost i =>
      have hsame := congrArg DwBus.aborted (hsettled _ (.abort trivial hend hqueued))
      exact Bool.noConfusion (hsame.trans hclear)

theorem DwBus.InXfer.pop {wLen rLen : ℕ} {r : UInt32} (h : b.InXfer o wLen rLen n got)
    (hbyte : wLen + b.popped < b.done)
    (hdata : ∀ data, o = .acked data → wLen + b.popped < b.done →
      data[b.popped]? = some (dataByte r)) :
    DwBus.InXfer o wLen rLen n (got ++ [dataByte r])
      { b with popped := b.popped + 1, lag := 0 } := by
  refine { h with popped := ?_, data := fun data ho ↦ ?_ }
  · rw [List.length_append, List.length_singleton, ← h.popped]
  · obtain ⟨rest, hrest⟩ := h.data data ho
    have hnext := hdata data ho hbyte
    rw [← hrest, h.popped, List.getElem?_append_right le_rfl, Nat.sub_self] at hnext
    cases rest with
    | nil => simp at hnext
    | cons byte rest =>
      simp only [List.getElem?_cons_zero, Option.some.injEq] at hnext
      exact ⟨rest, by rw [← hrest, hnext, List.append_assoc, List.singleton_append]⟩

theorem DwBus.InXfer.queue {wLen rLen : ℕ} (h : b.InXfer o wLen rLen n got) :
    DwBus.InXfer o wLen rLen (n + 1) got { b with queued := b.queued + 1, lag := 0 } :=
  { h with
    queued := congrArg (· + 1) h.queued
    done := Nat.le_succ_of_le h.done }

theorem DwBus.inXfer_idle (wLen rLen : ℕ) : (DwBus.idle false).InXfer o wLen rLen 0 [] :=
  ⟨rfl, rfl, Nat.zero_le _, Nat.zero_le _, Bool.noConfusion, Bool.noConfusion,
    fun _ _ ↦ List.nil_prefix⟩

private theorem wp_of_access {D : Device DwBus} {base : UInt64} {α : Type} {p : Prog Uefi α}
    {Q : α → Prop} (h : p.Within (RegAccess base fun _ ↦ True) Q) :
    (D.world base).wp p (fun a _ ↦ Q a) b :=
  World.wp_mono (World.wp_of_within (J := fun _ ↦ True) h (fun _ _ _ _ ↦ trivial)
    (fun _ _ _ _ ↦ ⟨trivial, fun _ _ _ ↦ trivial⟩) trivial) fun _ _ hQ ↦ hQ.1

private theorem wp_handleAbort_outcome {base : UInt64} {wLen rLen : ℕ} (hfails : o.Fails)
    (habort : b.aborted = true) : ((dwBus o wLen rLen).world base).wp (handleAbort base)
      (fun status _ ↦ status = o.dwStatus) b := by
  have hsticky : ∀ c c', c.aborted = true → (dwBus o wLen rLen).Step c c' → c'.aborted = true := by
    intro c c' hc hstep
    cases hstep with
    | execute => exact hc
    | stop => exact hc
    | abort => rfl
  rw [handleAbort, classifyAbort, World.wp_bind, World.wp_bind]
  refine Device.wp_rd hsticky habort ?_
  intro b₁ src b₂ h₁ hreads
  obtain ⟨hsource, rfl⟩ := DwBus.reads_abrtSource hreads
  have hclass : (if (src &&& dwIcAbrt7bAddrNoack != 0) = true then EfiStatus.noResponse
      else .deviceError) = o.dwStatus := by
    have hflag := hsource h₁
    cases o with
    | acked data => exact hfails.elim
    | stuck i => exact hfails.elim
    | addressNak repeated => rw [if_pos (bne_iff_ne.mpr (hflag.mpr trivial))]; rfl
    | dataNak j => rw [if_neg fun h ↦ hflag.mp (bne_iff_ne.mp h)]; rfl
    | arbitrationLost i => rw [if_neg fun h ↦ hflag.mp (bne_iff_ne.mp h)]; rfl
  have hclear : RegAccess base (fun _ ↦ True) (.mmioRead32 (base + dwIcClrTxAbrt)) :=
    ⟨dwIcClrTxAbrt, trivial, rfl⟩
  rw [World.wp_bind]
  refine World.wp_mono (wp_of_access (Q := fun _ ↦ True) (wp_regRd.mpr ⟨hclear, fun _ ↦ trivial⟩))
    fun _ b₃ _ ↦ ?_
  simp only [Prog.pure_eq, World.wp_pure, hclass]
  split
  · next herror =>
    rw [World.wp_bind]
    exact World.wp_mono (wp_of_access (dwI2cRecover_within fun _ _ ↦ trivial)) fun _ _ _ ↦ rfl
  · exact rfl

/-! ## A stuck bus -/

private theorem stuckRules (hstuck : o.Stuck) :
    LoopRules ((dwBus o x.wLen x.rLen).world x.base) x
      (DwBus.InXfer o x.wLen x.rLen) (fun status _ _ ↦ status = .timeout) where
  rawIntr {n got b} h := by
    refine Device.wp_rd (fun _ _ h hstep ↦ h.step hstep) h ?_
    intro b₁ r b₂ h₁ hreads
    obtain ⟨habort, hnext⟩ := DwBus.reads_rawIntr hreads
    split
    · next hset =>
      have hfails := h₁.aborted (habort.mp hset)
      cases o <;> contradiction
    · rcases hnext with ⟨-, rfl⟩ | ⟨-, -, rfl⟩
      · exact h₁
      · exact { h₁ with }
  status {n got b} h := by
    refine Device.wp_rd (fun _ _ h hstep ↦ h.step hstep) h ?_
    intro b₁ r b₂ h₁ hreads
    obtain ⟨-, hrfne, -, rfl⟩ := DwBus.reads_status hreads
    refine ⟨h₁, fun hset _ ↦ ?_⟩
    refine Device.wp_rd (fun _ _ h hstep ↦ And.intro (h.1.step hstep) (DwBus.byte_step h.2 hstep))
      ⟨h₁, hrfne.mp hset⟩ ?_
    intro b₃ v b₄ h₃ hreads
    obtain ⟨hdata, rfl⟩ := DwBus.reads_dataCmd hreads
    exact h₃.1.pop h₃.2 hdata
  dataCmd {n got b} h _ _ := by
    refine Device.wp_wr (fun _ _ h hstep ↦ h.step hstep) h ?_
    intro b₁ b₂ h₁ hwrites
    obtain rfl := DwBus.writes_dataCmd hwrites
    exact h₁.queue
  recover {n got b} _ :=
    World.wp_mono (wp_of_access (dwI2cRecover_within fun _ _ ↦ trivial)) fun _ _ _ ↦ rfl

/-! ## A pass of the loop

A look that finds the controller behind counts as lag, and one that finds it settled is followed by
a command or a byte in the same pass. So the stall counters of the driver stay below its bounds. -/

/-- Before a pass. -/
private structure BeforePass (o : BusOutcome) (x : XferArgs) (rBuf : Option (List UInt8))
    (st : XferState) (got : List UInt8) (b : DwBus) : Prop where
  counts : st.Counts x rBuf got
  inXfer : b.InXfer o x.wLen x.rLen st.sent got
  lag : b.lag = st.spin
  totalLag : st.totalSpin ≤ b.totalLag
  fresh : st.sent = x.wLen + x.rLen → st.rGot = x.rLen → st.spin = 0

/-- In a pass without a command or a byte yet. If the look found the controller settled, `C`. -/
private structure MidPass (o : BusOutcome) (x : XferArgs) (st : XferState) (got : List UInt8)
    (C : Prop) (b : DwBus) : Prop where
  inXfer : b.InXfer o x.wLen x.rLen st.sent got
  totalLag : st.totalSpin ≤ b.totalLag
  clock : (C ∧ b.Settled o x.wLen x.rLen ∧ b.aborted = false) ∨
    (b.lag = st.spin + 1 ∧ b.lag < dwPollLimit ∧ st.totalSpin + 1 ≤ b.totalLag ∧
      b.totalLag ≤ dwXferSpinBudget)

/-- In a pass after a command or a byte. -/
private structure PastAccess (o : BusOutcome) (x : XferArgs) (st : XferState) (got : List UInt8)
    (b : DwBus) : Prop where
  inXfer : b.InXfer o x.wLen x.rLen st.sent got
  lag : b.lag = 0
  totalLag : st.totalSpin ≤ b.totalLag

private theorem lag_step {wLen rLen : ℕ} (hstep : (dwBus o wLen rLen).Step b b') :
    b'.lag = b.lag ∧ b'.totalLag = b.totalLag := by
  cases hstep <;> exact ⟨rfl, rfl⟩

private theorem BeforePass.step (h : BeforePass o x rBuf st got b)
    (hstep : (dwBus o x.wLen x.rLen).Step b b') : BeforePass o x rBuf st got b' := by
  obtain ⟨hlag, htotal⟩ := lag_step hstep
  exact { h with
    inXfer := h.inXfer.step hstep
    lag := hlag.trans h.lag
    totalLag := htotal ▸ h.totalLag }

private theorem MidPass.step {C : Prop} (h : MidPass o x st got C b)
    (hstep : (dwBus o x.wLen x.rLen).Step b b') : MidPass o x st got C b' := by
  obtain ⟨hlag, htotal⟩ := lag_step hstep
  rcases h.clock with ⟨-, hsettled, -⟩ | hbehind
  · rw [hsettled b' hstep]
    exact h
  · exact ⟨h.inXfer.step hstep, htotal ▸ h.totalLag, .inr (by rw [hlag, htotal]; exact hbehind)⟩

private theorem PastAccess.step (h : PastAccess o x st got b)
    (hstep : (dwBus o x.wLen x.rLen).Step b b') : PastAccess o x st got b' := by
  obtain ⟨hlag, htotal⟩ := lag_step hstep
  exact ⟨h.inXfer.step hstep, hlag.trans h.lag, htotal ▸ h.totalLag⟩

/-- What the two halves of a pass leave: progress, or the state they found and `C`. -/
private def HalfPost (o : BusOutcome) (x : XferArgs) (rBuf : Option (List UInt8))
    (st : XferState) (C : Prop) (r : XferState × Bool) (b : DwBus) : Prop :=
  ∃ got, r.1.Counts x rBuf got ∧
    if r.2 then PastAccess o x r.1 got b ∧ r.1.totalSpin = st.totalSpin ∧
      r.1.remaining x < st.remaining x
    else r.1 = st ∧ MidPass o x st got C b

private theorem wp_xferQueue_outcome (hx : x.Valid rBuf) (hcounts : st.Counts x rBuf got)
    {ic : UInt32} (h : MidPass o x st got (ic &&& dwIcStatusTfnf ≠ 0) b) :
    ((dwBus o x.wLen x.rLen).world x.base).wp (xferQueue x st ic)
      (HalfPost o x rBuf st ¬st.Queueable x) b := by
  rw [hcounts.xferQueue_eq hx]
  split
  · next hq =>
    rw [World.wp_bind]
    refine Device.wp_wr (fun _ _ h hstep ↦ h.step hstep) h ?_
    intro b₁ b₂ h₁ hwrites
    obtain rfl := DwBus.writes_dataCmd hwrites
    refine ⟨got, hcounts.queued hq.2, ⟨?_, rfl, ?_⟩, XferState.totalSpin_queued,
      hcounts.remaining_queued hq.2⟩
    · rw [XferState.sent_queued]
      exact h₁.inXfer.queue
    · rw [XferState.totalSpin_queued]
      exact h₁.totalLag
  · next hq =>
    refine ⟨got, hcounts, rfl, h.inXfer, h.totalLag, ?_⟩
    rcases h.clock with ⟨htfnf, hsettled⟩ | hbehind
    · exact .inl ⟨fun hqueueable ↦ hq ⟨htfnf, hqueueable⟩, hsettled⟩
    · exact .inr hbehind

private theorem wp_takeByte (hcounts : st.Counts x rBuf got) (hlt : st.rGot < st.rQueued)
    {P : DwBus → Prop} (hstep : ∀ c c', P c → (dwBus o x.wLen x.rLen).Step c c' → P c')
    (hP : ∀ c, P c → c.InXfer o x.wLen x.rLen st.sent got ∧ st.totalSpin ≤ c.totalLag) (h : P b)
    (hbyte : x.wLen + b.popped < b.done) :
    ((dwBus o x.wLen x.rLen).world x.base).wp (do
      let v ← regRd x.base dwIcDataCmd
      return ({ st with rGot := st.rGot + 1, rBuf := stored rBuf (got ++ [dataByte v]) }, true))
      (fun r b' ↦ ∃ got', r.1.Counts x rBuf got' ∧ r.2 = true ∧ PastAccess o x r.1 got' b' ∧
        r.1.totalSpin = st.totalSpin ∧ r.1.remaining x < st.remaining x) b := by
  rw [World.wp_bind]
  refine Device.wp_rd (fun _ _ h hs ↦ And.intro (hstep _ _ h.1 hs) (DwBus.byte_step h.2 hs))
    ⟨h, hbyte⟩ ?_
  intro b₁ v b₂ h₁ hreads
  obtain ⟨hdata, rfl⟩ := DwBus.reads_dataCmd hreads
  obtain ⟨hinXfer, htotal⟩ := hP b₁ h₁.1
  exact ⟨_, hcounts.drained hlt _, rfl, ⟨hinXfer.pop h₁.2 hdata, rfl, htotal⟩, rfl,
    hcounts.remaining_drained hlt⟩

/-- With nothing queued in this pass, a settled controller has a byte. -/
private theorem wp_xferDrain_stalled (hx : x.Valid rBuf) (hstuck : ¬o.Stuck)
    (hcounts : st.Counts x rBuf got) (h : MidPass o x st got (¬st.Queueable x) b)
    (hopen : st.wSent < x.wLen ∨ st.rQueued < x.rLen ∨ st.rGot < x.rLen) :
    ((dwBus o x.wLen x.rLen).world x.base).wp (xferDrain x st)
      (HalfPost o x rBuf st False) b := by
  have hsent := hcounts.wSent
  have hqueued := hcounts.rQueued
  have hgot := hcounts.rGot
  have horder := hcounts.order
  have hall : st.sent ≤ x.wLen + x.rLen := by
    unfold XferState.sent
    omega
  rw [hcounts.xferDrain_eq hx]
  split
  · next hlt =>
    rw [World.wp_bind]
    refine Device.wp_rd (fun _ _ h hstep ↦ h.step hstep) h ?_
    intro b₁ r b₂ h₁ hreads
    obtain ⟨-, hrfne, -, rfl⟩ := DwBus.reads_status hreads
    split
    · next hset =>
      refine World.wp_mono (wp_takeByte hcounts hlt (fun _ _ h hstep ↦ h.step hstep)
        (fun c hc ↦ ⟨hc.inXfer, hc.totalLag⟩) h₁ (hrfne.mp hset)) fun r b₃ h₃ ↦ ?_
      obtain ⟨got', hcounts', htaken, hrest⟩ := h₃
      exact ⟨got', hcounts', by rw [if_pos htaken]; exact hrest⟩
    · next hunset =>
      refine ⟨got, hcounts, rfl, h₁.inXfer, h₁.totalLag, ?_⟩
      rcases h₁.clock with ⟨-, hsettled, hclear⟩ | hbehind
      · -- every READ command has been executed, so there is a byte
        have hdone := h₁.inXfer.done_eq hstuck hall hsettled hclear
        refine absurd (hrfne.mpr ?_) hunset
        rw [hdone, h₁.inXfer.popped, ← hcounts.length]
        unfold XferState.sent
        omega
      · exact .inr hbehind
  · next hnone =>
    refine ⟨got, hcounts, rfl, h.inXfer, h.totalLag, ?_⟩
    rcases h.clock with ⟨hfull, -⟩ | hbehind
    · refine absurd ?_ hfull
      unfold XferState.Queueable XferState.sent dwRxInflightMax
      omega
    · exact .inr hbehind

private theorem wp_xferDrain_progressed (hx : x.Valid rBuf) (hcounts : st.Counts x rBuf got)
    (h : PastAccess o x st got b) :
    ((dwBus o x.wLen x.rLen).world x.base).wp (xferDrain x st) (fun r b' ↦ ∃ got',
      r.1.Counts x rBuf got' ∧ PastAccess o x r.1 got' b' ∧ r.1.totalSpin = st.totalSpin ∧
        r.1.remaining x ≤ st.remaining x) b := by
  rw [hcounts.xferDrain_eq hx]
  split
  · next hlt =>
    rw [World.wp_bind]
    refine Device.wp_rd (fun _ _ h hstep ↦ h.step hstep) h ?_
    intro b₁ r b₂ h₁ hreads
    obtain ⟨-, hrfne, -, rfl⟩ := DwBus.reads_status hreads
    split
    · next hset =>
      refine World.wp_mono (wp_takeByte hcounts hlt (fun _ _ h hstep ↦ h.step hstep)
        (fun c hc ↦ ⟨hc.inXfer, hc.totalLag⟩) h₁ (hrfne.mp hset)) fun r b₃ h₃ ↦ ?_
      obtain ⟨got', hcounts', -, hpast, htotal, hlt'⟩ := h₃
      exact ⟨got', hcounts', hpast, htotal, hlt'.le⟩
    · exact ⟨got, hcounts, h₁, rfl, le_rfl⟩
  · exact ⟨got, hcounts, h, rfl, le_rfl⟩

/-- How the loop may end: with an abort, or with everything queued and received. -/
private def EndPost (o : BusOutcome) (x : XferArgs) (rBuf : Option (List UInt8))
    (r : XferState × Option EfiStatus) (b : DwBus) : Prop :=
  ∃ got, r.1.rBuf = stored rBuf got ∧ match r.2 with
    | none => b.InXfer o x.wLen x.rLen (x.wLen + x.rLen) got ∧ got.length = x.rLen ∧ b.lag = 0
    | some status => status = o.dwStatus ∧ o.Fails

private theorem wp_xferPass_outcome (hx : x.Valid rBuf) (hstuck : ¬o.Stuck)
    (h : BeforePass o x rBuf st got b) :
    ((dwBus o x.wLen x.rLen).world x.base).wp (xferPass x st) (Sum.elim
      (fun st' b' ↦ (∃ got, BeforePass o x rBuf st' got b') ∧ st'.remaining x < st.remaining x)
      (EndPost o x rBuf)) b := by
  unfold xferPass
  split
  · next hopen =>
    rw [World.wp_bind]
    refine Device.wp_rd (fun _ _ h hstep ↦ h.step hstep) h ?_
    intro b₁ r b₂ h₁ hreads
    obtain ⟨habort, hnext⟩ := DwBus.reads_rawIntr hreads
    split
    · next hset =>
      have hfails := h₁.inXfer.aborted (habort.mp hset)
      have hkept : b₂.aborted = true := by
        rcases hnext with ⟨-, rfl⟩ | ⟨-, -, rfl⟩
        · exact habort.mp hset
        · exact habort.mp hset
      rw [World.wp_bind]
      exact World.wp_mono (wp_handleAbort_outcome hfails hkept) fun status _ hstatus ↦
        ⟨got, h₁.counts.buffer, hstatus, hfails⟩
    · next hunset =>
      -- either the bus has settled, without an abort, or the look counts as lag
      have hmid : MidPass o x st got True b₂ := by
        rcases hnext with ⟨hsettled, rfl⟩ | ⟨hlag, hbudget, rfl⟩
        · refine ⟨h₁.inXfer, h₁.totalLag, .inl ⟨trivial, hsettled.resolve_left hstuck, ?_⟩⟩
          by_contra hne
          exact hunset (habort.mpr (by simpa using hne))
        · refine ⟨{ h₁.inXfer with }, Nat.le_succ_of_le h₁.totalLag, .inr ⟨?_, hlag, ?_, hbudget⟩⟩
          · exact congrArg (· + 1) h₁.lag
          · exact Nat.succ_le_succ h₁.totalLag
      rw [World.wp_bind]
      refine Device.wp_rd (fun _ _ h hstep ↦ h.step hstep) hmid ?_
      intro b₃ ic b₄ h₃ hreads
      obtain ⟨htfnf, -, -, rfl⟩ := DwBus.reads_status hreads
      have hready : MidPass o x st got (ic &&& dwIcStatusTfnf ≠ 0) b₄ := by
        refine ⟨h₃.inXfer, h₃.totalLag, ?_⟩
        rcases h₃.clock with ⟨-, hsettled, hclear⟩ | hbehind
        · exact .inl ⟨htfnf hstuck hsettled, hsettled, hclear⟩
        · exact .inr hbehind
      rw [World.wp_bind]
      refine World.wp_mono (wp_xferQueue_outcome hx h.counts hready) fun r₅ b₅ h₅ ↦ ?_
      obtain ⟨st₅, queued⟩ := r₅
      obtain ⟨got₅, hcounts₅, hqueue⟩ := h₅
      rw [World.wp_bind]
      cases queued with
      -- a command has gone out, so what is left to do is less
      | true =>
        obtain ⟨hpast, htotal₅, hlt⟩ := hqueue
        refine World.wp_mono (wp_xferDrain_progressed hx hcounts₅ hpast) fun r₆ b₆ h₆ ↦ ?_
        obtain ⟨st₆, drained⟩ := r₆
        obtain ⟨got₆, hcounts₆, hpast₆, -, hle⟩ := h₆
        refine ⟨⟨got₆, { hcounts₆ with }, hpast₆.inXfer, hpast₆.lag, hpast₆.totalLag,
          fun _ _ ↦ rfl⟩, ?_⟩
        exact Nat.lt_of_le_of_lt hle hlt
      | false =>
        obtain ⟨hsame, hmid₅⟩ := hqueue
        obtain rfl : st₅ = st := hsame
        refine World.wp_mono (wp_xferDrain_stalled hx hstuck hcounts₅ hmid₅ hopen)
          fun r₆ b₆ h₆ ↦ ?_
        obtain ⟨st₆, drained⟩ := r₆
        obtain ⟨got₆, hcounts₆, hdrain⟩ := h₆
        cases drained with
        | true =>
          obtain ⟨hpast₆, -, hlt⟩ := hdrain
          exact ⟨⟨got₆, { hcounts₆ with }, hpast₆.inXfer, hpast₆.lag, hpast₆.totalLag,
            fun _ _ ↦ rfl⟩, hlt⟩
        | false =>
          obtain ⟨hsame, hmid₆⟩ := hdrain
          obtain rfl : st₆ = st₅ := hsame
          rcases hmid₆.clock with ⟨hfalse, -⟩ | ⟨hlag, hlimit, htotal, hbudget⟩
          · exact hfalse.elim
          · -- nothing moved; the lag of the bus bounds both spin counters
            have hstay : ¬(st₆.spin + 1 > dwPollLimit ∨
                st₆.totalSpin + 1 > dwXferSpinBudget) := by omega
            dsimp only
            rw [if_neg (by decide), if_neg hstay]
            refine ⟨⟨got₆, { hcounts₆ with }, { hmid₆.inXfer with }, hlag, htotal, ?_⟩, ?_⟩
            · intro hsent hgot
              have hsent' : st₆.sent = x.wLen + x.rLen := hsent
              have hgot' : st₆.rGot = x.rLen := hgot
              have hwSent : st₆.wSent ≤ x.wLen := hcounts₆.wSent
              have hrQueued : st₆.rQueued ≤ x.rLen := hcounts₆.rQueued
              unfold XferState.sent at hsent'
              omega
            · unfold XferState.remaining
              dsimp only
              omega
  · -- the loop is over: everything has been queued and received
    next hdone =>
    have hcounts := h.counts
    have hsent := hcounts.wSent
    have hqueued := hcounts.rQueued
    have hgot := hcounts.rGot
    have hall : st.sent = x.wLen + x.rLen := by
      unfold XferState.sent
      omega
    have hrGot : st.rGot = x.rLen := by omega
    exact ⟨got, hcounts.buffer, hall ▸ h.inXfer, hcounts.length.symm.trans hrGot,
      h.lag.trans (h.fresh hall hrGot)⟩

/-! ## The wait for the STOP -/

/-- Everything has been queued and received, and `n` looks are left. -/
private structure Waiting (o : BusOutcome) (x : XferArgs) (got : List UInt8) (n : ℕ) (b : DwBus) :
    Prop where
  inXfer : b.InXfer o x.wLen x.rLen (x.wLen + x.rLen) got
  looks : b.lag + n = dwPollLimit
  left : 0 < n

private theorem Waiting.step {k : ℕ} (h : Waiting o x got k b)
    (hstep : (dwBus o x.wLen x.rLen).Step b b') : Waiting o x got k b' :=
  ⟨h.inXfer.step hstep, (lag_step hstep).1.symm ▸ h.looks, h.left⟩

/-- A controller that shows idle has seen the whole transfer acknowledged. -/
private theorem acked_of_stopped (hpos : 0 < x.wLen + x.rLen)
    (h : b.InXfer o x.wLen x.rLen (x.wLen + x.rLen) got) (hgot : got.length = x.rLen)
    (hposs : o.Possible x.wLen x.rLen) (hidle : ¬(0 < b.queued ∧ b.stopped = false)) :
    o = .acked got := by
  have hqueued : 0 < b.queued := h.queued ▸ hpos
  have hstopped : b.stopped = true := by
    by_contra hunset
    exact hidle ⟨hqueued, by simpa using hunset⟩
  obtain ⟨data, rfl⟩ := h.stopped hstopped
  have hlen : data.length = x.rLen := hposs
  rw [(h.data data rfl).eq_of_length (hgot.trans hlen.symm)]

private theorem wp_xferStop_outcome (hstuck : ¬o.Stuck) (hpos : 0 < x.wLen + x.rLen)
    (hposs : o.Possible x.wLen x.rLen) (hgot : got.length = x.rLen) {k : ℕ}
    (h : Waiting o x got k b) :
    ((dwBus o x.wLen x.rLen).world x.base).wp (xferStop x k)
      (fun status _ ↦ status = o.dwStatus ∧ ∀ data, o = .acked data → got = data) b := by
  induction k generalizing b with
  | zero => exact absurd h.left (lt_irrefl 0)
  | succ k ih =>
    rw [xferStop, World.wp_bind]
    refine Device.wp_rd (fun _ _ h hstep ↦ h.step hstep) h ?_
    intro b₁ r b₂ h₁ hreads
    obtain ⟨habort, hnext⟩ := DwBus.reads_rawIntr hreads
    have hsame : b₂.InXfer o x.wLen x.rLen (x.wLen + x.rLen) got ∧ b₂.aborted = b₁.aborted := by
      rcases hnext with ⟨-, rfl⟩ | ⟨-, -, rfl⟩
      · exact ⟨h₁.inXfer, rfl⟩
      · exact ⟨{ h₁.inXfer with }, rfl⟩
    split
    · next hset =>
      have hfails := h₁.inXfer.aborted (habort.mp hset)
      refine World.wp_mono (wp_handleAbort_outcome hfails (hsame.2.trans (habort.mp hset)))
        fun status _ hstatus ↦ ⟨hstatus, fun data ho ↦ ?_⟩
      rw [ho] at hfails
      exact hfails.elim
    · next hunset =>
      -- either the controller shows idle now, or the look counts as lag
      have hidle : ∀ {c : DwBus} {ic : UInt32}, c.InXfer o x.wLen x.rLen (x.wLen + x.rLen) got →
          (ic &&& dwIcStatusMstActivity ≠ 0 ↔ 0 < c.queued ∧ c.stopped = false) →
          ic &&& dwIcStatusMstActivity = 0 → o = .acked got := fun hc hactivity hquiet ↦
        acked_of_stopped hpos hc hgot hposs fun hbusy ↦ hactivity.mpr hbusy hquiet
      have hdone : ∀ {c : DwBus}, o = .acked got →
          ((dwBus o x.wLen x.rLen).world x.base).wp (do
            let _ ← regRd x.base dwIcClrStopDet
            return EfiStatus.success)
          (fun status _ ↦ status = o.dwStatus ∧ ∀ data, o = .acked data → got = data) c := by
        intro c ho
        have hclear : RegAccess x.base (fun _ ↦ True) (.mmioRead32 (x.base + dwIcClrStopDet)) :=
          ⟨dwIcClrStopDet, trivial, rfl⟩
        rw [World.wp_bind]
        refine World.wp_mono (wp_of_access (Q := fun _ ↦ True)
          (wp_regRd.mpr ⟨hclear, fun _ ↦ trivial⟩)) fun _ _ _ ↦ ?_
        rw [ho]
        exact ⟨rfl, fun data hdata ↦ BusOutcome.acked.inj hdata⟩
      rw [World.wp_bind]
      rcases hnext with ⟨hsettled, rfl⟩ | ⟨hlag, -, rfl⟩
      · -- a settled controller without an abort has put the STOP on the bus
        have hclear : b₂.aborted = false := by
          by_contra hne
          exact hunset (habort.mpr (by simpa using hne))
        have hall := hsettled.resolve_left hstuck
        have hexec := h₁.inXfer.done_eq hstuck le_rfl hall hclear
        have hstopped : b₂.stopped = true := by
          have hlimit := h₁.inXfer.limit
          cases o with
          | acked data => exact (congrArg DwBus.stopped (hall _ (.stop rfl hexec))).symm
          | stuck i => exact absurd trivial hstuck
          | addressNak repeated => exact absurd (hposs.progress_lt trivial hpos) (by omega)
          | dataNak j => exact absurd (hposs.progress_lt trivial hpos) (by omega)
          | arbitrationLost i => exact absurd (hposs.progress_lt trivial hpos) (by omega)
        have hstep : ∀ c c', c.InXfer o x.wLen x.rLen (x.wLen + x.rLen) got ∧ c.stopped = true →
            (dwBus o x.wLen x.rLen).Step c c' →
            c'.InXfer o x.wLen x.rLen (x.wLen + x.rLen) got ∧ c'.stopped = true := by
          intro c c' hc hs
          refine ⟨hc.1.step hs, ?_⟩
          cases hs with
          | execute => exact hc.2
          | stop => rfl
          | abort => exact hc.2
        refine Device.wp_rd hstep ⟨h₁.inXfer, hstopped⟩ ?_
        intro b₃ ic b₄ h₃ hreads
        obtain ⟨-, -, hactivity, rfl⟩ := DwBus.reads_status hreads
        have hquiet : ic &&& dwIcStatusMstActivity = 0 := by
          by_contra hbusy
          exact Bool.noConfusion ((hactivity.mp hbusy).2.symm.trans h₃.2)
        rw [if_pos hquiet]
        exact hdone (hidle h₃.1 hactivity hquiet)
      · have hlooks := h₁.looks
        have hwaiting : Waiting o x got k { b₁ with lag := b₁.lag + 1, totalLag := b₁.totalLag + 1 } :=
          ⟨{ h₁.inXfer with }, by dsimp only; omega, by omega⟩
        refine Device.wp_rd (fun _ _ h hstep ↦ h.step hstep) hwaiting ?_
        intro b₃ ic b₄ h₃ hreads
        obtain ⟨-, -, hactivity, rfl⟩ := DwBus.reads_status hreads
        split
        · next hquiet => exact hdone (hidle h₃.inXfer hactivity hquiet)
        · exact ih h₃

private theorem wp_xferStop_stuck (hstuck : o.Stuck) (hpos : 0 < x.wLen + x.rLen)
    (h : b.InXfer o x.wLen x.rLen (x.wLen + x.rLen) got) (k : ℕ) :
    ((dwBus o x.wLen x.rLen).world x.base).wp (xferStop x k)
      (fun status _ ↦ status = .timeout) b := by
  induction k generalizing b with
  | zero =>
    rw [xferStop, World.wp_bind]
    exact World.wp_mono ((stuckRules hstuck).recover h) fun _ _ h₁ ↦ h₁
  | succ k ih =>
    rw [xferStop, World.wp_bind]
    refine World.wp_mono ((stuckRules hstuck).rawIntr h) fun r b₁ h₁ ↦ ?_
    split
    · next hset => rwa [if_pos hset] at h₁
    · next hunset =>
      rw [if_neg hunset] at h₁
      rw [World.wp_bind]
      refine Device.wp_rd (fun _ _ h hstep ↦ h.step hstep) h₁ ?_
      intro b₂ ic b₃ h₂ hreads
      obtain ⟨-, -, hactivity, rfl⟩ := DwBus.reads_status hreads
      have hbusy : ic &&& dwIcStatusMstActivity ≠ 0 := by
        refine hactivity.mpr ⟨h₂.queued ▸ hpos, ?_⟩
        by_contra hstopped
        obtain ⟨data, rfl⟩ := h₂.stopped (by simpa using hstopped)
        exact hstuck
      rw [if_neg hbusy]
      exact ih h₂

/-! ## The result -/

private theorem idle_step {wLen rLen : ℕ} (hpos : 0 < wLen + rLen) {stale : Bool} (c c' : DwBus)
    (hc : c = .idle stale) (hstep : (dwBus o wLen rLen).Step c c') : c' = .idle stale := by
  subst hc
  cases hstep with
  | execute hqueued => exact absurd hqueued (lt_irrefl 0)
  | stop hacked hdone => exact absurd hdone hpos.ne
  | abort hfails hdone hqueued => exact absurd hqueued (lt_irrefl 0)

/-- The reads that clear stale conditions leave the controller idle. -/
private theorem wp_clear {wLen rLen : ℕ} {base : UInt64} (hpos : 0 < wLen + rLen) {stale : Bool}
    {Q : DwBus → Prop} (hQ : Q (.idle false)) :
    ((dwBus o wLen rLen).world base).wp (regRd base dwIcClrTxAbrt) (fun _ ↦
      ((dwBus o wLen rLen).world base).wp (regRd base dwIcClrStopDet) (fun _ ↦ Q))
      (.idle stale) := by
  refine Device.wp_rd (idle_step hpos) rfl ?_
  intro b₁ r b₂ h₁ hreads
  have hclear : b₂ = .idle false := by
    rw [DwBus.reads_clrTxAbrt hreads, h₁]
    rfl
  refine Device.wp_rd (idle_step hpos) hclear ?_
  intro b₃ r b₄ h₃ hreads
  rw [DwBus.reads_clrStopDet hreads, h₃]
  exact hQ

/-- **`DwI2cXfer` reports the outcome**: its status is the one the outcome calls for, and what it
has read is what the bus brought. -/
theorem wp_dwI2cXfer_outcome {base : UInt64} {wBuf : Option (List UInt8)} {wLen rLen : ℕ}
    (hbuf : XferBuffers wBuf wLen rBuf rLen) (hvalid : xferInvalid wBuf wLen rBuf rLen = false)
    (hposs : o.Possible wLen rLen) (stale : Bool) :
    ((dwBus o wLen rLen).world base).wp (dwI2cXfer base wBuf wLen rBuf rLen)
      (fun r _ ↦ r.1 = o.dwStatus ∧ ∀ data, o = .acked data → r.2 = stored rBuf data)
      (.idle stale) := by
  have hx : (⟨base, wBuf, wLen, rLen⟩ : XferArgs).Valid rBuf := ⟨hbuf.w, hbuf.r⟩
  have hpos : 0 < wLen + rLen := by
    by_contra hzero
    have hw : wLen = 0 := by omega
    have hr : rLen = 0 := by omega
    subst hw hr
    simp [xferInvalid] at hvalid
  -- a bus that is stuck runs into the budget, wherever it stands
  by_cases hstuck : o.Stuck
  · refine World.wp_mono ((stuckRules hstuck).wp_dwI2cXfer_of_stop hx hvalid
      (wp_clear hpos (DwBus.inXfer_idle wLen rLen)) fun got b h _ ↦
        wp_xferStop_stuck hstuck hpos h _) fun r _ hr ↦ ?_
    obtain ⟨got, -, hstatus⟩ := hr
    cases o with
    | stuck i => exact ⟨hstatus, fun data ho ↦ by contradiction⟩
    | acked data => exact hstuck.elim
    | addressNak repeated => exact hstuck.elim
    | dataNak j => exact hstuck.elim
    | arbitrationLost i => exact hstuck.elim
  · unfold dwI2cXfer
    rw [if_neg (by rw [hvalid]; exact Bool.false_ne_true), World.wp_bind]
    have hstart : BeforePass o ⟨base, wBuf, wLen, rLen⟩ rBuf ⟨0, 0, 0, 0, 0, rBuf⟩ []
        (.idle false) :=
      ⟨XferState.counts_start _ rBuf, DwBus.inXfer_idle wLen rLen, rfl, le_rfl, fun _ _ ↦ rfl⟩
    refine World.wp_mono (wp_clear hpos hstart) fun _ b₁ h₁ ↦ ?_
    rw [World.wp_bind]
    refine World.wp_mono h₁ fun _ b₂ h₂ ↦ ?_
    rw [World.wp_bind]
    refine World.wp_mono (World.wp_iterate (Q := EndPost o ⟨base, wBuf, wLen, rLen⟩ rBuf)
      (fun st b ↦ ∃ got, BeforePass o ⟨base, wBuf, wLen, rLen⟩ rBuf st got b)
      (XferState.remaining ⟨base, wBuf, wLen, rLen⟩) ?_ ⟨[], h₂⟩ XferState.remaining_start)
      fun r b₃ h₃ ↦ ?_
    · intro st b h
      obtain ⟨got, h⟩ := h
      exact wp_xferPass_outcome hx hstuck h
    · obtain ⟨st, status⟩ := r
      obtain ⟨got, hbuffer, hend⟩ := h₃
      cases status with
      | some status =>
        refine ⟨hend.1, fun data ho ↦ ?_⟩
        have hfails := hend.2
        rw [ho] at hfails
        exact hfails.elim
      | none =>
        obtain ⟨hinXfer, hgot, hlag⟩ := hend
        rw [World.wp_bind]
        have hwaiting : Waiting o ⟨base, wBuf, wLen, rLen⟩ got dwPollLimit b₃ :=
          ⟨hinXfer, by rw [hlag, Nat.zero_add], by decide⟩
        refine World.wp_mono (wp_xferStop_outcome hstuck hpos hposs hgot hwaiting)
          fun status _ hstatus ↦ ⟨hstatus.1, fun data ho ↦ ?_⟩
        rw [← hstatus.2 data ho]
        exact hbuffer

end

end TouchI2c
