import Mathlib.Data.List.TakeDrop
import TouchI2c.DwI2c.Transfer

/-!
# The command stream of a transfer

Whatever the registers read, a transfer writes `IC_DATA_CMD` with a prefix of one fixed stream: the
bytes of `WBuf`, then the READ commands, the first with RESTART if anything was written, the last
command with STOP. `commandAt` gives the command at each place of the stream.

## The monitor

`dataCmdMonitor` watches the two directions of `IC_DATA_CMD` and the reads of `IC_STATUS` before
them. It allows a write only of the next command of the stream, with at most eight READ commands in
flight, and a read only right after RFNE was seen set and while a READ command is unanswered. Its
log is what the trace shows: so what the monitor accepts is the statement about the trace, and no
counter of the loop occurs in it.

## The invariant

`LogInv` ties the log to the main loop: its writes are the first `n` commands of the stream, and its
reads are the bytes received, which the rule of a transfer has at the front of `RBuf`. Queueing the
next command and draining a byte are the only two accesses that change the log.
-/

namespace TouchI2c

open CMemory Interaction

/-! ## Register accesses under a monitor -/

section

variable {σ : Type} {M : Monitor Uefi σ} {base off : UInt64}

theorem wp_uefi {e : UefiOp} {Q : e.Ret → σ → Prop} {s : σ} :
    M.world.wp (uefi e) Q s ↔ M.Allowed s e ∧ ∀ r, Q r (M.update s e r) := Monitor.wp_op

@[simp] theorem wp_regRd {Q : UInt32 → σ → Prop} {s : σ} :
    M.world.wp (regRd base off) Q s ↔ M.Allowed s (.mmioRead32 (base + off)) ∧
      ∀ r, Q r (M.update s (.mmioRead32 (base + off)) r) := Monitor.wp_op

@[simp] theorem wp_regWr {val : UInt32} {Q : Unit → σ → Prop} {s : σ} :
    M.world.wp (regWr base off val) Q s ↔ M.Allowed s (.mmioWrite32 (base + off) val) ∧
      Q () (M.update s (.mmioWrite32 (base + off) val) ()) := by
  constructor
  · exact fun h ↦ ⟨(Monitor.wp_op.mp h).1, (Monitor.wp_op.mp h).2 ()⟩
  · exact fun h ↦ Monitor.wp_op.mpr ⟨h.1, fun _ ↦ h.2⟩

end

/-! ## The stream -/

/-- All commands of a transfer that writes `w` and reads `rLen` bytes. -/
def commandStream (w : List UInt8) (rLen : ℕ) : List UInt32 :=
  (List.range (w.length + rLen)).map (commandAt w rLen)

theorem take_commandStream_succ {w : List UInt8} {rLen i : ℕ} (h : i < w.length + rLen) :
    (commandStream w rLen).take (i + 1)
      = (commandStream w rLen).take i ++ [commandAt w rLen i] := by
  have hi : i < (commandStream w rLen).length := by rwa [commandStream, List.length_map,
    List.length_range]
  rw [List.take_succ_eq_append_getElem hi]
  simp [commandStream]

/-! ## The monitor -/

/-- What has passed through `IC_DATA_CMD`, and whether the last access saw RFNE set. -/
structure DataCmdLog where
  writes : List UInt32
  reads : List UInt32
  rfne : Bool

/-- The log after one more operation. -/
def DataCmdLog.update (base : UInt64) (s : DataCmdLog) : (e : UefiOp) → e.Ret → DataCmdLog
  | .mmioWrite32 a v, _ =>
    if a = base + dwIcDataCmd then { s with writes := s.writes ++ [v], rfne := false }
    else { s with rfne := false }
  | .mmioRead32 a, r =>
    if a = base + dwIcDataCmd then { s with reads := s.reads ++ [r], rfne := false }
    else { s with rfne := a = base + dwIcStatus ∧ r &&& dwIcStatusRfne ≠ 0 }
  | _, _ => { s with rfne := false }

/-- `IC_DATA_CMD` is written along the stream with at most `DW_RX_INFLIGHT_MAX` reads in flight,
and read only when a byte is expected and there. -/
def DataCmdLog.Allowed (base : UInt64) (w : List UInt8) (rLen : ℕ) (s : DataCmdLog) :
    UefiOp → Prop
  | .mmioWrite32 a v => a = base + dwIcDataCmd → s.writes ++ [v] <+: commandStream w rLen ∧
      s.writes.length + 1 - w.length ≤ s.reads.length + dwRxInflightMax
  | .mmioRead32 a => a = base + dwIcDataCmd → s.rfne = true ∧
      s.reads.length < s.writes.length - w.length
  | _ => True

def dataCmdMonitor (base : UInt64) (w : List UInt8) (rLen : ℕ) : Monitor Uefi DataCmdLog where
  Allowed := DataCmdLog.Allowed base w rLen
  update := DataCmdLog.update base

section

variable {base : UInt64} {w : List UInt8} {rLen : ℕ}

private theorem wp_rd_other {off : UInt64} (hoff : off ≠ dwIcDataCmd)
    {Q : UInt32 → DataCmdLog → Prop} {s : DataCmdLog}
    (h : ∀ r rfne, (rfne = true → off = dwIcStatus ∧ r &&& dwIcStatusRfne ≠ 0) →
      (off = dwIcStatus → r &&& dwIcStatusRfne ≠ 0 → rfne = true) → Q r { s with rfne := rfne }) :
    (dataCmdMonitor base w rLen).world.wp (regRd base off) Q s := by
  rw [wp_regRd]
  refine ⟨fun heq ↦ absurd ((UInt64.add_right_inj base).mp heq) hoff, fun r ↦ ?_⟩
  have hne : ¬base + off = base + dwIcDataCmd := fun heq ↦
    hoff ((UInt64.add_right_inj base).mp heq)
  have hupdate : (dataCmdMonitor base w rLen).update s (.mmioRead32 (base + off)) r
      = { s with rfne := base + off = base + dwIcStatus ∧ r &&& dwIcStatusRfne ≠ 0 } :=
    if_neg hne
  rw [hupdate]
  refine h r _ ?_ ?_
  · simp
  · rintro rfl hr
    simpa using hr

private theorem wp_wr_other {off : UInt64} (hoff : off ≠ dwIcDataCmd) {val : UInt32}
    {Q : Unit → DataCmdLog → Prop} {s : DataCmdLog} (h : Q () { s with rfne := false }) :
    (dataCmdMonitor base w rLen).world.wp (regWr base off val) Q s := by
  have hne : ¬base + off = base + dwIcDataCmd := fun heq ↦
    hoff ((UInt64.add_right_inj base).mp heq)
  rw [wp_regWr]
  refine ⟨fun heq ↦ absurd heq hne, ?_⟩
  have hupdate : (dataCmdMonitor base w rLen).update s (.mmioWrite32 (base + off) val) ()
      = { s with rfne := false } := if_neg hne
  rwa [hupdate]

/-- The same bytes have passed. -/
private def Same (s s' : DataCmdLog) : Prop := s'.writes = s.writes ∧ s'.reads = s.reads

private theorem Same.rd {s s' : DataCmdLog} (h : Same s s') {off : UInt64}
    (hoff : off ≠ dwIcDataCmd) :
    (dataCmdMonitor base w rLen).world.wp (regRd base off) (fun _ s'' ↦ Same s s'') s' :=
  wp_rd_other hoff fun _ _ _ _ ↦ h

private theorem Same.wr {s s' : DataCmdLog} (h : Same s s') {off : UInt64}
    (hoff : off ≠ dwIcDataCmd) (val : UInt32) :
    (dataCmdMonitor base w rLen).world.wp (regWr base off val) (fun _ s'' ↦ Same s s'') s' :=
  wp_wr_other hoff h

private theorem Same.poll {s s' : DataCmdLog} (h : Same s s') {off : UInt64}
    (hoff : off ≠ dwIcDataCmd) (test : UInt32 → Bool) (n : ℕ) :
    (dataCmdMonitor base w rLen).world.wp (pollReg base off test n) (fun _ s'' ↦ Same s s'') s' :=
  wp_pollReg (Same s) (fun _ h₁ ↦ wp_rd_other hoff fun _ _ _ _ ↦ ⟨fun _ ↦ h₁, fun _ ↦ h₁⟩)
    (fun _ h₁ ↦ h₁) h

private theorem enableStatus_ne : dwIcEnableStatus ≠ dwIcDataCmd := by decide

private theorem disable_same {s s' : DataCmdLog} (h : Same s s') :
    (dataCmdMonitor base w rLen).world.wp (dwI2cDisable base) (fun _ s'' ↦ Same s s'') s' := by
  rw [dwI2cDisable, World.wp_bind]
  refine World.wp_mono (h.wr (by decide) _) fun _ s₁ h₁ ↦ ?_
  rw [World.wp_bind]
  refine World.wp_mono (h₁.poll enableStatus_ne _ _) fun done s₂ h₂ ↦ ?_
  cases done <;> exact h₂

private theorem recover_same {s s' : DataCmdLog} (h : Same s s') :
    (dataCmdMonitor base w rLen).world.wp (dwI2cRecover base) (fun _ s'' ↦ Same s s'') s' := by
  rw [dwI2cRecover, World.wp_bind]
  refine World.wp_mono (disable_same h) fun status s₁ h₁ ↦ ?_
  split
  · exact h₁
  · rw [World.wp_bind]
    refine World.wp_mono (h₁.wr (by decide) _) fun _ s₂ h₂ ↦ ?_
    rw [World.wp_bind]
    refine World.wp_mono (h₂.poll enableStatus_ne _ _) fun _ s₃ h₃ ↦ ?_
    rw [World.wp_bind]
    refine World.wp_mono (h₃.rd (by decide)) fun _ s₄ h₄ ↦ ?_
    rw [World.wp_bind]
    exact World.wp_mono (h₄.rd (by decide)) fun _ s₅ h₅ ↦ h₅

private theorem handleAbort_same {s s' : DataCmdLog} (h : Same s s') :
    (dataCmdMonitor base w rLen).world.wp (handleAbort base)
      (fun status s'' ↦ status.isError = true ∧ Same s s'') s' := by
  rw [handleAbort, classifyAbort, World.wp_bind, World.wp_bind]
  refine World.wp_mono (h.rd (by decide)) fun src s₁ h₁ ↦ ?_
  rw [World.wp_bind]
  refine World.wp_mono (h₁.rd (by decide)) fun _ s₂ h₂ ↦ ?_
  split
  · exact ⟨rfl, h₂⟩
  · simp only [Prog.pure_eq, World.wp_pure, if_true, World.wp_bind]
    exact World.wp_mono (recover_same h₂) fun _ s₃ h₃ ↦ ⟨by decide, h₃⟩

end

/-! ## The invariant of the main loop -/

/-- The log of a transfer that has queued `n` commands and received `got`. -/
private structure LogInv (x : XferArgs) (n : ℕ) (got : List UInt8) (s : DataCmdLog) : Prop where
  writes : s.writes = (commandStream x.written x.rLen).take n
  reads : s.reads.map dataByte = got
  bound : n ≤ x.wLen + x.rLen

/-- What a transfer leaves behind: it has read what it stored, and a success has sent the whole
stream and received every byte. -/
private def LogPost (x : XferArgs) (status : EfiStatus) (got : List UInt8) (s : DataCmdLog) :
    Prop :=
  s.reads.map dataByte = got ∧
    (status.isError = false →
      s.writes = commandStream x.written x.rLen ∧ s.reads.length = x.rLen)

section

variable {x : XferArgs} {rBuf : Option (List UInt8)} {n : ℕ} {got : List UInt8} {s : DataCmdLog}

private theorem LogInv.same {s' : DataCmdLog} (h : LogInv x n got s) (hs : Same s s') :
    LogInv x n got s' := ⟨hs.1.trans h.writes, by rw [hs.2]; exact h.reads, h.bound⟩

private theorem LogInv.fail {s' : DataCmdLog} (h : LogInv x n got s) {status : EfiStatus}
    (hstatus : status.isError = true) (hs : Same s s') : LogPost x status got s' :=
  ⟨by rw [hs.2]; exact h.reads, fun heq ↦ absurd hstatus (by rw [heq]; decide)⟩

private theorem LogInv.length_writes (h : LogInv x n got s) (hx : x.Valid rBuf) :
    s.writes.length = n := by
  rw [h.writes, List.length_take, commandStream, List.length_map, List.length_range,
    hx.length_written, Nat.min_eq_left h.bound]

private theorem LogInv.length_reads (h : LogInv x n got s) : s.reads.length = got.length := by
  rw [← h.reads, List.length_map]

private theorem LogInv.wr_dataCmd (h : LogInv x n got s) (hx : x.Valid rBuf)
    (hlt : n < x.wLen + x.rLen) (hroom : n + 1 ≤ x.wLen + got.length + dwRxInflightMax) :
    (dataCmdMonitor x.base x.written x.rLen).world.wp
      (regWr x.base dwIcDataCmd (commandAt x.written x.rLen n)) (fun _ ↦ LogInv x (n + 1) got)
      s := by
  have hnext : s.writes ++ [commandAt x.written x.rLen n]
      = (commandStream x.written x.rLen).take (n + 1) := by
    rw [h.writes, take_commandStream_succ (by rwa [hx.length_written])]
  rw [wp_regWr]
  refine ⟨fun _ ↦ ⟨hnext ▸ List.take_prefix _ _, ?_⟩, ?_⟩
  · rw [h.length_writes hx, h.length_reads, hx.length_written]
    omega
  · have hupdate : (dataCmdMonitor x.base x.written x.rLen).update s
        (.mmioWrite32 (x.base + dwIcDataCmd) (commandAt x.written x.rLen n)) ()
          = { s with writes := s.writes ++ [commandAt x.written x.rLen n], rfne := false } :=
      if_pos rfl
    rw [hupdate, hnext]
    exact ⟨rfl, h.reads, hlt⟩

private theorem LogInv.rd_dataCmd (h : LogInv x n got s) (hx : x.Valid rBuf)
    (hrfne : s.rfne = true) (hlt : x.wLen + got.length < n) :
    (dataCmdMonitor x.base x.written x.rLen).world.wp (regRd x.base dwIcDataCmd)
      (fun v ↦ LogInv x n (got ++ [dataByte v])) s := by
  rw [wp_regRd]
  refine ⟨fun _ ↦ ⟨hrfne, ?_⟩, fun v ↦ ?_⟩
  · rw [h.length_writes hx, h.length_reads, hx.length_written]
    omega
  · have hupdate : (dataCmdMonitor x.base x.written x.rLen).update s
        (.mmioRead32 (x.base + dwIcDataCmd)) v
          = { s with reads := s.reads ++ [v], rfne := false } := if_pos rfl
    rw [hupdate]
    exact ⟨h.writes, by rw [List.map_append, h.reads]; rfl, h.bound⟩

private theorem logRules (hx : x.Valid rBuf) :
    TransferRules (dataCmdMonitor x.base x.written x.rLen).world x (LogInv x) (LogPost x) where
  rawIntr {n got s} h := by
    refine World.wp_mono (Same.rd (s := s) ⟨rfl, rfl⟩ (by decide)) fun r s₁ h₁ ↦ ?_
    split
    · exact World.wp_mono (handleAbort_same h₁) fun status _ h₂ ↦ h.fail h₂.1 h₂.2
    · exact h.same h₁
  status {n got s} h := wp_rd_other (by decide) fun r rfne _ hrfne ↦ by
    have h' : LogInv x n got { s with rfne := rfne } := h.same ⟨rfl, rfl⟩
    exact ⟨h', fun hset hlt ↦ h'.rd_dataCmd hx (hrfne rfl hset) hlt⟩
  dataCmd h hlt hroom := h.wr_dataCmd hx hlt hroom
  recover {n got s} h :=
    World.wp_mono (recover_same (s := s) ⟨rfl, rfl⟩) fun _ _ h₁ ↦ h.fail (by decide) h₁
  finish {got s} h hgot := by
    refine World.wp_mono (Same.rd (s := s) ⟨rfl, rfl⟩ (by decide)) fun _ s₁ h₁ ↦ ?_
    have h' := h.same h₁
    refine ⟨h'.reads, fun _ ↦ ⟨?_, h'.length_reads.trans hgot⟩⟩
    rw [h'.writes, List.take_of_length_le]
    rw [commandStream, List.length_map, List.length_range, hx.length_written]

private theorem dwI2cXfer_post (hx : x.Valid rBuf)
    (hvalid : xferInvalid x.wBuf x.wLen rBuf x.rLen = false) :
    (dataCmdMonitor x.base x.written x.rLen).world.wp
      (dwI2cXfer x.base x.wBuf x.wLen rBuf x.rLen)
      (fun r s' ↦ ∃ got, r.2 = stored rBuf got ∧ LogPost x r.1 got s') ⟨[], [], false⟩ := by
  refine (logRules hx).wp_dwI2cXfer hx hvalid ?_
  refine World.wp_mono (Same.rd ⟨rfl, rfl⟩ (by decide)) fun _ s₁ h₁ ↦ ?_
  refine World.wp_mono (h₁.rd (by decide)) fun _ s₂ h₂ ↦ ?_
  exact ⟨h₂.1, by rw [h₂.2]; rfl, Nat.zero_le _⟩

end

/-! ## The theorem over traces -/

/-- The values a trace writes to `IC_DATA_CMD`. -/
def dataCmdWrites (base : UInt64) (t : List (Event Uefi)) : List UInt32 :=
  t.filterMap fun
    | ⟨.mmioWrite32 a v, _⟩ => if a = base + dwIcDataCmd then some v else none
    | _ => none

/-- The values a trace reads from `IC_DATA_CMD`. -/
def dataCmdReads (base : UInt64) (t : List (Event Uefi)) : List UInt32 :=
  t.filterMap fun
    | ⟨.mmioRead32 a, r⟩ => if a = base + dwIcDataCmd then some r else none
    | _ => none

/-- A read of `IC_STATUS` that sees RFNE set. -/
def SeesRfne (base : UInt64) : Event Uefi → Prop
  | ⟨.mmioRead32 a, r⟩ => a = base + dwIcStatus ∧ r &&& dwIcStatusRfne ≠ 0
  | _ => False

/-- A read of `IC_DATA_CMD`. -/
def IsDataCmdRead (base : UInt64) : UefiOp → Prop
  | .mmioRead32 a => a = base + dwIcDataCmd
  | _ => False

section

variable {base : UInt64} {w : List UInt8} {rLen : ℕ}

private theorem after_append_singleton (s : DataCmdLog) (t : List (Event Uefi)) (ev : Event Uefi) :
    (dataCmdMonitor base w rLen).after s (t ++ [ev])
      = ((dataCmdMonitor base w rLen).after s t).update base ev.op ev.ret := by
  rw [Monitor.after, List.foldl_append]
  rfl

private theorem after_log (base : UInt64) (w : List UInt8) (rLen : ℕ) (t : List (Event Uefi)) :
    ((dataCmdMonitor base w rLen).after ⟨[], [], false⟩ t).writes = dataCmdWrites base t ∧
      ((dataCmdMonitor base w rLen).after ⟨[], [], false⟩ t).reads = dataCmdReads base t ∧
      (((dataCmdMonitor base w rLen).after ⟨[], [], false⟩ t).rfne = true →
        ∃ t₀ ev, t = t₀ ++ [ev] ∧ SeesRfne base ev) := by
  induction t using List.reverseRecOn with
  | nil => exact ⟨rfl, rfl, by simp [Monitor.after]⟩
  | append_singleton t ev ih =>
    obtain ⟨hwrites, hreads, -⟩ := ih
    rw [after_append_singleton, dataCmdWrites, dataCmdReads, List.filterMap_append,
      List.filterMap_append, ← dataCmdWrites, ← dataCmdReads, ← hwrites, ← hreads]
    generalize (dataCmdMonitor base w rLen).after ⟨[], [], false⟩ t = s
    obtain ⟨e, r⟩ := ev
    cases e with
    | mmioWrite32 a v =>
      rw [DataCmdLog.update]
      by_cases ha : a = base + dwIcDataCmd <;> simp [ha]
    | mmioRead32 a =>
      rw [DataCmdLog.update]
      by_cases ha : a = base + dwIcDataCmd
      · simp [ha]
      · refine ⟨by simp [ha], by simp [ha], fun hr ↦ ⟨t, _, rfl, ?_⟩⟩
        simpa [ha, SeesRfne] using hr
    | _ =>
      exact ⟨(List.append_nil _).symm, (List.append_nil _).symm,
        fun hr ↦ absurd hr Bool.false_ne_true⟩

/-- What holds at every moment: a prefix of the stream has been written, and the reads keep behind
the READ commands, at most `DW_RX_INFLIGHT_MAX` of them. -/
private def DataCmdLog.Sound (w : List UInt8) (rLen : ℕ) (s : DataCmdLog) : Prop :=
  s.writes <+: commandStream w rLen ∧ s.reads.length ≤ s.writes.length - w.length ∧
    s.writes.length - w.length ≤ s.reads.length + dwRxInflightMax

private theorem DataCmdLog.Sound.update {s : DataCmdLog} (h : s.Sound w rLen) {e : UefiOp}
    (r : e.Ret) (hallowed : s.Allowed base w rLen e) : (s.update base e r).Sound w rLen := by
  obtain ⟨hwrites, hreads, hflight⟩ := h
  cases e with
  | mmioWrite32 a v =>
    rw [DataCmdLog.update]
    split
    · next ha =>
      obtain ⟨hpre, hroom⟩ := hallowed ha
      refine ⟨hpre, ?_, ?_⟩ <;> dsimp only <;>
        rw [List.length_append, List.length_singleton] <;> omega
    · exact ⟨hwrites, hreads, hflight⟩
  | mmioRead32 a =>
    rw [DataCmdLog.update]
    split
    · next ha =>
      obtain ⟨-, hroom⟩ := hallowed ha
      refine ⟨hwrites, ?_, ?_⟩ <;> dsimp only <;>
        rw [List.length_append, List.length_singleton] <;> omega
    · exact ⟨hwrites, hreads, hflight⟩
  | _ => exact ⟨hwrites, hreads, hflight⟩

end

/-- A transfer that does not fail has received every byte that it stores. -/
theorem dwI2cXfer_received {base : UInt64} {wBuf rBuf : Option (List UInt8)} {wLen rLen : ℕ}
    (hw : wLen ≤ (wBuf.getD []).length) (hr : rLen ≤ (rBuf.getD []).length)
    {t : List (Event Uefi)} {status : EfiStatus} {rBuf' : Option (List UInt8)}
    (hret : (dwI2cXfer base wBuf wLen rBuf rLen).Returns t (status, rBuf'))
    (hstatus : status.isError = false) :
    rBuf' = stored rBuf ((dataCmdReads base t).map dataByte) ∧
      (dataCmdReads base t).length = rLen := by
  by_cases hvalid : xferInvalid wBuf wLen rBuf rLen = true
  · rw [dwI2cXfer, if_pos hvalid] at hret
    obtain ⟨-, heq⟩ := Prog.returns_pure.mp hret
    cases heq
    exact absurd hstatus (by decide)
  · have hx : (⟨base, wBuf, wLen, rLen⟩ : XferArgs).Valid rBuf := ⟨hw, hr⟩
    obtain ⟨got, hbuf, hgot, hsuccess⟩ :=
      Monitor.post_of_wp (dwI2cXfer_post hx (by simpa using hvalid)) hret
    obtain ⟨-, hreads, -⟩ := after_log base ((wBuf.getD []).take wLen) rLen t
    have hlength := (hsuccess hstatus).2
    have hreads' : ((dataCmdMonitor base ((wBuf.getD []).take wLen) rLen).after ⟨[], [], false⟩
        t).reads = dataCmdReads base t := hreads
    rw [XferArgs.written] at hgot hlength
    rw [hreads'] at hgot hlength
    rw [hgot]
    exact ⟨hbuf, hlength⟩

/-- **The command stream of a transfer.** At every moment of every accepted transfer, whatever the
registers read: the values written to `IC_DATA_CMD` are a prefix of the stream; the bytes read keep
behind the READ commands written, by at most eight, and both within `RLen`; `IC_DATA_CMD` is read
only right after RFNE was seen set. The transfer does not fault, and when it returns the bytes
read are at the front of `RBuf`; a success has written the whole stream and read `RLen` bytes. -/
theorem dwI2cXfer_commandStream (base : UInt64) (wBuf : Option (List UInt8)) (wLen : ℕ)
    (rBuf : Option (List UInt8)) (rLen : ℕ) (hvalid : xferInvalid wBuf wLen rBuf rLen = false)
    (hw : wLen ≤ (wBuf.getD []).length) (hr : rLen ≤ (rBuf.getD []).length)
    (t : List (Event Uefi)) (q : Prog Uefi (EfiStatus × Option (List UInt8)))
    (hreach : (dwI2cXfer base wBuf wLen rBuf rLen).Reaches t q) :
    dataCmdWrites base t <+: commandStream ((wBuf.getD []).take wLen) rLen ∧
    (dataCmdReads base t).length ≤ (dataCmdWrites base t).length - wLen ∧
    (dataCmdWrites base t).length - wLen ≤ rLen ∧
    (dataCmdWrites base t).length - wLen - (dataCmdReads base t).length ≤ dwRxInflightMax ∧
    (∀ t₁ ev t₂, t = t₁ ++ ev :: t₂ → IsDataCmdRead base ev.op →
      ∃ t₀ ev', t₁ = t₀ ++ [ev'] ∧ SeesRfne base ev') ∧
    (∀ f, q ≠ .fault f) ∧
    (∀ status rBuf', q = .pure (status, rBuf') →
      rBuf' = (rBuf.map fun bytes ↦ (dataCmdReads base t).map dataByte ++
        bytes.drop (dataCmdReads base t).length) ∧
      (status = .success → dataCmdWrites base t = commandStream ((wBuf.getD []).take wLen) rLen ∧
        (dataCmdReads base t).length = rLen)) := by
  have hx : (⟨base, wBuf, wLen, rLen⟩ : XferArgs).Valid rBuf := ⟨hw, hr⟩
  have hwp : (dataCmdMonitor base ((wBuf.getD []).take wLen) rLen).world.wp
      (dwI2cXfer base wBuf wLen rBuf rLen) (fun r s' ↦ ∃ got, r.2 = stored rBuf got ∧
        LogPost ⟨base, wBuf, wLen, rLen⟩ r.1 got s') ⟨[], [], false⟩ := dwI2cXfer_post hx hvalid
  have hlen : ((wBuf.getD []).take wLen).length = wLen := hx.length_written
  have haccepts := Monitor.accepts_of_wp hwp hreach
  -- what is allowed keeps the log sound, so that its invariant holds of the trace
  have hsound : DataCmdLog.Sound ((wBuf.getD []).take wLen) rLen ((dataCmdMonitor base
      ((wBuf.getD []).take wLen) rLen).after ⟨[], [], false⟩ t) :=
    Monitor.invariant_of_accepts (fun _ _ r h hallowed ↦ h.update r hallowed) haccepts
      ⟨List.nil_prefix, Nat.zero_le _, by rw [List.length_nil, Nat.zero_sub]; exact Nat.zero_le _⟩
  have hend := World.wp_sound hwp hreach (Monitor.path_after _ t)
  obtain ⟨hwrites, hreads, -⟩ := after_log base ((wBuf.getD []).take wLen) rLen t
  obtain ⟨hpre, hbehind, hflight⟩ := hsound
  rw [hwrites] at hpre
  rw [hwrites, hreads, hlen] at hbehind hflight
  have hle := hpre.length_le
  rw [commandStream, List.length_map, List.length_range, hlen] at hle
  refine ⟨hpre, hbehind, by omega, by omega, ?_, ?_, ?_⟩
  · rintro t₁ ev t₂ rfl hev
    have hallowed := haccepts t₁ ev t₂ rfl
    obtain ⟨e, r⟩ := ev
    cases e with
    | mmioRead32 a => exact (after_log _ _ _ t₁).2.2 (hallowed hev).1
    | _ => exact absurd hev id
  · rintro f rfl
    exact hend
  · rintro status rBuf' rfl
    obtain ⟨got, hbuf, hgot, hsuccess⟩ := hend
    rw [hreads] at hgot hsuccess
    rw [hwrites] at hsuccess
    subst hgot
    have hbuf' : rBuf' = stored rBuf ((dataCmdReads base t).map dataByte) := hbuf
    rw [hbuf', stored, List.length_map]
    exact ⟨rfl, fun hstatus ↦ hsuccess (by rw [hstatus]; rfl)⟩

theorem dwI2cXfer_commandStream_oneByteRead :
    dataCmdWrites 0 oneByteRead = commandStream [] 1 ∧ (dataCmdReads 0 oneByteRead).length = 1 :=
  ((dwI2cXfer_commandStream 0 none 0 (some [0]) 1 rfl (by decide) (by decide) oneByteRead _
    returns_oneByteRead).2.2.2.2.2.2 _ _ rfl).2 rfl

end TouchI2c
