import TouchI2c.DwI2c.Footprint
import TouchI2c.DwI2c.Device

/-!
# When a successful transfer is finished

The state machine of the controller takes the queued commands when it likes, and `MST_ACTIVITY` only
says that it is not idle. What it has put on the bus is a log of events; with the commands still
pending it accounts for everything that was ever queued.

## The account

`Tracks` is that account: of the commands queued, those that are no longer pending have gone over
the bus, and the bytes that their READ commands brought are in the RX FIFO or have been taken. Every
step of the machine that is not an abort conserves it, and the two accesses of the loop add a
pending command and a taken byte.

A transfer that reads is finished when `DwI2cXfer` returns `EFI_SUCCESS`, because its last byte
answers its last command: nothing is pending when it has been received (`InTransfer.settled`). What
may still fail is the STOP of that command, so the machine has a parameter `late` that says whether
an abort can latch during it. A transfer that only writes need not even have started.

## The failing runs

Both failing directions are runs of the machine: the loop of a transfer that only writes queues
everything while the machine stays idle; the loop of a transfer that reads runs to its end, and then
the abort comes between the read of `RAW_INTR_STAT` and the read of `MST_ACTIVITY`.
-/

namespace TouchI2c

open CMemory Interaction

/-! ## The controller -/

/-- What happens on the bus. -/
inductive BusEvent where
  | done (cmd : UInt32)
  | stop
  deriving DecidableEq

/-- What the state machine is doing. -/
inductive DwPhase where
  | idle
  | executing (cmd : UInt32)
  /-- Between two commands of a transfer. -/
  | holding
  | stopping
  deriving DecidableEq

/-- The controller with what it has done on the bus. -/
structure DwMachine where
  tx : List UInt32
  rx : List UInt8
  phase : DwPhase
  abort : Bool
  log : List BusEvent

/-- Bit 8: a READ command. -/
def isReadWord (cmd : UInt32) : Bool := cmd.toNat.testBit 8

/-- Bit 9: a STOP follows the command. -/
def isStopWord (cmd : UInt32) : Bool := cmd.toNat.testBit 9

namespace DwMachine

/-- The machine after it has executed `cmd`. -/
def executed (m : DwMachine) (cmd : UInt32) : DwMachine :=
  { m with
    phase := if isStopWord cmd then .stopping else .holding
    log := m.log ++ [.done cmd] }

/-- One step of the machine on its own. `late` says whether it may still abort while it puts the
STOP on the bus. -/
inductive Step (late : Bool) : DwMachine → DwMachine → Prop
  | take {m : DwMachine} {cmd : UInt32} {tx : List UInt32}
      (hphase : m.phase = .idle ∨ m.phase = .holding) (htx : m.tx = cmd :: tx) :
      Step late m { m with tx := tx, phase := .executing cmd }
  | write {m : DwMachine} {cmd : UInt32} (hphase : m.phase = .executing cmd)
      (hcmd : isReadWord cmd = false) : Step late m (m.executed cmd)
  | read {m : DwMachine} {cmd : UInt32} (hphase : m.phase = .executing cmd)
      (hcmd : isReadWord cmd = true) (b : UInt8) :
      Step late m { m.executed cmd with rx := m.rx ++ [b] }
  | stop {m : DwMachine} (hphase : m.phase = .stopping) :
      Step late m { m with phase := .idle, log := m.log ++ [.stop] }
  | abort {m : DwMachine} (hphase : m.phase ≠ .idle) (hlate : m.phase = .stopping → late = true) :
      Step late m { m with tx := [], phase := .idle, abort := true }

/-- What a register may read, and the machine after it. -/
def Reads (m : DwMachine) (off : UInt64) (r : UInt32) (m' : DwMachine) : Prop :=
  if off = dwIcRawIntrStat then (r &&& dwIcIntrTxAbrt ≠ 0 ↔ m.abort = true) ∧ m' = m
  else if off = dwIcStatus then
    (r &&& dwIcStatusMstActivity ≠ 0 ↔ m.phase ≠ .idle) ∧
      (r &&& dwIcStatusRfne ≠ 0 ↔ m.rx ≠ []) ∧ m' = m
  else if off = dwIcDataCmd then
    (m.rx = [] ∧ m' = m) ∨ ∃ rx, m.rx = dataByte r :: rx ∧ m' = { m with rx := rx }
  else if off = dwIcClrTxAbrt then m' = { m with abort := false }
  else m' = m

/-- What a write to a register may do. A command written while an abort is latched may be
dropped, and a disable flushes the FIFOs. -/
def Writes (m : DwMachine) (off : UInt64) (v : UInt32) (m' : DwMachine) : Prop :=
  if off = dwIcDataCmd then m' = { m with tx := m.tx ++ [v] } ∨ (m.abort = true ∧ m' = m)
  else if off = dwIcEnable ∧ v &&& dwIcEnableEnable = 0 then
    m' = { m with tx := [], rx := [], phase := .idle }
  else m' = m

/-- The commands that have been queued and not executed. -/
def pending (m : DwMachine) : List UInt32 :=
  match m.phase with
  | .executing cmd => cmd :: m.tx
  | _ => m.tx

/-- What the bus has seen when the STOP it may be seeing is over. -/
def history (m : DwMachine) : List BusEvent :=
  match m.phase with
  | .stopping => m.log ++ [.stop]
  | _ => m.log

end DwMachine

/-- The machine as a device. -/
def dwMachine (late : Bool) : Device DwMachine where
  Step := DwMachine.Step late
  Reads := DwMachine.Reads
  Writes := DwMachine.Writes

/-! ## What the claim of success says -/

/-- Nothing is left of an earlier transfer that would answer this one. -/
structure DwMachine.Fresh (m : DwMachine) : Prop where
  rx : m.rx = []
  reads : ∀ cmd ∈ m.pending, isReadWord cmd = false
  holding : m.phase = .holding → ∃ l cmd, m.log = l ++ [.done cmd]

/-- Every one of the commands has been executed without an abort, the STOP is over, and nothing
waits in the TX FIFO. -/
structure DwMachine.Finished (commands : List UInt32) (m : DwMachine) : Prop where
  tx : m.tx = []
  phase : m.phase = .idle
  abort : m.abort = false
  log : ∃ before, m.log = before ++ commands.map .done ++ [.stop]

/-- The commands of a transfer. -/
def xferCommands (w : List UInt8) (rLen : ℕ) : List UInt32 :=
  (List.range (w.length + rLen)).map (commandAt w rLen)

/-- Success means that the transfer is finished. -/
def FinishesOnSuccess (late : Bool) (base : UInt64) (wBuf : Option (List UInt8)) (wLen : ℕ)
    (rBuf : Option (List UInt8)) (rLen : ℕ) : Prop :=
  ∀ m r m', m.Fresh →
    ((dwMachine late).world base).Runs (dwI2cXfer base wBuf wLen rBuf rLen) m r m' →
    r.1 = .success → m'.Finished (xferCommands ((wBuf.getD []).take wLen) rLen)

/-! ## Commands on the bus -/

/-- What one command does on the bus. -/
def busOfCommand (cmd : UInt32) : List BusEvent :=
  .done cmd :: if isStopWord cmd then [.stop] else []

/-- What commands do on the bus. -/
def busOf (cmds : List UInt32) : List BusEvent := cmds.flatMap busOfCommand

/-- How many bytes commands bring. -/
def readCount (cmds : List UInt32) : ℕ := cmds.countP isReadWord

theorem busOf_append (cmds cmds' : List UInt32) : busOf (cmds ++ cmds') = busOf cmds ++ busOf cmds' :=
  List.flatMap_append

theorem busOf_singleton (cmd : UInt32) : busOf [cmd] = busOfCommand cmd := by
  rw [busOf, List.flatMap_singleton]

theorem busOf_eq_map {cmds : List UInt32} (h : ∀ cmd ∈ cmds, isStopWord cmd = false) :
    busOf cmds = cmds.map .done := by
  induction cmds with
  | nil => rfl
  | cons cmd cmds ih =>
    have htail := ih fun c hc ↦ h c (List.mem_cons_of_mem _ hc)
    have hhead := h cmd List.mem_cons_self
    rw [busOf, List.flatMap_cons, ← busOf, htail, busOfCommand, hhead]
    rfl

section

variable {w : List UInt8} {rLen n : ℕ}

theorem take_succ_xferCommands (h : n < w.length + rLen) :
    (xferCommands w rLen).take (n + 1) = (xferCommands w rLen).take n ++ [commandAt w rLen n] := by
  have hlen : n < (xferCommands w rLen).length := by
    rwa [xferCommands, List.length_map, List.length_range]
  rw [List.take_add_one, List.getElem?_eq_getElem hlen, Option.toList_some]
  simp only [xferCommands, List.getElem_map, List.getElem_range]

theorem take_length_xferCommands :
    (xferCommands w rLen).take (w.length + rLen) = xferCommands w rLen := by
  rw [List.take_of_length_le]
  rw [xferCommands, List.length_map, List.length_range]

/-- The bytes a transfer reads answer its READ commands. -/
theorem readCount_take_xferCommands (h : n ≤ w.length + rLen) :
    readCount ((xferCommands w rLen).take n) = n - w.length := by
  induction n with
  | zero => rw [List.take_zero, Nat.zero_sub]; rfl
  | succ n ih =>
    rw [take_succ_xferCommands h, readCount, List.countP_append, ← readCount,
      ih (Nat.le_of_succ_le h), List.countP_singleton, isReadWord, isRead_commandAt]
    by_cases hn : w.length ≤ n
    · rw [decide_eq_true hn, if_pos rfl]
      omega
    · rw [decide_eq_false hn, if_neg Bool.false_ne_true]
      omega

theorem xferCommands_eq_append (h : 0 < w.length + rLen) :
    ∃ cmds cmd, xferCommands w rLen = cmds ++ [cmd] ∧ (∀ c ∈ cmds, isStopWord c = false) ∧
      isStopWord cmd = true ∧ isReadWord cmd = decide (0 < rLen) := by
  obtain ⟨n, hn⟩ := Nat.exists_eq_succ_of_ne_zero h.ne'
  refine ⟨(xferCommands w rLen).take n, commandAt w rLen n, ?_, ?_, ?_, ?_⟩
  · rw [← take_succ_xferCommands (by omega), ← Nat.succ_eq_add_one, ← hn, take_length_xferCommands]
  · intro c hc
    rw [xferCommands, ← List.map_take, List.mem_map] at hc
    obtain ⟨i, hi, rfl⟩ := hc
    rw [List.take_range, List.mem_range] at hi
    rw [isStopWord, isStop_commandAt, decide_eq_false (by omega)]
  · rw [isStopWord, isStop_commandAt, decide_eq_true (by omega)]
  · rw [isReadWord, isRead_commandAt, decide_eq_decide]
    omega

end

/-! ## What the machine has done -/

namespace DwMachine

variable {late : Bool} {m m' : DwMachine} {before : List BusEvent} {queued : List UInt32}
  {old : ℕ}

/-- Conservation: of the commands `queued`, those that are not pending have gone over the bus and
their bytes have been received. `old` counts the bytes that the driver has taken. -/
structure Tracks (before : List BusEvent) (queued : List UInt32) (old : ℕ) (m : DwMachine) :
    Prop where
  executed : ∃ cmds, queued = cmds ++ m.pending ∧ m.history = before ++ busOf cmds ∧
    old + m.rx.length = readCount cmds
  holding : m.phase = .holding → ∃ l cmd, m.log = l ++ [.done cmd]

theorem Step.abort_of_abort (hstep : Step late m m') (h : m.abort = true) : m'.abort = true := by
  cases hstep with
  | take => exact h
  | write => exact h
  | read => exact h
  | stop => exact h
  | abort => rfl

theorem history_executed (cmd : UInt32) :
    (m.executed cmd).history = m.log ++ busOfCommand cmd := by
  rw [history, executed, busOfCommand]
  by_cases hstop : isStopWord cmd = true
  · rw [if_pos hstop, if_pos hstop]
    exact List.append_assoc _ _ _
  · rw [if_neg hstop, if_neg hstop]

theorem pending_executed (cmd : UInt32) : (m.executed cmd).pending = m.tx := by
  rw [pending, executed]
  by_cases hstop : isStopWord cmd = true
  · rw [if_pos hstop]
  · rw [if_neg hstop]

/-- The command that is executing goes over the bus. -/
theorem Tracks.execute {cmd : UInt32} {rx : List UInt8} (h : m.Tracks before queued old)
    (hphase : m.phase = .executing cmd)
    (hrx : rx.length = m.rx.length + if isReadWord cmd then 1 else 0) :
    Tracks before queued old { m.executed cmd with rx := rx } := by
  obtain ⟨⟨cmds, hqueued, hhistory, hreads⟩, -⟩ := h
  have hpending : m.pending = cmd :: m.tx := by rw [pending, hphase]
  have hlog : m.history = m.log := by rw [history, hphase]
  refine ⟨⟨cmds ++ [cmd], ?_, ?_, ?_⟩, fun _ ↦ ⟨m.log, cmd, rfl⟩⟩
  · have hleft : pending { m.executed cmd with rx := rx } = m.tx := pending_executed cmd
    rw [hleft, hqueued, hpending, List.append_assoc, List.singleton_append]
  · have hbus : history { m.executed cmd with rx := rx } = m.log ++ busOfCommand cmd :=
      history_executed cmd
    rw [hbus, ← hlog, hhistory, busOf_append, busOf_singleton, List.append_assoc]
  · rw [readCount, List.countP_append, ← readCount, ← hreads, List.countP_singleton, hrx,
      Nat.add_assoc]

/-- Every step that is not an abort conserves the commands. -/
theorem Tracks.step (h : m.Tracks before queued old) (hstep : Step late m m')
    (habort : m'.abort = false) : m'.Tracks before queued old := by
  cases hstep with
  | @take cmd tx hphase htx =>
    obtain ⟨⟨cmds, hqueued, hhistory, hreads⟩, -⟩ := h
    refine ⟨⟨cmds, ?_, ?_, hreads⟩, fun hhold ↦ by contradiction⟩
    · rw [hqueued, pending, pending]
      rcases hphase with hphase | hphase <;> rw [hphase, htx]
    · rw [← hhistory, history, history]
      rcases hphase with hphase | hphase <;> rw [hphase]
  | @write cmd hphase hcmd => exact h.execute hphase (by rw [hcmd]; rfl)
  | @read cmd hphase hcmd b =>
    exact h.execute hphase (by rw [hcmd, List.length_append, List.length_singleton]; rfl)
  | stop hphase =>
    obtain ⟨⟨cmds, hqueued, hhistory, hreads⟩, -⟩ := h
    refine ⟨⟨cmds, ?_, ?_, hreads⟩, fun hhold ↦ by contradiction⟩
    · rw [hqueued, pending, pending, hphase]
    · rw [← hhistory, history, history, hphase]
  | abort => contradiction

theorem Tracks.queue (h : m.Tracks before queued old) (cmd : UInt32) :
    Tracks before (queued ++ [cmd]) old { m with tx := m.tx ++ [cmd] } := by
  obtain ⟨⟨cmds, hqueued, hhistory, hreads⟩, hholding⟩ := h
  refine ⟨⟨cmds, ?_, hhistory, hreads⟩, hholding⟩
  rw [hqueued, List.append_assoc]
  cases hphase : m.phase <;> simp only [pending, hphase, List.cons_append]

theorem Tracks.drain {b : UInt8} {rx : List UInt8} (h : m.Tracks before queued old)
    (hrx : m.rx = b :: rx) : Tracks before queued (old + 1) { m with rx := rx } := by
  obtain ⟨⟨cmds, hqueued, hhistory, hreads⟩, hholding⟩ := h
  refine ⟨⟨cmds, hqueued, hhistory, ?_⟩, hholding⟩
  rw [← hreads, hrx, List.length_cons]
  exact Nat.add_right_comm _ _ _

/-- What a machine without old READ commands does for a transfer of the commands `cmds`, unless
it aborts. -/
def InTransfer (cmds : List UInt32) (n : ℕ) (got : List UInt8) (m : DwMachine) : Prop :=
  m.abort = false → ∃ before queued, readCount queued = 0 ∧
    m.Tracks before (queued ++ cmds.take n) got.length

theorem InTransfer.step {cmds : List UInt32} {n : ℕ} {got : List UInt8}
    (h : m.InTransfer cmds n got) (hstep : Step late m m') : m'.InTransfer cmds n got := by
  intro habort
  have hclear : m.abort = false := by
    by_contra hset
    exact absurd (hstep.abort_of_abort (by simpa using hset)) (by simp [habort])
  obtain ⟨before, queued, hold, htracks⟩ := h hclear
  exact ⟨before, queued, hold, htracks.step hstep habort⟩

/-- Nothing old is in the way, so the transfer may begin. -/
theorem Fresh.inTransfer (h : m.Fresh) (cmds : List UInt32) : m.InTransfer cmds 0 [] := by
  intro _
  refine ⟨m.history, m.pending, ?_, ⟨⟨[], ?_, ?_, ?_⟩, h.holding⟩⟩
  · rw [readCount, List.countP_eq_zero]
    intro cmd hcmd
    rw [h.reads cmd hcmd]
    exact Bool.false_ne_true
  · rw [List.take_zero, List.append_nil, List.nil_append]
  · rw [busOf, List.flatMap_nil, List.append_nil]
  · rw [h.rx]
    rfl

theorem Fresh.step (h : m.Fresh) (hstep : Step late m m') : m'.Fresh := by
  cases hstep with
  | @take cmd tx hphase htx =>
    have hpending : m.pending = cmd :: tx := by
      rw [pending]
      rcases hphase with hphase | hphase <;> rw [hphase, htx]
    exact ⟨h.rx, fun c hc ↦ h.reads c (hpending ▸ hc), fun hhold ↦ by contradiction⟩
  | @write cmd hphase hcmd =>
    refine ⟨h.rx, fun c hc ↦ h.reads c ?_, fun _ ↦ ⟨m.log, cmd, rfl⟩⟩
    rw [pending_executed] at hc
    rw [pending, hphase]
    exact List.mem_cons_of_mem _ hc
  | @read cmd hphase hcmd b =>
    have hmem : cmd ∈ m.pending := by rw [pending, hphase]; exact List.mem_cons_self
    rw [h.reads cmd hmem] at hcmd
    contradiction
  | stop hphase =>
    refine ⟨h.rx, fun c hc ↦ h.reads c ?_, fun hhold ↦ by contradiction⟩
    rw [pending, hphase]
    exact hc
  | abort => exact ⟨h.rx, fun c hc ↦ absurd hc List.not_mem_nil, fun hhold ↦ by contradiction⟩

/-- Everything has been executed, and only the STOP may still be on its way. -/
structure Settled (cmds : List UInt32) (m : DwMachine) : Prop where
  abort : m.abort = false
  tx : m.tx = []
  phase : m.phase = .idle ∨ m.phase = .stopping
  history : ∃ before, m.history = before ++ cmds.map .done ++ [.stop]

/-- The last byte answers the last command, so nothing is pending when it has been received. -/
theorem InTransfer.settled {w : List UInt8} {rLen : ℕ} {got : List UInt8} (hrLen : 0 < rLen)
    (h : m.InTransfer (xferCommands w rLen) (w.length + rLen) got) (hgot : got.length = rLen)
    (habort : m.abort = false) : m.Settled (xferCommands w rLen) := by
  obtain ⟨before, queued, hold, ⟨cmds, hqueued, hhistory, hreads⟩, hholding⟩ := h habort
  rw [hgot] at hreads
  have htotal := @readCount_take_xferCommands w rLen _ le_rfl
  rw [take_length_xferCommands] at hqueued htotal
  have hpos : 0 < w.length + rLen := by omega
  obtain ⟨init, last, hcmds, hinit, hstop, hread⟩ := xferCommands_eq_append hpos
  rw [decide_eq_true hrLen] at hread
  -- the READ commands balance, so none is pending
  have hbalance : readCount cmds + readCount m.pending = rLen := by
    have hcount := congrArg readCount hqueued
    rw [readCount, readCount, List.countP_append, List.countP_append, ← readCount, ← readCount,
      ← readCount, ← readCount, hold, htotal] at hcount
    omega
  have hpending : m.pending = [] := by
    rcases List.eq_nil_or_concat m.pending with hnil | ⟨rest, cmd, hconcat⟩
    · exact hnil
    · rw [List.concat_eq_append] at hconcat
      have hlast : cmd = last := by
        have := congrArg List.getLast? hqueued
        simpa [hcmds, hconcat] using this.symm
      rw [hconcat, readCount, readCount, List.countP_append, List.countP_singleton, hlast, hread,
        if_pos rfl] at hbalance
      rw [readCount] at hreads
      omega
  rw [hpending, List.append_nil, hcmds, ← List.append_assoc] at hqueued
  have hbus : m.history = (before ++ busOf queued) ++ (xferCommands w rLen).map .done ++ [.stop] := by
    rw [hhistory, ← hqueued, busOf_append, busOf_append, busOf_eq_map hinit, busOf_singleton,
      busOfCommand, hstop, hcmds]
    simp
  refine ⟨habort, ?_, ?_, _, hbus⟩
  · cases hphase : m.phase <;> simp only [pending, hphase, reduceCtorEq] at hpending <;>
      exact hpending
  · cases hphase : m.phase with
    | idle => exact .inl rfl
    | stopping => exact .inr rfl
    | executing cmd => simp [pending, hphase] at hpending
    | holding =>
      -- between two commands the last event on the bus is no STOP
      obtain ⟨l, cmd, hlog⟩ := hholding hphase
      rw [DwMachine.history, hphase, hlog] at hbus
      have := congrArg List.getLast? hbus
      simp at this

/-- Nothing can go wrong any more if the STOP cannot abort. -/
theorem Settled.step {cmds : List UInt32} (h : m.Settled cmds) (hstep : Step false m m') :
    m'.Settled cmds := by
  cases hstep with
  | take hphase htx => exact absurd (h.tx.symm.trans htx) (by simp)
  | write hphase => rcases h.phase with hp | hp <;> exact absurd (hp.symm.trans hphase) (by simp)
  | read hphase => rcases h.phase with hp | hp <;> exact absurd (hp.symm.trans hphase) (by simp)
  | stop hphase =>
    obtain ⟨before, hhistory⟩ := h.history
    rw [DwMachine.history, hphase] at hhistory
    exact ⟨h.abort, h.tx, .inl rfl, before, hhistory⟩
  | abort hphase hlate =>
    rcases h.phase with hp | hp
    · exact absurd hp hphase
    · exact absurd (hlate hp) Bool.false_ne_true

/-- Once the machine is idle the transfer is over. -/
theorem Settled.finished {cmds : List UInt32} (h : m.Settled cmds) (hidle : m.phase = .idle) :
    m.Finished cmds := by
  obtain ⟨before, hhistory⟩ := h.history
  rw [DwMachine.history, hidle] at hhistory
  exact ⟨h.tx, hidle, h.abort, before, hhistory⟩

theorem Finished.step {cmds : List UInt32} (h : m.Finished cmds) (hstep : Step late m m') :
    m'.Finished cmds := by
  cases hstep with
  | take hphase htx => exact absurd (h.tx.symm.trans htx) (by simp)
  | write hphase => exact absurd (h.phase.symm.trans hphase) (by simp)
  | read hphase => exact absurd (h.phase.symm.trans hphase) (by simp)
  | stop hphase => exact absurd (h.phase.symm.trans hphase) (by simp)
  | abort hphase => exact absurd h.phase hphase

/-! ## Register accesses -/

theorem reads_rawIntr {r : UInt32} (h : (dwMachine late).Reads m dwIcRawIntrStat r m') :
    (r &&& dwIcIntrTxAbrt ≠ 0 ↔ m.abort = true) ∧ m' = m := h

theorem reads_status {r : UInt32} (h : (dwMachine late).Reads m dwIcStatus r m') :
    (r &&& dwIcStatusMstActivity ≠ 0 ↔ m.phase ≠ .idle) ∧
      (r &&& dwIcStatusRfne ≠ 0 ↔ m.rx ≠ []) ∧ m' = m := h

theorem reads_dataCmd {r : UInt32} (h : (dwMachine late).Reads m dwIcDataCmd r m') (hrx : m.rx ≠ []) :
    ∃ rx, m.rx = dataByte r :: rx ∧ m' = { m with rx := rx } := by
  rcases h with ⟨hnil, -⟩ | h
  · exact absurd hnil hrx
  · exact h

theorem reads_clrTxAbrt {r : UInt32} (h : (dwMachine late).Reads m dwIcClrTxAbrt r m') :
    m' = { m with abort := false } := h

theorem reads_clrStopDet {r : UInt32} (h : (dwMachine late).Reads m dwIcClrStopDet r m') : m' = m := h

theorem writes_dataCmd {v : UInt32} (h : (dwMachine late).Writes m dwIcDataCmd v m') :
    m' = { m with tx := m.tx ++ [v] } ∨ (m.abort = true ∧ m' = m) := h

/-- A received byte stays until the driver takes it. -/
theorem rx_ne_nil_step (h : m.rx ≠ []) (hstep : (dwMachine late).Step m m') : m'.rx ≠ [] := by
  cases hstep with
  | read => exact List.append_ne_nil_of_left_ne_nil h _
  | _ => exact h

end DwMachine

/-! ## Transfers that read -/

section

variable {late : Bool} {x : XferArgs} {rBuf : Option (List UInt8)} {m : DwMachine} {base : UInt64}

private theorem wp_handleAbort_machine :
    ((dwMachine late).world base).wp (handleAbort base)
      (fun status m' ↦ status = .success → m'.Finished (xferCommands x.written x.rLen)) m := by
  have herror := @handleAbort_within base (fun _ ↦ True) fun _ _ ↦ trivial
  refine World.wp_mono (World.wp_of_within (J := fun _ ↦ True) herror (fun _ _ _ _ ↦ trivial)
    (fun _ _ _ _ ↦ ⟨trivial, fun _ _ _ ↦ trivial⟩) trivial) fun status _ h hsuccess ↦ ?_
  exact absurd hsuccess h.1

private theorem machineRules (hx : x.Valid rBuf) :
    LoopRules ((dwMachine late).world x.base) x
      (DwMachine.InTransfer (xferCommands x.written x.rLen))
      (fun status _ m' ↦ status = .success →
        m'.Finished (xferCommands x.written x.rLen)) where
  rawIntr {n got m} h := by
    refine Device.wp_rd (fun _ _ h hstep ↦ h.step hstep) h ?_
    intro m₁ r m₂ h₁ hreads
    obtain ⟨-, rfl⟩ := DwMachine.reads_rawIntr hreads
    split
    · exact wp_handleAbort_machine
    · exact h₁
  status {n got m} h := by
    refine Device.wp_rd (fun _ _ h hstep ↦ h.step hstep) h ?_
    intro m₁ r m₂ h₁ hreads
    obtain ⟨-, hrfne, rfl⟩ := DwMachine.reads_status hreads
    refine ⟨h₁, fun hset _ ↦ ?_⟩
    refine Device.wp_rd (fun _ _ h hstep ↦ And.intro (h.1.step hstep)
      (DwMachine.rx_ne_nil_step h.2 hstep)) ⟨h₁, hrfne.mp hset⟩ ?_
    intro m₃ v m₄ h₃ hreads
    obtain ⟨rx, hrx, rfl⟩ := DwMachine.reads_dataCmd hreads h₃.2
    intro hclear
    obtain ⟨before, queued, hold, htracks⟩ := h₃.1 hclear
    refine ⟨before, queued, hold, ?_⟩
    rw [List.length_append, List.length_singleton]
    exact htracks.drain hrx
  dataCmd {n got m} h hlt _ := by
    refine Device.wp_wr (fun _ _ h hstep ↦ h.step hstep) h ?_
    intro m₁ m₂ h₁ hwrites hclear
    rcases DwMachine.writes_dataCmd hwrites with rfl | ⟨hset, rfl⟩
    · obtain ⟨before, queued, hold, htracks⟩ := h₁ hclear
      refine ⟨before, queued, hold, ?_⟩
      rw [take_succ_xferCommands (by rwa [hx.length_written]), ← List.append_assoc]
      exact htracks.queue _
    · exact absurd (hset.symm.trans hclear) Bool.noConfusion
  recover {n got m} h := by
    have hrecover := @dwI2cRecover_within x.base (fun _ ↦ True) fun _ _ ↦ trivial
    exact World.wp_mono (World.wp_of_within (J := fun _ ↦ True) hrecover (fun _ _ _ _ ↦ trivial)
      (fun _ _ _ _ ↦ ⟨trivial, fun _ _ _ ↦ trivial⟩) trivial) fun _ _ _ hsuccess ↦
        EfiStatus.noConfusion hsuccess

/-- The wait for the STOP of a transfer that has received everything. -/
private theorem wp_xferStop_machine (hx : x.Valid rBuf) (hrLen : 0 < x.rLen) {got : List UInt8}
    (h : m.InTransfer (xferCommands x.written x.rLen) (x.wLen + x.rLen) got)
    (hgot : got.length = x.rLen) (n : ℕ) :
    ((dwMachine false).world x.base).wp (xferStop x n)
      (fun status m' ↦ status = .success → m'.Finished (xferCommands x.written x.rLen)) m := by
  induction n generalizing m with
  | zero =>
    rw [xferStop, World.wp_bind]
    exact World.wp_mono ((machineRules hx).recover h) fun _ _ h₁ ↦ h₁
  | succ n ih =>
    rw [xferStop, World.wp_bind]
    refine Device.wp_rd (fun _ _ h hstep ↦ h.step hstep) h ?_
    intro m₁ r m₂ h₁ hreads
    obtain ⟨habort, rfl⟩ := DwMachine.reads_rawIntr hreads
    split
    · exact wp_handleAbort_machine
    · next hclear =>
      have hclear' : m₂.abort = false := by
        by_contra hset
        exact hclear (habort.mpr (by simpa using hset))
      have hsettled : m₂.Settled (xferCommands x.written x.rLen) := by
        refine DwMachine.InTransfer.settled hrLen ?_ hgot hclear'
        rwa [hx.length_written]
      rw [World.wp_bind]
      refine Device.wp_rd (fun _ _ h hstep ↦ And.intro (h.1.step hstep) (h.2.step hstep))
        ⟨hsettled, h₁⟩ ?_
      intro m₃ r m₄ h₃ hreads
      obtain ⟨hactivity, -, rfl⟩ := DwMachine.reads_status hreads
      split
      · next hquiet =>
        have hidle : m₄.phase = .idle := by
          by_contra hbusy
          exact hactivity.mpr hbusy hquiet
        rw [World.wp_bind]
        refine Device.wp_rd (fun _ _ h hstep ↦ h.step hstep) (h₃.1.finished hidle) ?_
        intro m₅ r m₆ h₅ hreads
        obtain rfl := DwMachine.reads_clrStopDet hreads
        exact fun _ ↦ h₅
      · exact ih h₃.2

/-- A transfer that reads is finished when it returns success. -/
private theorem finishesOnSuccess_of_reads {wBuf : Option (List UInt8)} {wLen rLen : ℕ}
    (hbuf : XferBuffers wBuf wLen rBuf rLen) (hrLen : 0 < rLen) :
    FinishesOnSuccess false base wBuf wLen rBuf rLen := by
  intro m r m' hfresh hruns hsuccess
  obtain ⟨t, hret, hpath⟩ := hruns
  by_cases hvalid : xferInvalid wBuf wLen rBuf rLen = true
  · rw [dwI2cXfer, if_pos hvalid] at hret
    obtain ⟨-, rfl⟩ := Prog.returns_pure.mp hret
    exact absurd hsuccess EfiStatus.noConfusion
  · have hx : (⟨base, wBuf, wLen, rLen⟩ : XferArgs).Valid rBuf := ⟨hbuf.w, hbuf.r⟩
    have hstart : ((dwMachine false).world base).wp (regRd base dwIcClrTxAbrt) (fun _ ↦
        ((dwMachine false).world base).wp (regRd base dwIcClrStopDet) (fun _ ↦
          DwMachine.InTransfer (xferCommands ((wBuf.getD []).take wLen) rLen) 0 [])) m := by
      refine Device.wp_rd (fun _ _ h hstep ↦ h.step hstep) hfresh ?_
      intro m₁ r m₂ h₁ hreads
      obtain rfl := DwMachine.reads_clrTxAbrt hreads
      have h₂ : DwMachine.Fresh { m₁ with abort := false } := ⟨h₁.rx, h₁.reads, h₁.holding⟩
      refine Device.wp_rd (fun _ _ h hstep ↦ h.step hstep) h₂ ?_
      intro m₃ r m₄ h₃ hreads
      obtain rfl := DwMachine.reads_clrStopDet hreads
      exact h₃.inTransfer _
    obtain ⟨got, -, hfinished⟩ := World.wp_returns ((machineRules hx).wp_dwI2cXfer_of_stop hx
      (by simpa using hvalid) hstart fun got m h hgot ↦ wp_xferStop_machine hx hrLen h hgot _)
      hret hpath
    exact hfinished hsuccess

end

/-! ## Runs that end too early -/

namespace DwMachine

variable {late : Bool} {m m' : DwMachine} {base : UInt64}

/-- What `IC_STATUS` may read. -/
def statusWord (m : DwMachine) : UInt32 :=
  dwIcStatusTfnf ||| (if m.phase = .idle then 0 else dwIcStatusMstActivity) |||
    (if m.rx = [] then 0 else dwIcStatusRfne)

theorem statusWord_tfnf (m : DwMachine) : m.statusWord &&& dwIcStatusTfnf ≠ 0 := by
  rw [statusWord]
  split <;> split <;> decide

theorem statusWord_rfne (m : DwMachine) : m.statusWord &&& dwIcStatusRfne ≠ 0 ↔ m.rx ≠ [] := by
  rw [statusWord]
  by_cases hrx : m.rx = []
  · rw [if_pos hrx]
    split <;> simp [hrx] <;> decide
  · rw [if_neg hrx]
    split <;> simp [hrx] <;> decide

theorem statusWord_mstActivity (m : DwMachine) :
    m.statusWord &&& dwIcStatusMstActivity ≠ 0 ↔ m.phase ≠ .idle := by
  rw [statusWord]
  by_cases hidle : m.phase = .idle
  · rw [if_pos hidle]
    split <;> simp [hidle] <;> decide
  · rw [if_neg hidle]
    split <;> simp [hidle] <;> decide

theorem runs_status (hdrift : Relation.ReflTransGen (dwMachine late).Step m m') :
    ((dwMachine late).world base).Runs (regRd base dwIcStatus) m m'.statusWord m' :=
  Device.runs_rd hdrift ⟨m'.statusWord_mstActivity, m'.statusWord_rfne, rfl⟩

theorem runs_rawIntr (habort : m.abort = false) :
    ((dwMachine late).world base).Runs (regRd base dwIcRawIntrStat) m 0 m :=
  Device.runs_rd .refl ⟨⟨fun h ↦ absurd rfl h, fun h ↦ absurd (h.symm.trans habort) Bool.noConfusion⟩,
    rfl⟩

/-- The machine may execute any number of write commands between two accesses. -/
theorem execute_writes {cmds tx : List UInt32}
    (hcmds : ∀ cmd ∈ cmds, isReadWord cmd = false ∧ isStopWord cmd = false)
    (hphase : m.phase = .idle ∨ m.phase = .holding) (htx : m.tx = cmds ++ tx) :
    ∃ m', Relation.ReflTransGen (dwMachine late).Step m m' ∧ m'.tx = tx ∧ m'.rx = m.rx ∧
      m'.abort = m.abort ∧ (m'.phase = .idle ∨ m'.phase = .holding) := by
  induction cmds generalizing m with
  | nil => exact ⟨m, .refl, htx, rfl, rfl, hphase⟩
  | cons cmd cmds ih =>
    obtain ⟨hread, hstop⟩ := hcmds cmd List.mem_cons_self
    have htake : (dwMachine late).Step m { m with tx := cmds ++ tx, phase := .executing cmd } :=
      .take hphase htx
    have hwrite : (dwMachine late).Step { m with tx := cmds ++ tx, phase := .executing cmd }
        (executed { m with tx := cmds ++ tx, phase := .executing cmd } cmd) := .write rfl hread
    have hholding : (executed { m with tx := cmds ++ tx, phase := .executing cmd } cmd).phase
        = .holding := by
      rw [executed, hstop]
      rfl
    obtain ⟨m', hsteps, htx', hrx', habort', hphase'⟩ :=
      ih (fun c hc ↦ hcmds c (List.mem_cons_of_mem _ hc)) (.inr hholding) rfl
    exact ⟨m', .head htake (.head hwrite hsteps), htx', hrx', habort', hphase'⟩

/-- The machine may execute everything up to the one READ command at the end of the FIFO. -/
theorem execute_read {cmds : List UInt32} {cmd : UInt32}
    (hcmds : ∀ cmd ∈ cmds, isReadWord cmd = false ∧ isStopWord cmd = false)
    (hphase : m.phase = .idle ∨ m.phase = .holding) (htx : m.tx = cmds ++ [cmd])
    (hread : isReadWord cmd = true) :
    ∃ m', Relation.ReflTransGen (dwMachine late).Step m m' ∧ m'.tx = [] ∧ m'.rx = m.rx ++ [0] ∧
      m'.abort = m.abort ∧ m'.phase = if isStopWord cmd then .stopping else .holding := by
  obtain ⟨m₁, hsteps, htx₁, hrx₁, habort₁, hphase₁⟩ := @execute_writes late _ _ _ hcmds hphase htx
  have htake : (dwMachine late).Step m₁ { m₁ with tx := [], phase := .executing cmd } :=
    .take hphase₁ htx₁
  have hbyte : (dwMachine late).Step { m₁ with tx := [], phase := .executing cmd }
      { executed { m₁ with tx := [], phase := .executing cmd } cmd with rx := m₁.rx ++ [0] } :=
    .read rfl hread 0
  exact ⟨_, (hsteps.tail htake).tail hbyte, rfl, by rw [← hrx₁], habort₁, rfl⟩

end DwMachine

section

variable {late : Bool} {x : XferArgs} {rBuf : Option (List UInt8)} {m : DwMachine} {st : XferState}

theorem runs_regWr_dataCmd (cmd : UInt32) : ((dwMachine late).world x.base).Runs
    (regWr x.base dwIcDataCmd cmd) m () { m with tx := m.tx ++ [cmd] } :=
  Device.runs_wr .refl (.inl rfl)

/-- A pass that queues a write command while the machine stays idle. -/
private theorem runs_pass_write (hx : x.Valid rBuf) (hi : st.wSent < x.wLen)
    (hgot : st.rGot = st.rQueued) (habort : m.abort = false) :
    ((dwMachine late).world x.base).Runs (xferPass x st) m
      (.inl { st with wSent := st.wSent + 1, spin := 0 })
      { m with tx := m.tx ++ [commandAt x.written x.rLen st.wSent] } := by
  have hi' : st.wSent < x.written.length := hx.length_written.symm ▸ hi
  have hqueue : ((dwMachine late).world x.base).Runs (xferQueue x st m.statusWord) m
      ({ st with wSent := st.wSent + 1 }, true)
      { m with tx := m.tx ++ [commandAt x.written x.rLen st.wSent] } := by
    unfold xferQueue
    rw [if_pos ⟨hi, DwMachine.statusWord_tfnf m⟩]
    simp only [readPtr_w hx hi', Prog.ofChecked_ok, liftM, monadLift, MonadLift.monadLift,
      Prog.pure_bind']
    rw [commandAt_write hx hi']
    exact (runs_regWr_dataCmd _).bind (World.runs_pure _ _)
  unfold xferPass
  rw [if_pos (.inl hi)]
  refine (DwMachine.runs_rawIntr habort).bind ?_
  rw [if_neg (by decide)]
  refine (DwMachine.runs_status .refl).bind (hqueue.bind ?_)
  have hdrain : xferDrain x { st with wSent := st.wSent + 1 }
      = .pure ({ st with wSent := st.wSent + 1 }, false) := by
    unfold xferDrain
    rw [if_neg (by dsimp only; omega)]
    rfl
  dsimp only
  rw [hdrain]
  exact World.runs_pure _ _

/-- A pass that queues a READ command, has the machine execute everything queued, and takes the
byte. -/
private theorem runs_pass_read {got : List UInt8} (hx : x.Valid rBuf) {j : ℕ} (hj : j < x.rLen)
    (hlen : got.length = j) (habort : m.abort = false) (hrx : m.rx = [])
    (hphase : m.phase = .idle ∨ m.phase = .holding)
    (htx : ∀ cmd ∈ m.tx, isReadWord cmd = false ∧ isStopWord cmd = false) :
    ∃ m', ((dwMachine late).world x.base).Runs
      (xferPass x ⟨x.wLen, j, j, 0, 0, stored rBuf got⟩) m
      (.inl ⟨x.wLen, j + 1, j + 1, 0, 0, stored rBuf (got ++ [0])⟩) m' ∧
      m'.abort = false ∧ m'.tx = [] ∧ m'.rx = [] ∧
      m'.phase = if j + 1 = x.rLen then .stopping else .holding := by
  have hlength := hx.length_written
  set cmd := commandAt x.written x.rLen (x.wLen + j) with hcmd
  have hread : isReadWord cmd = true := by
    rw [hcmd, isReadWord, isRead_commandAt, decide_eq_true (by omega)]
  have hstop : isStopWord cmd = decide (j + 1 = x.rLen) := by
    rw [hcmd, isStopWord, isStop_commandAt, decide_eq_decide]
    omega
  -- the machine executes the READ before the driver looks for the byte
  obtain ⟨m₁, hsteps, htx₁, hrx₁, habort₁, hphase₁⟩ :=
    @DwMachine.execute_read late { m with tx := m.tx ++ [cmd] } m.tx cmd htx hphase rfl hread
  have hqueue : ((dwMachine late).world x.base).Runs
      (xferQueue x ⟨x.wLen, j, j, 0, 0, stored rBuf got⟩ m.statusWord) m
      (⟨x.wLen, j + 1, j, 0, 0, stored rBuf got⟩, true) { m with tx := m.tx ++ [cmd] } := by
    unfold xferQueue
    rw [if_neg (by dsimp only; omega), if_pos ⟨rfl, hj, DwMachine.statusWord_tfnf m⟩]
    simp only [subUnsigned_ok le_rfl, Prog.ofChecked_ok, liftM, monadLift, MonadLift.monadLift,
      Prog.pure_bind']
    have hflight : j - j < dwRxInflightMax := by rw [Nat.sub_self]; decide
    have hlast : j = x.rLen - 1 ↔ j + 1 = x.rLen := by omega
    rw [if_pos hflight, hcmd, commandAt_read hx]
    simp only [hlast]
    exact (runs_regWr_dataCmd _).bind (World.runs_pure _ _)
  have hbyte : m₁.rx = [0] := by rw [hrx₁, hrx, List.nil_append]
  have hdata : ((dwMachine late).world x.base).Runs (regRd x.base dwIcDataCmd) m₁ 0
      { m₁ with rx := [] } :=
    Device.runs_rd .refl (.inr ⟨[], hbyte, rfl⟩)
  have hdrain : ((dwMachine late).world x.base).Runs
      (xferDrain x ⟨x.wLen, j + 1, j, 0, 0, stored rBuf got⟩) { m with tx := m.tx ++ [cmd] }
      (⟨x.wLen, j + 1, j + 1, 0, 0, stored rBuf (got ++ [0])⟩, true) { m₁ with rx := [] } := by
    unfold xferDrain
    rw [if_pos (by dsimp only; omega)]
    refine (DwMachine.runs_status hsteps).bind ?_
    rw [if_pos (m₁.statusWord_rfne.mpr (by simp [hbyte]))]
    refine hdata.bind ?_
    have hroom : got.length < (rBuf.getD []).length := by have := hx.r; omega
    simp only [← hlen, writePtr_stored hroom, Prog.ofChecked_ok, liftM, monadLift,
      MonadLift.monadLift, Prog.pure_bind']
    exact World.runs_pure _ _
  refine ⟨{ m₁ with rx := [] }, ?_, habort₁.trans habort, htx₁, rfl, ?_⟩
  · unfold xferPass
    rw [if_pos (.inr (.inl hj))]
    refine (DwMachine.runs_rawIntr habort).bind ?_
    rw [if_neg (by decide)]
    exact (DwMachine.runs_status .refl).bind (hqueue.bind (hdrain.bind (World.runs_pure _ _)))
  · change m₁.phase = _
    rw [hphase₁, hstop]
    simp only [decide_eq_true_eq]

/-- The machine with commands queued and nothing done. -/
def DwMachine.queued (cmds : List UInt32) : DwMachine := ⟨cmds, [], .idle, false, []⟩

theorem DwMachine.fresh_queued_nil : (queued []).Fresh :=
  ⟨rfl, fun _ h ↦ absurd h List.not_mem_nil, DwPhase.noConfusion⟩

/-- The loop queues all write commands while the machine stays idle. -/
private theorem runs_writes (hx : x.Valid rBuf) {n k i : ℕ} (hik : i + k = x.wLen)
    {r : XferState × Option EfiStatus} {m' : DwMachine}
    (hrest : ((dwMachine late).world x.base).Runs
      (Prog.iterate (xferPass x) n ⟨x.wLen, 0, 0, 0, 0, rBuf⟩)
      (.queued ((xferCommands x.written x.rLen).take x.wLen)) r m') :
    ((dwMachine late).world x.base).Runs (Prog.iterate (xferPass x) (n + k) ⟨i, 0, 0, 0, 0, rBuf⟩)
      (.queued ((xferCommands x.written x.rLen).take i)) r m' := by
  induction k generalizing i with
  | zero =>
    obtain rfl : i = x.wLen := by omega
    exact hrest
  | succ k ih =>
    refine World.Runs.iterate (runs_pass_write hx (by dsimp only; omega) rfl rfl) ?_
    have hnext := ih (i := i + 1) (by omega)
    rw [take_succ_xferCommands (by rw [hx.length_written]; omega)] at hnext
    exact hnext

private theorem runs_pass_done (hsent : st.wSent = x.wLen) (hqueued : st.rQueued = x.rLen)
    (hgot : st.rGot = x.rLen) :
    ((dwMachine late).world x.base).Runs (xferPass x st) m (.inr (st, none)) m := by
  unfold xferPass
  rw [if_neg (by omega)]
  exact World.runs_pure _ _

/-- The loop reads every byte, and leaves the machine at the STOP. -/
private theorem runs_reads (hx : x.Valid rBuf) (n : ℕ) {k j : ℕ} (hjk : j + k + 1 = x.rLen)
    {got : List UInt8} (hlen : got.length = j) (habort : m.abort = false) (hrx : m.rx = [])
    (hphase : m.phase = .idle ∨ m.phase = .holding)
    (htx : ∀ cmd ∈ m.tx, isReadWord cmd = false ∧ isStopWord cmd = false) :
    ∃ st' m', ((dwMachine late).world x.base).Runs
      (Prog.iterate (xferPass x) (n + k + 2) ⟨x.wLen, j, j, 0, 0, stored rBuf got⟩) m
      (st', none) m' ∧ m'.abort = false ∧ m'.tx = [] ∧ m'.rx = [] ∧ m'.phase = .stopping := by
  induction k generalizing j got m with
  | zero =>
    obtain ⟨m₁, hrun, habort₁, htx₁, hrx₁, hphase₁⟩ :=
      runs_pass_read hx (by omega) hlen habort hrx hphase htx
    rw [if_pos (by omega)] at hphase₁
    have hdone := @runs_pass_done late x m₁
      ⟨x.wLen, j + 1, j + 1, 0, 0, stored rBuf (got ++ [0])⟩ rfl (by dsimp only; omega)
      (by dsimp only; omega)
    exact ⟨_, m₁, hrun.iterate (World.Runs.iterate_inr hdone n), habort₁, htx₁, hrx₁, hphase₁⟩
  | succ k ih =>
    obtain ⟨m₁, hrun, habort₁, htx₁, hrx₁, hphase₁⟩ :=
      runs_pass_read hx (by omega) hlen habort hrx hphase htx
    rw [if_neg (by omega)] at hphase₁
    have hnone : ∀ cmd ∈ m₁.tx, isReadWord cmd = false ∧ isStopWord cmd = false := by
      rw [htx₁]
      exact fun cmd h ↦ absurd h List.not_mem_nil
    have hlen₁ : (got ++ [0]).length = j + 1 := by
      rw [List.length_append, List.length_singleton, hlen]
    obtain ⟨st', m', hrest, hend⟩ :=
      ih (by omega) hlen₁ habort₁ hrx₁ (.inr hphase₁) hnone
    exact ⟨st', m', hrun.iterate hrest, hend⟩

private theorem runs_dwI2cXfer {wBuf : Option (List UInt8)} {base : UInt64} {wLen rLen : ℕ}
    (hvalid : xferInvalid wBuf wLen rBuf rLen = false) {m₁ m' : DwMachine}
    (hloop : ((dwMachine late).world base).Runs
      (Prog.iterate (xferPass ⟨base, wBuf, wLen, rLen⟩) (xferBound ⟨base, wBuf, wLen, rLen⟩)
        ⟨0, 0, 0, 0, 0, rBuf⟩) (.queued []) (st, none) m₁)
    (hstop : ((dwMachine late).world base).Runs (xferStop ⟨base, wBuf, wLen, rLen⟩ dwPollLimit) m₁
      .success m') :
    ((dwMachine late).world base).Runs (dwI2cXfer base wBuf wLen rBuf rLen) (.queued [])
      (.success, st.rBuf) m' := by
  have hclear : ((dwMachine late).world base).Runs (regRd base dwIcClrTxAbrt) (.queued []) 0
      (.queued []) := Device.runs_rd .refl rfl
  have hclear' : ((dwMachine late).world base).Runs (regRd base dwIcClrStopDet) (.queued []) 0
      (.queued []) := Device.runs_rd .refl rfl
  unfold dwI2cXfer
  rw [if_neg (by rw [hvalid]; exact Bool.false_ne_true)]
  exact hclear.bind (hclear'.bind (hloop.bind (hstop.bind (World.runs_pure _ _))))

/-- The wait for the STOP ends at once if the machine has become idle. -/
private theorem runs_xferStop (habort : m.abort = false) {m' : DwMachine}
    (hdrift : Relation.ReflTransGen (dwMachine late).Step m m') (hidle : m'.phase = .idle) :
    ((dwMachine late).world x.base).Runs (xferStop x dwPollLimit) m .success m' := by
  have hclear : ((dwMachine late).world x.base).Runs (regRd x.base dwIcClrStopDet) m' 0 m' :=
    Device.runs_rd .refl rfl
  have hquiet : m'.statusWord &&& dwIcStatusMstActivity = 0 := by
    by_contra hbusy
    exact m'.statusWord_mstActivity.mp hbusy hidle
  rw [show dwPollLimit = 199999 + 1 from rfl, xferStop]
  refine (DwMachine.runs_rawIntr habort).bind ?_
  rw [if_neg (by decide)]
  refine (DwMachine.runs_status hdrift).bind ?_
  rw [if_pos hquiet]
  exact hclear.bind (World.runs_pure _ _)

/-- A transfer that only writes may return before anything has happened on the bus. -/
private theorem not_finishesOnSuccess_of_writeOnly {wBuf : Option (List UInt8)} {base : UInt64}
    {wLen : ℕ} (hbuf : XferBuffers wBuf wLen rBuf 0)
    (hvalid : xferInvalid wBuf wLen rBuf 0 = false) :
    ¬FinishesOnSuccess late base wBuf wLen rBuf 0 := by
  intro hfinishes
  have hx : (⟨base, wBuf, wLen, 0⟩ : XferArgs).Valid rBuf := ⟨hbuf.w, hbuf.r⟩
  have hpos : 0 < wLen := by
    by_contra hzero
    obtain rfl : wLen = 0 := by omega
    simp [xferInvalid] at hvalid
  have hdone := @runs_pass_done late ⟨base, wBuf, wLen, 0⟩
    (.queued ((xferCommands (XferArgs.written ⟨base, wBuf, wLen, 0⟩) 0).take wLen))
    ⟨wLen, 0, 0, 0, 0, rBuf⟩ rfl rfl rfl
  have hloop := @runs_writes late _ rBuf hx _ wLen 0 (Nat.zero_add _) _ _
    (World.Runs.iterate_inr hdone (dwXferSpinBudget + 1))
  have hbound : dwXferSpinBudget + 1 + 1 + wLen = xferBound ⟨base, wBuf, wLen, 0⟩ := by
    unfold xferBound
    dsimp only
    omega
  rw [hbound] at hloop
  have hrun := runs_dwI2cXfer hvalid hloop (runs_xferStop rfl .refl rfl)
  have hempty := (hfinishes _ _ _ DwMachine.fresh_queued_nil hrun rfl).tx
  -- every command is still in the TX FIFO
  have hlen : ((xferCommands (XferArgs.written ⟨base, wBuf, wLen, 0⟩) 0).take wLen).length = wLen := by
    rw [List.length_take, xferCommands, List.length_map, List.length_range, hx.length_written]
    exact Nat.min_self _
  exact absurd (hlen.symm.trans (congrArg List.length hempty)) hpos.ne'

/-- The loop of a transfer that reads can run to its end on an idle machine, which is then at the
STOP. -/
private theorem exists_runs_loop {wBuf : Option (List UInt8)} {base : UInt64} {wLen rLen : ℕ}
    (hbuf : XferBuffers wBuf wLen rBuf rLen) (hrLen : 0 < rLen) :
    ∃ st m, ((dwMachine late).world base).Runs
        (Prog.iterate (xferPass ⟨base, wBuf, wLen, rLen⟩) (xferBound ⟨base, wBuf, wLen, rLen⟩)
          ⟨0, 0, 0, 0, 0, rBuf⟩) (.queued []) (st, none) m ∧
      m.abort = false ∧ m.phase = .stopping := by
  have hx : (⟨base, wBuf, wLen, rLen⟩ : XferArgs).Valid rBuf := ⟨hbuf.w, hbuf.r⟩
  obtain ⟨k, hk⟩ := Nat.exists_eq_succ_of_ne_zero hrLen.ne'
  set w := XferArgs.written ⟨base, wBuf, wLen, rLen⟩
  have hlength : w.length = wLen := hx.length_written
  have hwrites : ∀ cmd ∈ (xferCommands w rLen).take wLen,
      isReadWord cmd = false ∧ isStopWord cmd = false := by
    intro cmd hcmd
    rw [xferCommands, ← List.map_take, List.mem_map] at hcmd
    obtain ⟨i, hi, rfl⟩ := hcmd
    rw [List.take_range, List.mem_range] at hi
    rw [isReadWord, isRead_commandAt, isStopWord, isStop_commandAt, decide_eq_false (by omega),
      decide_eq_false (by omega)]
    exact ⟨rfl, rfl⟩
  have hstored : stored rBuf [] = rBuf := by cases rBuf <;> rfl
  obtain ⟨st', m₁, hreads, habort, htx, hrx, hphase⟩ := @runs_reads late _ rBuf
    (.queued ((xferCommands w rLen).take wLen)) hx (rLen + dwXferSpinBudget + 1) k 0
    (by dsimp only; omega) [] rfl rfl rfl (.inl rfl) hwrites
  rw [hstored] at hreads
  have hloop := @runs_writes late _ rBuf hx _ wLen 0 (Nat.zero_add _) _ _ hreads
  have hbound : rLen + dwXferSpinBudget + 1 + k + 2 + wLen
      = xferBound ⟨base, wBuf, wLen, rLen⟩ := by
    unfold xferBound
    dsimp only
    omega
  rw [hbound] at hloop
  exact ⟨st', m₁, hloop, habort, hphase⟩

/-- A transfer that reads may return although its STOP has failed, if the STOP can fail. -/
private theorem not_finishesOnSuccess_of_late {wBuf : Option (List UInt8)} {base : UInt64}
    {wLen rLen : ℕ} (hbuf : XferBuffers wBuf wLen rBuf rLen)
    (hvalid : xferInvalid wBuf wLen rBuf rLen = false) (hrLen : 0 < rLen) :
    ¬FinishesOnSuccess true base wBuf wLen rBuf rLen := by
  intro hfinishes
  obtain ⟨st, m₁, hloop, habort, hphase⟩ := @exists_runs_loop true _ _ base _ _ hbuf hrLen
  -- between the two reads of the wait the STOP fails
  have hfail : (dwMachine true).Step m₁ { m₁ with tx := [], phase := .idle, abort := true } :=
    .abort (by rw [hphase]; exact DwPhase.noConfusion) fun _ ↦ rfl
  have hrun := runs_dwI2cXfer hvalid hloop (runs_xferStop habort (.single hfail) rfl)
  exact Bool.noConfusion (hfinishes _ _ _ DwMachine.fresh_queued_nil hrun rfl).abort

end

/-- **When success means that the transfer is finished**: for a transfer that reads, on a machine
whose STOP cannot fail, and for no other. -/
theorem finishesOnSuccess_iff {late : Bool} {base : UInt64} {wBuf rBuf : Option (List UInt8)}
    {wLen rLen : ℕ} (hbuf : XferBuffers wBuf wLen rBuf rLen) :
    FinishesOnSuccess late base wBuf wLen rBuf rLen ↔
      xferInvalid wBuf wLen rBuf rLen = true ∨ (0 < rLen ∧ late = false) := by
  constructor
  · intro h
    by_cases hvalid : xferInvalid wBuf wLen rBuf rLen = true
    · exact .inl hvalid
    · rw [Bool.not_eq_true] at hvalid
      rcases Nat.eq_zero_or_pos rLen with rfl | hrLen
      · exact absurd h (not_finishesOnSuccess_of_writeOnly hbuf hvalid)
      · cases late with
        | false => exact .inr ⟨hrLen, rfl⟩
        | true => exact absurd h (not_finishesOnSuccess_of_late hbuf hvalid hrLen)
  · rintro (hvalid | ⟨hrLen, rfl⟩)
    · intro m r m' _ hruns hsuccess
      obtain ⟨t, hret, -⟩ := hruns
      rw [dwI2cXfer, if_pos hvalid] at hret
      obtain ⟨-, rfl⟩ := Prog.returns_pure.mp hret
      exact absurd hsuccess EfiStatus.noConfusion
    · exact finishesOnSuccess_of_reads hbuf hrLen

/-- The read of one byte succeeds, with its command executed. -/
theorem finishesOnSuccess_iff_oneByteRead :
    ∃ r m, ((dwMachine false).world 0xFEDC5000).Runs (dwI2cXfer 0xFEDC5000 none 0 (some [0]) 1)
      (.queued []) r m ∧ r.1 = .success ∧ m.Finished (xferCommands [] 1) := by
  have hbuf : XferBuffers none 0 (some [0]) 1 := ⟨Nat.zero_le _, le_rfl⟩
  obtain ⟨st, m, hloop, habort, hphase⟩ :=
    @exists_runs_loop false _ _ 0xFEDC5000 _ _ hbuf Nat.one_pos
  have hrun := runs_dwI2cXfer rfl hloop (runs_xferStop habort (.single (.stop hphase)) rfl)
  exact ⟨_, _, hrun, rfl, (finishesOnSuccess_iff hbuf).mpr (.inr ⟨Nat.one_pos, rfl⟩) _ _ _
    DwMachine.fresh_queued_nil hrun rfl⟩

/-- The write of one byte returns success with the byte still in the TX FIFO. -/
theorem not_finishesOnSuccess_oneByteWrite :
    ¬FinishesOnSuccess false 0xFEDC5000 (some [0x08]) 1 none 0 :=
  not_finishesOnSuccess_of_writeOnly ⟨le_rfl, Nat.zero_le _⟩ rfl

end TouchI2c
