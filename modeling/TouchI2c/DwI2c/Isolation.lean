import Mathlib.Data.List.Range
import TouchI2c.DwI2c.Fifo
import TouchI2c.DwI2c.Transfer

/-!
# No transfer returns another transfer's bytes

The controller of this file holds its TX FIFO empty from an abort until `IC_CLR_TX_ABRT` is read.

## The invariant

Between two transfers it is `Clean`: no byte is left and no READ command is queued. Within a
transfer, `InCall` says whose bytes are where: the READ commands answered and those still in the
FIFO have numbers of this transfer, in their order; the bytes answered are those received and those
in the RX FIFO; and an address NAK comes before the first of them. `Bounded` is what survives into a
recovery, which makes the controller clean again.

## Leaving a transfer

There are three ways to leave. A success has received all bytes, so nothing is left. An address NAK
has emptied both FIFOs, and no READ had been executed. Every other way goes through a recovery,
where disabling the controller empties the FIFOs and enabling it leaves it clean. The controller of
the claim reports that it is disabled before the poll gives up, so the disable succeeds.

The only step in between that could do harm is a READ command that is queued after an abort has
latched and before the driver has seen it. The controller drops it.
-/

namespace TouchI2c

open CMemory Interaction

/-! ## What every controller keeps -/

namespace DwController

/-- The READ commands in the TX FIFO. -/
def readSeqs (tx : List DwCommand) : List ℕ := (tx.filter DwCommand.isRead).map DwCommand.seq

/-- What a step and an access keep, whatever the driver does. -/
structure WellFormed (c : DwController) : Prop where
  off : c.enabled = false → c.tx = [] ∧ c.rx = []
  aborted : c.abort ≠ none → c.tx = []
  produced : ∀ p ∈ c.produced, p.1 < c.issued
  queued : ∀ n ∈ readSeqs c.tx, n < c.issued

/-- The bytes in the RX FIFO and those that queued READ commands can still bring. -/
def Bounded (c : DwController) : Prop := c.rx.length + (readSeqs c.tx).length ≤ dwRxInflightMax

/-- No byte is left and none can come. -/
structure Clean (c : DwController) : Prop extends c.WellFormed where
  enable : c.enable = true
  rx : c.rx = []
  tx : readSeqs c.tx = []

variable {c c' : DwController}

@[simp] theorem readSeqs_nil : readSeqs [] = [] := rfl

theorem readSeqs_cons_read {cmd : DwCommand} {tx : List DwCommand} (h : cmd.isRead = true) :
    readSeqs (cmd :: tx) = cmd.seq :: readSeqs tx := by
  rw [readSeqs, List.filter_cons_of_pos h, List.map_cons]
  rfl

theorem readSeqs_cons_write {cmd : DwCommand} {tx : List DwCommand} (h : cmd.isRead = false) :
    readSeqs (cmd :: tx) = readSeqs tx := by
  rw [readSeqs, List.filter_cons_of_neg (by rw [h]; exact Bool.false_ne_true)]
  rfl

theorem readSeqs_append (tx tx' : List DwCommand) :
    readSeqs (tx ++ tx') = readSeqs tx ++ readSeqs tx' := by
  rw [readSeqs, List.filter_append, List.map_append]
  rfl

private theorem WellFormed.not_aborted (h : c.WellFormed) {cmd : DwCommand} {tx : List DwCommand}
    (htx : c.tx = cmd :: tx) : c.abort = none := by
  by_contra habort
  exact List.cons_ne_nil _ _ (htx.symm.trans (h.aborted habort))

theorem WellFormed.step (h : c.WellFormed) (hstep : Step c c') : c'.WellFormed := by
  have hoff := h.off
  have hqueued := h.queued
  cases hstep with
  | write hen htx hcmd =>
    rw [htx, readSeqs_cons_write hcmd] at hqueued
    exact { h with
      off := fun hdis ↦ absurd (hen.symm.trans hdis) (by decide)
      aborted := fun habort ↦ absurd (h.not_aborted htx) habort
      queued := hqueued }
  | read hen htx hcmd b =>
    rw [htx, readSeqs_cons_read hcmd] at hqueued
    refine ⟨fun hdis ↦ absurd (hen.symm.trans hdis) (by decide),
      fun habort ↦ absurd (h.not_aborted htx) habort, fun p hp ↦ ?_,
      fun n hn ↦ hqueued n (List.mem_cons_of_mem _ hn)⟩
    rcases List.mem_append.mp hp with hp | hp
    · exact h.produced p hp
    · rw [List.mem_singleton.mp hp]
      exact hqueued _ (List.mem_cons_self ..)
  | addressNak hen htx hstart habort =>
    exact ⟨fun hdis ↦ absurd (hen.symm.trans hdis) (by decide), fun _ ↦ rfl, h.produced,
      fun n hn ↦ absurd hn (List.not_mem_nil)⟩
  | otherAbort hen habort =>
    exact ⟨fun hdis ↦ absurd (hen.symm.trans hdis) (by decide), fun _ ↦ rfl, h.produced,
      fun n hn ↦ absurd hn (List.not_mem_nil)⟩
  | disable hreq =>
    exact ⟨fun _ ↦ ⟨rfl, rfl⟩, fun _ ↦ rfl, h.produced, fun n hn ↦ absurd hn (List.not_mem_nil)⟩
  | enable hreq => exact { h with off := fun hdis ↦ Bool.noConfusion hdis }

theorem Bounded.step (h : c.Bounded) (hstep : Step c c') : c'.Bounded := by
  unfold Bounded at *
  cases hstep with
  | write hen htx hcmd => rwa [htx, readSeqs_cons_write hcmd] at h
  | read hen htx hcmd b =>
    rw [htx, readSeqs_cons_read hcmd, List.length_cons] at h
    dsimp only
    rw [List.length_append, List.length_singleton]
    omega
  | addressNak hen htx hstart habort => exact le_trans (Nat.add_le_add_left (Nat.zero_le _) _) h
  | otherAbort hen habort => exact le_trans (Nat.add_le_add_left (Nat.zero_le _) _) h
  | disable hreq => exact Nat.zero_le _
  | enable hreq => exact h

theorem Clean.step (h : c.Clean) (hstep : Step c c') : c'.Clean := by
  have hwf := h.toWellFormed.step hstep
  have htx' := h.tx
  cases hstep with
  | write hen htx hcmd =>
    rw [htx, readSeqs_cons_write hcmd] at htx'
    exact ⟨hwf, h.enable, h.rx, htx'⟩
  | read hen htx hcmd b =>
    rw [htx, readSeqs_cons_read hcmd] at htx'
    exact absurd htx' (List.cons_ne_nil _ _)
  | addressNak hen htx hstart habort => exact ⟨hwf, h.enable, h.rx, rfl⟩
  | otherAbort hen habort => exact ⟨hwf, h.enable, h.rx, rfl⟩
  | disable hreq => exact absurd (h.enable.symm.trans hreq) (by decide)
  | enable hreq => exact ⟨hwf, h.enable, h.rx, h.tx⟩

theorem Clean.bounded (h : c.Clean) : c.Bounded := by
  rw [Bounded, h.rx, h.tx]
  exact Nat.zero_le _

/-! ## What a transfer keeps -/

/-- The bytes that answered the READ commands from number `n₀` on. -/
def own (n₀ : ℕ) (c : DwController) : List (ℕ × UInt8) := c.produced.filter (n₀ ≤ ·.1)

/-- What may follow a command: after a READ only another READ without RESTART, and nothing after
one with STOP. -/
def Follows (a b : DwCommand) : Prop :=
  a.isRead = true → b.isRead = true ∧ b.isRestart = false ∧ a.isStop = false

/-- The controller within the transfer `x` whose READ commands have the numbers from `n₀` on, after
`n` commands have been queued and the bytes `got` received. -/
structure InCall (n₀ : ℕ) (x : XferArgs) (n : ℕ) (got : List UInt8) (c : DwController) : Prop
    extends c.WellFormed where
  enable : c.enable = true
  issued : c.issued = n₀ + (n - x.wLen)
  inflight : n ≤ x.wLen + got.length + dwRxInflightMax
  seqs : ((c.own n₀).map Prod.fst ++ readSeqs c.tx).Sublist (List.range' n₀ (n - x.wLen))
  bytes : (c.own n₀).map Prod.snd = got ++ c.rx
  shape : c.tx.Pairwise Follows
  stop : ∀ cmd ∈ c.tx, cmd.isRead = true → cmd.isStop = true → n = x.wLen + x.rLen
  after : c.own n₀ ≠ [] → (∀ cmd ∈ c.tx, cmd.isRead = true ∧ cmd.isRestart = false) ∧
    (c.abort = none → c.active = true ∨ c.tx = [] ∧ n = x.wLen + x.rLen)
  nak : c.abort = some .addressNak → c.own n₀ = []

variable {n₀ n : ℕ} {x : XferArgs} {got : List UInt8}

theorem own_append {p : List (ℕ × UInt8)} {seq : ℕ} (hseq : n₀ ≤ seq) (b : UInt8) :
    (p ++ [(seq, b)]).filter (n₀ ≤ ·.1) = p.filter (n₀ ≤ ·.1) ++ [(seq, b)] := by
  rw [List.filter_append, List.filter_cons_of_pos (by simpa using hseq), List.filter_nil]

theorem InCall.step (h : c.InCall n₀ x n got) (hstep : Step c c') : c'.InCall n₀ x n got := by
  have hwf := h.toWellFormed.step hstep
  have hseqs := h.seqs
  have hshape := h.shape
  have hstop := h.stop
  have hafter := h.after
  cases hstep with
  | write hen htx hcmd =>
    rw [htx, readSeqs_cons_write hcmd] at hseqs
    rw [htx] at hshape hstop hafter
    refine { h with
      toWellFormed := hwf
      seqs := hseqs
      shape := hshape.of_cons
      stop := fun cmd hmem ↦ hstop cmd (List.mem_cons_of_mem _ hmem)
      after := fun hown ↦ ?_ }
    -- no command but READs is left once a byte has been produced
    have hread := (hafter hown).1 _ (List.mem_cons_self ..)
    exact absurd (hcmd.symm.trans hread.1) (by decide)
  | @read cmd tx hen htx hcmd b =>
    rw [htx, readSeqs_cons_read hcmd] at hseqs
    rw [htx] at hshape hstop
    obtain ⟨hfollows, htail⟩ := List.pairwise_cons.mp hshape
    have hnone := h.not_aborted htx
    have hseq : n₀ ≤ cmd.seq := by
      have hmem := hseqs.subset (List.mem_append_right _ (List.mem_cons_self ..))
      exact (List.mem_range'_1.mp hmem).1
    refine { h with
      toWellFormed := hwf
      seqs := ?_
      bytes := ?_
      shape := htail
      stop := fun cmd' hmem ↦ hstop cmd' (List.mem_cons_of_mem _ hmem)
      after := fun _ ↦ ⟨fun cmd' hmem ↦ ?_, fun _ ↦ ?_⟩
      nak := fun habort ↦ absurd (hnone.symm.trans habort) (by simp) }
    · rw [own, own_append hseq, List.map_append, List.append_assoc]
      exact hseqs
    · rw [own, own_append hseq, List.map_append, ← own, h.bytes, List.append_assoc]
      rfl
    · exact ⟨(hfollows cmd' hmem hcmd).1, (hfollows cmd' hmem hcmd).2.1⟩
    · cases hlast : cmd.isStop with
      | false => exact .inl rfl
      | true =>
        refine .inr ⟨List.eq_nil_iff_forall_not_mem.mpr fun cmd' hmem ↦ ?_,
          hstop cmd (List.mem_cons_self ..) hcmd hlast⟩
        exact absurd (hlast.symm.trans (hfollows cmd' hmem hcmd).2.2) (by decide)
  | addressNak hen htx hstart habort =>
    have hown : c.own n₀ = [] := by
      by_contra hne
      obtain ⟨hread, hactive⟩ := hafter hne
      have hhead := hread _ (htx ▸ List.mem_cons_self ..)
      rcases hactive habort with hactive | ⟨hnil, -⟩
      · rcases hstart with hstart | hstart
        · exact absurd (hactive.symm.trans hstart) (by decide)
        · exact absurd (hstart.symm.trans hhead.2) (by decide)
      · exact absurd (htx.symm.trans hnil) (List.cons_ne_nil _ _)
    exact { h with
      toWellFormed := hwf
      seqs := (List.append_sublist_append_left _).mpr (List.nil_sublist _) |>.trans hseqs
      shape := .nil
      stop := fun cmd hmem ↦ absurd hmem (List.not_mem_nil)
      after := fun hne ↦ absurd hown hne
      nak := fun _ ↦ hown }
  | otherAbort hen habort =>
    exact { h with
      toWellFormed := hwf
      seqs := (List.append_sublist_append_left _).mpr (List.nil_sublist _) |>.trans hseqs
      shape := .nil
      stop := fun cmd hmem ↦ absurd hmem (List.not_mem_nil)
      after := fun _ ↦ ⟨fun cmd hmem ↦ absurd hmem (List.not_mem_nil), fun hnone ↦ absurd hnone (by simp)⟩
      nak := fun hnak ↦ absurd hnak (by simp) }
  | disable hreq => exact absurd (h.enable.symm.trans hreq) (by decide)
  | enable hreq => exact { h with toWellFormed := hwf }

theorem InCall.length (h : c.InCall n₀ x n got) :
    got.length + c.rx.length + (readSeqs c.tx).length ≤ n - x.wLen := by
  have hlen := h.seqs.length_le
  have hbytes := congrArg List.length h.bytes
  rw [List.length_append, List.length_map, List.length_range'] at hlen
  rw [List.length_map, List.length_append] at hbytes
  omega

theorem InCall.bounded (h : c.InCall n₀ x n got) : c.Bounded := by
  have hlen := h.length
  have hinflight := h.inflight
  unfold Bounded
  omega

theorem Clean.inCall (h : c.Clean) (x : XferArgs) : c.InCall c.issued x 0 [] := by
  have hown : c.own c.issued = [] := List.filter_eq_nil_iff.mpr fun p hp ↦ by
    simpa using h.produced p hp
  have hwrite : ∀ cmd ∈ c.tx, cmd.isRead = false := by
    intro cmd hmem
    have hnil := List.map_eq_nil_iff.mp h.tx
    simpa using List.filter_eq_nil_iff.mp hnil cmd hmem
  refine { h with
    issued := by rw [Nat.zero_sub, Nat.add_zero]
    inflight := Nat.zero_le _
    seqs := by rw [hown, h.tx]; exact List.nil_sublist _
    bytes := by rw [hown, h.rx]; rfl
    shape := ?_
    stop := fun cmd hmem hread ↦ absurd ((hwrite cmd hmem).symm.trans hread) (by decide)
    after := fun hne ↦ absurd hown hne
    nak := fun _ ↦ hown }
  exact List.pairwise_of_forall_mem_list fun a ha b _ hread ↦
    absurd ((hwrite a ha).symm.trans hread) (by decide)

theorem InCall.clean_of_nak (h : c.InCall n₀ x n got) (hnak : c.abort = some .addressNak) :
    { c with abort := none }.Clean := by
  have hbytes := h.bytes
  rw [h.nak hnak, List.map_nil, eq_comm, List.append_eq_nil_iff] at hbytes
  have htx : c.tx = [] := h.aborted (by rw [hnak]; exact Option.some_ne_none _)
  exact ⟨⟨h.off, fun hne ↦ absurd rfl hne, h.produced, h.queued⟩, h.enable, hbytes.2, by
    dsimp only; rw [htx, readSeqs_nil]⟩

theorem InCall.drain (h : c.InCall n₀ x n got) {b : UInt8} {rx : List UInt8}
    (hrx : c.rx = b :: rx) :
    { c with rx := rx }.InCall n₀ x n (got ++ [b]) := by
  have hinflight := h.inflight
  have hbytes := h.bytes
  rw [hrx] at hbytes
  refine { h with
    off := fun hoff ↦ ⟨(h.off hoff).1, ?_⟩
    inflight := by rw [List.length_append]; omega
    bytes := by rw [List.append_assoc]; exact hbytes }
  exact absurd (hrx.symm.trans (h.off hoff).2) (List.cons_ne_nil _ _)

/-- Once all bytes have been received nothing is left. -/
theorem InCall.finished (h : c.InCall n₀ x (x.wLen + x.rLen) got) (hgot : got.length = x.rLen) :
    c.Clean ∧ c.own n₀ = (List.range' n₀ x.rLen).zip got := by
  have hlen := h.length
  have hrx : c.rx = [] := List.length_eq_zero_iff.mp (by omega)
  have htx : readSeqs c.tx = [] := List.length_eq_zero_iff.mp (by omega)
  refine ⟨⟨h.toWellFormed, h.enable, hrx, htx⟩, ?_⟩
  have hseqs := h.seqs
  have hbytes := h.bytes
  rw [htx, List.append_nil, Nat.add_sub_cancel_left] at hseqs
  rw [hrx, List.append_nil] at hbytes
  have hfst : (c.own n₀).map Prod.fst = List.range' n₀ x.rLen := by
    refine hseqs.eq_of_length ?_
    rw [List.length_map, List.length_range', ← hgot, ← hbytes, List.length_map]
  rw [← hfst, ← hbytes, ← List.unzip_fst, ← List.unzip_snd, List.zip_unzip]

/-! ## Queueing a command -/

theorem written_dataCmd (v : UInt32) : c.written true dwIcDataCmd v =
    { c with tx := if c.accepts true then c.tx ++ [⟨v, c.issued⟩] else c.tx,
             issued := if v.toNat.testBit 8 then c.issued + 1 else c.issued } := rfl

theorem accepts_true : c.accepts true = true ↔ c.enabled = true ∧ c.abort = none := by
  rw [accepts]
  cases c.enabled <;> cases c.abort <;> simp

/-- The READ commands after a command has been written. -/
theorem readSeqs_written (v : UInt32) : readSeqs (c.written true dwIcDataCmd v).tx =
    if c.accepts true = true ∧ v.toNat.testBit 8 = true then readSeqs c.tx ++ [c.issued]
    else readSeqs c.tx := by
  have htx : (c.written true dwIcDataCmd v).tx =
      if c.accepts true then c.tx ++ [⟨v, c.issued⟩] else c.tx := rfl
  rw [htx]
  by_cases haccepts : c.accepts true = true
  · rw [if_pos haccepts, readSeqs_append]
    by_cases hread : (⟨v, c.issued⟩ : DwCommand).isRead = true
    · rw [readSeqs_cons_read hread, if_pos ⟨haccepts, hread⟩, readSeqs_nil]
    · rw [readSeqs_cons_write (Bool.not_eq_true _ ▸ hread), if_neg (fun h ↦ hread h.2),
        readSeqs_nil, List.append_nil]
  · rw [if_neg haccepts, if_neg (fun h ↦ haccepts h.1)]

theorem WellFormed.written (h : c.WellFormed) (v : UInt32) :
    (c.written true dwIcDataCmd v).WellFormed := by
  have hissued : c.issued ≤ (c.written true dwIcDataCmd v).issued := by
    rw [written_dataCmd]
    dsimp only
    split <;> omega
  refine ⟨fun hoff ↦ ?_, fun habort ↦ ?_, fun p hp ↦ (h.produced p hp).trans_le hissued,
    fun n hn ↦ ?_⟩
  · have hnot : ¬c.accepts true = true := fun haccepts ↦
      absurd ((accepts_true.mp haccepts).1.symm.trans hoff) (by decide)
    rw [written_dataCmd, if_neg hnot]
    exact h.off hoff
  · have hnot : ¬c.accepts true = true := fun haccepts ↦ habort (accepts_true.mp haccepts).2
    rw [written_dataCmd, if_neg hnot]
    exact h.aborted habort
  · rw [readSeqs_written] at hn
    split at hn
    · next hread =>
      rcases List.mem_append.mp hn with hn | hn
      · exact (h.queued n hn).trans_le hissued
      · rw [List.mem_singleton.mp hn, written_dataCmd]
        dsimp only
        rw [if_pos hread.2]
        exact Nat.lt_succ_self _
    · exact (h.queued n hn).trans_le hissued

/-- A READ among the queued commands has been counted. -/
theorem InCall.lt_of_isRead (h : c.InCall n₀ x n got) {cmd : DwCommand} (hmem : cmd ∈ c.tx)
    (hread : cmd.isRead = true) : x.wLen < n := by
  have hlen := h.length
  have hpos : 0 < (readSeqs c.tx).length := by
    rw [readSeqs, List.length_map]
    exact List.length_pos_of_mem (List.mem_filter.mpr ⟨hmem, hread⟩)
  omega

theorem InCall.lt_of_own (h : c.InCall n₀ x n got) (hown : c.own n₀ ≠ []) : x.wLen < n := by
  have hlen := h.length
  have hbytes := congrArg List.length h.bytes
  have hpos : 0 < (c.own n₀).length := List.length_pos_iff.mpr hown
  rw [List.length_map, List.length_append] at hbytes
  omega

theorem InCall.queue {w : List UInt8} (h : c.InCall n₀ x n got) (hw : w.length = x.wLen)
    (hlt : n < x.wLen + x.rLen) (hroom : n + 1 ≤ x.wLen + got.length + dwRxInflightMax) :
    (c.written true dwIcDataCmd (commandAt w x.rLen n)).InCall n₀ x (n + 1) got := by
  have hread : (commandAt w x.rLen n).toNat.testBit 8 = decide (x.wLen ≤ n) := hw ▸ isRead_commandAt
  have hstop : (commandAt w x.rLen n).toNat.testBit 9 = decide (n + 1 = x.wLen + x.rLen) :=
    hw ▸ isStop_commandAt
  have hrestart : (commandAt w x.rLen n).toNat.testBit 10 = decide (n = x.wLen ∧ 0 < x.wLen) :=
    hw ▸ isRestart_commandAt
  -- no command that is queued already ends the transfer
  have hopen : ∀ cmd ∈ c.tx, cmd.isRead = true → cmd.isStop = false := by
    intro cmd hmem hcmd
    by_contra hlast
    have := h.stop cmd hmem hcmd (by simpa using hlast)
    omega
  -- what comes after a READ of this transfer is a READ without RESTART
  have hnext : x.wLen < n → (commandAt w x.rLen n).toNat.testBit 8 = true ∧
      (commandAt w x.rLen n).toNat.testBit 10 = false := fun hpos ↦
    ⟨by rw [hread, decide_eq_true hpos.le], by rw [hrestart, decide_eq_false (by omega)]⟩
  have hmem {cmd : DwCommand}
      (hcmd : cmd ∈ (c.written true dwIcDataCmd (commandAt w x.rLen n)).tx) :
      cmd ∈ c.tx ∨ cmd = ⟨commandAt w x.rLen n, c.issued⟩ := by
    rw [written_dataCmd] at hcmd
    dsimp only at hcmd
    split at hcmd
    · exact (List.mem_append.mp hcmd).imp_right List.mem_singleton.mp
    · exact .inl hcmd
  have hown : (c.written true dwIcDataCmd (commandAt w x.rLen n)).own n₀ = c.own n₀ := rfl
  refine ⟨h.toWellFormed.written _, h.enable, ?_, hroom, ?_, h.bytes, ?_, ?_, ?_, h.nak⟩
  · rw [written_dataCmd, h.issued, hread]
    dsimp only
    by_cases hle : x.wLen ≤ n
    · rw [if_pos (decide_eq_true hle)]
      omega
    · rw [if_neg (by simpa using hle)]
      omega
  · rw [hown, readSeqs_written]
    split
    · next hpos =>
      have hle : x.wLen ≤ n := by simpa using hread.symm.trans hpos.2
      rw [← List.append_assoc, Nat.succ_sub hle, List.range'_1_concat, ← h.issued]
      exact h.seqs.append (List.Sublist.refl _)
    · refine h.seqs.trans (List.range'_sublist_right.mpr ?_)
      omega
  · rw [written_dataCmd]
    dsimp only
    split
    · refine List.pairwise_append.mpr ⟨h.shape, List.pairwise_singleton _ _, ?_⟩
      intro a ha b hb hcmd
      rw [List.mem_singleton.mp hb]
      exact ⟨(hnext (h.lt_of_isRead ha hcmd)).1, (hnext (h.lt_of_isRead ha hcmd)).2,
        hopen a ha hcmd⟩
    · exact h.shape
  · intro cmd hcmd hread' hlast
    rcases hmem hcmd with hcmd | rfl
    · exact absurd (hlast.symm.trans (hopen cmd hcmd hread')) (by decide)
    · simpa using hstop.symm.trans hlast
  · intro hne
    obtain ⟨hall, hactive⟩ := h.after hne
    refine ⟨fun cmd hcmd ↦ ?_, fun hnone ↦ .inl ?_⟩
    · rcases hmem hcmd with hcmd | rfl
      · exact hall cmd hcmd
      · exact hnext (h.lt_of_own hne)
    · rcases hactive hnone with hactive | ⟨-, hend⟩
      · exact hactive
      · omega

/-! ## What a register read tells -/

theorem reads_ack {off : UInt64} {r : UInt32} (hoff : off ≠ dwIcDataCmd) (h : c.Reads off r c') :
    ∃ abort polls, c' = { c with abort := abort, polls := polls } ∧
      (abort = none ∨ abort = c.abort) := by
  unfold Reads at h
  rw [if_neg hoff] at h
  split_ifs at h
  · exact ⟨c.abort, c.polls, h.2, .inr rfl⟩
  · exact ⟨c.abort, c.polls, h.2, .inr rfl⟩
  · exact ⟨c.abort, c.polls, h.2, .inr rfl⟩
  · exact ⟨none, c.polls, h, .inl rfl⟩
  · exact ⟨c.abort, c.polls + 1, h.2.2, .inr rfl⟩
  · exact ⟨c.abort, c.polls, h, .inr rfl⟩

theorem reads_rawIntr {r : UInt32} (h : c.Reads dwIcRawIntrStat r c') :
    (r &&& dwIcIntrTxAbrt ≠ 0 ↔ c.abort ≠ none) ∧ c' = c := h

theorem reads_status {r : UInt32} (h : c.Reads dwIcStatus r c') :
    (r &&& dwIcStatusRfne ≠ 0 ↔ c.rx ≠ []) ∧ c' = c := h

theorem reads_dataCmd {r : UInt32} (h : c.Reads dwIcDataCmd r c') (hrx : c.rx ≠ []) :
    ∃ rx, c.rx = dataByte r :: rx ∧ c' = { c with rx := rx } := by
  rcases h with ⟨hnil, -⟩ | hcons
  · exact absurd hnil hrx
  · exact hcons

theorem reads_abrtSource {r : UInt32} (h : c.Reads dwIcTxAbrtSource r c') :
    (r &&& dwIcAbrt7bAddrNoack ≠ 0 ↔ c.abort = some .addressNak) ∧ c' = c := h

theorem reads_clrTxAbrt {r : UInt32} (h : c.Reads dwIcClrTxAbrt r c') :
    c' = { c with abort := none } := h

theorem reads_clrStopDet {r : UInt32} (h : c.Reads dwIcClrStopDet r c') : c' = c := h

theorem reads_enableStatus {r : UInt32} (h : c.Reads dwIcEnableStatus r c') :
    (r &&& dwIcEnableStatusEn ≠ 0 ↔ c.enabled = true) ∧
      (c.enable = false → c.enabled = true → c.polls + 1 < dwPollLimit) ∧
      c' = { c with polls := c.polls + 1 } := h

theorem written_other {off : UInt64} (hdata : off ≠ dwIcDataCmd) (hen : off ≠ dwIcEnable)
    {v : UInt32} : c.written true off v = c := by
  rw [written, if_neg hdata, if_neg hen]

theorem written_enable {v : UInt32} : c.written true dwIcEnable v =
    { c with enable := v &&& dwIcEnableEnable ≠ 0, polls := 0 } := rfl

/-! ## Accesses outside a transfer -/

/-- What holds on through steps and through accesses that only acknowledge or poll. -/
structure Kept (A : DwController → UefiOp → Prop) (J : DwController → Prop) : Prop where
  step : ∀ c c', J c → Step c c' → J c'
  ack : ∀ c abort polls, J c → abort = none ∨ abort = c.abort →
    J { c with abort := abort, polls := polls }
  allowed : ∀ c e, J c → A c e

end DwController

section

variable {base : UInt64} {A : DwController → UefiOp → Prop} {J : DwController → Prop}
  {c : DwController}

theorem DwController.Kept.rd (h : DwController.Kept A J) (hc : J c) {off : UInt64}
    (hoff : off ≠ dwIcDataCmd) :
    ((dwWorld base true).restrict A).wp (regRd base off) (fun _ c' ↦ J c') c := by
  refine wp_rd h.step hc h.allowed fun c' r c'' hc' hreads ↦ ?_
  obtain ⟨abort, polls, rfl, habort⟩ := DwController.reads_ack hoff hreads
  exact h.ack c' abort polls hc' habort

theorem DwController.Kept.wr (h : DwController.Kept A J) (hc : J c) {off : UInt64}
    (hdata : off ≠ dwIcDataCmd) (hen : off ≠ dwIcEnable) (v : UInt32) :
    ((dwWorld base true).restrict A).wp (regWr base off v) (fun _ c' ↦ J c') c :=
  wp_wr h.step hc h.allowed fun _ hc' ↦ by rwa [DwController.written_other hdata hen]

theorem DwController.Kept.poll (h : DwController.Kept A J) (hc : J c) {off : UInt64}
    (hoff : off ≠ dwIcDataCmd) (test : UInt32 → Bool) (n : ℕ) :
    ((dwWorld base true).restrict A).wp (pollReg base off test n) (fun _ c' ↦ J c') c :=
  wp_pollReg J (fun _ hc ↦ World.wp_mono (h.rd hc hoff) fun _ _ hc' ↦ ⟨fun _ ↦ hc', fun _ ↦ hc'⟩)
    (fun _ hc ↦ hc) hc

theorem DwController.Kept.programCounts (h : DwController.Kept A J) (hc : J c)
    {hcntOff lcntOff : UInt64} (hh : hcntOff ≠ dwIcDataCmd ∧ hcntOff ≠ dwIcEnable)
    (hl : lcntOff ≠ dwIcDataCmd ∧ lcntOff ≠ dwIcEnable) (force : Bool) (hcnt lcnt : UInt16) :
    ((dwWorld base true).restrict A).wp (programCounts base hcntOff lcntOff force hcnt lcnt)
      (fun _ c' ↦ J c') c := by
  have hmissing : ((dwWorld base true).restrict A).wp (countsMissing base hcntOff lcntOff force)
      (fun _ c' ↦ J c') c := by
    unfold countsMissing
    split
    · exact hc
    · rw [World.wp_bind]
      refine World.wp_mono (h.rd hc hh.1) fun v c₁ hc₁ ↦ ?_
      split
      · exact hc₁
      · rw [World.wp_bind]
        exact World.wp_mono (h.rd hc₁ hl.1) fun _ _ hc₂ ↦ hc₂
  unfold TouchI2c.programCounts
  rw [World.wp_bind]
  refine World.wp_mono hmissing fun zeroed c₁ hc₁ ↦ ?_
  split
  · rw [World.wp_bind]
    exact World.wp_mono (h.wr hc₁ hh.1 hh.2 _) fun _ _ hc' ↦ h.wr hc' hl.1 hl.2 _
  · exact hc₁

theorem DwController.Kept.programTiming (h : DwController.Kept A J) (hc : J c)
    (forceTiming : Option DwI2cTiming) :
    ((dwWorld base true).restrict A).wp (programTiming base forceTiming) (fun _ c' ↦ J c') c := by
  unfold TouchI2c.programTiming
  rw [World.wp_bind]
  refine World.wp_mono (h.rd hc (by decide)) fun con c₁ hc₁ ↦ ?_
  rw [World.wp_bind]
  refine World.wp_mono (h.wr hc₁ (by decide) (by decide) _) fun _ c₂ hc₂ ↦ ?_
  have hspeed (speed : UInt32) (force : Bool) (timing : DwI2cTiming) :
      ((dwWorld base true).restrict A).wp (programSpeed base speed force timing)
        (fun _ c' ↦ J c') c₂ := by
    unfold programSpeed
    split <;> exact h.programCounts hc₂ (by decide) (by decide) ..
  rw [World.wp_bind]
  refine World.wp_mono (hspeed ..) fun _ c₃ hc₃ ↦ ?_
  split
  · exact h.wr hc₃ (by decide) (by decide) _
  · exact hc₃

/-! ## Disabling and enabling -/

/-- Disabled for good. -/
structure DwController.Off (J : DwController → Prop) (c : DwController) : Prop where
  keep : J c
  enable : c.enable = false
  enabled : c.enabled = false

theorem DwController.Kept.off (h : DwController.Kept A J) :
    DwController.Kept A (DwController.Off J) where
  step c c' hc hstep := by
    have hkeep := h.step c c' hc.keep hstep
    cases hstep with
    | write hen => exact absurd (hen.symm.trans hc.enabled) (by decide)
    | read hen => exact absurd (hen.symm.trans hc.enabled) (by decide)
    | addressNak hen => exact absurd (hen.symm.trans hc.enabled) (by decide)
    | otherAbort hen => exact absurd (hen.symm.trans hc.enabled) (by decide)
    | disable hreq => exact ⟨hkeep, hreq, rfl⟩
    | enable hreq => exact absurd (hreq.symm.trans hc.enable) (by decide)
  ack c abort polls hc habort := ⟨h.ack c abort polls hc.keep habort, hc.enable, hc.enabled⟩
  allowed c e hc := h.allowed c e hc.keep

private theorem wp_waitDisabled (h : DwController.Kept A J) {n : ℕ} (hpos : 0 < n) (hc : J c)
    (hreq : c.enable = false) (hpolls : c.polls + n = dwPollLimit) :
    ((dwWorld base true).restrict A).wp
      (pollReg base dwIcEnableStatus (fun v ↦ v &&& dwIcEnableStatusEn == 0) n)
      (fun done c' ↦ done = true ∧ DwController.Off J c') c := by
  induction n generalizing c with
  | zero => exact absurd hpos (lt_irrefl 0)
  | succ n ih =>
    rw [pollReg, World.wp_bind]
    refine wp_rd (P := fun c' ↦ J c' ∧ c'.enable = false ∧ c'.polls = c.polls) ?_
      ⟨hc, hreq, rfl⟩ (fun c' e hc' ↦ h.allowed c' e hc'.1) ?_
    · rintro c₁ c₂ ⟨hc₁, hreq₁, hpolls₁⟩ hstep
      have hc₂ := h.step c₁ c₂ hc₁ hstep
      cases hstep <;> exact ⟨hc₂, hreq₁, hpolls₁⟩
    · rintro c₁ r c₂ ⟨hc₁, hreq₁, hpolls₁⟩ hreads
      obtain ⟨hen, hlimit, rfl⟩ := DwController.reads_enableStatus hreads
      have hc₂ := h.ack c₁ c₁.abort (c₁.polls + 1) hc₁ (.inr rfl)
      split
      · next hzero =>
        have hoff : c₁.enabled = false := by
          have hnot := mt hen.mpr (not_not_intro (by simpa using hzero))
          simpa using hnot
        exact ⟨rfl, hc₂, hreq₁, hoff⟩
      · next hset =>
        have hon : c₁.enabled = true := hen.mp (by simpa using hset)
        have := hlimit hreq₁ hon
        exact ih (by omega) hc₂ hreq₁ (by dsimp only; omega)

theorem wp_dwI2cDisable (h : DwController.Kept A J)
    (hreq : ∀ c, J c → J { c with enable := false, polls := 0 }) (hc : J c) :
    ((dwWorld base true).restrict A).wp (dwI2cDisable base)
      (fun status c' ↦ status = .success ∧ DwController.Off J c') c := by
  rw [dwI2cDisable, World.wp_bind]
  refine wp_wr h.step hc h.allowed fun c₁ hc₁ ↦ ?_
  rw [World.wp_bind, DwController.written_enable]
  refine World.wp_mono (wp_waitDisabled h (by decide) (hreq c₁ hc₁) rfl (Nat.zero_add _))
    fun done c₂ h₂ ↦ ?_
  obtain ⟨rfl, hoff⟩ := h₂
  exact ⟨rfl, hoff⟩

/-- Enabling a controller that was disabled leaves it clean. -/
theorem wp_wr_enable (h : DwController.Kept A J) (hwf : ∀ c, J c → c.WellFormed)
    (hc : DwController.Off J c) :
    ((dwWorld base true).restrict A).wp (regWr base dwIcEnable dwIcEnableEnable)
      (fun _ c' ↦ c'.Clean) c := by
  refine wp_wr h.off.step hc h.off.allowed fun c₁ hc₁ ↦ ?_
  have hwf₁ := hwf c₁ hc₁.keep
  obtain ⟨htx, hrx⟩ := hwf₁.off hc₁.enabled
  exact ⟨⟨hwf₁.off, hwf₁.aborted, hwf₁.produced, hwf₁.queued⟩, rfl, hrx, by
    rw [DwController.written_enable, htx, DwController.readSeqs_nil]⟩

theorem kept_clean (hA : ∀ (c : DwController) e, c.Clean → A c e) :
    DwController.Kept A DwController.Clean where
  step _ _ hc hstep := hc.step hstep
  ack c abort polls hc habort := ⟨⟨hc.off, fun hne ↦ by
    rcases habort with rfl | rfl
    · exact absurd rfl hne
    · exact hc.aborted hne, hc.produced, hc.queued⟩, hc.enable, hc.rx, hc.tx⟩
  allowed := hA

theorem kept_wellFormed : DwController.Kept (fun _ _ ↦ True) DwController.WellFormed where
  step _ _ hc hstep := hc.step hstep
  ack c abort polls hc habort := ⟨hc.off, fun hne ↦ by
    rcases habort with rfl | rfl
    · exact absurd rfl hne
    · exact hc.aborted hne, hc.produced, hc.queued⟩
  allowed _ _ _ := trivial

end

/-- The RX FIFO holds no more bytes than may be in flight. -/
def RxBounded (c : DwController) (_ : UefiOp) : Prop := c.rx.length ≤ dwRxInflightMax

theorem DwController.Bounded.rxBounded {c : DwController} (h : c.Bounded) (e : UefiOp) :
    RxBounded c e := (Nat.le_add_right _ _).trans h

/-- What holds on into a recovery. -/
structure Unrecovered (c : DwController) : Prop extends c.WellFormed where
  bounded : c.Bounded

theorem kept_unrecovered : DwController.Kept RxBounded Unrecovered where
  step _ _ hc hstep := ⟨hc.toWellFormed.step hstep, hc.bounded.step hstep⟩
  ack _ _ _ hc habort := ⟨kept_wellFormed.ack _ _ _ hc.toWellFormed habort, hc.bounded⟩
  allowed _ e hc := hc.bounded.rxBounded e

theorem kept_clean_rxBounded : DwController.Kept RxBounded DwController.Clean :=
  kept_clean fun _ e hc ↦ hc.bounded.rxBounded e

/-- **Init cleans**: whatever was in the FIFOs before is gone. -/
theorem wp_dwI2cInit {base : UInt64} {slaveAddr : UInt8} {forceTiming : Option DwI2cTiming}
    {c : DwController} (hc : c.WellFormed) :
    ((dwWorld base true).restrict fun _ _ ↦ True).wp (dwI2cInit base slaveAddr forceTiming)
      (fun _ c' ↦ c'.Clean) c := by
  have hoff := kept_wellFormed.off
  unfold dwI2cInit
  rw [World.wp_bind]
  refine World.wp_mono (wp_dwI2cDisable kept_wellFormed
    (fun c hc ↦ ⟨hc.off, hc.aborted, hc.produced, hc.queued⟩) hc) fun status c₁ h₁ ↦ ?_
  obtain ⟨rfl, hc₁⟩ := h₁
  rw [if_neg (by decide), World.wp_bind]
  refine World.wp_mono (hoff.programTiming hc₁ forceTiming) fun _ c₂ hc₂ ↦ ?_
  rw [World.wp_bind]
  refine World.wp_mono (hoff.wr hc₂ (by decide) (by decide) _) fun _ c₃ hc₃ ↦ ?_
  rw [World.wp_bind]
  refine World.wp_mono (hoff.wr hc₃ (by decide) (by decide) _) fun _ c₄ hc₄ ↦ ?_
  rw [World.wp_bind]
  refine World.wp_mono (hoff.wr hc₄ (by decide) (by decide) _) fun _ c₅ hc₅ ↦ ?_
  rw [World.wp_bind]
  refine World.wp_mono (hoff.wr hc₅ (by decide) (by decide) _) fun _ c₆ hc₆ ↦ ?_
  rw [World.wp_bind]
  refine World.wp_mono (wp_wr_enable kept_wellFormed (fun _ hc ↦ hc) hc₆) fun _ c₇ hc₇ ↦ ?_
  have hclean := kept_clean (A := fun _ _ ↦ True) fun _ _ _ ↦ trivial
  rw [World.wp_bind]
  refine World.wp_mono (hclean.poll hc₇ (by decide) _ _) fun done c₈ hc₈ ↦ ?_
  split <;> exact hc₈

/-- **Recovery cleans.** -/
theorem wp_dwI2cRecover {base : UInt64} {c : DwController} (hc : Unrecovered c) :
    ((dwWorld base true).restrict RxBounded).wp (dwI2cRecover base) (fun _ c' ↦ c'.Clean) c := by
  have hclean := kept_clean_rxBounded
  unfold dwI2cRecover
  rw [World.wp_bind]
  refine World.wp_mono (wp_dwI2cDisable kept_unrecovered
    (fun c hc ↦ ⟨⟨hc.off, hc.aborted, hc.produced, hc.queued⟩, hc.bounded⟩) hc)
    fun status c₁ h₁ ↦ ?_
  obtain ⟨rfl, hc₁⟩ := h₁
  rw [if_neg (by decide), World.wp_bind]
  refine World.wp_mono (wp_wr_enable kept_unrecovered (fun _ hc ↦ hc.toWellFormed) hc₁)
    fun _ c₂ hc₂ ↦ ?_
  rw [World.wp_bind]
  refine World.wp_mono (hclean.poll hc₂ (by decide) _ _) fun done c₃ hc₃ ↦ ?_
  rw [World.wp_bind]
  refine World.wp_mono (hclean.rd hc₃ (by decide)) fun _ c₄ hc₄ ↦ ?_
  rw [World.wp_bind]
  exact World.wp_mono (hclean.rd hc₄ (by decide)) fun _ c₅ hc₅ ↦ hc₅

/-! ## A transfer -/

/-- What a transfer that began with READ number `n₀` leaves behind. -/
def IsolatedPost (n₀ : ℕ) (x : XferArgs) (status : EfiStatus) (got : List UInt8)
    (c : DwController) : Prop :=
  c.Clean ∧ (status = .success → got.length = x.rLen ∧
    c.own n₀ = (List.range' n₀ x.rLen).zip got)

section

variable {n₀ n : ℕ} {x : XferArgs} {got : List UInt8} {c : DwController}

theorem DwController.InCall.unrecovered (h : c.InCall n₀ x n got) : Unrecovered c :=
  ⟨h.toWellFormed, h.bounded⟩

/-- The rule of a register read within a transfer, under what drift keeps. -/
theorem DwController.InCall.wp_rd {P : DwController → Prop} (h : c.InCall n₀ x n got) (hc : P c)
    (hstep : ∀ c c', c.InCall n₀ x n got → P c → DwController.Step c c' → P c') {off : UInt64}
    {Q : UInt32 → DwController → Prop}
    (hread : ∀ c r c', c.InCall n₀ x n got → P c → c.Reads off r c' → Q r c') :
    ((dwWorld x.base true).restrict RxBounded).wp (regRd x.base off) Q c :=
  TouchI2c.wp_rd (P := fun c ↦ c.InCall n₀ x n got ∧ P c)
    (fun c c' hc hs ↦ ⟨hc.1.step hs, hstep c c' hc.1 hc.2 hs⟩) ⟨h, hc⟩
    (fun _ e hc ↦ hc.1.bounded.rxBounded e) fun c r c' hc ↦ hread c r c' hc.1 hc.2

theorem DwController.abort_step {a : DwAbort} {c' : DwController} (hc : c.abort = some a)
    (hstep : DwController.Step c c') : c'.abort = some a := by
  cases hstep with
  | addressNak _ _ _ habort => exact absurd (habort.symm.trans hc) (by simp)
  | otherAbort _ habort => exact absurd (habort.symm.trans hc) (by simp)
  | _ => exact hc

theorem DwController.InCall.rx_step {c' : DwController} (h : c.InCall n₀ x n got) (hrx : c.rx ≠ [])
    (hstep : DwController.Step c c') : c'.rx ≠ [] := by
  cases hstep with
  | read => exact List.append_ne_nil_of_right_ne_nil _ (List.cons_ne_nil _ _)
  | disable hreq => exact absurd (h.enable.symm.trans hreq) (by decide)
  | _ => exact hrx

private theorem wp_handleAbort (h : c.InCall n₀ x n got) (habort : c.abort ≠ none) :
    ((dwWorld x.base true).restrict RxBounded).wp (handleAbort x.base)
      (fun status ↦ IsolatedPost n₀ x status got) c := by
  obtain ⟨a, ha⟩ := Option.ne_none_iff_exists'.mp habort
  unfold handleAbort classifyAbort
  rw [World.wp_bind, World.wp_bind]
  refine h.wp_rd ha (fun _ _ _ ↦ DwController.abort_step) fun c₁ src c₁' h₁ ha₁ hreads ↦ ?_
  obtain ⟨hsrc, rfl⟩ := DwController.reads_abrtSource hreads
  rw [World.wp_bind]
  by_cases hnak : src &&& dwIcAbrt7bAddrNoack ≠ 0
  · -- an address NAK leaves nothing behind
    refine h₁.wp_rd (hsrc.mp hnak) (fun _ _ _ ↦ DwController.abort_step)
      fun c₂ r c₂' h₂ ha₂ hreads₂ ↦ ?_
    rw [DwController.reads_clrTxAbrt hreads₂]
    have hbit : (src &&& dwIcAbrt7bAddrNoack != 0) = true := by simpa using hnak
    rw [hbit]
    exact ⟨h₂.clean_of_nak ha₂, by simp⟩
  · refine World.wp_mono (kept_unrecovered.rd h₁.unrecovered (by decide)) fun r c₂ h₂ ↦ ?_
    have hbit : (src &&& dwIcAbrt7bAddrNoack != 0) = false := by simpa using hnak
    rw [hbit]
    simp only [Prog.pure_eq, World.wp_pure, Bool.false_eq_true, if_false, if_true, World.wp_bind]
    exact World.wp_mono (wp_dwI2cRecover h₂) fun _ c₃ h₃ ↦ ⟨h₃, by simp⟩

private theorem isolatedRules (n₀ : ℕ) {rBuf : Option (List UInt8)} (hx : x.Valid rBuf) :
    TransferRules ((dwWorld x.base true).restrict RxBounded) x
      (fun n got c ↦ c.InCall n₀ x n got) (IsolatedPost n₀ x) where
  rawIntr h := h.wp_rd (P := fun _ ↦ True) trivial (fun _ _ _ _ _ ↦ trivial)
    fun c r c' hc _ hreads ↦ by
      obtain ⟨habort, rfl⟩ := DwController.reads_rawIntr hreads
      split
      · next hr => exact wp_handleAbort hc (habort.mp hr)
      · exact hc
  status h := h.wp_rd (P := fun _ ↦ True) trivial (fun _ _ _ _ _ ↦ trivial)
    fun c r c' hc _ hreads ↦ by
      obtain ⟨hrfne, rfl⟩ := DwController.reads_status hreads
      refine ⟨hc, fun hr hlt ↦ ?_⟩
      refine hc.wp_rd (hrfne.mp hr) (fun _ _ ↦ DwController.InCall.rx_step)
        fun c₁ v c₂ h₁ hrx hreads₁ ↦ ?_
      obtain ⟨rx, heq, rfl⟩ := DwController.reads_dataCmd hreads₁ hrx
      exact h₁.drain heq
  dataCmd h hlt hroom := wp_wr (P := fun c ↦ c.InCall n₀ x _ _) (fun _ _ hc ↦ hc.step) h
    (fun _ e hc ↦ hc.bounded.rxBounded e) fun c hc ↦ hc.queue hx.length_written hlt hroom
  recover h := World.wp_mono (wp_dwI2cRecover h.unrecovered) fun _ _ h₁ ↦ ⟨h₁, by simp⟩
  finish h hgot := h.wp_rd (P := fun _ ↦ True) trivial (fun _ _ _ _ _ ↦ trivial)
    fun c r c' hc _ hreads ↦ by
      rw [DwController.reads_clrStopDet hreads]
      obtain ⟨hclean, hown⟩ := hc.finished hgot
      exact ⟨hclean, fun _ ↦ ⟨hgot, hown⟩⟩

private theorem wp_dwI2cXfer_isolated {base : UInt64} {wBuf rBuf : Option (List UInt8)}
    {wLen rLen : ℕ} (hw : wLen ≤ (wBuf.getD []).length) (hr : rLen ≤ (rBuf.getD []).length)
    (hc : c.Clean) : ((dwWorld base true).restrict RxBounded).wp
      (dwI2cXfer base wBuf wLen rBuf rLen)
      (fun r c' ↦ ∃ got, r.2 = stored rBuf got ∧
        IsolatedPost c.issued ⟨base, wBuf, wLen, rLen⟩ r.1 got c') c := by
  have hkept := kept_clean_rxBounded
  by_cases hvalid : xferInvalid wBuf wLen rBuf rLen = true
  · unfold dwI2cXfer
    rw [if_pos hvalid]
    exact ⟨[], by cases rBuf <;> simp [stored], hc, by simp⟩
  · -- the clean controller counts the same READ commands until the first one is queued
    have hissued : DwController.Kept RxBounded fun c' ↦ c'.Clean ∧ c'.issued = c.issued :=
      { step := fun c₁ c₂ h₁ hstep ↦ ⟨h₁.1.step hstep, by rw [← h₁.2]; cases hstep <;> rfl⟩
        ack := fun c₁ abort polls h₁ habort ↦ ⟨hkept.ack c₁ abort polls h₁.1 habort, h₁.2⟩
        allowed := fun c₁ e h₁ ↦ hkept.allowed c₁ e h₁.1 }
    have hx : (⟨base, wBuf, wLen, rLen⟩ : XferArgs).Valid rBuf := ⟨hw, hr⟩
    refine (isolatedRules c.issued hx).wp_dwI2cXfer hx (by simpa using hvalid) ?_
    refine World.wp_mono (hissued.rd ⟨hc, rfl⟩ (by decide)) fun _ c₁ h₁ ↦ ?_
    refine World.wp_mono (hissued.rd h₁ (by decide)) fun _ c₂ h₂ ↦ ?_
    exact h₂.2 ▸ h₂.1.inCall _

end

/-! ## Sequences of transfers -/

/-- The states of the controller after a successful `DwI2cInit` and any sequence of transfers. -/
inductive BetweenTransfers (base : UInt64) (hold : Bool) : DwController → Prop
  | init {c c' : DwController} {slaveAddr : UInt8} {forceTiming : Option DwI2cTiming}
      {t : List (Event Uefi)} (hc : c.WellFormed)
      (hret : (dwI2cInit base slaveAddr forceTiming).Returns t .success)
      (hpath : (dwWorld base hold).Path c t c') : BetweenTransfers base hold c'
  | xfer {c c' : DwController} {wBuf rBuf : Option (List UInt8)} {wLen rLen : ℕ}
      {t : List (Event Uefi)} {r : EfiStatus × Option (List UInt8)}
      (hc : BetweenTransfers base hold c) (hw : wLen ≤ (wBuf.getD []).length)
      (hr : rLen ≤ (rBuf.getD []).length) (hret : (dwI2cXfer base wBuf wLen rBuf rLen).Returns t r)
      (hpath : (dwWorld base hold).Path c t c') : BetweenTransfers base hold c'

/-- At every moment of every transfer the RX FIFO holds at most eight bytes, and a success has
stored the bytes that answered the READ commands of this transfer, in order. -/
def Isolated (base : UInt64) (hold : Bool) : Prop :=
  ∀ (c c' : DwController) (wBuf rBuf : Option (List UInt8)) (wLen rLen : ℕ)
    (t : List (Event Uefi)) (q : Prog Uefi (EfiStatus × Option (List UInt8))),
    BetweenTransfers base hold c →
    wLen ≤ (wBuf.getD []).length → rLen ≤ (rBuf.getD []).length →
    (dwI2cXfer base wBuf wLen rBuf rLen).Reaches t q → (dwWorld base hold).Path c t c' →
    (∀ c'', (dwWorld base hold).drift c' c'' → c''.rx.length ≤ 8) ∧
      ∀ rBuf', q = .pure (.success, rBuf') → ∃ got, got.length = rLen ∧ rBuf' = stored rBuf got ∧
        c'.own c.issued = (List.range' c.issued rLen).zip got

theorem BetweenTransfers.clean {base : UInt64} {c : DwController}
    (h : BetweenTransfers base true c) : c.Clean := by
  induction h with
  | init hc hret hpath =>
    exact World.wp_returns (wp_dwI2cInit hc) hret (World.path_restrict.mpr hpath)
  | xfer _ hw hr hret hpath ih =>
    obtain ⟨_, _, hclean, _⟩ := World.wp_returns (wp_dwI2cXfer_isolated hw hr ih) hret
      (World.path_restrict.mpr hpath)
    exact hclean

/-- **No transfer returns another transfer's bytes.** -/
theorem dwI2cXfer_isolated (base : UInt64) : Isolated base true := by
  intro c c' wBuf rBuf wLen rLen t q hc hw hr hreach hpath
  have hwp := World.wp_sound (wp_dwI2cXfer_isolated hw hr hc.clean) hreach
    (World.path_restrict.mpr hpath)
  constructor
  · intro c'' hdrift
    cases q with
    | pure r =>
      obtain ⟨_, _, hclean, _⟩ := hwp
      have hstable : ((dwWorld base true).restrict RxBounded).Stable DwController.Clean :=
        stable_of_step fun _ _ hc ↦ hc.step
      rw [(hstable _ _ hclean hdrift).rx]
      exact Nat.zero_le _
    | fault f => exact hwp.elim
    | op e k => exact (hwp c'' hdrift).1
  · rintro rBuf' rfl
    obtain ⟨got, hbuf, _, hsuccess⟩ := hwp
    exact ⟨got, (hsuccess rfl).1, hbuf, (hsuccess rfl).2⟩

/-- A controller out of reset. -/
def DwController.reset : DwController := ⟨[], [], false, none, false, false, 0, 0, []⟩

/-- The controller after `DwI2cInit`. -/
def DwController.ready : DwController := ⟨[], [], false, none, true, true, 1, 0, []⟩

def initTrace : List (Event Uefi) :=
  [⟨.mmioWrite32 0x6C 0, ()⟩, ⟨.mmioRead32 0x9C, (0 : UInt32)⟩, ⟨.mmioRead32 0x00, (0 : UInt32)⟩,
   ⟨.mmioWrite32 0x00 0x65, ()⟩, ⟨.mmioRead32 0x1C, (1 : UInt32)⟩, ⟨.mmioRead32 0x20, (1 : UInt32)⟩,
   ⟨.mmioWrite32 0x30 0, ()⟩, ⟨.mmioWrite32 0x3C 0, ()⟩, ⟨.mmioWrite32 0x38 0, ()⟩,
   ⟨.mmioWrite32 0x04 0x10, ()⟩, ⟨.mmioWrite32 0x6C 1, ()⟩, ⟨.mmioRead32 0x9C, (1 : UInt32)⟩]

theorem returns_initTrace : (dwI2cInit 0 0x10 none).Returns initTrace .success := by
  unfold initTrace Prog.Returns
  exact .step _ (.step _ (.step _ (.step _ (.step _ (.step _ (.step _ (.step _ (.step _
    (.step _ (.step _ (.step _ (.refl _))))))))))))

theorem path_initTrace (hold : Bool) : (dwWorld 0 hold).Path .reset initTrace .ready := by
  cases hold <;> exact .cons .refl rfl (.cons .refl ⟨by decide, by decide, rfl⟩ (.cons .refl rfl
    (.cons .refl rfl (.cons .refl rfl (.cons .refl rfl (.cons .refl rfl (.cons .refl rfl
    (.cons .refl rfl (.cons .refl rfl (.cons .refl rfl
    (.cons (.single (.enable rfl)) ⟨by decide, by decide, rfl⟩ (.nil _))))))))))))

theorem wellFormed_reset : DwController.reset.WellFormed :=
  ⟨fun _ ↦ ⟨rfl, rfl⟩, fun _ ↦ rfl, fun _ hp ↦ absurd hp List.not_mem_nil,
    fun _ hn ↦ absurd hn List.not_mem_nil⟩

theorem betweenTransfers_ready (hold : Bool) : BetweenTransfers 0 hold .ready :=
  .init wellFormed_reset returns_initTrace (path_initTrace hold)

theorem path_oneByteRead (hold : Bool) : (dwWorld 0 hold).Path .ready oneByteRead
    ⟨[], [], false, none, true, true, 1, 1, [(0, 0xAB)]⟩ := by
  cases hold <;> exact .cons .refl rfl (.cons .refl rfl (.cons .refl ⟨by decide, rfl⟩
    (.cons .refl ⟨by decide, rfl⟩ (.cons .refl rfl
    (.cons (.single (.read rfl rfl rfl 0xAB)) ⟨by decide, rfl⟩ (.cons .refl (.inr ⟨_, rfl, rfl⟩)
    (.cons .refl ⟨by decide, rfl⟩ (.cons .refl ⟨by decide, rfl⟩ (.cons .refl rfl (.nil _))))))))))

theorem dwI2cXfer_isolated_oneByteRead : ∃ got : List UInt8, got.length = 1 ∧
    some [0xAB] = stored (some [0]) got ∧ [(0, (0xAB : UInt8))] = (List.range' 0 1).zip got :=
  (dwI2cXfer_isolated 0 _ _ none (some [0]) 0 1 _ _ (betweenTransfers_ready true) (Nat.zero_le _)
    (by decide) returns_oneByteRead (path_oneByteRead true)).2 _ rfl

/-! ## Without the hold

When an abort empties the TX FIFO only once, a READ command queued between the abort and the check
for it outlives the transfer, and its byte is the first one of the next transfer.
-/

/-- A pure read of two bytes whose address is not acknowledged after the abort was looked for. -/
def nakTrace : List (Event Uefi) :=
  [⟨.mmioRead32 0x54, (0 : UInt32)⟩, ⟨.mmioRead32 0x60, (0 : UInt32)⟩,
   ⟨.mmioRead32 0x34, (0 : UInt32)⟩, ⟨.mmioRead32 0x70, (2 : UInt32)⟩,
   ⟨.mmioWrite32 0x10 0x100, ()⟩, ⟨.mmioRead32 0x70, (0 : UInt32)⟩,
   ⟨.mmioRead32 0x34, (0 : UInt32)⟩, ⟨.mmioRead32 0x70, (2 : UInt32)⟩,
   ⟨.mmioWrite32 0x10 0x300, ()⟩, ⟨.mmioRead32 0x70, (0 : UInt32)⟩,
   ⟨.mmioRead32 0x34, (0x40 : UInt32)⟩, ⟨.mmioRead32 0x80, (1 : UInt32)⟩,
   ⟨.mmioRead32 0x54, (0 : UInt32)⟩]

theorem returns_nakTrace :
    (dwI2cXfer 0 none 0 (some [0, 0]) 2).Returns nakTrace (.noResponse, some [0, 0]) := by
  unfold nakTrace Prog.Returns
  exact .step _ (.step _ (.step _ (.step _ (.step _ (.step _ (.step _ (.step _ (.step _
    (.step _ (.step _ (.step _ (.step _ (.refl _)))))))))))))

/-- The second READ command was queued after the abort. -/
def DwController.stale : DwController := ⟨[⟨0x300, 1⟩], [], false, none, true, true, 1, 2, []⟩

theorem path_nakTrace : (dwWorld 0 false).Path .ready nakTrace .stale :=
  .cons .refl rfl (.cons .refl rfl (.cons .refl ⟨by decide, rfl⟩ (.cons .refl ⟨by decide, rfl⟩
    (.cons .refl rfl (.cons .refl ⟨by decide, rfl⟩ (.cons .refl ⟨by decide, rfl⟩
    (.cons (.single (.addressNak rfl rfl (.inl rfl) rfl)) ⟨by decide, rfl⟩
    (.cons .refl rfl (.cons .refl ⟨by decide, rfl⟩ (.cons .refl ⟨by decide, rfl⟩
    (.cons .refl ⟨by decide, rfl⟩ (.cons .refl rfl (.nil _)))))))))))))

theorem path_oneByteRead_stale : (dwWorld 0 false).Path .stale oneByteRead
    ⟨[⟨0x300, 2⟩], [], false, none, true, true, 1, 3, [(1, 0xAB)]⟩ :=
  .cons .refl rfl (.cons .refl rfl (.cons .refl ⟨by decide, rfl⟩ (.cons .refl ⟨by decide, rfl⟩
    (.cons .refl rfl (.cons (.single (.read rfl rfl rfl 0xAB)) ⟨by decide, rfl⟩
    (.cons .refl (.inr ⟨_, rfl, rfl⟩) (.cons .refl ⟨by decide, rfl⟩ (.cons .refl ⟨by decide, rfl⟩
    (.cons .refl rfl (.nil _))))))))))

theorem not_isolated_of_oneShot : ¬Isolated 0 false := by
  intro h
  have hstale : BetweenTransfers 0 false .stale :=
    .xfer (betweenTransfers_ready false) (Nat.zero_le _) (by decide) returns_nakTrace path_nakTrace
  obtain ⟨got, hlen, -, hown⟩ := (h _ _ none (some [0]) 0 1 _ _ hstale (Nat.zero_le _) (by decide)
    returns_oneByteRead path_oneByteRead_stale).2 _ rfl
  have hzip := congrArg List.length hown
  rw [List.length_zip, List.length_range', hlen] at hzip
  exact absurd hzip (by decide)

end TouchI2c
