import TouchI2c.Bus.Footprint
import TouchI2c.DwI2c.CommandStream

/-!
# What a transfer delivers

The bytes that a read brings in, as the trace of that read shows them: what the driver read from
`IC_DATA_CMD`, what the MediaTek master left in the receive buffer, or what the firmware answered. A
read that succeeds fills the whole of `RBuf` with them.

`Delivered` is read off the trace alone, so it does not matter what `RBuf` held before: a read that
succeeds has nothing of an earlier report in it. For the DesignWare master this comes from the rule
of a transfer, for the other two from the last operation of a successful one.
-/

namespace TouchI2c

open CMemory Interaction

/-- The trace `t` of a read on the selected transport brought in `bytes`. -/
def Delivered (bus : I2cBus) (base : UInt64) (t : List (Event Uefi)) (bytes : List UInt8) : Prop :=
  match bus.mKind with
  | .designWare => bytes = (dataCmdReads base t).map dataByte
  | .mediaTek => ∃ t₀ phys n, ∃ r : Filled n, t = t₀ ++ [⟨.loadDma phys n, r⟩] ∧ bytes = r.1
  | .firmware => ∃ handle slave w n, ∃ r : EfiStatus × EfiStatus × Filled n, bytes = r.2.2.1 ∧
      (t = [⟨.queueRequest handle slave w n, r⟩] ∨ t = [⟨.startRequest handle slave w n, r⟩])

section

variable {t : List (Event Uefi)} {status : EfiStatus} {buf : List UInt8}
  {buf' : Option (List UInt8)}

theorem returns_onMtk {α : Type} {p : Mtk α} {bus bus' : I2cBus} {a : α} :
    ((onMtk p).run bus).Returns t (a, bus') ↔
      ∃ c, (p.run bus.mtk).Returns t (a, c) ∧ { bus with mtk := c } = bus' := by
  unfold onMtk
  simp only [Prog.returnsS_bind, Prog.returnsS_get, Prog.returnsS_lift, Prog.returnsS_set,
    Prog.returnsS_pure]
  constructor
  · rintro ⟨_, _, _, _, rfl, ⟨rfl, rfl, rfl⟩, t₁, _, ⟨a', c⟩, _, rfl, ⟨hp, rfl⟩, _, _, _, _, rfl,
      ⟨rfl, rfl⟩, rfl, rfl, rfl⟩
    exact ⟨c, by simpa using hp, rfl⟩
  · rintro ⟨c, hp, rfl⟩
    exact ⟨[], t, _, _, rfl, ⟨rfl, rfl, rfl⟩, t, [], (a, c), _, (List.append_nil t).symm, ⟨hp, rfl⟩,
      [], [], ⟨⟩, _, rfl, ⟨rfl, rfl⟩, rfl, rfl, rfl⟩

private theorem copyMem_all {bytes : List UInt8} (h : bytes.length = buf.length) :
    copyMem buf bytes 0 buf.length = .ok bytes := by
  rw [copyMem_ok le_rfl (by omega), List.drop_zero, List.take_of_length_le h.le, List.drop_length,
    List.append_nil]

private theorem mtkCollect_delivered {c c' : MtkI2c} (hlen : 0 < buf.length)
    (hstatus : status.isError = false)
    (hret : ((mtkCollect (some buf) buf.length status).run c).Returns t (buf', c')) :
    ∃ bytes, buf' = some bytes ∧ bytes.length = buf.length ∧
      ∃ phys n, ∃ r : Filled n, t = [⟨.loadDma phys n, r⟩] ∧ bytes = r.1 := by
  rw [mtkCollect, if_pos (by simp [hstatus, hlen]), Prog.returnsS_bind] at hret
  obtain ⟨_, _, _, _, rfl, hget, hret⟩ := hret
  obtain ⟨rfl, rfl, rfl⟩ := Prog.returnsS_get.mp hget
  obtain ⟨_, _, bytes, _, rfl, hload, hcopy⟩ := Prog.returnsS_bind.mp hret
  obtain ⟨hperform, rfl⟩ := Prog.returnsS_lift.mp hload
  obtain rfl := Prog.returns_perform.mp hperform
  obtain ⟨_, _, _, _, rfl, hcopy, hend⟩ := Prog.returnsS_bind.mp hcopy
  obtain ⟨rfl, hcopy, rfl⟩ := Prog.returnsS_liftChecked.mp hcopy
  obtain ⟨rfl, rfl, rfl⟩ := Prog.returnsS_pure.mp hend
  rw [Option.getD_some, copyMem_all bytes.2] at hcopy
  cases hcopy
  exact ⟨bytes.1, rfl, bytes.2, _, _, bytes, rfl, rfl⟩

private theorem mtkI2cXfer_delivered {c c' : MtkI2c} (hlen : 0 < buf.length)
    (hret : ((mtkI2cXfer none 0 (some buf) buf.length).run c).Returns t ((status, buf'), c'))
    (hstatus : status.isError = false) :
    ∃ bytes, buf' = some bytes ∧ bytes.length = buf.length ∧
      ∃ t₀ phys n, ∃ r : Filled n, t = t₀ ++ [⟨.loadDma phys n, r⟩] ∧ bytes = r.1 := by
  rw [mtkI2cXfer, Prog.returnsS_bind] at hret
  obtain ⟨_, _, ctl, _, rfl, hget, hret⟩ := hret
  obtain ⟨rfl, rfl, rfl⟩ := Prog.returnsS_get.mp hget
  split at hret
  · obtain ⟨-, heq, -⟩ := Prog.returnsS_pure.mp hret
    cases heq
    exact absurd hstatus (by decide)
  split at hret
  · obtain ⟨-, heq, -⟩ := Prog.returnsS_pure.mp hret
    cases heq
    exact absurd hstatus (by decide)
  obtain ⟨t₁, _, _, c₁, rfl, -, hret⟩ := Prog.returnsS_bind.mp hret
  obtain ⟨t₂, _, _, c₂, rfl, -, hret⟩ := Prog.returnsS_bind.mp hret
  obtain ⟨t₃, _, status', c₃, rfl, -, hret⟩ := Prog.returnsS_bind.mp hret
  obtain ⟨t₄, _, _, c₄, rfl, -, hret⟩ := Prog.returnsS_bind.mp hret
  obtain ⟨t₅, _, _, c₅, rfl, -, hret⟩ := Prog.returnsS_bind.mp hret
  obtain ⟨t₆, _, buf₁, c₆, rfl, hcollect, hret⟩ := Prog.returnsS_bind.mp hret
  obtain ⟨rfl, heq, rfl⟩ := Prog.returnsS_pure.mp hret
  cases heq
  obtain ⟨bytes, rfl, hbytes, phys, n, r, rfl, rfl⟩ := mtkCollect_delivered hlen hstatus hcollect
  exact ⟨r.1, rfl, hbytes, t₁ ++ t₂ ++ t₃ ++ t₄ ++ t₅, phys, n, r, by simp, rfl⟩

/-- A protocol of the firmware answers with all the bytes in one call. -/
private theorem fwFill_delivered {bytes : Filled buf.length} {s xs : EfiStatus}
    (hlen : 0 < buf.length)
    (hret : Prog.Returns (do return (fwNormalise s xs, ← fwFill (some buf) buf.length bytes) :
      Prog Uefi (EfiStatus × Option (List UInt8))) t (status, buf')) :
    t = [] ∧ buf' = some bytes.1 := by
  have hfill : fwFill (some buf) buf.length bytes = .ok (some bytes.1) := by
    rw [fwFill, if_pos hlen]
    change (do return some (← copyMem buf bytes.1 0 buf.length)) = _
    rw [copyMem_all bytes.2]
    rfl
  rw [hfill] at hret
  obtain ⟨rfl, heq⟩ := Prog.returns_pure.mp hret
  cases heq
  exact ⟨rfl, rfl⟩

private theorem fwXfer_delivered {fw : I2cFwBus} (hlen : 0 < buf.length)
    (hret : (fwXfer fw none 0 (some buf) buf.length).Returns t (status, buf'))
    (hstatus : status.isError = false) :
    ∃ bytes, buf' = some bytes ∧ bytes.length = buf.length ∧
      ∃ handle slave w n, ∃ r : EfiStatus × EfiStatus × Filled n, bytes = r.2.2.1 ∧
        (t = [⟨.queueRequest handle slave w n, r⟩] ∨
          t = [⟨.startRequest handle slave w n, r⟩]) := by
  rw [fwXfer, Prog.returns_bind] at hret
  obtain ⟨_, _, w, rfl, hcopy, hret⟩ := hret
  obtain ⟨rfl, -⟩ := Prog.returns_ofChecked.mp hcopy
  split at hret
  · obtain ⟨_, _, ⟨s, xs, bytes⟩, rfl, hreq, hfill⟩ := Prog.returns_bind.mp hret
    obtain rfl := Prog.returns_perform.mp hreq
    obtain ⟨rfl, rfl⟩ := fwFill_delivered hlen hfill
    exact ⟨bytes.1, rfl, bytes.2, _, _, _, _, (s, xs, bytes), rfl, .inl rfl⟩
  split at hret
  · obtain ⟨_, _, ⟨s, xs, bytes⟩, rfl, hreq, hfill⟩ := Prog.returns_bind.mp hret
    obtain rfl := Prog.returns_perform.mp hreq
    obtain ⟨rfl, rfl⟩ := fwFill_delivered hlen hfill
    exact ⟨bytes.1, rfl, bytes.2, _, _, _, _, (s, xs, bytes), rfl, .inr rfl⟩
  · obtain ⟨-, heq⟩ := Prog.returns_pure.mp hret
    cases heq
    exact absurd hstatus (by decide)

/-- A host protocol of the firmware can answer a read with any bytes. -/
theorem i2cHidRawRead_firmware {bus : I2cBus} {base : UInt64} {bytes : List UInt8} {len : ℕ}
    (hkind : bus.mKind = .firmware) (hhost : bus.mFw.host = true) (hbuf : buf.length = len)
    (hlen : bytes.length = len) :
    ((i2cHidRawRead base (some buf) len).run bus).Returns
      [⟨.queueRequest bus.mFw.handle bus.mFw.slaveAddr [] len,
        (.success, .success, ⟨bytes, hlen⟩)⟩] ((.success, some bytes), bus) := by
  subst hbuf
  have hcopy : copyMem (List.replicate 0 0) ((none : Option (List UInt8)).getD []) 0 0 = .ok [] := rfl
  have hfill : fwFill (some buf) buf.length ⟨bytes, hlen⟩ = .ok (some bytes) := by
    unfold fwFill
    split
    · change (do return some (← copyMem buf bytes 0 buf.length)) = _
      rw [copyMem_all hlen]
      rfl
    · next hpos =>
      have hbuf : buf = [] := List.eq_nil_of_length_eq_zero (by omega)
      have hbytes : bytes = [] := List.eq_nil_of_length_eq_zero (by omega)
      rw [hbuf, hbytes]
      rfl
  have hxfer : (fwXfer bus.mFw none 0 (some buf) buf.length).Returns
      [⟨.queueRequest bus.mFw.handle bus.mFw.slaveAddr [] buf.length,
        (.success, .success, ⟨bytes, hlen⟩)⟩] (.success, some bytes) := by
    rw [fwXfer, hcopy, hhost]
    refine Prog.returns_bind.mpr ⟨[], _, [], rfl, Prog.returns_ofChecked.mpr ⟨rfl, rfl⟩, ?_⟩
    refine Prog.returns_bind.mpr ⟨_, [], _, rfl, Prog.returns_perform.mpr rfl, ?_⟩
    dsimp only
    rw [hfill]
    exact Prog.returns_pure.mpr ⟨rfl, rfl⟩
  refine Prog.returnsS_bind.mpr ⟨[], _, _, _, rfl, Prog.returnsS_get.mpr ⟨rfl, rfl, rfl⟩, ?_⟩
  rw [hkind]
  exact Prog.returnsS_lift.mpr ⟨hxfer, rfl⟩

/-- **A read that succeeds fills `RBuf` with what it has just brought in.** -/
theorem i2cHidRawRead_delivered {bus bus' : I2cBus} {base : UInt64} (hlen : 0 < buf.length)
    (hret : ((i2cHidRawRead base (some buf) buf.length).run bus).Returns t ((status, buf'), bus'))
    (hstatus : status.isError = false) :
    ∃ bytes, buf' = some bytes ∧ bytes.length = buf.length ∧ Delivered bus base t bytes := by
  rw [i2cHidRawRead, i2cBusXfer, Prog.returnsS_bind] at hret
  obtain ⟨_, _, _, _, rfl, hget, hret⟩ := hret
  obtain ⟨rfl, rfl, rfl⟩ := Prog.returnsS_get.mp hget
  rw [List.nil_append]
  unfold Delivered
  cases hkind : bus.mKind with
  | mediaTek =>
    rw [hkind] at hret
    dsimp only at hret ⊢
    split at hret
    · obtain ⟨c, hxfer, -⟩ := returns_onMtk.mp hret
      exact mtkI2cXfer_delivered hlen hxfer hstatus
    · obtain ⟨-, heq, -⟩ := Prog.returnsS_pure.mp hret
      cases heq
      exact absurd hstatus (by decide)
  | firmware =>
    rw [hkind] at hret
    obtain ⟨hxfer, -⟩ := Prog.returnsS_lift.mp hret
    exact fwXfer_delivered hlen hxfer hstatus
  | designWare =>
    rw [hkind] at hret
    obtain ⟨hxfer, -⟩ := Prog.returnsS_lift.mp hret
    obtain ⟨hbuf', hreads⟩ := dwI2cXfer_received (Nat.zero_le _) le_rfl hxfer hstatus
    rw [Option.getD_some] at hreads
    refine ⟨_, ?_, ?_, rfl⟩
    · rw [hbuf', stored, Option.map_some, List.length_map, hreads, List.drop_length,
        List.append_nil]
    · rw [List.length_map, hreads]

end

end TouchI2c
