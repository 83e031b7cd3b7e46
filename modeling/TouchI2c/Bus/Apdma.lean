import TouchI2c.Bus.Footprint
import TouchI2c.Interaction.Recording

/-!
# The DMA channel of the MediaTek master

The engine moves bytes between the controller and physical memory, wherever its registers point.
`apdma` is the channel as a trace has left it, computed from the writes to its window.

## What is lawful

`DmaLawful` asks that the engine is started only while it is at rest, and only over pages that the
driver has allocated, and that the driver itself touches DMA memory only inside of such a page and
while the engine is at rest. For a transaction with two parts the engine turns around in between, so
both aims have to be right before it starts.

## At rest or not

The engine is at rest after a reset, or when the status bits that the driver has accumulated since
the start say that the controller has finished. So a transaction that succeeds leaves it at rest,
and one that times out may not; every error exit of `MtkI2cXfer` goes through `MtkInitHw`, which
resets it. `Settling` carries the rest through the parts of a function that start nothing, and
`Accumulating` is the state in between: the engine runs, and if the bits accumulated so far say that
it has finished, it is at rest. A second attempt of a transaction starts from a reset.

`OwnsBuffers` keeps the addresses of the two buffers as the pages they were allocated at; a bus
address comes back from the two registers that hold its halves.
-/

namespace TouchI2c

open CMemory Interaction

/-! ## The channel -/

/-- The channel as it has been programmed, and whether the engine may be moving bytes. -/
structure Apdma where
  con : UInt32 := 0
  tx4gMode : UInt32 := 0
  txMemAddr : UInt32 := 0
  txLen : UInt32 := 0
  rx4gMode : UInt32 := 0
  rxMemAddr : UInt32 := 0
  rxLen : UInt32 := 0
  running : Bool := false
  deriving DecidableEq, Repr

namespace Apdma

/-- The channel after one of its registers is written. A hard reset stops the engine. -/
def write (ch : Apdma) (off : UInt64) (v : UInt32) : Apdma :=
  if off = mtkDmaCon then { ch with con := v }
  else if off = mtkDmaTx4gMode then { ch with tx4gMode := v }
  else if off = mtkDmaTxMemAddr then { ch with txMemAddr := v }
  else if off = mtkDmaTxLen then { ch with txLen := v }
  else if off = mtkDmaRx4gMode then { ch with rx4gMode := v }
  else if off = mtkDmaRxMemAddr then { ch with rxMemAddr := v }
  else if off = mtkDmaRxLen then { ch with rxLen := v }
  else if off = mtkDmaEn then { ch with running := v &&& mtkDmaStartEn != 0 }
  else if off = mtkDmaRst ∧ v &&& mtkDmaHardRst ≠ 0 then { ch with running := false }
  else ch

/-- The transaction turns around between its two parts. -/
def Turns (ch : Apdma) : Prop := ch.con &&& mtkDmaDirChange ≠ 0

/-- The engine reads the transmit page. -/
def Transmits (ch : Apdma) : Prop := ch.Turns ∨ ch.con &&& mtkDmaConRx = 0

/-- The engine writes the receive page. -/
def Receives (ch : Apdma) : Prop := ch.Turns ∨ ch.con &&& mtkDmaConRx ≠ 0

/-- The controller reports that it has finished. After the first part of a transaction that turns
around, `RS_TRANSFER` does not say so. -/
def Completes (ch : Apdma) (stat : UInt16) : Prop :=
  stat &&& mtkI2cTransacComp ≠ 0 ∨ ¬ch.Turns ∧ stat &&& mtkI2cRsTransfer ≠ 0

instance (ch : Apdma) : Decidable ch.Turns := inferInstanceAs (Decidable (_ ≠ _))

instance (ch : Apdma) (stat : UInt16) : Decidable (ch.Completes stat) :=
  inferInstanceAs (Decidable (_ ∨ _ ∧ _))

/-- The channel at `dmaBase` of the controller at `base` after one more event. -/
def step (base dmaBase : UInt64) (ch : Apdma) (ev : Event Uefi) : Apdma :=
  match ev.op, ev.ret with
  | .mmioWrite32 a v, _ => ch.write (a - dmaBase) v
  | .mmioRead16 a, (stat : UInt16) =>
    if a = base + mtkRegIntrStat ∧ ch.Completes stat then { ch with running := false } else ch
  | _, _ => ch

end Apdma

/-- The channel after a trace. -/
def apdma (base dmaBase : UInt64) (t : List (Event Uefi)) : Apdma :=
  t.foldl (Apdma.step base dmaBase) {}

/-- The 64-bit address in two registers. -/
def busAddress (high low : UInt32) : UInt64 := high.toUInt64 <<< 32 ||| low.toUInt64

/-- The driver has allocated the page. Pages are never freed. -/
def PageOf (t : List (Event Uefi)) (p : UInt64) : Prop :=
  ∃ status : EfiStatus, status.isError = false ∧ (⟨.allocatePages, (status, p)⟩ : Event Uefi) ∈ t

/-- The registers name some bytes of a page of the driver. -/
def Targets (t : List (Event Uefi)) (high low len : UInt32) : Prop :=
  PageOf t (busAddress high low) ∧ 0 < len.toNat ∧ len.toNat ≤ efiPageSize

/-- The engine may be started: it is at rest, and every page it will access is the driver's. -/
structure MayStart (t : List (Event Uefi)) (ch : Apdma) : Prop where
  rest : ch.running = false
  tx : ch.Transmits → Targets t ch.tx4gMode ch.txMemAddr ch.txLen
  rx : ch.Receives → Targets t ch.rx4gMode ch.rxMemAddr ch.rxLen

/-- The driver may access `n` bytes of DMA memory. -/
structure MayTouch (t : List (Event Uefi)) (ch : Apdma) (phys : UInt64) (n : ℕ) : Prop where
  rest : ch.running = false
  page : PageOf t phys
  fits : n ≤ efiPageSize

/-- What the driver may do with the engine and with DMA memory after a trace. -/
def DmaLawful (base dmaBase : UInt64) (t : List (Event Uefi)) : UefiOp → Prop
  | .mmioWrite32 a v =>
    a = dmaBase + mtkDmaEn → v &&& mtkDmaStartEn ≠ 0 → MayStart t (apdma base dmaBase t)
  | .storeDma phys bytes => MayTouch t (apdma base dmaBase t) phys bytes.length
  | .loadDma phys n => MayTouch t (apdma base dmaBase t) phys n
  | _ => True

/-! ## Facts about the channel -/

theorem busAddress_split (p : UInt64) : busAddress (highHalf p) p.toUInt32 = p := by
  have hp := p.toNat_lt
  have hlow : p.toNat % 2 ^ 32 < 2 ^ 32 := Nat.mod_lt _ (by decide)
  have hhigh : p.toNat / 2 ^ 32 < 2 ^ 32 := by omega
  rw [busAddress, highHalf, ← UInt64.toNat_inj]
  simp only [UInt64.toNat_or, UInt64.toNat_shiftLeft, UInt32.toNat_toUInt64, UInt64.toNat_toUInt32,
    UInt64.toNat_shiftRight, UInt64.reduceToNat, Nat.reduceMod, Nat.shiftRight_eq_div_pow]
  rw [Nat.mod_eq_of_lt hhigh, Nat.mod_eq_of_lt (by rw [Nat.shiftLeft_eq]; omega),
    ← Nat.shiftLeft_add_eq_or_of_lt hlow, Nat.shiftLeft_eq]
  omega

theorem PageOf.append {t : List (Event Uefi)} {p : UInt64} (h : PageOf t p)
    (u : List (Event Uefi)) : PageOf (t ++ u) p := by
  obtain ⟨status, hok, hmem⟩ := h
  exact ⟨status, hok, List.mem_append_left u hmem⟩

theorem targets_of_pageOf {t : List (Event Uefi)} {p : UInt64} {n : ℕ} (h : PageOf t p) (hpos : 0 < n)
    (hle : n ≤ mtkI2cMaxXfer) : Targets t (highHalf p) p.toUInt32 (UInt32.ofNat n) := by
  have hn : (UInt32.ofNat n).toNat = n := by
    rw [UInt32.toNat_ofNat']
    exact Nat.mod_eq_of_lt (lt_of_le_of_lt hle (by decide))
  refine ⟨?_, ?_, ?_⟩
  · rwa [busAddress_split]
  · rwa [hn]
  · rwa [hn]

section

variable {base dmaBase : UInt64} {t : List (Event Uefi)} {ev : Event Uefi}

theorem apdma_concat :
    apdma base dmaBase (t ++ [ev]) = (apdma base dmaBase t).step base dmaBase ev :=
  List.foldl_append

/-- Only the registers of the window are looked at. -/
theorem Apdma.write_of_le (ch : Apdma) {off : UInt64} (hoff : 0x80 ≤ off) (v : UInt32) :
    ch.write off v = ch := by
  have hne : ∀ reg : UInt64, reg < 0x80 → off ≠ reg := by
    rintro reg hlt rfl
    exact absurd hlt (UInt64.not_lt.mpr hoff)
  have hrst : ¬(off = mtkDmaRst ∧ v &&& mtkDmaHardRst ≠ 0) := fun h ↦ hne _ (by decide) h.1
  rw [Apdma.write, if_neg (hne _ (by decide)), if_neg (hne _ (by decide)),
    if_neg (hne _ (by decide)), if_neg (hne _ (by decide)), if_neg (hne _ (by decide)),
    if_neg (hne _ (by decide)), if_neg (hne _ (by decide)), if_neg (hne _ (by decide)), if_neg hrst]

/-- No write to the channel, and no access to DMA memory. -/
def OffChannel (dmaBase : UInt64) : UefiOp → Prop
  | .mmioWrite32 a _ => ∀ off < 0x80, a ≠ dmaBase + off
  | .storeDma _ _ | .loadDma _ _ => False
  | _ => True

theorem OffChannel.lawful {e : UefiOp} (h : OffChannel dmaBase e) : DmaLawful base dmaBase t e := by
  cases e with
  | mmioWrite32 a v => exact fun ha ↦ absurd ha (h mtkDmaEn (by decide))
  | storeDma | loadDma => exact h.elim
  | _ => exact trivial

theorem OffChannel.rest {e : UefiOp} (h : OffChannel dmaBase e) (r : e.Ret)
    (hrest : (apdma base dmaBase t).running = false) :
    (apdma base dmaBase (t ++ [⟨e, r⟩])).running = false := by
  rw [apdma_concat]
  cases e with
  | mmioWrite32 a v =>
    have hoff : 0x80 ≤ a - dmaBase := by
      by_contra hlt
      refine h (a - dmaBase) (UInt64.not_le.mp hlt) ?_
      rw [UInt64.add_comm, UInt64.sub_add_cancel]
    change (Apdma.write _ _ _).running = false
    rwa [Apdma.write_of_le _ hoff]
  | mmioRead16 a =>
    change (if _ then _ else _ : Apdma).running = false
    split
    · rfl
    · exact hrest
  | _ => exact hrest

end

/-! ## The world -/

/-- The world that remembers the trace, where only what is lawful is allowed. -/
abbrev dmaWorld (base dmaBase : UInt64) (C : List (Event Uefi) → Prop) :
    World Uefi (List (Event Uefi)) := recording (DmaLawful base dmaBase) C

/-- The buffers of the instance are pages of the driver. -/
structure OwnsBuffers (c : MtkI2c) (t : List (Event Uefi)) : Prop where
  tx : c.txBuf ≠ 0 → c.txPhys = c.txBuf ∧ PageOf t c.txBuf
  rx : c.rxBuf ≠ 0 → c.rxPhys = c.rxBuf ∧ PageOf t c.rxBuf

/-- Between two calls the buffers are pages of the driver and the engine is at rest. -/
structure AtRest (base dmaBase : UInt64) (c : MtkI2c) (t : List (Event Uefi)) : Prop
    extends OwnsBuffers c t where
  rest : (apdma base dmaBase t).running = false

section

variable {base dmaBase : UInt64} {C : List (Event Uefi) → Prop} {c c' : MtkI2c}
  {t : List (Event Uefi)}

theorem OwnsBuffers.append (h : OwnsBuffers c t) (u : List (Event Uefi)) :
    OwnsBuffers c (t ++ u) where
  tx hne := ⟨(h.tx hne).1, (h.tx hne).2.append u⟩
  rx hne := ⟨(h.rx hne).1, (h.rx hne).2.append u⟩

theorem OwnsBuffers.congr (h : OwnsBuffers c t) (hbuf : c'.buffers = c.buffers) :
    OwnsBuffers c' t := by
  simp only [MtkI2c.buffers, Prod.mk.injEq] at hbuf
  obtain ⟨⟨htxBuf, htxPhys⟩, hrxBuf, hrxPhys⟩ := hbuf
  constructor
  · rw [htxBuf, htxPhys]
    exact h.tx
  · rw [hrxBuf, hrxPhys]
    exact h.rx

theorem AtRest.congr (h : AtRest base dmaBase c t) (hbuf : c'.buffers = c.buffers) :
    AtRest base dmaBase c' t := ⟨h.toOwnsBuffers.congr hbuf, h.rest⟩

/-- What is no business of the channel leaves it at rest. -/
theorem keeps_atRest : (dmaWorld base dmaBase C).Keeps (OffChannel dmaBase)
    (AtRest base dmaBase c) :=
  keeps_recording (fun _ _ he _ ↦ he.lawful) fun _ _ r he h ↦
    ⟨h.toOwnsBuffers.append _, he.rest r h.rest⟩

/-! ## Accesses -/

/-- The buffers are pages of the driver, and once `rest` is set the engine is at rest. -/
private structure Settling (base dmaBase : UInt64) (rest : Bool) (c : MtkI2c)
    (t : List (Event Uefi)) : Prop extends OwnsBuffers c t where
  settled : rest = true → (apdma base dmaBase t).running = false

private theorem AtRest.settling (h : AtRest base dmaBase c t) :
    Settling base dmaBase true c t := ⟨h.toOwnsBuffers, fun _ ↦ h.rest⟩

private theorem Settling.atRest (h : Settling base dmaBase true c t) :
    AtRest base dmaBase c t := ⟨h.toOwnsBuffers, h.settled rfl⟩

private theorem OwnsBuffers.settling (h : OwnsBuffers c t) : Settling base dmaBase false c t :=
  ⟨h, Bool.noConfusion⟩

private theorem Settling.congr {rest : Bool} (h : Settling base dmaBase rest c t)
    (hbuf : c'.buffers = c.buffers) : Settling base dmaBase rest c' t :=
  ⟨h.toOwnsBuffers.congr hbuf, h.settled⟩

section

variable {rest : Bool} {off : UInt64}

private theorem keeps_settling :
    (dmaWorld base dmaBase C).Keeps (OffChannel dmaBase) (Settling base dmaBase rest c) :=
  keeps_recording (fun _ _ he _ ↦ he.lawful) fun _ _ r he h ↦
    ⟨h.toOwnsBuffers.append _, fun hrest ↦ he.rest r (h.settled hrest)⟩

private theorem wpS_i2cWr_settling {val : UInt16} {Q : Unit → MtkI2c → List (Event Uefi) → Prop}
    (h : Settling base dmaBase rest c t)
    (hQ : ∀ t', Settling base dmaBase rest c t' → Q () c t') :
    (dmaWorld base dmaBase C).wpS (i2cWr off val) Q c t :=
  wpS_i2cWr_iff.mpr (keeps_settling.perform trivial h fun _ ↦ hQ)

private theorem wpS_i2cRd_settling {Q : UInt16 → MtkI2c → List (Event Uefi) → Prop}
    (h : Settling base dmaBase rest c t)
    (hQ : ∀ val t', Settling base dmaBase rest c t' → Q val c t') :
    (dmaWorld base dmaBase C).wpS (i2cRd off) Q c t :=
  wpS_i2cRd_iff.mpr (keeps_settling.perform trivial h hQ)

private theorem wpS_dmaRd_settling {Q : UInt32 → MtkI2c → List (Event Uefi) → Prop}
    (h : Settling base dmaBase rest c t)
    (hQ : ∀ val t', Settling base dmaBase rest c t' → Q val c t') :
    (dmaWorld base dmaBase C).wpS (dmaRd off) Q c t :=
  wpS_dmaRd_iff.mpr (keeps_settling.perform trivial h hQ)

private theorem wp_stall_settling {us : ℕ} {Q : Unit → List (Event Uefi) → Prop}
    (h : Settling base dmaBase rest c t)
    (hQ : ∀ t', Settling base dmaBase rest c t' → Q () t') :
    (dmaWorld base dmaBase C).wp (stall us) Q t :=
  keeps_settling.perform trivial h fun _ t' h' ↦ hQ t' h'

private theorem wpS_dmaWr_apdma {val : UInt32} {Q : Unit → MtkI2c → List (Event Uefi) → Prop}
    (hdma : c.dmaBase = dmaBase)
    (hstart : off = mtkDmaEn → val &&& mtkDmaStartEn ≠ 0 → MayStart t (apdma base dmaBase t))
    (hQ : ∀ t', (∃ ev, t' = t ++ [ev]) →
      apdma base dmaBase t' = (apdma base dmaBase t).write off val → Q () c t') :
    (dmaWorld base dmaBase C).wpS (dmaWr off val) Q c t := by
  rw [wpS_dmaWr_iff, hdma]
  refine wp_perform_recording.mpr ⟨fun heq ↦ hstart (UInt64.add_right_inj _ |>.mp heq), fun r _ ↦ ?_⟩
  refine hQ _ ⟨_, rfl⟩ ?_
  rw [apdma_concat]
  change Apdma.write _ (dmaBase + off - dmaBase) val = _
  rw [add_sub_base]

private theorem wpS_dmaWr_settling {val : UInt32} {Q : Unit → MtkI2c → List (Event Uefi) → Prop}
    (hdma : c.dmaBase = dmaBase) (hoff : off = mtkDmaEn → val &&& mtkDmaStartEn = 0)
    (h : Settling base dmaBase rest c t)
    (hQ : ∀ t', Settling base dmaBase rest c t' → Q () c t') :
    (dmaWorld base dmaBase C).wpS (dmaWr off val) Q c t := by
  refine wpS_dmaWr_apdma hdma (fun heq hne ↦ absurd (hoff heq) hne) fun t' ht' hch ↦ hQ t' ?_
  obtain ⟨ev, rfl⟩ := ht'
  refine ⟨h.toOwnsBuffers.append _, fun hrest ↦ ?_⟩
  rw [hch]
  unfold Apdma.write
  repeat' split
  all_goals first | exact h.settled hrest | rfl | skip
  next heq => simp [hoff heq]

private theorem wpS_dmaWr_reset {val : UInt32} {Q : Unit → MtkI2c → List (Event Uefi) → Prop}
    (hdma : c.dmaBase = dmaBase) (hval : val &&& mtkDmaHardRst ≠ 0)
    (h : Settling base dmaBase rest c t)
    (hQ : ∀ t', Settling base dmaBase true c t' → Q () c t') :
    (dmaWorld base dmaBase C).wpS (dmaWr mtkDmaRst val) Q c t := by
  refine wpS_dmaWr_apdma hdma (fun heq ↦ absurd heq (by decide)) fun t' ht' hch ↦ hQ t' ?_
  obtain ⟨ev, rfl⟩ := ht'
  refine ⟨h.toOwnsBuffers.append _, fun _ ↦ ?_⟩
  rw [hch]
  unfold Apdma.write
  simp +decide [hval]

end

/-! ## Reset and preparation -/

/-- **`MtkInitHw`** leaves the engine at rest, however it was before. -/
private theorem wpS_mtkInitHw_atRest (hdma : c.dmaBase = dmaBase) (h : OwnsBuffers c t) :
    (dmaWorld base dmaBase C).wpS mtkInitHw (fun _ c' t' ↦
      SameInstance c c' ∧ AtRest base dmaBase c' t') c t := by
  have hen : ∀ {val : UInt32}, mtkDmaRst = mtkDmaEn → val &&& mtkDmaStartEn = 0 :=
    fun heq ↦ absurd heq (by decide)
  have h : Settling base dmaBase false c t := h.settling
  unfold mtkInitHw
  simp only [World.wpS_bind, World.wpS_lift, World.wpS_get, World.wpS_modify]
  refine wpS_i2cWr_settling h fun t h ↦ wpS_i2cRd_settling h fun _ t h ↦
    wpS_i2cWr_settling h fun t h ↦ ?_
  refine wpS_dmaWr_settling hdma hen h fun t h ↦ wp_stall_settling h fun t h ↦ ?_
  refine wpS_dmaWr_settling hdma hen h fun t h ↦ wp_stall_settling h fun t h ↦ ?_
  refine wpS_dmaWr_reset hdma (by decide) h fun t h ↦ wpS_i2cWr_settling h fun t h ↦
    wp_stall_settling h fun t h ↦ ?_
  refine wpS_dmaWr_settling hdma hen h fun t h ↦ wpS_i2cWr_settling h fun t h ↦ ?_
  iterate 11 refine wpS_i2cWr_settling h fun t h ↦ ?_
  exact ⟨⟨⟨rfl, rfl, rfl⟩, rfl⟩, h.atRest.congr rfl⟩

private theorem wpS_mtkStart_atRest (hdma : c.dmaBase = dmaBase)
    (h : AtRest base dmaBase c t) : (dmaWorld base dmaBase C).wpS mtkStart
      (fun _ c' t' ↦ AtRest base dmaBase c' t') c t := by
  have hinit : ∀ {c' t'}, c'.dmaBase = dmaBase → AtRest base dmaBase c' t' →
      (dmaWorld base dmaBase C).wpS (do mtkInitHw; return EfiStatus.success)
        (fun _ c' t' ↦ AtRest base dmaBase c' t') c' t' := by
    intro c' t' hdma' h'
    rw [World.wpS_bind]
    exact World.wpS_mono (wpS_mtkInitHw_atRest hdma' h'.toOwnsBuffers) fun _ _ _ h'' ↦ h''.2
  rw [mtkStart, World.wpS_bind, mtkSnapshotOnce, World.wpS_bind, World.wpS_get]
  split
  · exact hinit hdma h
  · have h := h.settling
    unfold mtkSnapshotTiming
    simp only [World.wpS_bind, World.wpS_modify]
    iterate 7 refine wpS_i2cRd_settling h fun _ t h ↦ ?_
    refine World.wpS_mono (wpS_mtkInitHw_atRest ?_ (h.toOwnsBuffers.congr ?_))
      fun _ _ _ h' ↦ h'.2
    · exact hdma
    · rfl

private theorem pageOf_concat {status : EfiStatus} {phys : UInt64} (hok : status.isError = false) :
    PageOf (t ++ [⟨.allocatePages, (status, phys)⟩]) phys :=
  ⟨status, hok, List.mem_append_right t (List.mem_singleton.mpr rfl)⟩

private theorem wpS_mtkAllocateTx_atRest (h : AtRest base dmaBase c t) :
    (dmaWorld base dmaBase C).wpS mtkAllocateTx (fun _ c' t' ↦
      c'.base = c.base ∧ c'.dmaBase = c.dmaBase ∧ AtRest base dmaBase c' t') c t := by
  unfold mtkAllocateTx
  rw [World.wpS_bind, World.wpS_get]
  split
  · exact ⟨rfl, rfl, h⟩
  · rw [World.wpS_bind, World.wpS_lift]
    refine wp_perform_recording.mpr ⟨trivial, fun r _ ↦ ?_⟩
    obtain ⟨status, phys⟩ := r
    have hoff : OffChannel dmaBase .allocatePages := trivial
    have h' : AtRest base dmaBase c (t ++ [⟨.allocatePages, (status, phys)⟩]) :=
      ⟨h.toOwnsBuffers.append _, hoff.rest _ h.rest⟩
    dsimp only
    split
    · exact ⟨rfl, rfl, h'⟩
    · next hok =>
      refine ⟨rfl, rfl, ⟨fun _ ↦ ⟨rfl, pageOf_concat (by simpa using hok)⟩, h'.rx⟩, h'.rest⟩

private theorem wpS_mtkAllocateRx_atRest (h : AtRest base dmaBase c t) :
    (dmaWorld base dmaBase C).wpS mtkAllocateRx (fun _ c' t' ↦
      c'.base = c.base ∧ c'.dmaBase = c.dmaBase ∧ AtRest base dmaBase c' t') c t := by
  unfold mtkAllocateRx
  rw [World.wpS_bind, World.wpS_get]
  split
  · exact ⟨rfl, rfl, h⟩
  · rw [World.wpS_bind, World.wpS_lift]
    refine wp_perform_recording.mpr ⟨trivial, fun r _ ↦ ?_⟩
    obtain ⟨status, phys⟩ := r
    have hoff : OffChannel dmaBase .allocatePages := trivial
    have h' : AtRest base dmaBase c (t ++ [⟨.allocatePages, (status, phys)⟩]) :=
      ⟨h.toOwnsBuffers.append _, hoff.rest _ h.rest⟩
    dsimp only
    split
    · exact ⟨rfl, rfl, h'⟩
    · next hok =>
      refine ⟨rfl, rfl, ⟨h'.tx, fun _ ↦ ⟨rfl, pageOf_concat (by simpa using hok)⟩⟩, h'.rest⟩

/-- **`MtkI2cInit`.** -/
theorem wpS_mtkI2cInit_atRest (slaveAddr : UInt8) (h : AtRest base dmaBase c t) :
    (dmaWorld base dmaBase C).wpS (mtkI2cInit base dmaBase slaveAddr)
      (fun _ c' t' ↦ AtRest base dmaBase c' t') c t := by
  unfold mtkI2cInit
  rw [World.wpS_bind, World.wpS_get]
  split
  · exact h
  split
  · exact h
  rw [World.wpS_bind, World.wpS_set, World.wpS_bind]
  refine World.wpS_mono (keeps_atRest.wpS (mtkMapWindows_within (fun e he ↦ ?_) base dmaBase)
    (h.congr rfl)) fun status c₁ t₁ h₁ ↦ ?_
  · cases e <;> first | exact he.elim | exact trivial
  obtain ⟨⟨mapped, rfl, -⟩, h₁⟩ := h₁
  split
  · exact h₁.congr rfl
  rw [World.wpS_bind]
  refine World.wpS_mono (wpS_mtkAllocateTx_atRest (h₁.congr rfl)) fun status c₂ t₂ h₂ ↦ ?_
  obtain ⟨-, hdma₂, h₂⟩ := h₂
  split
  · exact h₂
  rw [World.wpS_bind]
  refine World.wpS_mono (wpS_mtkAllocateRx_atRest h₂) fun status c₃ t₃ h₃ ↦ ?_
  obtain ⟨-, hdma₃, h₃⟩ := h₃
  split
  · exact h₃
  · exact wpS_mtkStart_atRest (hdma₃.trans hdma₂) h₃

/-- **`MtkI2cReinit`.** -/
theorem wpS_mtkI2cReinit_atRest (hdma : c.dmaBase = dmaBase) (h : AtRest base dmaBase c t) :
    (dmaWorld base dmaBase C).wpS mtkI2cReinit (fun _ c' t' ↦ AtRest base dmaBase c' t') c t := by
  unfold mtkI2cReinit
  rw [World.wpS_bind, World.wpS_get]
  split
  · exact h
  · rw [World.wpS_bind]
    exact World.wpS_mono (wpS_mtkInitHw_atRest hdma h.toOwnsBuffers) fun _ _ _ h' ↦ h'.2

/-- **`MtkI2cDisable`.** -/
theorem wpS_mtkI2cDisable_atRest (hdma : c.dmaBase = dmaBase) (h : AtRest base dmaBase c t) :
    (dmaWorld base dmaBase C).wpS mtkI2cDisable (fun _ c' t' ↦ AtRest base dmaBase c' t') c t := by
  unfold mtkI2cDisable
  rw [World.wpS_bind, World.wpS_get]
  split
  · exact h
  · have h := h.settling
    simp only [World.wpS_bind]
    refine wpS_i2cWr_settling h fun t h ↦ wpS_i2cRd_settling h fun _ t h ↦
      wpS_i2cWr_settling h fun t h ↦ ?_
    refine wpS_dmaWr_settling hdma (fun _ ↦ by decide) h fun t h ↦
      wpS_dmaWr_settling hdma (fun heq ↦ absurd heq (by decide)) h fun t h ↦ h.atRest

/-! ## Transfers -/

private theorem and_or_distrib_stat (a b c : UInt16) : a &&& (b ||| c) = a &&& b ||| a &&& c := by
  apply UInt16.toBitVec_inj.mp
  simp only [UInt16.toBitVec_or, UInt16.toBitVec_and, BitVec.and_or_distrib_left]

private theorem or_and_distrib_stat (a b c : UInt16) : (a ||| b) &&& c = a &&& c ||| b &&& c := by
  apply UInt16.toBitVec_inj.mp
  simp only [UInt16.toBitVec_or, UInt16.toBitVec_and, BitVec.and_or_distrib_right]

/-- The bits that end the poll say that the controller has finished. -/
private theorem completes_of_polled {ch : Apdma} {stat intrBits : UInt16}
    (hbits : ch.Turns → intrBits &&& mtkI2cRsTransfer = 0)
    (h : stat &&& intrBits &&& (mtkI2cTransacComp ||| mtkI2cRsTransfer) ≠ 0) :
    ch.Completes stat := by
  have hmasked : ∀ bit, stat &&& bit = 0 → stat &&& intrBits &&& bit = 0 := by
    intro bit hbit
    rw [UInt16.and_assoc, UInt16.and_comm intrBits, ← UInt16.and_assoc, hbit, UInt16.zero_and]
  by_contra hnot
  obtain ⟨hcomp, hrs⟩ := not_or.mp hnot
  apply h
  rw [and_or_distrib_stat, hmasked _ (not_not.mp hcomp), UInt16.zero_or]
  by_cases hturns : ch.Turns
  · rw [UInt16.and_assoc, hbits hturns, UInt16.and_zero]
  · exact hmasked _ (by_contra fun hset ↦ hrs ⟨hturns, hset⟩)

/-- While the controller is polled: once a bit that ends the poll has been accumulated, the engine
is at rest. -/
private structure Accumulating (base dmaBase : UInt64) (intrBits : UInt16) (c : MtkI2c) (acc : UInt16)
    (t : List (Event Uefi)) : Prop extends OwnsBuffers c t where
  bits : (apdma base dmaBase t).Turns → intrBits &&& mtkI2cRsTransfer = 0
  settled : acc &&& (mtkI2cTransacComp ||| mtkI2cRsTransfer) ≠ 0 →
    (apdma base dmaBase t).running = false

/-- What is no business of the channel, and no look at the status. -/
private theorem Accumulating.concat {intrBits acc : UInt16}
    (h : Accumulating base dmaBase intrBits c acc t)
    {ev : Event Uefi} (hsame : apdma base dmaBase (t ++ [ev]) = apdma base dmaBase t) :
    Accumulating base dmaBase intrBits c acc (t ++ [ev]) where
  toOwnsBuffers := h.toOwnsBuffers.append _
  bits := by
    rw [hsame]
    exact h.bits
  settled := by
    rw [hsame]
    exact h.settled

private theorem Accumulating.settling {intrBits acc : UInt16}
    (h : Accumulating base dmaBase intrBits c acc t) :
    Settling base dmaBase (!(mtkClassify acc).isError) c t := by
  refine ⟨h.toOwnsBuffers, fun hok ↦ h.settled fun hnone ↦ ?_⟩
  rw [mtkClassify, if_pos (beq_iff_eq.mpr hnone)] at hok
  contradiction

private theorem Accumulating.look {intrBits acc : UInt16}
    (h : Accumulating base dmaBase intrBits c acc t)
    (stat : UInt16) : Accumulating base dmaBase intrBits c (acc ||| stat &&& intrBits)
      (t ++ [⟨.mmioRead16 (base + mtkRegIntrStat), stat⟩]) := by
  have hstep : apdma base dmaBase (t ++ [⟨.mmioRead16 (base + mtkRegIntrStat), stat⟩]) =
      if (apdma base dmaBase t).Completes stat then
        { apdma base dmaBase t with running := false } else apdma base dmaBase t := by
    rw [apdma_concat]
    change (if base + mtkRegIntrStat = base + mtkRegIntrStat ∧ _ then _ else _) = _
    simp only [true_and]
  refine ⟨h.toOwnsBuffers.append _, fun hturns ↦ h.bits ?_, fun hset ↦ ?_⟩
  · rw [hstep] at hturns
    split at hturns <;> exact hturns
  · rw [hstep]
    split
    · rfl
    · next hnot =>
      -- nothing that ends the poll is in what has just been read
      have hnone : stat &&& intrBits &&& (mtkI2cTransacComp ||| mtkI2cRsTransfer) = 0 :=
        by_contra fun hne ↦ hnot (completes_of_polled h.bits hne)
      rw [or_and_distrib_stat, hnone, UInt16.or_zero] at hset
      exact h.settled hset

private theorem wp_mtkPoll_apdma (hbase : c.base = base) (intrBits : UInt16) (budget : ℕ)
    (h : Accumulating base dmaBase intrBits c 0 t) : (dmaWorld base dmaBase C).wp
      (mtkPoll c intrBits budget) (fun acc t' ↦ Accumulating base dmaBase intrBits c acc t') t := by
  have hacc : ∀ {stat acc t}, Accumulating base dmaBase intrBits c (acc ||| stat) t →
      (dmaWorld base dmaBase C).wp (mtkAccumulate c stat acc) (fun acc' t' ↦
        acc' = acc ||| stat ∧ Accumulating base dmaBase intrBits c acc' t') t := by
    intro stat acc t h
    unfold mtkAccumulate
    split
    · next hzero =>
      rw [beq_iff_eq.mp hzero, UInt16.or_zero] at h ⊢
      exact ⟨rfl, h⟩
    · rw [World.wp_bind]
      exact wp_perform_recording.mpr ⟨trivial, fun _ _ ↦ ⟨rfl, h.concat apdma_concat⟩⟩
  -- the measure is the number of stalls left in the budget
  refine World.wp_iterate (fun st t ↦ Accumulating base dmaBase intrBits c st.2 t)
    (fun st ↦ (budget - st.1 + 19) / 20) ?_ h ?_
  · intro st t h
    rw [mtkPollPass, World.wp_bind, mmioRead16, hbase]
    refine wp_perform_recording.mpr ⟨trivial, fun stat _ ↦ ?_⟩
    rw [World.wp_bind]
    refine World.wp_mono (hacc (h.look stat)) fun acc t₁ h₁ ↦ ?_
    split
    · exact h₁.2
    split
    · exact h₁.2
    · next hbudget =>
      rw [World.wp_bind]
      refine wp_perform_recording.mpr ⟨trivial, fun _ _ ↦ ⟨h₁.2.concat apdma_concat, ?_⟩⟩
      unfold mtkXferPollStepUs
      dsimp only
      omega
  · unfold mtkXferPollStepUs
    dsimp only
    omega

section

variable {wLen rLen : ℕ}

private theorem wpS_mtkProgramLengths_atRest (h : AtRest base dmaBase c t) :
    (dmaWorld base dmaBase C).wpS (mtkProgramLengths wLen rLen)
      (fun _ c' t' ↦ c' = c ∧ AtRest base dmaBase c t') c t := by
  have h := h.settling
  unfold mtkProgramLengths
  split
  · simp only [World.wpS_bind]
    exact wpS_i2cWr_settling h fun t h ↦ wpS_i2cWr_settling h fun t h ↦
      wpS_i2cWr_settling h fun t h ↦ ⟨rfl, h.atRest⟩
  · rw [World.wpS_bind]
    exact wpS_i2cWr_settling h fun t h ↦ wpS_i2cWr_settling h fun t h ↦ ⟨rfl, h.atRest⟩

/-- A write to a register other than the one that starts the engine. -/
private theorem wpS_dmaWr_program {off : UInt64} {val : UInt32}
    {Q : Unit → MtkI2c → List (Event Uefi) → Prop} {ch : Apdma} (hdma : c.dmaBase = dmaBase)
    (hoff : off ≠ mtkDmaEn) (h : OwnsBuffers c t ∧ apdma base dmaBase t = ch)
    (hQ : ∀ t', OwnsBuffers c t' ∧ apdma base dmaBase t' = ch.write off val → Q () c t') :
    (dmaWorld base dmaBase C).wpS (dmaWr off val) Q c t := by
  refine wpS_dmaWr_apdma hdma (fun heq ↦ absurd heq hoff) fun t' ht' hch ↦ hQ t' ?_
  obtain ⟨ev, rfl⟩ := ht'
  exact ⟨h.1.append _, by rw [hch, h.2]⟩

/-- **The channel of a transaction** is aimed at the buffers of the instance. It turns around only
between two parts. -/
private theorem wpS_mtkProgramDma_mayStart (hdma : c.dmaBase = dmaBase) (htx : c.txBuf ≠ 0)
    (hrx : c.rxBuf ≠ 0) (hw : wLen ≤ mtkI2cMaxXfer) (hr : rLen ≤ mtkI2cMaxXfer)
    (hsome : 0 < wLen ∨ 0 < rLen) (h : AtRest base dmaBase c t) :
    (dmaWorld base dmaBase C).wpS (mtkProgramDma wLen rLen) (fun _ c' t' ↦ c' = c ∧
      OwnsBuffers c t' ∧ MayStart t' (apdma base dmaBase t') ∧
      ((apdma base dmaBase t').Turns → 0 < wLen ∧ 0 < rLen)) c t := by
  have haimTx : ∀ {t}, OwnsBuffers c t → 0 < wLen →
      Targets t (highHalf c.txPhys) c.txPhys.toUInt32 (UInt32.ofNat wLen) := by
    intro t h hpos
    obtain ⟨heq, hpage⟩ := h.tx htx
    exact targets_of_pageOf (heq ▸ hpage) hpos hw
  have haimRx : ∀ {t}, OwnsBuffers c t → 0 < rLen →
      Targets t (highHalf c.rxPhys) c.rxPhys.toUInt32 (UInt32.ofNat rLen) := by
    intro t h hpos
    obtain ⟨heq, hpage⟩ := h.rx hrx
    exact targets_of_pageOf (heq ▸ hpage) hpos hr
  have hrest : (apdma base dmaBase t).running = false := h.rest
  have h : OwnsBuffers c t ∧ apdma base dmaBase t = apdma base dmaBase t :=
    ⟨h.toOwnsBuffers, rfl⟩
  unfold mtkProgramDma
  rw [World.wpS_bind, World.wpS_get]
  dsimp only
  split
  · next hread =>
    simp only [World.wpS_bind]
    iterate 5 refine wpS_dmaWr_program hdma (by decide) h fun t h ↦ ?_
    obtain ⟨howns, hch⟩ := h
    refine ⟨rfl, howns, ?_⟩
    rw [hch]
    simp +decide only [Apdma.write, if_true, if_false]
    -- a read: the direction does not change, and nothing is transmitted
    have hturns : ¬((mtkDmaConRx ||| (mtkDmaSkipConfig ||| mtkDmaAsyncMode)) &&& mtkDmaDirChange
        ≠ 0) := by decide
    have hwrites : ¬((mtkDmaConRx ||| (mtkDmaSkipConfig ||| mtkDmaAsyncMode)) &&& mtkDmaConRx
        = 0) := by decide
    refine ⟨⟨hrest, fun htransmits ↦ ?_, fun _ ↦ haimRx howns hread.2⟩, fun h ↦ absurd h hturns⟩
    exact absurd htransmits (not_or.mpr ⟨hturns, hwrites⟩)
  split
  · next hread hboth =>
    have hpos : 0 < wLen := by omega
    simp only [World.wpS_bind]
    iterate 5 refine wpS_dmaWr_program hdma (by decide) h fun t h ↦ ?_
    obtain ⟨howns, hch⟩ := h
    refine ⟨rfl, howns, ?_⟩
    rw [hch]
    simp +decide only [Apdma.write, if_true, if_false]
    have hturns : ¬((mtkDmaConTx ||| (mtkDmaSkipConfig ||| mtkDmaAsyncMode)) &&& mtkDmaDirChange
        ≠ 0) := by decide
    have hreads : ¬((mtkDmaConTx ||| (mtkDmaSkipConfig ||| mtkDmaAsyncMode)) &&& mtkDmaConRx
        ≠ 0) := by decide
    refine ⟨⟨hrest, fun _ ↦ haimTx howns hpos, fun hreceives ↦ ?_⟩, fun h ↦ absurd h hturns⟩
    exact absurd hreceives (not_or.mpr ⟨hturns, hreads⟩)
  · next hread hboth =>
    -- both: the direction changes behind the write, so both buffers have to be aimed at
    obtain ⟨hwpos, hrpos⟩ := not_not.mp hboth
    simp only [World.wpS_bind]
    iterate 8 refine wpS_dmaWr_program hdma (by decide) h fun t h ↦ ?_
    obtain ⟨howns, hch⟩ := h
    refine ⟨rfl, howns, ?_⟩
    rw [hch]
    simp +decide only [Apdma.write, if_true, if_false]
    exact ⟨⟨hrest, fun _ ↦ haimTx howns hwpos, fun _ ↦ haimRx howns hrpos⟩, fun _ ↦ ⟨hwpos, hrpos⟩⟩

/-- **`MtkDoTransfer`** may leave the engine running, but not if it succeeds. -/
private theorem wpS_mtkDoTransfer_apdma (hbase : c.base = base) (hdma : c.dmaBase = dmaBase)
    (htx : c.txBuf ≠ 0) (hrx : c.rxBuf ≠ 0) (hw : wLen ≤ mtkI2cMaxXfer) (hr : rLen ≤ mtkI2cMaxXfer)
    (hsome : 0 < wLen ∨ 0 < rLen) (maskOn : Bool) (h : AtRest base dmaBase c t) :
    (dmaWorld base dmaBase C).wpS (mtkDoTransfer wLen rLen maskOn) (fun status c' t' ↦
      SameInstance c c' ∧ OwnsBuffers c' t' ∧
        (status.isError = false → (apdma base dmaBase t').running = false)) c t := by
  unfold mtkDoTransfer
  simp only [World.wpS_bind, World.wpS_get]
  have h := h.settling
  refine wpS_i2cRd_settling h fun _ t h ↦ ?_
  iterate 5 refine wpS_i2cWr_settling h fun t h ↦ ?_
  refine World.wpS_mono (wpS_mtkProgramLengths_atRest h.atRest) fun _ c₁ t h ↦ ?_
  obtain ⟨rfl, h⟩ := h
  refine World.wpS_mono (wpS_mtkProgramDma_mayStart hdma htx hrx hw hr hsome h) fun _ c₂ t h ↦ ?_
  obtain ⟨rfl, howns, hstart, hturns⟩ := h
  refine wpS_dmaWr_apdma hdma (fun _ _ ↦ hstart) fun t₁ ht₁ hch ↦ ?_
  obtain ⟨ev, rfl⟩ := ht₁
  have hpolled : Accumulating base dmaBase (mtkIntrBits wLen rLen) c₂ 0 (t ++ [ev]) := by
    refine ⟨howns.append _, fun hset ↦ ?_, fun hne ↦ absurd UInt16.zero_and hne⟩
    rw [hch] at hset
    rw [mtkIntrBits, if_pos (hturns hset)]
    decide
  rw [i2cWr, World.wpS_bind, World.wpS_get, World.wpS_lift]
  refine wp_perform_recording.mpr ⟨trivial, fun _ _ ↦ ?_⟩
  rw [World.wpS_lift]
  refine World.wp_mono (wp_mtkPoll_apdma hbase _ _ (hpolled.concat apdma_concat)) fun acc t h ↦ ?_
  refine wpS_i2cWr_settling h.settling fun t h ↦ ?_
  simp only [World.wpS_modify]
  refine wpS_dmaRd_settling (h.congr rfl) fun _ t h ↦ ?_
  rw [World.wpS_pure]
  refine ⟨⟨⟨rfl, rfl, rfl⟩, rfl⟩, h.toOwnsBuffers.congr rfl, fun hok ↦ h.settled ?_⟩
  rw [hok, Bool.not_false]

/-- An instance with windows and buffers. -/
private structure Equipped (base dmaBase : UInt64) (c : MtkI2c) : Prop where
  base : c.base = base
  dmaBase : c.dmaBase = dmaBase
  tx : c.txBuf ≠ 0
  rx : c.rxBuf ≠ 0

private theorem Equipped.same (h : Equipped base dmaBase c) (hsame : SameInstance c c') :
    Equipped base dmaBase c' := by
  have hbuf := hsame.buffers
  simp only [MtkI2c.buffers, Prod.mk.injEq] at hbuf
  exact ⟨hsame.base.trans h.base, hsame.dmaBase.trans h.dmaBase, hbuf.1.1 ▸ h.tx, hbuf.2.1 ▸ h.rx⟩

private theorem wpS_mtkTransact_apdma (hc : Equipped base dmaBase c) (hw : wLen ≤ mtkI2cMaxXfer)
    (hr : rLen ≤ mtkI2cMaxXfer) (hsome : 0 < wLen ∨ 0 < rLen) (h : AtRest base dmaBase c t) :
    (dmaWorld base dmaBase C).wpS (mtkTransact wLen rLen) (fun status c' t' ↦
      Equipped base dmaBase c' ∧ OwnsBuffers c' t' ∧
        (status.isError = false → (apdma base dmaBase t').running = false)) c t := by
  have htry : ∀ {c t}, Equipped base dmaBase c → AtRest base dmaBase c t → ∀ maskOn,
      (dmaWorld base dmaBase C).wpS (mtkDoTransfer wLen rLen maskOn) (fun status c' t' ↦
        Equipped base dmaBase c' ∧ OwnsBuffers c' t' ∧
          (status.isError = false → (apdma base dmaBase t').running = false)) c t := by
    intro c t hc h maskOn
    refine World.wpS_mono (wpS_mtkDoTransfer_apdma hc.base hc.dmaBase hc.tx hc.rx hw hr hsome maskOn
      h) fun _ _ _ h' ↦ ?_
    exact ⟨hc.same h'.1, h'.2⟩
  unfold mtkTransact
  rw [World.wpS_bind, World.wpS_get, World.wpS_bind]
  refine World.wpS_mono (htry hc h _) fun status c₁ t₁ h₁ ↦ ?_
  rw [World.wpS_bind, World.wpS_get]
  split
  · rw [World.wpS_bind, World.wpS_modify, World.wpS_bind]
    obtain ⟨hc₁, howns, -⟩ := h₁
    refine World.wpS_mono (wpS_mtkInitHw_atRest hc₁.dmaBase (howns.congr rfl))
      fun _ c₂ t₂ h₂ ↦ ?_
    have hc₁' : Equipped base dmaBase { c₁ with irqMaskOn := true } :=
      ⟨hc₁.base, hc₁.dmaBase, hc₁.tx, hc₁.rx⟩
    exact htry (hc₁'.same h₂.1) h₂.2 true
  · exact h₁

private theorem wpS_mtkRecover_atRest (hc : Equipped base dmaBase c) {status : EfiStatus}
    (h : OwnsBuffers c t)
    (hok : status.isError = false → (apdma base dmaBase t).running = false) :
    (dmaWorld base dmaBase C).wpS (mtkRecover status)
      (fun _ c' t' ↦ Equipped base dmaBase c' ∧ AtRest base dmaBase c' t') c t := by
  unfold mtkRecover
  split
  · exact World.wpS_mono (wpS_mtkInitHw_atRest hc.dmaBase h) fun _ _ _ h' ↦ ⟨hc.same h'.1, h'.2⟩
  · next herr => exact ⟨hc, h, hok (by simpa using herr)⟩

/-- What the driver does with its page while the engine is at rest. -/
private theorem wpS_mtkFill_atRest {wBuf : Option (List UInt8)} (hc : Equipped base dmaBase c)
    (hw : wLen ≤ mtkI2cMaxXfer) (hbuf : wLen ≤ (wBuf.getD []).length)
    (h : AtRest base dmaBase c t) : (dmaWorld base dmaBase C).wpS (mtkFill wBuf wLen)
      (fun _ c' t' ↦ c' = c ∧ AtRest base dmaBase c t') c t := by
  unfold mtkFill
  split
  · rw [World.wpS_bind, World.wpS_liftChecked]
    refine ⟨_, copyMem_ok (by rw [List.length_replicate]) (by rwa [Nat.zero_add]), ?_⟩
    rw [World.wpS_bind, World.wpS_get, World.wpS_lift]
    refine wp_perform_recording.mpr ⟨⟨h.rest, (h.tx hc.tx).2, ?_⟩, fun _ _ ↦ ⟨rfl, ?_⟩⟩
    · simp only [List.length_append, List.length_take, List.length_drop, List.length_replicate]
      unfold mtkI2cMaxXfer at hw
      omega
    · exact ⟨h.toOwnsBuffers.append _, by rw [apdma_concat]; exact h.rest⟩
  · exact ⟨rfl, h⟩

private theorem wpS_mtkCollect_atRest {rBuf : Option (List UInt8)} (hc : Equipped base dmaBase c)
    (hr : rLen ≤ mtkI2cMaxXfer) (hbuf : rLen ≤ (rBuf.getD []).length) (status : EfiStatus)
    (h : AtRest base dmaBase c t) : (dmaWorld base dmaBase C).wpS (mtkCollect rBuf rLen status)
      (fun _ c' t' ↦ AtRest base dmaBase c' t') c t := by
  unfold mtkCollect
  split
  · rw [World.wpS_bind, World.wpS_get, World.wpS_bind, World.wpS_lift]
    refine wp_perform_recording.mpr ⟨⟨h.rest, (h.rx hc.rx).2, hr⟩, fun bytes _ ↦ ?_⟩
    have hlen : 0 + rLen ≤ bytes.1.length := by rw [bytes.2, Nat.zero_add]
    rw [World.wpS_bind, World.wpS_liftChecked]
    refine ⟨_, copyMem_ok hbuf hlen, ?_⟩
    exact ⟨h.toOwnsBuffers.append _, by rw [apdma_concat]; exact h.rest⟩
  · exact h

/-- **`MtkI2cXfer`.** -/
theorem wpS_mtkI2cXfer_atRest {wBuf rBuf : Option (List UInt8)} (hbase : c.base = base)
    (hdma : c.dmaBase = dmaBase) (hbuf : XferBuffers wBuf wLen rBuf rLen)
    (h : AtRest base dmaBase c t) :
    (dmaWorld base dmaBase C).wpS (mtkI2cXfer wBuf wLen rBuf rLen)
      (fun _ c' t' ↦ AtRest base dmaBase c' t') c t := by
  unfold mtkI2cXfer
  rw [World.wpS_bind, World.wpS_get]
  split
  · exact h
  split
  · exact h
  · next hready hvalid =>
    simp only [Bool.or_eq_true, not_or, Bool.not_eq_true', Bool.not_eq_false, beq_iff_eq]
      at hready
    simp only [mtkXferInvalid, Bool.or_eq_true, Bool.and_eq_true, decide_eq_true_eq, beq_iff_eq,
      not_or, not_and, not_lt] at hvalid
    have hc : Equipped base dmaBase c := ⟨hbase, hdma, hready.1.2, hready.2⟩
    have hw : wLen ≤ mtkI2cMaxXfer := hvalid.1.1.1.2
    have hr : rLen ≤ mtkI2cMaxXfer := hvalid.1.1.2
    have hsome : 0 < wLen ∨ 0 < rLen := by
      have hnot := hvalid.1.1.1.1
      omega
    have hservice : ∀ {c t} {e : UefiOp}, OffChannel dmaBase e → AtRest base dmaBase c t →
        (dmaWorld base dmaBase C).wp (uefi e) (fun _ t' ↦ AtRest base dmaBase c t') t :=
      fun he h ↦ keeps_atRest.perform he h fun _ _ h' ↦ h'
    rw [World.wpS_bind]
    refine World.wpS_mono (wpS_mtkFill_atRest hc hw hbuf.w h) fun _ c₁ t₁ h₁ ↦ ?_
    obtain ⟨rfl, h₁⟩ := h₁
    rw [World.wpS_bind, World.wpS_lift]
    refine World.wp_mono (hservice (e := .raiseTpl) trivial h₁) fun _ t₂ h₂ ↦ ?_
    rw [World.wpS_bind]
    refine World.wpS_mono (wpS_mtkTransact_apdma hc hw hr hsome h₂) fun status c₃ t₃ h₃ ↦ ?_
    obtain ⟨hc₃, howns, hok⟩ := h₃
    rw [World.wpS_bind]
    refine World.wpS_mono (wpS_mtkRecover_atRest hc₃ howns hok) fun _ c₄ t₄ h₄ ↦ ?_
    rw [World.wpS_bind, World.wpS_lift]
    refine World.wp_mono (hservice (e := .restoreTpl) trivial h₄.2) fun _ t₅ h₅ ↦ ?_
    rw [World.wpS_bind]
    exact World.wpS_mono (wpS_mtkCollect_atRest h₄.1 hr hbuf.r status h₅) fun _ _ _ h' ↦ h'

end

end

end TouchI2c
