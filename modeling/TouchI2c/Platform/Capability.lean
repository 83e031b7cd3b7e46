import TouchI2c.Interaction.Simulate
import TouchI2c.Orbit.FirstHit
import TouchI2c.Platform.Footprint

/-!
# The walk to the power capability

`LpssForceD0` follows the capability list of a PCI function, at most 48 nodes far.

A list of aligned pointers of at least `0x40` has no more nodes than that, since there are 48 dwords
from `0x40` to the end of the 256 bytes. The walk is an orbit of the next pointer, so if the first
Power Management capability can be reached at all it is reached in time, cyclic or not. The
pigeonhole is `FirstHit.lt_card` on the aligned offsets. One unaligned pointer adds a node, and then
a list through all 48 slots ends one node too late.

The walk writes nothing but the power state of the capability it stops at: two bits of the PMCSR,
and only if the function is not in D0.
-/

namespace TouchI2c

open Interaction Orbit

/-! ## Runs of the walk -/

/-- The operation changes nothing. -/
def UefiOp.isRead : UefiOp → Bool
  | .pciRead8 _ _ | .pciRead16 _ _ | .pciRead32 _ _ | .stall _ => true
  | _ => false

/-- The operation as the offset of a byte of configuration space that it reads. -/
def UefiOp.byteRead : UefiOp → Option UInt32
  | .pciRead8 _ off => some off
  | _ => none

/-- The bytes of configuration space that are read one at a time, in order. -/
def byteReads (t : List (Event Uefi)) : List UInt32 := t.filterMap fun ev ↦ ev.op.byteRead

/-- What the operations of a trace change. -/
def changes (t : List (Event Uefi)) : List UefiOp := (t.map Event.op).filter fun e ↦ !e.isRead

/-- The two bytes of a node that the walk reads: the capability's ID and the next pointer. -/
def nodeBytes (p : UInt8) : List UInt32 := [p.toUInt32, p.toUInt32 + 1]

/-- At most the power state of a Power Management capability among `nodes` is cleared. -/
def ClearsPowerState (pciIo : ℕ) (nodes : List UInt8) (t : List (Event Uefi)) : Prop :=
  changes t = [] ∨ ∃ p ∈ nodes, ∃ pmcsr,
    ⟨.pciRead8 pciIo p.toUInt32, some efiPciCapabilityIdPmi⟩ ∈ t ∧
    ⟨.pciRead16 pciIo (p.toUInt32 + 4), some pmcsr⟩ ∈ t ∧
    changes t = [.pciWrite16 pciIo (p.toUInt32 + 4) (pmcsr &&& ~~~0x3)]

/-- The walk of a run: its nodes, and what it read and changed. -/
structure CapWalked (pciIo n : ℕ) (nodes : List UInt8) (t : List (Event Uefi)) : Prop where
  short : nodes.length ≤ n
  reads : byteReads t <+: nodes.flatMap nodeBytes
  clears : ClearsPowerState pciIo nodes t

variable {pciIo : ℕ} {t : List (Event Uefi)}

private theorem returns_uefi {α : Type} {e : UefiOp} {k : e.Ret → Prog Uefi α} {a : α}
    (h : (uefi e >>= k).Returns t a) : ∃ r t', t = ⟨e, r⟩ :: t' ∧ (k r).Returns t' a := by
  cases h with
  | step r h => exact ⟨r, _, rfl, h⟩

/-- The step on the PMCSR reads it, and writes it if the function is not in D0. -/
theorem lpssPmcsrD0_returns {p : UInt8} (h : (lpssPmcsrD0 pciIo p).Returns t ()) :
    (∃ r, t = [⟨.pciRead16 pciIo (p.toUInt32 + 4), r⟩] ∧ ∀ v ∈ r, v &&& 0x3 = 0) ∨
    ∃ v status, t = [⟨.pciRead16 pciIo (p.toUInt32 + 4), some v⟩,
      ⟨.pciWrite16 pciIo (p.toUInt32 + 4) (v &&& ~~~0x3), status⟩, ⟨.stall 10000, ()⟩] := by
  obtain ⟨r, t, rfl, hrest⟩ := returns_uefi h
  cases r with
  | none =>
    obtain ⟨rfl, -⟩ := Prog.returns_pure.mp hrest
    exact .inl ⟨none, rfl, by simp⟩
  | some v =>
    dsimp only at hrest
    split at hrest
    · obtain ⟨status, t, rfl, hstall⟩ := returns_uefi hrest
      rw [stall, uefi, Prog.returns_perform] at hstall
      exact .inr ⟨v, status, by rw [hstall]⟩
    · next hv =>
      obtain ⟨rfl, -⟩ := Prog.returns_pure.mp hrest
      exact .inl ⟨some v, rfl, by simpa using hv⟩

theorem lpssCapWalk_returns {n : ℕ} {p : UInt8} (h : (lpssCapWalk pciIo n p).Returns t ()) :
    ∃ nodes, CapWalked pciIo n nodes t := by
  induction n generalizing p t with
  | zero =>
    obtain ⟨rfl, -⟩ := Prog.returns_pure.mp h
    exact ⟨[], le_rfl, List.prefix_rfl, .inl rfl⟩
  | succ n ih =>
    rw [lpssCapWalk] at h
    split at h
    · obtain ⟨rfl, -⟩ := Prog.returns_pure.mp h
      exact ⟨[], Nat.zero_le _, List.prefix_rfl, .inl rfl⟩
    obtain ⟨r, t, rfl, hid⟩ := returns_uefi h
    cases r with
    | none =>
      obtain ⟨rfl, -⟩ := Prog.returns_pure.mp hid
      exact ⟨[p], by simp, ⟨[p.toUInt32 + 1], rfl⟩, .inl rfl⟩
    | some capId =>
      dsimp only at hid
      split at hid
      · next hpmi =>
        rw [beq_iff_eq] at hpmi
        subst hpmi
        obtain ⟨r, rfl, -⟩ | ⟨v, status, rfl⟩ := lpssPmcsrD0_returns hid
        · exact ⟨[p], by simp, ⟨[p.toUInt32 + 1], rfl⟩, .inl rfl⟩
        · refine ⟨[p], by simp, ⟨[p.toUInt32 + 1], rfl⟩, .inr ⟨p, by simp, v, ?_⟩⟩
          exact ⟨by simp, by simp, rfl⟩
      · obtain ⟨r, t, rfl, hnext⟩ := returns_uefi hid
        cases r with
        | none =>
          obtain ⟨rfl, -⟩ := Prog.returns_pure.mp hnext
          exact ⟨[p], by simp, List.prefix_rfl, .inl rfl⟩
        | some next =>
          obtain ⟨nodes, hshort, ⟨rest, hreads⟩, hclears⟩ := ih hnext
          refine ⟨p :: nodes, Nat.succ_le_succ hshort, ⟨rest, ?_⟩, ?_⟩
          · rw [List.flatMap_cons, ← hreads]
            rfl
          · obtain hnone | ⟨q, hq, v, hid, hread, hchange⟩ := hclears
            · exact .inl hnone
            · exact .inr ⟨q, .tail _ hq, v, .tail _ (.tail _ hid), .tail _ (.tail _ hread), hchange⟩

/-! ## Configuration space -/

/-- The bytes of a function's configuration space. -/
abbrev PciConfig := UInt32 → UInt8

namespace PciConfig

variable (cfg : PciConfig)

/-- The 16-bit value at an offset. -/
def word (off : UInt32) : UInt16 := (cfg off).toUInt16 ||| (cfg (off + 1)).toUInt16 <<< 8

/-- Reads of the function succeed, and return what the configuration space holds. -/
def Answers (pciIo : ℕ) : Event Uefi → Prop
  | ⟨.pciRead8 h off, r⟩ => h = pciIo → r = some (cfg off)
  | ⟨.pciRead16 h off, r⟩ => h = pciIo → r = some (cfg.word off)
  | _ => True

def HasCapabilities : Prop := cfg.word pciPrimaryStatusOffset &&& efiPciStatusCapability ≠ 0

/-- The capability pointer. -/
def capPtr : UInt8 := cfg pciCapbilityPointerOffset

/-- The next pointer of the node at `p`. -/
def next (p : UInt8) : UInt8 := cfg (p.toUInt32 + 1)

/-- The node `k` pointers behind the first. -/
def node (k : ℕ) : UInt8 := cfg.next^[k] cfg.capPtr

/-- The node at `p` is a Power Management capability. -/
def IsPmi (p : UInt8) : Prop := cfg p.toUInt32 = efiPciCapabilityIdPmi

/-- The pointer leads into the capability area and is dword-aligned. -/
def Linked (p : UInt8) : Prop := 0x40 ≤ p ∧ p % 4 = 0

instance : Decidable cfg.HasCapabilities := inferInstanceAs (Decidable (_ ≠ _))

instance (p : UInt8) : Decidable (cfg.IsPmi p) := inferInstanceAs (Decidable (_ = _))

instance (p : UInt8) : Decidable (Linked p) := inferInstanceAs (Decidable (_ ∧ _))

/-- In the run `t` the power state that the PMCSR of the capability at `p` held, or that was
written, is D0. -/
def InD0 (pciIo : ℕ) (p : UInt8) (t : List (Event Uefi)) : Prop :=
  let pmcsr := cfg.word (p.toUInt32 + 4)
  ⟨.pciRead16 pciIo (p.toUInt32 + 4), some pmcsr⟩ ∈ t ∧
  (pmcsr &&& 0x3 = 0 ∨
    ∃ v status, ⟨.pciWrite16 pciIo (p.toUInt32 + 4) v, status⟩ ∈ t ∧ v &&& 0x3 = 0)

end PciConfig

/-- The dword-aligned pointers into the capability area. -/
def capSlots : Finset UInt8 := (List.range 48).map (fun i ↦ UInt8.ofNat (0x40 + 4 * i)) |>.toFinset

theorem mem_capSlots {p : UInt8} (h : PciConfig.Linked p) : p ∈ capSlots := by
  obtain ⟨hlow, haligned⟩ := h
  have hlow : 0x40 ≤ p.toNat := UInt8.le_iff_toNat_le.mp hlow
  have haligned : p.toNat % 4 = 0 := by
    have h := congrArg UInt8.toNat haligned
    simpa using h
  have hlt := p.toNat_lt
  rw [capSlots, List.mem_toFinset, List.mem_map]
  refine ⟨(p.toNat - 0x40) / 4, List.mem_range.mpr (by omega), ?_⟩
  have hp : 0x40 + 4 * ((p.toNat - 0x40) / 4) = p.toNat := by omega
  rw [hp, UInt8.ofNat_toNat]

theorem card_capSlots : capSlots.card = 48 := by decide +kernel

variable {cfg : PciConfig}

private theorem d0_of_pmcsr {p : UInt8} (h : (lpssPmcsrD0 pciIo p).Returns t ())
    (hcfg : ∀ ev ∈ t, cfg.Answers pciIo ev) : cfg.InD0 pciIo p t := by
  obtain ⟨r, rfl, hd0⟩ | ⟨v, status, rfl⟩ := lpssPmcsrD0_returns h
  · have hr : r = some (cfg.word (p.toUInt32 + 4)) := hcfg _ List.mem_cons_self rfl
    subst hr
    exact ⟨List.mem_cons_self, .inl (hd0 _ rfl)⟩
  · have hr : some v = some (cfg.word (p.toUInt32 + 4)) := hcfg _ List.mem_cons_self rfl
    rw [hr]
    refine ⟨List.mem_cons_self, .inr ⟨_, status, .tail _ List.mem_cons_self, ?_⟩⟩
    rw [UInt16.and_assoc, UInt16.not_and_self, UInt16.and_zero]

/-- The walk gets to the first Power Management capability if its budget reaches that far. -/
theorem lpssCapWalk_finds {k n : ℕ} {p : UInt8} (h : (lpssCapWalk pciIo n p).Returns t ())
    (hcfg : ∀ ev ∈ t, cfg.Answers pciIo ev) (hfirst : FirstHit cfg.next cfg.IsPmi p k)
    (hlow : ∀ j ≤ k, 0x40 ≤ cfg.next^[j] p) (hkn : k < n) :
    cfg.InD0 pciIo (cfg.next^[k] p) t := by
  induction k generalizing n p t with
  | zero =>
    cases n with
    | zero => exact absurd hkn (lt_irrefl 0)
    | succ n =>
      have hp : ¬p < 0x40 := UInt8.not_lt.mpr (hlow 0 le_rfl)
      rw [lpssCapWalk, if_neg hp] at h
      obtain ⟨r, t, rfl, hid⟩ := returns_uefi h
      have hr : r = some (cfg p.toUInt32) := hcfg _ List.mem_cons_self rfl
      have hpmi : cfg p.toUInt32 = efiPciCapabilityIdPmi := hfirst.hit
      rw [hr, hpmi] at hid
      have hd0 := d0_of_pmcsr hid fun ev hev ↦ hcfg ev (.tail _ hev)
      refine ⟨.tail _ hd0.1, hd0.2.imp_right ?_⟩
      rintro ⟨v, status, hmem, hv⟩
      exact ⟨v, status, .tail _ hmem, hv⟩
  | succ k ih =>
    cases n with
    | zero => exact absurd hkn (Nat.not_lt_zero _)
    | succ n =>
      obtain ⟨hno, hfirst⟩ := firstHit_succ.mp hfirst
      have hp : ¬p < 0x40 := UInt8.not_lt.mpr (hlow 0 (Nat.zero_le _))
      rw [lpssCapWalk, if_neg hp] at h
      obtain ⟨r, t, rfl, hid⟩ := returns_uefi h
      have hr : r = some (cfg p.toUInt32) := hcfg _ List.mem_cons_self rfl
      rw [hr] at hid
      dsimp only at hid
      rw [if_neg (by rwa [beq_iff_eq])] at hid
      obtain ⟨r, t, rfl, hnext⟩ := returns_uefi hid
      have hr : r = some (cfg.next p) := hcfg _ (.tail _ List.mem_cons_self) rfl
      rw [hr] at hnext
      have hd0 := ih hnext (fun ev hev ↦ hcfg ev (.tail _ (.tail _ hev))) hfirst
        (fun j hj ↦ hlow (j + 1) (Nat.succ_le_succ hj)) (Nat.lt_of_succ_lt_succ hkn)
      refine ⟨.tail _ (.tail _ hd0.1), hd0.2.imp_right ?_⟩
      rintro ⟨v, status, hmem, hv⟩
      exact ⟨v, status, .tail _ (.tail _ hmem), hv⟩

/-! ## `LpssForceD0` -/

/-- The run stays within 48 nodes, and clears at most the power state of one of them. -/
def ForcesOnly (pciIo : ℕ) (t : List (Event Uefi)) : Prop :=
  ∃ nodes : List UInt8, nodes.length ≤ 48 ∧
    byteReads t <+: pciCapbilityPointerOffset :: nodes.flatMap nodeBytes ∧
    ClearsPowerState pciIo nodes t

theorem lpssForceD0_forcesOnly (h : (lpssForceD0 pciIo).Returns t ()) : ForcesOnly pciIo t := by
  obtain ⟨r, t, rfl, hstatus⟩ := returns_uefi h
  cases r with
  | none =>
    obtain ⟨rfl, -⟩ := Prog.returns_pure.mp hstatus
    exact ⟨[], Nat.zero_le _, List.nil_prefix, .inl rfl⟩
  | some statusReg =>
    dsimp only at hstatus
    split at hstatus
    · obtain ⟨rfl, -⟩ := Prog.returns_pure.mp hstatus
      exact ⟨[], Nat.zero_le _, List.nil_prefix, .inl rfl⟩
    obtain ⟨r, t, rfl, hptr⟩ := returns_uefi hstatus
    cases r with
    | none =>
      obtain ⟨rfl, -⟩ := Prog.returns_pure.mp hptr
      exact ⟨[], Nat.zero_le _, List.prefix_rfl, .inl rfl⟩
    | some capPtr =>
      obtain ⟨nodes, hshort, hreads, hclears⟩ := lpssCapWalk_returns hptr
      refine ⟨nodes, hshort, List.prefix_cons_inj _ |>.mpr hreads, ?_⟩
      obtain hnone | ⟨p, hp, v, hid, hread, hchange⟩ := hclears
      · exact .inl hnone
      · exact .inr ⟨p, hp, v, .tail _ (.tail _ hid), .tail _ (.tail _ hread), hchange⟩

/-- On a function that advertises capabilities the walk starts at the capability pointer. -/
theorem lpssForceD0_walks (h : (lpssForceD0 pciIo).Returns t ())
    (hcfg : ∀ ev ∈ t, cfg.Answers pciIo ev) (hcap : cfg.HasCapabilities) :
    ∃ t', t' ⊆ t ∧ (lpssCapWalk pciIo 48 cfg.capPtr).Returns t' () := by
  obtain ⟨r, t, rfl, hstatus⟩ := returns_uefi h
  have hr : r = some (cfg.word pciPrimaryStatusOffset) := hcfg _ List.mem_cons_self rfl
  rw [hr] at hstatus
  dsimp only at hstatus
  rw [if_neg (by rwa [beq_iff_eq])] at hstatus
  obtain ⟨r, t, rfl, hptr⟩ := returns_uefi hstatus
  have hr : r = some cfg.capPtr := hcfg _ (.tail _ List.mem_cons_self) rfl
  rw [hr] at hptr
  exact ⟨t, fun ev hev ↦ .tail _ (.tail _ hev), hptr⟩

theorem PciConfig.InD0.mono {p : UInt8} {t' : List (Event Uefi)} (h : cfg.InD0 pciIo p t)
    (hsub : t ⊆ t') : cfg.InD0 pciIo p t' := by
  refine ⟨hsub h.1, h.2.imp_right ?_⟩
  rintro ⟨v, status, hmem, hv⟩
  exact ⟨v, status, hsub hmem, hv⟩

/-- **The power capability is not missed.** The walk of `LpssForceD0` always ends within 48 nodes
and changes at most the power state of one capability. If the capability pointer and the pointers
behind it are aligned and lead to a Power Management capability, it finds the first of them and
the function is in D0 afterwards. -/
theorem lpssForceD0_finds_pmi (pciIo : ℕ) :
    (lpssForceD0 pciIo).Within (fun _ ↦ True) (fun _ ↦ True) ∧
    ∀ t, (lpssForceD0 pciIo).Returns t () → ForcesOnly pciIo t ∧
      ∀ cfg : PciConfig, (∀ ev ∈ t, cfg.Answers pciIo ev) → cfg.HasCapabilities →
        ∀ k, (∀ j ≤ k, PciConfig.Linked (cfg.node j)) → cfg.IsPmi (cfg.node k) →
          ∃ n ≤ k, FirstHit cfg.next cfg.IsPmi cfg.capPtr n ∧ cfg.InD0 pciIo (cfg.node n) t := by
  refine ⟨lpssForceD0_within fun _ _ ↦ trivial, fun t h ↦ ⟨lpssForceD0_forcesOnly h, ?_⟩⟩
  intro cfg hcfg hcap k hlinked hpmi
  obtain ⟨n, hnk, hfirst⟩ := exists_firstHit hpmi
  have hslots : n < capSlots.card :=
    hfirst.lt_card fun m hm ↦ mem_capSlots (hlinked m (hm.trans hnk))
  rw [card_capSlots] at hslots
  obtain ⟨t', hsub, hwalk⟩ := lpssForceD0_walks h hcfg hcap
  have hd0 := lpssCapWalk_finds hwalk (fun ev hev ↦ hcfg ev (hsub hev)) hfirst
    (fun j hj ↦ (hlinked j (hj.trans hnk)).1) hslots
  exact ⟨n, hnk, hfirst, hd0.mono hsub⟩

/-! ## Two configuration spaces -/

/-- A function with the configuration space `cfg`. -/
def PciConfig.machine (cfg : PciConfig) (_ : Unit) : (e : UefiOp) → e.Ret × Unit
  | .pciRead8 _ off => (some (cfg off), ())
  | .pciRead16 _ off => (some (cfg.word off), ())
  | e => (e.zeros, ())

theorem PciConfig.machine_answers (s : Unit) (e : UefiOp) :
    cfg.Answers pciIo ⟨e, (cfg.machine s e).1⟩ := by
  cases e with
  | pciRead8 | pciRead16 => exact fun _ ↦ rfl
  | _ => trivial

/-- The operations on a function with the configuration space `cfg`. -/
def PciConfig.forceD0 (cfg : PciConfig) : List (Event Uefi) :=
  ((lpssForceD0 0).simulate cfg.machine ()).1

theorem PciConfig.forceD0_answers : ∀ ev ∈ cfg.forceD0, cfg.Answers 0 ev :=
  Prog.forall_simulate (J := fun _ ↦ True) (fun s e _ ↦ ⟨PciConfig.machine_answers s e, trivial⟩)
    trivial

/-- A function in D3hot: an MSI capability at 0x60, and the Power Management one behind it. -/
def d3hotConfig : PciConfig := fun off ↦
  if off = 0x06 then 0x10 else if off = 0x34 then 0x60
  else if off = 0x60 then 0x05 else if off = 0x61 then 0x80
  else if off = 0x80 then 0x01 else if off = 0x84 then 0x03 else 0

theorem lpssForceD0_finds_pmi_d3hot :
    d3hotConfig.InD0 0 0x80 d3hotConfig.forceD0 ∧ changes d3hotConfig.forceD0 ≠ [] := by
  have hret : (lpssForceD0 0).Returns d3hotConfig.forceD0 () :=
    Prog.returns_simulate (by decide +kernel)
  have hlinked : ∀ j ≤ 1, PciConfig.Linked (d3hotConfig.node j) := by
    decide +kernel
  obtain ⟨n, hn, hfirst, hd0⟩ := ((lpssForceD0_finds_pmi 0).2 _ hret).2 d3hotConfig
    PciConfig.forceD0_answers (by decide +kernel) 1 hlinked (by decide +kernel)
  have h0 : ¬d3hotConfig.IsPmi (d3hotConfig.node 0) := by decide +kernel
  have hn : n = 1 := by
    have hne : n ≠ 0 := fun h ↦ h0 (h ▸ hfirst.hit)
    omega
  subst hn
  refine ⟨hd0, ?_⟩
  decide +kernel

/-- A function in D3hot whose capability pointer is not aligned: 47 capabilities between it and
the Power Management one, from 0xFC down to 0x44. -/
def unalignedConfig : PciConfig := fun off ↦
  if off = 0x06 then 0x10 else if off = 0x34 then 0x41
  else if off = 0x40 then 0x01 else if off = 0x42 then 0xFC
  else if off < 0x44 ∨ 0x100 ≤ off then 0
  else if off % 4 = 0 then 0x03 else if off % 4 = 1 then (off - 5).toUInt8 else 0

/-- The operation reads the PMCSR of some capability. -/
def UefiOp.readsPmcsr : UefiOp → Bool
  | .pciRead16 _ off => off != pciPrimaryStatusOffset
  | _ => false

/-- It is not enough that the pointers behind the capability pointer are aligned. -/
theorem unaligned_pmi_missed :
    ¬∀ (cfg : PciConfig) (t : List (Event Uefi)), (lpssForceD0 0).Returns t () →
      (∀ ev ∈ t, cfg.Answers 0 ev) → cfg.HasCapabilities →
        ∀ k, 0x40 ≤ cfg.capPtr → (∀ j < k, PciConfig.Linked (cfg.node (j + 1))) →
          cfg.IsPmi (cfg.node k) →
            ∃ n ≤ k, FirstHit cfg.next cfg.IsPmi cfg.capPtr n ∧ cfg.InD0 0 (cfg.node n) t := by
  intro hfinds
  have hret : (lpssForceD0 0).Returns unalignedConfig.forceD0 () :=
    Prog.returns_simulate (by decide +kernel)
  obtain ⟨n, hn, -, ⟨hread, -⟩⟩ := hfinds unalignedConfig _ hret PciConfig.forceD0_answers
    (by decide +kernel) 48 (by decide +kernel) (by decide +kernel) (by decide +kernel)
  have hnone : ∀ ev ∈ unalignedConfig.forceD0, ev.op.readsPmcsr = false := by decide +kernel
  have hnode : ∀ j ≤ 48, (unalignedConfig.node j).toUInt32 + 4 ≠ pciPrimaryStatusOffset := by
    decide +kernel
  have hpmcsr := hnone _ hread
  rw [UefiOp.readsPmcsr, bne_eq_false_iff_eq] at hpmcsr
  exact hnode n hn hpmcsr

end TouchI2c
