import Mathlib.Algebra.Order.Ring.Int
import Mathlib.Data.Nat.Bitwise
import Mathlib.Tactic.Common
import Mathlib.Tactic.Positivity
import Mathlib.Tactic.Zify

/-!
# Bit fields in byte buffers

A buffer of bytes is a sequence of bits, the least significant bit of the first byte first. A field
is the range of bits `[off, off + n)`, read and written as a little-endian number.

## The frame rule

Everything follows from what a write does to a single bit (`bitAt_writeBits`): the bits of its own
field become those of the value, and no other bit changes. So a field reads back what was written to
it, and fields that lie apart can be written in any order without disturbing each other. Two buffers
that agree on the bits of a field have the same number there (`readBits_congr`), which is how a
field is carried through writes to the rest of the buffer.

A field that reaches past the end of the buffer is not an error here: the missing bits read as zero.
A reader that stops at the end of its buffer computes the same number.
-/

namespace BitField

/-! ## Single bits -/

/-- Bit `i` of a buffer; the bits past the end are zero. -/
def bitAt (buf : List UInt8) (i : ℕ) : Bool := (buf.getD (i / 8) 0).toNat.testBit (i % 8)

/-- A number with bit `i` set to `b`. -/
def withBit (n i : ℕ) (b : Bool) : ℕ := if b then n ||| 2 ^ i else n ^^^ (n &&& 2 ^ i)

/-- A buffer with bit `i` set to `b`. -/
def setBit (buf : List UInt8) (i : ℕ) (b : Bool) : List UInt8 :=
  buf.modify (i / 8) fun byte ↦ UInt8.ofNat (withBit byte.toNat (i % 8) b)

@[simp] theorem length_setBit (buf : List UInt8) (i : ℕ) (b : Bool) :
    (setBit buf i b).length = buf.length := by
  rw [setBit, List.length_modify]

theorem testBit_withBit (n i : ℕ) (b : Bool) (j : ℕ) :
    (withBit n i b).testBit j = if i = j then b else n.testBit j := by
  unfold withBit
  cases b <;> by_cases hij : i = j <;>
    simp [hij, Nat.testBit_or, Nat.testBit_xor, Nat.testBit_and]

theorem withBit_lt {n i w : ℕ} (hn : n < 2 ^ w) (hi : i < w) (b : Bool) : withBit n i b < 2 ^ w := by
  unfold withBit
  have hpow : 2 ^ i < 2 ^ w := Nat.pow_lt_pow_right (by decide) hi
  split
  · exact Nat.or_lt_two_pow hn hpow
  · exact Nat.xor_lt_two_pow hn (Nat.and_lt_two_pow _ hpow)

theorem bitAt_setBit {buf : List UInt8} {i : ℕ} (hi : i < 8 * buf.length) (b : Bool) (j : ℕ) :
    bitAt (setBit buf i b) j = if i = j then b else bitAt buf j := by
  have hbyte : i / 8 < buf.length := by omega
  unfold bitAt setBit
  rw [List.getD_eq_getElem?_getD, List.getD_eq_getElem?_getD, List.getElem?_modify]
  by_cases hsame : i / 8 = j / 8
  · have hlt : withBit buf[j / 8].toNat (i % 8) b < 2 ^ 8 :=
      withBit_lt buf[j / 8].toNat_lt (Nat.mod_lt _ (by decide)) b
    have hij : i % 8 = j % 8 ↔ i = j := by omega
    rw [hsame, List.getElem?_eq_getElem (by omega)]
    simp only [if_true, Option.map_eq_map, Option.map_some, Option.getD_some]
    rw [UInt8.toNat_ofNat_of_lt' hlt, testBit_withBit]
    simp only [hij]
  · have hij : i ≠ j := fun h ↦ hsame (by rw [h])
    simp [hsame, hij]

/-! ## Fields -/

/-- The number in the field of `n` bits at `off`. -/
def readBits (buf : List UInt8) (off : ℕ) : ℕ → ℕ
  | 0 => 0
  | n + 1 => readBits buf off n ||| (bitAt buf (off + n)).toNat <<< n

/-- Writes a number to the field of `n` bits at `off`. -/
def writeBits (buf : List UInt8) (off : ℕ) : ℕ → ℕ → List UInt8
  | 0, _ => buf
  | n + 1, v => setBit (writeBits buf off n v) (off + n) (v.testBit n)

/-- Two fields without a common bit. -/
def Apart (off₁ n₁ off₂ n₂ : ℕ) : Prop := off₁ + n₁ ≤ off₂ ∨ off₂ + n₂ ≤ off₁

theorem Apart.symm {off₁ n₁ off₂ n₂ : ℕ} (h : Apart off₁ n₁ off₂ n₂) : Apart off₂ n₂ off₁ n₁ :=
  Or.symm h

@[simp] theorem length_writeBits (buf : List UInt8) (off n v : ℕ) :
    (writeBits buf off n v).length = buf.length := by
  induction n with
  | zero => rfl
  | succ n ih => rw [writeBits, length_setBit, ih]

theorem testBit_readBits (buf : List UInt8) (off n k : ℕ) :
    (readBits buf off n).testBit k = (decide (k < n) && bitAt buf (off + k)) := by
  induction n with
  | zero => simp [readBits]
  | succ n ih =>
    rw [readBits, Nat.testBit_or, ih, Nat.testBit_shiftLeft]
    rcases lt_trichotomy k n with h | rfl | h
    · simp [h, Nat.lt_succ_of_lt h, Nat.not_le.mpr h]
    · cases bitAt buf (off + k) <;> simp
    · have hk : ¬k < n + 1 := by omega
      have hone : Nat.testBit 1 (k - n) = false :=
        Nat.testBit_lt_two_pow (Nat.one_lt_two_pow (by omega))
      cases bitAt buf (off + n) <;> simp [h.le, hk, Nat.not_lt.mpr h.le, hone]

/-- The part of a field past the end of the buffer reads as zero. -/
theorem readBits_of_length_le {buf : List UInt8} {off n : ℕ} (h : 8 * buf.length ≤ off + n) (m : ℕ) :
    readBits buf off (n + m) = readBits buf off n := by
  induction m with
  | zero => rfl
  | succ m ih =>
    have hbit : bitAt buf (off + (n + m)) = false := by
      rw [bitAt, List.getD_eq_default _ _ (by omega)]
      exact Nat.zero_testBit _
    rw [← Nat.add_assoc, readBits, ih, hbit, Bool.toNat_false, Nat.zero_shiftLeft, Nat.or_zero]

/-- A write changes the bits of its own field and no others. -/
theorem bitAt_writeBits {buf : List UInt8} {off n : ℕ} (h : off + n ≤ 8 * buf.length) (v j : ℕ) :
    bitAt (writeBits buf off n v) j
      = if off ≤ j ∧ j < off + n then v.testBit (j - off) else bitAt buf j := by
  induction n with
  | zero => rw [writeBits, if_neg (by omega)]
  | succ n ih =>
    rw [writeBits, bitAt_setBit (by rw [length_writeBits]; omega), ih (by omega)]
    by_cases hj : off + n = j
    · subst hj
      rw [if_pos rfl, if_pos (by omega), Nat.add_sub_cancel_left]
    · rw [if_neg hj]
      simp only [show (off ≤ j ∧ j < off + (n + 1)) ↔ (off ≤ j ∧ j < off + n) from by omega]

/-- Two buffers with the same bits in a field have the same number there. -/
theorem readBits_congr {buf buf' : List UInt8} {off n : ℕ}
    (h : ∀ k < n, bitAt buf (off + k) = bitAt buf' (off + k)) :
    readBits buf off n = readBits buf' off n := by
  refine Nat.eq_of_testBit_eq fun k ↦ ?_
  rw [testBit_readBits, testBit_readBits]
  by_cases hk : k < n
  · rw [h k hk]
  · rw [decide_eq_false hk, Bool.false_and, Bool.false_and]

/-- **Round trip**: a field reads back what was written to it. -/
theorem readBits_writeBits {buf : List UInt8} {off n v : ℕ} (h : off + n ≤ 8 * buf.length)
    (hv : v < 2 ^ n) : readBits (writeBits buf off n v) off n = v := by
  refine Nat.eq_of_testBit_eq fun k ↦ ?_
  rw [testBit_readBits, bitAt_writeBits h]
  by_cases hk : k < n
  · rw [decide_eq_true hk, if_pos (by omega), Nat.add_sub_cancel_left, Bool.true_and]
  · rw [decide_eq_false hk, Bool.false_and]
    exact (Nat.testBit_lt_two_pow (hv.trans_le (Nat.pow_le_pow_right (by decide) (by omega)))).symm

/-- **Frame**: a write does not disturb a field that lies apart. -/
theorem readBits_writeBits_of_apart {buf : List UInt8} {off n off' n' : ℕ}
    (h : off + n ≤ 8 * buf.length) (hapart : Apart off n off' n') (v : ℕ) :
    readBits (writeBits buf off n v) off' n' = readBits buf off' n' := by
  refine readBits_congr fun k hk ↦ ?_
  rw [bitAt_writeBits h, if_neg]
  unfold Apart at hapart
  omega

/-! ## Signed values -/

/-- The two's complement of an integer in `n` bits. -/
def twosComplement (n : ℕ) (v : ℤ) : ℕ := (v % 2 ^ n).toNat

theorem twosComplement_lt (n : ℕ) (v : ℤ) : twosComplement n v < 2 ^ n := by
  have hpos : (0 : ℤ) < 2 ^ n := by positivity
  have hlt := Int.emod_lt_of_pos v hpos
  have hnonneg := Int.emod_nonneg v hpos.ne'
  rw [twosComplement]
  zify
  rwa [Int.toNat_of_nonneg hnonneg]

theorem twosComplement_of_nonneg {n : ℕ} {v : ℤ} (h : 0 ≤ v) (hlt : v < 2 ^ n) :
    twosComplement n v = v.toNat := by
  rw [twosComplement, Int.emod_eq_of_lt h hlt]

end BitField
