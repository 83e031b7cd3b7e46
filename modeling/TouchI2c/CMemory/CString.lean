import Mathlib.Data.List.TakeWhile
import TouchI2c.CMemory.Checked

/-!
# NUL-terminated strings

A string in memory is what comes before the first NUL, `cString`. Measuring and copying one are
bounded, checked accesses; a string that is not terminated ends with the memory it lies in.

Two equations carry the proofs. Nothing behind the NUL of a string is read, so a terminated string
may be followed by anything (`cString_append_zero`, `cString_append`); and a terminated string
splits the memory it lies in into itself, its NUL and the rest (`cString_split`), which is how a
walk over strings stored one behind the other advances. `copyMem_cString` is the bounded copy of the
source: as much of the string as fits, and a NUL behind it.
-/

namespace CMemory

/-- The string at the front of some bytes. -/
def cString (bytes : List UInt8) : List UInt8 := bytes.takeWhile (· ≠ 0)

@[simp] theorem cString_nil : cString [] = [] := rfl

@[simp] theorem cString_zero_cons (bytes : List UInt8) : cString (0 :: bytes) = [] := rfl

theorem cString_cons {b : UInt8} (hb : b ≠ 0) (bytes : List UInt8) :
    cString (b :: bytes) = b :: cString bytes := by
  rw [cString, List.takeWhile_cons_of_pos (by simpa using hb), cString]

/-- The bytes of an ASCII string constant. -/
def asciiBytes (s : String) : List UInt8 := s.toList.map fun c ↦ c.val.toUInt8

theorem ne_zero_of_mem_cString {bytes : List UInt8} {b : UInt8} (h : b ∈ cString bytes) : b ≠ 0 := by
  simpa using List.mem_takeWhile_imp h

theorem cString_prefix (bytes : List UInt8) : cString bytes <+: bytes := List.takeWhile_prefix _

/-- A string without NULs that has been terminated. -/
theorem cString_append_zero {s : List UInt8} (h : ∀ b ∈ s, b ≠ 0) (rest : List UInt8) :
    cString (s ++ 0 :: rest) = s := by
  rw [cString, List.takeWhile_append_of_pos (by simpa using h),
    List.takeWhile_cons_of_neg (by decide), List.append_nil]

/-- A terminated string, its NUL, and what lies behind it. -/
theorem cString_split {bytes : List UInt8} (h : (cString bytes).length < bytes.length) :
    cString bytes ++ 0 :: bytes.drop ((cString bytes).length + 1) = bytes := by
  induction bytes with
  | nil => exact absurd h (lt_irrefl 0)
  | cons b bytes ih =>
    by_cases hb : b = 0
    · subst hb
      rfl
    · rw [cString_cons hb, List.length_cons, List.length_cons] at h
      rw [cString_cons hb, List.length_cons, List.drop_succ_cons, List.cons_append,
        ih (Nat.lt_of_succ_lt_succ h)]

theorem cString_append {bytes : List UInt8} (h : (cString bytes).length < bytes.length)
    (after : List UInt8) : cString (bytes ++ after) = cString bytes := by
  conv_lhs => rw [← cString_split h]
  rw [List.append_assoc, List.cons_append, cString_append_zero fun b ↦ ne_zero_of_mem_cString]

/-- The first byte tells whether the string is empty. -/
theorem cString_eq_nil_iff {bytes : List UInt8} : cString bytes = [] ↔ bytes.head?.getD 0 = 0 := by
  cases bytes with
  | nil => simp
  | cons b bytes =>
    by_cases hb : b = 0
    · simp [hb]
    · simp [cString_cons hb, hb]

/-- `while (Str[Len] != 0) Len++`, with `n` bytes from `Str + Len` to the end of the memory. -/
def strLen (bytes : List UInt8) (str : ℕ) : ℕ → ℕ → Checked ℕ
  | 0, len => return len
  | n + 1, len => do
    if (← readAt bytes (str + len)) ≠ 0 then strLen bytes str n (len + 1)
    else return len

theorem strLen_ok {bytes : List UInt8} {str n len : ℕ} (hn : str + len + n = bytes.length) :
    strLen bytes str n len = .ok (len + (cString (bytes.drop (str + len))).length) := by
  induction n generalizing len with
  | zero =>
    rw [strLen, List.drop_eq_nil_of_le (by omega)]
    rfl
  | succ n ih =>
    have hlt : str + len < bytes.length := by omega
    rw [strLen, readAt_getElem hlt, ok_bind, List.drop_eq_getElem_cons hlt]
    by_cases hb : bytes[str + len] = 0
    · rw [if_neg (not_not_intro hb), hb, cString_zero_cons]
      rfl
    · have hih := @ih (len + 1) (by omega)
      rw [if_pos hb, cString_cons hb, List.length_cons, hih]
      congr 1
      rw [← Nat.add_assoc str len 1]
      omega

/-- The little-endian `UINT32` at `off`. -/
def readU32 (bytes : List UInt8) (off : ℕ) : Checked UInt32 := do
  let b₀ ← readAt bytes off
  let b₁ ← readAt bytes (off + 1)
  let b₂ ← readAt bytes (off + 2)
  let b₃ ← readAt bytes (off + 3)
  return b₀.toUInt32 ||| b₁.toUInt32 <<< 8 ||| b₂.toUInt32 <<< 16 ||| b₃.toUInt32 <<< 24

theorem readU32_ok {bytes : List UInt8} {off : ℕ} (h : off + 4 ≤ bytes.length) :
    ∃ v, readU32 bytes off = .ok v := by
  unfold readU32
  rw [readAt_getElem (by omega), readAt_getElem (by omega), readAt_getElem (by omega),
    readAt_getElem (by omega)]
  exact ⟨_, rfl⟩

/-- `CopyMem`, from `src + off`. -/
def copyMem (dest src : List UInt8) (off len : ℕ) : Checked (List UInt8) :=
  if len ≤ dest.length ∧ off + len ≤ src.length then
    .ok ((src.drop off).take len ++ dest.drop len)
  else .error .outOfRange

theorem copyMem_ok {dest src : List UInt8} {off len : ℕ} (hdest : len ≤ dest.length)
    (hsrc : off + len ≤ src.length) :
    copyMem dest src off len = .ok ((src.drop off).take len ++ dest.drop len) :=
  if_pos ⟨hdest, hsrc⟩

/-- The array `dest` after the string `s` has been stored in it with its NUL. -/
def storeString (dest s : List UInt8) : List UInt8 := s ++ 0 :: dest.drop (s.length + 1)

theorem length_storeString {dest s : List UInt8} (h : s.length < dest.length) :
    (storeString dest s).length = dest.length := by
  rw [storeString, List.length_append, List.length_cons, List.length_drop]
  omega

theorem cString_storeString {dest s : List UInt8} (h : ∀ b ∈ s, b ≠ 0) :
    cString (storeString dest s) = s := cString_append_zero h _

/-- Copying the string at `off`, or what fits of it, and terminating it. -/
theorem copyMem_cString {dest src : List UInt8} {off len : ℕ} (hdest : len < dest.length)
    (hoff : off ≤ src.length) (hlen : len ≤ (cString (src.drop off)).length) :
    (do writeAt (← copyMem dest src off len) len 0)
      = .ok (storeString dest ((cString (src.drop off)).take len)) := by
  have hpre := cString_prefix (src.drop off)
  have hle := hpre.length_le
  rw [List.length_drop] at hle
  have htake : (src.drop off).take len = (cString (src.drop off)).take len := by
    obtain ⟨rest, heq⟩ := hpre
    conv_lhs => rw [← heq, List.take_append_of_le_length hlen]
  have hlength : ((cString (src.drop off)).take len).length = len := by
    rw [List.length_take, Nat.min_eq_left hlen]
  rw [copyMem_ok hdest.le (by omega), ok_bind, htake, writeAt_ok _ (by
    rw [List.length_append, hlength, List.length_drop]; omega)]
  rw [List.set_append_right _ _ hlength.le, hlength, Nat.sub_self, List.drop_eq_getElem_cons hdest,
    List.set_cons_zero, storeString, hlength]

end CMemory
