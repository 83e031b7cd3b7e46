import Mathlib.Algebra.Group.Int.Defs
import Mathlib.Algebra.Group.Nat.Defs
import Mathlib.Data.List.Infix
import Mathlib.Tactic.Common

/-!
# Checked memory accesses and checked machine arithmetic

C leaves a read past the end of an array, a read of a slot that was never written and a NULL
dereference undefined, and lets an unsigned computation wrap silently. A model that uses total Lean
functions for these would hide exactly the mistakes a safety proof has to exclude. Here each of them
is an explicit `Fault`, so "the function is memory safe" is the statement that its value is never an
error.

## Arrays

A fixed-size C array is a list of slots; a slot is `none` until it is written. The abstraction used
by every proof is `List.IsPrefix`: `xs.map some <+: slots` says that the initialised part of the
array is the list `xs`. Reading inside it gives an element of `xs`, writing the first free slot
appends one, and dropping the last element shrinks it, so a C array with a separate element count is
handled as a list.

## Arithmetic

`addU32`, `mulU32` and `subUnsigned` fault where the C computation would wrap; their `_ok` lemmas
give the mathematical value under the bound that excludes it.
-/

namespace CMemory

/-- What a run of a C function may do wrong, or of its model: exceed the bound of a loop. -/
inductive Fault where
  | nullPointer
  | outOfRange
  | uninitialised
  | wrapped
  | unbounded
  deriving DecidableEq, Repr

/-- A computation that may fault. -/
abbrev Checked (α : Type) := Except Fault α

variable {α β : Type}

@[simp] theorem ok_bind (a : α) (f : α → Checked β) : (Except.ok a >>= f) = f a := rfl

@[simp] theorem pure_eq_ok (a : α) : (pure a : Checked α) = .ok a := rfl

/-- A fold none of whose passes faults, under an invariant of the accumulator. -/
theorem foldlM_ok {f : β → α → Checked β} {g : β → α → β} (I : β → Prop) {xs : List α}
    (hstep : ∀ b, I b → ∀ a ∈ xs, f b a = .ok (g b a) ∧ I (g b a)) {b : β} (hb : I b) :
    xs.foldlM f b = .ok (xs.foldl g b) ∧ I (xs.foldl g b) := by
  induction xs generalizing b with
  | nil => exact ⟨rfl, hb⟩
  | cons a xs ih =>
    obtain ⟨hfa, hIa⟩ := hstep b hb a List.mem_cons_self
    rw [List.foldlM_cons, hfa, ok_bind, List.foldl_cons]
    exact ih (fun b hb a ha ↦ hstep b hb a (List.mem_cons_of_mem _ ha)) hIa

/-! ## Arrays -/

/-- `xs[i]` as C reads it: a fault past the end. -/
def readAt (xs : List α) (i : ℕ) : Checked α :=
  match xs[i]? with
  | some a => .ok a
  | none => .error .outOfRange

/-- `xs[i] = a` as C writes it: a fault past the end. -/
def writeAt (xs : List α) (i : ℕ) (a : α) : Checked (List α) :=
  if i < xs.length then .ok (xs.set i a) else .error .outOfRange

/-- Reads a slot of an array whose slots start uninitialised. -/
def readSlot (slots : List (Option α)) (i : ℕ) : Checked α :=
  match slots[i]? with
  | some (some a) => .ok a
  | some none => .error .uninitialised
  | none => .error .outOfRange

theorem readAt_ok {xs : List α} {i : ℕ} {a : α} (h : xs[i]? = some a) : readAt xs i = .ok a := by
  rw [readAt, h]

theorem readAt_getElem {xs : List α} {i : ℕ} (h : i < xs.length) : readAt xs i = .ok xs[i] :=
  readAt_ok (List.getElem?_eq_getElem h)

/-- A read that does not fault lies inside the array. -/
theorem readAt_eq_ok_iff {xs : List α} {i : ℕ} {a : α} : readAt xs i = .ok a ↔ xs[i]? = some a := by
  unfold readAt
  cases hx : xs[i]? <;> simp

theorem writeAt_ok {xs : List α} {i : ℕ} (a : α) (h : i < xs.length) :
    writeAt xs i a = .ok (xs.set i a) := by
  rw [writeAt, if_pos h]

theorem readSlot_of_initialised {slots : List (Option α)} {xs : List α} {i : ℕ} {a : α}
    (h : xs.map some <+: slots) (hi : xs[i]? = some a) : readSlot slots i = .ok a := by
  obtain ⟨rest, rfl⟩ := h
  have hlen : i < xs.length := (List.getElem?_eq_some_iff.mp hi).1
  rw [readSlot, List.getElem?_append_left (by rwa [List.length_map]), List.getElem?_map, hi]
  rfl

/-- Writing the first free slot extends the initialised part by one element. -/
theorem prefix_set_length {slots : List (Option α)} {xs : List α} (a : α)
    (h : xs.map some <+: slots) (hroom : xs.length < slots.length) :
    (xs ++ [a]).map some <+: slots.set xs.length (some a) := by
  obtain ⟨rest, rfl⟩ := h
  cases rest with
  | nil => simp at hroom
  | cons b rest =>
    refine ⟨rest, ?_⟩
    rw [List.set_append_right _ _ (by simp)]
    simp

/-- Dropping the last element only shrinks the initialised part. -/
theorem prefix_of_append_singleton {slots : List (Option α)} {xs : List α} {a : α}
    (h : (xs ++ [a]).map some <+: slots) : xs.map some <+: slots := by
  rw [List.map_append] at h
  exact (List.prefix_append _ _).trans h

/-! ## UINT32 arithmetic

The computed value is the mathematical one; a result outside the type is a fault. -/

/-- The largest `UINT32`, plus one. -/
def u32 : ℕ := 2 ^ 32

def addU32 (a b : ℕ) : Checked ℕ := if a + b < u32 then .ok (a + b) else .error .wrapped

def subUnsigned (a b : ℕ) : Checked ℕ := if b ≤ a then .ok (a - b) else .error .wrapped

def mulU32 (a b : ℕ) : Checked ℕ := if a * b < u32 then .ok (a * b) else .error .wrapped

theorem addU32_ok {a b : ℕ} (h : a + b < u32) : addU32 a b = .ok (a + b) := if_pos h

theorem subUnsigned_ok {a b : ℕ} (h : b ≤ a) : subUnsigned a b = .ok (a - b) := if_pos h

theorem mulU32_ok {a b : ℕ} (h : a * b < u32) : mulU32 a b = .ok (a * b) := if_pos h

/-- The `INT32` with the bit pattern of a `UINT32`. -/
def toInt32 (v : ℕ) : ℤ := if v < 2 ^ 31 then v else (v : ℤ) - 2 ^ 32

theorem toInt32_of_lt {v : ℕ} (h : v < 2 ^ 31) : toInt32 v = v := if_pos h

/-- A bit pattern below `2 ^ 32` reads as a nonnegative `INT32` only when it is its own value. -/
theorem toInt32_nonneg_iff {v : ℕ} (hv : v < u32) : 0 ≤ toInt32 v ↔ v < 2 ^ 31 := by
  unfold toInt32 u32 at *
  split <;> omega

end CMemory
