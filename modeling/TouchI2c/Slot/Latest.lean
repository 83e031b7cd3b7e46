import Mathlib.Data.List.Basic

/-!
# A slot for the latest value

A producer puts values into a slot and a consumer takes them out. A put overwrites what has not been
taken, and a take empties the slot, or fails if it is empty.

A full slot has been put to last (`eq_append_put`): no take lies behind that put, since it would
have emptied the slot. So a take that succeeds returns the latest value, and directly follows its
put; no value is taken twice, since two takes would need two puts; and a consumer that takes after
every put misses none.
-/

namespace Slot

variable {α : Type}

/-- What happens at a slot; a take has the value it returns. -/
inductive Act (α : Type) where
  | put (a : α)
  | take (r : Option α)

/-- What a slot that held `v` holds after `acts`. -/
def content : Option α → List (Act α) → Option α
  | v, [] => v
  | _, .put a :: acts => content (some a) acts
  | _, .take _ :: acts => content none acts

/-- Every take returns what the slot holds, which was `v` at the start. -/
def Follows : Option α → List (Act α) → Prop
  | _, [] => True
  | _, .put a :: acts => Follows (some a) acts
  | v, .take r :: acts => r = v ∧ Follows none acts

/-- The values that were put. -/
def puts (acts : List (Act α)) : List α :=
  acts.filterMap fun
    | .put a => some a
    | .take _ => none

/-- The values that were taken. -/
def takes (acts : List (Act α)) : List α :=
  acts.filterMap fun
    | .put _ => none
    | .take r => r

/-- A take comes after every put, before the next one. -/
def Prompt : List (Act α) → Prop
  | [] => True
  | .put _ :: .take _ :: acts => Prompt acts
  | .put _ :: _ => False
  | .take _ :: acts => Prompt acts

variable {v : Option α} {acts pre post : List (Act α)} {a : α} {r : Option α}

theorem content_append (v : Option α) (acts acts' : List (Act α)) :
    content v (acts ++ acts') = content (content v acts) acts' := by
  induction acts generalizing v with
  | nil => rfl
  | cons act acts ih =>
    cases act with
    | put a => exact ih (some a)
    | take r => exact ih none

theorem follows_append {acts' : List (Act α)} :
    Follows v (acts ++ acts') ↔ Follows v acts ∧ Follows (content v acts) acts' := by
  induction acts generalizing v with
  | nil => exact (and_iff_right trivial).symm
  | cons act acts ih =>
    cases act with
    | put a => exact ih
    | take r => exact (and_congr_right fun _ ↦ ih).trans and_assoc.symm

theorem eq_append_put (h : content none acts = some a) : ∃ pre, acts = pre ++ [.put a] := by
  rcases List.eq_nil_or_concat acts with rfl | ⟨pre, act, rfl⟩
  · contradiction
  · rw [List.concat_eq_append, content_append] at h
    cases act with
    | put b =>
      cases h
      exact ⟨pre, List.concat_eq_append⟩
    | take r => contradiction

/-- **A take that succeeds** directly follows the put of the value it returns: so it returns the
latest one, and no other take returns this put. -/
theorem Follows.latest (h : Follows none (pre ++ .take (some a) :: post)) :
    ∃ pre', pre = pre' ++ [.put a] :=
  eq_append_put (follows_append.mp h).2.1.symm

/-- **A prompt consumer** misses no value; one that the slot held at the start may come first. -/
theorem Follows.takes (h : Follows v acts) (hprompt : Prompt acts) :
    takes acts = puts acts ∨ ∃ a, v = some a ∧ takes acts = a :: puts acts := by
  induction acts using Prompt.induct generalizing v with
  | case1 => exact .inl rfl
  | case2 a r acts ih =>
    -- the take returns the put before it, and leaves the slot empty
    obtain ⟨rfl, hrest⟩ := h
    obtain htakes | ⟨b, hb, -⟩ := ih hrest hprompt
    · exact .inl (congrArg (a :: ·) htakes)
    · contradiction
  | case3 a acts hnot =>
    cases acts with
    | nil => exact hprompt.elim
    | cons act acts =>
      cases act with
      | put b => exact hprompt.elim
      | take r => exact (hnot r acts rfl).elim
  | case4 r acts ih =>
    obtain ⟨rfl, hrest⟩ := h
    obtain htakes | ⟨b, hb, -⟩ := ih hrest hprompt
    · cases r with
      | none => exact .inl htakes
      | some a => exact .inr ⟨a, rfl, congrArg (a :: ·) htakes⟩
    · contradiction

end Slot
