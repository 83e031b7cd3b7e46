import Mathlib.Data.Set.Insert
import TouchI2c.Interaction.Recording

/-!
# Custody of resources

A program acquires resources, uses them and gives them back. A `Custody` says what the operations of
an interface do to resources of a type `κ`, and `held t` is what is held after the trace `t`: what
has been acquired and not been given back since (`mem_held`).

## The ledger

In the world `ledger F` only what is held may be used or given back, and nothing is acquired twice,
as long as the environment stays in `F`; there the trace itself is the state. Each operation then
has one rule, by what it does: it is neutral, or acquires, gives back or uses. The environment's
part is a condition on the trace rather than on the program, because it is the environment that
picks the name of what is acquired: an allocator that handed out a resource in use would break the
ledger without any fault of the program.

## The balance

Where a trace is kept in such order (`Kept`), each resource has been acquired as often as it has
been given back, and once more exactly if it is held: an acquisition starts from not held, a release
from held. So nothing is given back twice, and what is not held at the end has not leaked.
-/

namespace Interaction

variable {I : Interface} {κ α : Type}

/-- What the operations of an interface do to resources. -/
structure Custody (I : Interface) (κ : Type) where
  acquires : (e : I.Op) → I.Ret e → Option κ
  releases : I.Op → Option κ
  uses : I.Op → Option κ
  exclusive : ∀ e r, acquires e r ≠ none → releases e = none

namespace Custody

variable (C : Custody I κ)

/-- What is held after one more event. -/
def step (held : Set κ) (ev : Event I) : Set κ :=
  {k | C.acquires ev.op ev.ret = some k ∨ k ∈ held ∧ C.releases ev.op ≠ some k}

/-- What is held after a trace. -/
def held (t : List (Event I)) : Set κ := t.foldl C.step ∅

/-- The operation uses and gives back only what is held. -/
structure Orderly (held : Set κ) (e : I.Op) : Prop where
  uses : ∀ k, C.uses e = some k → k ∈ held
  releases : ∀ k, C.releases e = some k → k ∈ held

/-- The event acquires nothing that is held. -/
def Novel (held : Set κ) (ev : Event I) : Prop :=
  ∀ k, C.acquires ev.op ev.ret = some k → k ∉ held

/-- The operation does nothing to resources. -/
structure Neutral (e : I.Op) : Prop where
  acquires : ∀ r, C.acquires e r = none
  releases : C.releases e = none
  uses : C.uses e = none

/-- Everything in the trace is in order. -/
def Kept (t : List (Event I)) : Prop :=
  ∀ t₁ ev t₂, t = t₁ ++ ev :: t₂ → C.Orderly (C.held t₁) ev.op ∧ C.Novel (C.held t₁) ev

variable {C}

/-! ## What is held -/

@[simp] theorem held_nil : C.held [] = ∅ := rfl

@[simp] theorem held_concat {t : List (Event I)} {ev : Event I} :
    C.held (t ++ [ev]) = C.step (C.held t) ev := List.foldl_append

theorem step_of_neutral {H : Set κ} {ev : Event I} (h : C.Neutral ev.op) : C.step H ev = H := by
  ext k
  simp [step, h.acquires, h.releases]

/-- **What is held** has been acquired and not been given back since. -/
theorem mem_held {t : List (Event I)} {k : κ} : k ∈ C.held t ↔ ∃ t₁ ev t₂, t = t₁ ++ ev :: t₂ ∧
    C.acquires ev.op ev.ret = some k ∧ ∀ ev' ∈ t₂, C.releases ev'.op ≠ some k := by
  induction t using List.reverseRecOn with
  | nil =>
    constructor
    · intro h
      contradiction
    · rintro ⟨t₁, ev, t₂, heq, -⟩
      exact absurd heq (by simp)
  | append_singleton t ev ih =>
    rw [held_concat]
    constructor
    · rintro (hacq | ⟨hheld, hrel⟩)
      · exact ⟨t, ev, [], rfl, hacq, fun _ h ↦ absurd h List.not_mem_nil⟩
      · obtain ⟨t₁, ev₁, t₂, rfl, hacq, hnone⟩ := ih.mp hheld
        refine ⟨t₁, ev₁, t₂ ++ [ev], by simp, hacq, fun ev' hev' ↦ ?_⟩
        rcases List.mem_append.mp hev' with hev' | hev'
        · exact hnone ev' hev'
        · exact List.mem_singleton.mp hev' ▸ hrel
    · rintro ⟨t₁, ev₁, t₂, heq, hacq, hnone⟩
      rcases List.eq_nil_or_concat t₂ with rfl | ⟨t₂, ev₂, rfl⟩
      · obtain ⟨-, hev⟩ := List.append_inj' heq rfl
        obtain rfl := List.singleton_inj.mp hev
        exact .inl hacq
      · rw [List.concat_eq_append] at heq hnone
        have heq' : t ++ [ev] = (t₁ ++ ev₁ :: t₂) ++ [ev₂] := by
          rw [heq, List.append_assoc, List.cons_append]
        obtain ⟨rfl, hev⟩ := List.append_inj' heq' rfl
        obtain rfl := List.singleton_inj.mp hev
        exact .inr ⟨ih.mpr ⟨t₁, ev₁, t₂, rfl, hacq, fun ev' hev' ↦
          hnone ev' (List.mem_append_left _ hev')⟩, hnone ev (by simp)⟩

section

variable [DecidableEq κ]

variable (C) in
/-- What is held, as a list. -/
def inHand (t : List (Event I)) : List κ :=
  t.foldl (fun live ev ↦ (C.acquires ev.op ev.ret).toList ++
    live.filter fun k ↦ C.releases ev.op ≠ some k) []

theorem mem_inHand {t : List (Event I)} {k : κ} : k ∈ C.inHand t ↔ k ∈ C.held t := by
  induction t using List.reverseRecOn with
  | nil => exact ⟨fun h ↦ by contradiction, fun h ↦ by contradiction⟩
  | append_singleton t ev ih =>
    rw [held_concat, inHand, List.foldl_append, List.foldl_cons, List.foldl_nil, List.mem_append,
      List.mem_filter, decide_eq_true_eq, Option.mem_toList]
    exact or_congr_right (and_congr_left fun _ ↦ ih)

instance (t : List (Event I)) (k : κ) : Decidable (k ∈ C.held t) := decidable_of_iff _ mem_inHand

end

/-! ## Balance -/

theorem kept_nil : C.Kept [] := by
  intro t₁ ev t₂ heq
  exact absurd heq (by simp)

theorem Kept.of_append {t t' : List (Event I)} (h : C.Kept (t ++ t')) : C.Kept t := by
  intro t₁ ev t₂ heq
  exact h t₁ ev (t₂ ++ t') (by rw [heq, List.append_assoc, List.cons_append])

theorem Kept.concat {t : List (Event I)} {ev : Event I} (h : C.Kept t)
    (horderly : C.Orderly (C.held t) ev.op) (hnovel : C.Novel (C.held t) ev) :
    C.Kept (t ++ [ev]) := by
  intro t₁ ev₁ t₂ heq
  rcases List.eq_nil_or_concat t₂ with rfl | ⟨t₂, ev₂, rfl⟩
  · obtain ⟨rfl, hev⟩ := List.append_inj' heq rfl
    obtain rfl := List.singleton_inj.mp hev
    exact ⟨horderly, hnovel⟩
  · rw [List.concat_eq_append, ← List.cons_append, ← List.append_assoc] at heq
    obtain ⟨rfl, -⟩ := List.append_inj' heq rfl
    exact h t₁ ev₁ t₂ rfl

/-- **The balance** of a trace in order: whatever was acquired has been given back exactly once,
unless it is held. -/
theorem Kept.balance [DecidableEq κ] {t : List (Event I)} (h : C.Kept t) (k : κ) :
    t.countP (fun ev ↦ C.acquires ev.op ev.ret = some k) =
      t.countP (fun ev ↦ C.releases ev.op = some k) + if k ∈ C.held t then 1 else 0 := by
  induction t using List.reverseRecOn with
  | nil => simp
  | append_singleton t ev ih =>
    have ih := ih h.of_append
    obtain ⟨horderly, hnovel⟩ := h t ev [] rfl
    rw [List.countP_append, List.countP_append, List.countP_singleton, List.countP_singleton, ih]
    by_cases hacq : C.acquires ev.op ev.ret = some k
    · have hrel : C.releases ev.op = none := C.exclusive _ _ (by rw [hacq]; simp)
      simp [step, hacq, hrel, hnovel k hacq]
    · by_cases hrel : C.releases ev.op = some k
      · simp [step, hacq, hrel, horderly.releases k hrel]
      · by_cases hheld : k ∈ C.held t <;> simp [step, hacq, hrel, hheld]

/-! ## The world -/

variable (C) in
/-- The world that remembers the trace and keeps it in order, where the environment stays in
`F`. -/
def ledger (F : List (Event I) → Prop) : World I (List (Event I)) :=
  recording (fun t e ↦ C.Orderly (C.held t) e ∧
    ∀ r, F (t ++ [⟨e, r⟩]) → C.Novel (C.held t) ⟨e, r⟩) F

section

variable {F : List (Event I) → Prop} {H : Set κ} {t : List (Event I)}

theorem keeps_held : (C.ledger F).Keeps C.Neutral fun t ↦ C.held t = H := by
  intro e t he ht
  refine wp_perform_recording.mpr ⟨⟨⟨fun k hk ↦ ?_, fun k hk ↦ ?_⟩, fun r _ k hk ↦ ?_⟩, fun r _ ↦ ?_⟩
  · rw [he.uses] at hk
    contradiction
  · rw [he.releases] at hk
    contradiction
  · rw [he.acquires] at hk
    contradiction
  · change C.held (t ++ _) = H
    rw [held_concat, step_of_neutral he, ht]

theorem wp_acquire {e : I.Op} {Q : I.Ret e → List (Event I) → Prop} (hrel : C.releases e = none)
    (huse : C.uses e = none) (ht : C.held t = H)
    (hnovel : ∀ r, F (t ++ [⟨e, r⟩]) → ∀ k, C.acquires e r = some k → k ∉ H)
    (hQ : ∀ r t', F t' → C.held t' = {k | C.acquires e r = some k ∨ k ∈ H} →
      (∀ k, C.acquires e r = some k → k ∉ H) → Q r t') :
    (C.ledger F).wp (Prog.perform e) Q t := by
  subst ht
  refine wp_perform_recording.mpr ⟨⟨⟨fun k hk ↦ ?_, fun k hk ↦ ?_⟩, hnovel⟩, fun r hF ↦
    hQ r _ hF ?_ (hnovel r hF)⟩
  · rw [huse] at hk
    contradiction
  · rw [hrel] at hk
    contradiction
  · ext k
    simp [step, hrel]

theorem wp_release {e : I.Op} {k : κ} {Q : I.Ret e → List (Event I) → Prop}
    (hacq : ∀ r, C.acquires e r = none) (hrel : C.releases e = some k)
    (huse : ∀ k, C.uses e = some k → k ∈ H) (ht : C.held t = H) (hk : k ∈ H)
    (hQ : ∀ r t', F t' → C.held t' = {k' | k' ∈ H ∧ k' ≠ k} → Q r t') :
    (C.ledger F).wp (Prog.perform e) Q t := by
  subst ht
  refine wp_perform_recording.mpr ⟨⟨⟨huse, fun k' hk' ↦ ?_⟩, fun r _ k' hk' ↦ ?_⟩, fun r hF ↦
    hQ r _ hF ?_⟩
  · rw [hrel] at hk'
    exact Option.some.inj hk' ▸ hk
  · rw [hacq] at hk'
    contradiction
  · ext k'
    simp [step, hacq, hrel, eq_comm]

theorem wp_use {e : I.Op} {Q : I.Ret e → List (Event I) → Prop}
    (hacq : ∀ r, C.acquires e r = none) (hrel : C.releases e = none)
    (huse : ∀ k, C.uses e = some k → k ∈ H) (ht : C.held t = H)
    (hQ : ∀ r t', F t' → C.held t' = H → Q r t') : (C.ledger F).wp (Prog.perform e) Q t := by
  subst ht
  refine wp_perform_recording.mpr ⟨⟨⟨huse, fun k hk ↦ ?_⟩, fun r _ k hk ↦ ?_⟩, fun r hF ↦
    hQ r _ hF ?_⟩
  · rw [hrel] at hk
    contradiction
  · rw [hacq] at hk
    contradiction
  · ext k
    simp [step, hacq, hrel]

/-- **What a program does in the ledger is in order**, at every moment of its run. -/
theorem kept_of_reaches (hclosed : PrefixClosed F) {p q : Prog I α}
    {Q : α → List (Event I) → Prop} {u : List (Event I)} (h : (C.ledger F).wp p Q t)
    (hreach : p.Reaches u q) (hF : F (t ++ u)) (ht : C.Kept t) : C.Kept (t ++ u) := by
  induction hreach generalizing t with
  | refl p => rwa [List.append_nil]
  | @step e k u q r hreach ih =>
    obtain ⟨⟨horderly, hnovel⟩, hk⟩ := wp_op_recording.mp h
    rw [← List.singleton_append, ← List.append_assoc] at hF ⊢
    have hF₁ : F (t ++ [⟨e, r⟩]) := hclosed _ _ hF
    exact ih (hk r hF₁) hF (ht.concat horderly (hnovel r hF₁))

end

end Custody

end Interaction
