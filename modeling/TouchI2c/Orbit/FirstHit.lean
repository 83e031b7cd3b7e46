import Mathlib.Data.Finset.Card
import Mathlib.Data.Nat.Find
import Mathlib.Logic.Function.Iterate

/-!
# The first hit of an orbit

A walk `x, f x, f (f x), …` that stays in a finite set until it first meets a property meets it
within as many points as the set has.

This is the pigeonhole principle read on the walk: if two points before the first hit were equal,
the walk would go round between them for ever, and would never hit. So the points before the first
hit are distinct, and there are at most as many as the set has elements (`FirstHit.lt_card`). The
bound is exact: a walk through all points of the set hits with the last one.
-/

namespace Orbit

variable {α : Type*} {f : α → α} {p : α → Prop} {x : α} {n : ℕ}

/-- The point `n` steps from `x` is the first with the property `p`. -/
structure FirstHit (f : α → α) (p : α → Prop) (x : α) (n : ℕ) : Prop where
  hit : p (f^[n] x)
  before : ∀ m < n, ¬p (f^[m] x)

theorem exists_firstHit {k : ℕ} (h : p (f^[k] x)) : ∃ n ≤ k, FirstHit f p x n := by
  classical
  have hex : ∃ m, p (f^[m] x) := ⟨k, h⟩
  exact ⟨Nat.find hex, Nat.find_min' hex h, Nat.find_spec hex, fun m hm ↦ Nat.find_min hex hm⟩

theorem firstHit_succ : FirstHit f p x (n + 1) ↔ ¬p x ∧ FirstHit f p (f x) n := by
  constructor
  · intro h
    refine ⟨h.before 0 n.succ_pos, h.hit, fun m hm ↦ ?_⟩
    exact h.before (m + 1) (Nat.succ_lt_succ hm)
  · rintro ⟨hx, h⟩
    refine ⟨h.hit, fun m hm ↦ ?_⟩
    cases m with
    | zero => exact hx
    | succ m => exact h.before m (Nat.lt_of_succ_lt_succ hm)

theorem FirstHit.unique {m : ℕ} (h : FirstHit f p x n) (h' : FirstHit f p x m) : n = m := by
  rcases Nat.lt_trichotomy n m with hlt | heq | hlt
  · exact absurd h.hit (h'.before n hlt)
  · exact heq
  · exact absurd h'.hit (h.before m hlt)

/-- **Pigeonhole**: the walk up to the first hit never visits a point twice. -/
theorem FirstHit.lt_card {s : Finset α} (h : FirstHit f p x n) (hs : ∀ m ≤ n, f^[m] x ∈ s) :
    n < s.card := by
  by_contra hcard
  have hlt : s.card < (Finset.range (n + 1)).card := by rw [Finset.card_range]; omega
  have hmaps : Set.MapsTo (fun m ↦ f^[m] x) (Finset.range (n + 1)) s := by
    intro m hm
    exact hs m (Nat.le_of_lt_succ (Finset.mem_range.mp hm))
  obtain ⟨i, hi, j, hj, hne, heq⟩ := Finset.exists_ne_map_eq_of_card_lt_of_maps_to hlt hmaps
  -- the steps from the later visit to the hit lead from the earlier one to an earlier hit
  have hback : ∀ {i j : ℕ}, i < j → j ≤ n → f^[i] x = f^[j] x → False := by
    intro i j hij hjn heq
    have hhit : f^[n - j + i] x = f^[n] x := by
      rw [Function.iterate_add_apply, heq, ← Function.iterate_add_apply, Nat.sub_add_cancel hjn]
    apply h.before (n - j + i) (by omega)
    rw [hhit]
    exact h.hit
  rw [Finset.mem_range] at hi hj
  rcases Nat.lt_or_gt_of_ne hne with hij | hij
  · exact hback hij (by omega) heq
  · exact hback hij (by omega) heq.symm

end Orbit
