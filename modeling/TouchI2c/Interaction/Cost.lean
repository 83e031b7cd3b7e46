import TouchI2c.Interaction.Footprint

/-!
# What a run costs

`metering cost` is the monitor that adds up what the operations of a run cost, and allows all of
them. A bound on the cost of a program is a weakest precondition there, `s' ≤ s + k`, so bounds
compose by the rules for programs and loops, and a program none of whose operations costs anything
costs nothing (`wp_metering_of_within`).

What a complete run cannot exceed, a run that is still going on has not exceeded either: a program
that does not fault can be continued from wherever it stands (`wp_returned`), and costs only add up.
So one bound on complete runs holds at every moment (`costOf_le_of_reaches`).
-/

namespace Interaction

variable {I : Interface} {α : Type} {cost : I.Op → ℕ}

/-- What a trace costs. -/
def costOf (cost : I.Op → ℕ) : List (Event I) → ℕ
  | [] => 0
  | ev :: t => cost ev.op + costOf cost t

/-- The monitor that adds up what has been spent. -/
def metering (cost : I.Op → ℕ) : Monitor I ℕ := ⟨fun _ _ ↦ True, fun s e _ ↦ s + cost e⟩

theorem after_metering (s : ℕ) (t : List (Event I)) :
    (metering cost).after s t = s + costOf cost t := by
  induction t generalizing s with
  | nil => rfl
  | cons ev t ih =>
    change (metering cost).after (s + cost ev.op) t = _
    rw [ih, costOf, Nat.add_assoc]

theorem wp_op_metering {e : I.Op} {k : I.Ret e → Prog I α} {Q : α → ℕ → Prop} {s : ℕ} :
    (metering cost).world.wp (.op e k) Q s ↔
      ∀ r, (metering cost).world.wp (k r) Q (s + cost e) :=
  Monitor.wp_op.trans ⟨And.right, fun h ↦ ⟨trivial, h⟩⟩

theorem wp_perform_metering {e : I.Op} {Q : I.Ret e → ℕ → Prop} {s : ℕ} :
    (metering cost).world.wp (.op e .pure) Q s ↔ ∀ r, Q r (s + cost e) := wp_op_metering

/-- A program whose operations cost nothing. -/
theorem wp_metering_of_within {P : I.Op → Prop} {p : Prog I α} {Q : α → Prop} (h : p.Within P Q)
    (hfree : ∀ e, P e → cost e = 0) (s : ℕ) :
    (metering cost).world.wp p (fun a s' ↦ Q a ∧ s' = s) s := by
  have hkeeps : (metering cost).world.Keeps P (· = s) := by
    rintro e s' he rfl
    refine wp_perform_metering.mpr fun r ↦ ?_
    rw [hfree e he, Nat.add_zero]
  exact hkeeps.wp h rfl

/-- The result of a program comes from one of its runs. -/
theorem wp_returned {σ : Type} {W : World I σ} {p : Prog I α} {Q : α → σ → Prop} {s : σ}
    (h : W.wp p Q s) : W.wp p (fun a s' ↦ Q a s' ∧ ∃ t, p.Returns t a) s := by
  induction p generalizing s with
  | pure a => exact ⟨h, [], .refl _⟩
  | fault f => exact h
  | op e k ih =>
    intro s₁ hdrift
    obtain ⟨hallowed, hk⟩ := h s₁ hdrift
    refine ⟨hallowed, fun r s₂ hanswer ↦ World.wp_mono (ih r (hk r s₂ hanswer)) fun a s' h' ↦ ?_⟩
    obtain ⟨hQ, t, hret⟩ := h'
    exact ⟨hQ, ⟨e, r⟩ :: t, .step r hret⟩

theorem costOf_of_returns {p : Prog I α} {Q : α → ℕ → Prop} {s : ℕ} {t : List (Event I)} {a : α}
    (h : (metering cost).world.wp p Q s) (hret : p.Returns t a) : Q a (s + costOf cost t) := by
  rw [← after_metering]
  exact Monitor.post_of_wp h hret

theorem costOf_le_of_reaches [∀ e, Nonempty (I.Ret e)] {p q : Prog I α} {s k : ℕ}
    {t : List (Event I)} (h : (metering cost).world.wp p (fun _ s' ↦ s' ≤ k) s)
    (hreach : p.Reaches t q) : s + costOf cost t ≤ k := by
  have hrest := World.wp_sound h hreach ((metering cost).path_after s t)
  -- whatever is left to do can be done
  have hlive : (metering cost).world.Live fun _ ↦ True := fun s e _ ↦
    ⟨s, Classical.arbitrary _, _, rfl, rfl, trivial⟩
  obtain ⟨a, s', t', hret, hpath⟩ := World.exists_runs hlive hrest trivial
  have hle := costOf_of_returns hrest hret
  rw [after_metering] at hle
  omega

end Interaction
