import TouchI2c.Interaction.Footprint

/-!
# Histories

`history` is the monitor that remembers everything. In its world a weakest precondition speaks of
the whole trace, and of the part of it that a program has added: a run of that program.

That is what is needed when the specification of a program is itself a statement about runs. A
program that does not fault has the postcondition that its runs have (`wp_of_returns`), so a result
can be described by the part of the trace it came from.
-/

namespace Interaction

variable {I : Interface} {σ δ α : Type} {M : Monitor I σ}

/-- The monitor that remembers the whole trace. -/
def history : Monitor I (List (Event I)) := ⟨fun _ _ ↦ True, fun s e r ↦ s ++ [⟨e, r⟩]⟩

namespace Monitor

theorem after_append (s : σ) (t t' : List (Event I)) :
    M.after s (t ++ t') = M.after (M.after s t) t' := List.foldl_append

/-- A program that does not fault has the postcondition that its runs have. -/
theorem wp_of_returns {P : I.Op → Prop} {p : Prog I α} {Q : α → σ → Prop} {s : σ}
    (h : p.Within P fun _ ↦ True) (hP : ∀ s e, P e → M.Allowed s e)
    (hQ : ∀ t a, p.Returns t a → Q a (M.after s t)) : M.world.wp p Q s := by
  induction p generalizing s with
  | pure a => exact hQ [] a (.refl _)
  | fault f => exact h.elim
  | op e k ih =>
    obtain ⟨he, hk⟩ := wp_op.mp h
    exact wp_op.mpr ⟨hP s e he, fun r ↦ ih r (hk r) fun t a hret ↦ hQ (⟨e, r⟩ :: t) a (.step r hret)⟩

end Monitor

theorem history_after (s t : List (Event I)) : history.after s t = s ++ t := by
  induction t generalizing s with
  | nil => exact (List.append_nil s).symm
  | cons ev t ih =>
    refine (ih (s ++ [ev])).trans ?_
    rw [List.append_assoc, List.singleton_append]

/-- What a program within a set of operations adds to the history. -/
theorem Prog.Within.history {P : I.Op → Prop} {p : Prog I α} {Q : α → Prop} (h : p.Within P Q)
    {s : List (Event I)} : history.world.wp p
      (fun a s' ↦ Q a ∧ ∃ t, s' = s ++ t ∧ p.Returns t a) s := by
  refine Monitor.wp_of_returns (World.wp_mono h fun _ _ _ ↦ trivial) (fun _ _ _ ↦ trivial)
    fun t a hret ↦ ⟨h.returns hret, t, history_after s t, hret⟩

theorem wpS_history {P : I.Op → Prop} {p : StateT δ (Prog I) α} {Q : α → δ → Prop} {d : δ}
    (h : (within P).world.wpS p (fun a d' _ ↦ Q a d') d ()) {s : List (Event I)} :
    history.world.wpS p
      (fun a d' s' ↦ Q a d' ∧ ∃ t, s' = s ++ t ∧ (p.run d).Returns t (a, d')) d s :=
  @Prog.Within.history I (α × δ) P (p.run d) (fun r ↦ Q r.1 r.2) h s

end Interaction
