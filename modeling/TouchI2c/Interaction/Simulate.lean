import TouchI2c.Interaction.World

/-!
# Running a program against an environment

An executable environment has a state and answers every operation. `simulate` runs a program in it
and returns the trace, so that a run can be exhibited by evaluation.

What the simulation returns is a run, what it performs is performed, and in a world that allows the
answers of the environment it is a path. So a statement that starts with "there is a run" is proved
by an environment and a computation; nothing else is said about the environment, which is free to
answer in a way that no other lemma knows of.
-/

namespace Interaction

open CMemory

variable {I : Interface} {σ α : Type}

/-- The trace of a program in an environment, and the result unless the program faults. -/
def Prog.simulate (env : σ → (e : I.Op) → I.Ret e × σ) : Prog I α → σ → List (Event I) × Option α
  | .pure a, _ => ([], some a)
  | .fault _, _ => ([], none)
  | .op e k, s =>
    let r := env s e
    let rest := simulate env (k r.1) r.2
    (⟨e, r.1⟩ :: rest.1, rest.2)

/-- What the simulation returns is a run. -/
theorem Prog.returns_simulate {env : σ → (e : I.Op) → I.Ret e × σ} {p : Prog I α} {s : σ} {a : α}
    (h : (p.simulate env s).2 = some a) : p.Returns (p.simulate env s).1 a := by
  induction p generalizing s with
  | pure b =>
    cases h
    exact .refl _
  | fault f => contradiction
  | op e k ih => exact .step _ (ih _ h)

/-- The state in which a trace leaves an environment. -/
def replay (env : σ → (e : I.Op) → I.Ret e × σ) : List (Event I) → σ → σ
  | [], s => s
  | ev :: t, s => replay env t (env s ev.op).2

/-- In a world that allows its answers the simulation is a path. -/
theorem Prog.path_simulate {W : World I σ} {env : σ → (e : I.Op) → I.Ret e × σ}
    (hdrift : ∀ s, W.drift s s) (henv : ∀ s e, W.answer s e (env s e).1 (env s e).2)
    (p : Prog I α) (s : σ) : W.Path s (p.simulate env s).1 (replay env (p.simulate env s).1 s) := by
  induction p generalizing s with
  | pure a => exact .nil s
  | fault f => exact .nil s
  | op e k ih => exact .cons (hdrift s) (henv s e) (ih _ _)

theorem Prog.performs_simulate {env : σ → (e : I.Op) → I.Ret e × σ} {p : Prog I α} {s : σ}
    {n : ℕ} {ev : Event I} (h : (p.simulate env s).1[n]? = some ev) :
    p.Performs ((p.simulate env s).1.take n) ev.op := by
  induction p generalizing s n with
  | pure a => exact absurd h (by simp [Prog.simulate])
  | fault f => exact absurd h (by simp [Prog.simulate])
  | op e k ih =>
    cases n with
    | zero =>
      obtain rfl : (⟨e, (env s e).1⟩ : Event I) = ev := Option.some.inj h
      exact ⟨k, .refl _⟩
    | succ n =>
      obtain ⟨k', hk'⟩ := ih (env s e).1 h
      exact ⟨k', .step _ hk'⟩

/-- What every answer of the environment satisfies holds of the trace. -/
theorem Prog.forall_simulate {env : σ → (e : I.Op) → I.Ret e × σ} {P : Event I → Prop}
    {J : σ → Prop} (hstep : ∀ s e, J s → P ⟨e, (env s e).1⟩ ∧ J (env s e).2) {p : Prog I α} {s : σ}
    (hs : J s) : ∀ ev ∈ (p.simulate env s).1, P ev := by
  induction p generalizing s with
  | pure a => exact fun _ hev ↦ absurd hev List.not_mem_nil
  | fault f => exact fun _ hev ↦ absurd hev List.not_mem_nil
  | op e k ih =>
    obtain ⟨hP, hJ⟩ := hstep s e hs
    intro ev hev
    obtain rfl | hev := List.mem_cons.mp hev
    · exact hP
    · exact ih _ hJ ev hev

/-- The state that a program over a state leaves in an environment, or the one it started from if
it faults. -/
def Prog.stateAfter {δ : Type} (env : σ → (e : I.Op) → I.Ret e × σ) (p : StateT δ (Prog I) α)
    (s : σ) (d : δ) : δ :=
  (((p.run d).simulate env s).2.map Prod.snd).getD d

end Interaction
