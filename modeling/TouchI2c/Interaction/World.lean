import Mathlib.Logic.Relation
import TouchI2c.Interaction.Prog

/-!
# What a program does in a world

A world is a model of the environment: a state that may drift on its own between two operations of
the program, and that answers each operation. It also says which operations are allowed in which
state. `World.wp` is the weakest precondition of a program in a world: every operation on the way is
allowed, the program does not fault, and a result satisfies the postcondition.

## Soundness

`World.wp_sound` connects it with the traces of the program: after any part of a run the rest of the
program still has its precondition. So what has a weakest precondition is allowed at every moment of
every run (`wp_allowed`), and a result satisfies the postcondition (`wp_returns`).

The drift is what makes a device that works while the driver does something else: a property that is
to survive between two operations has to be stable under it, and `wp_op_of_stable` is the rule of
one operation that asks for exactly that.

## Loops

`wp_iterate` asks for an invariant that the body keeps while a measure goes down; the bound of the
loop is then never reached, and needs no argument of its own.

## Monitors

A world whose state is computed from the history alone is a `Monitor`; it constrains the program and
not the environment. Every trace of a program with a weakest precondition there is accepted.
-/

namespace Interaction

open CMemory

/-- A model of the environment of a program, with the operations that are allowed. -/
structure World (I : Interface) (σ : Type) where
  drift : σ → σ → Prop
  Allowed : σ → I.Op → Prop
  answer : σ → (e : I.Op) → I.Ret e → σ → Prop

namespace World

variable {I : Interface} {σ α β : Type} (W : World I σ)

/-- The weakest precondition for the postcondition `Q`. -/
def wp : Prog I α → (α → σ → Prop) → σ → Prop
  | .pure a, Q, s => Q a s
  | .fault _, _, _ => False
  | .op e k, Q, s => ∀ s', W.drift s s' → W.Allowed s' e ∧
      ∀ r s'', W.answer s' e r s'' → wp (k r) Q s''

variable {W}

@[simp] theorem wp_pure {a : α} {Q : α → σ → Prop} {s : σ} :
    W.wp (.pure a) Q s ↔ Q a s := Iff.rfl

@[simp] theorem wp_fault {f : Fault} {Q : α → σ → Prop} {s : σ} :
    W.wp (.fault f : Prog I α) Q s ↔ False := Iff.rfl

theorem wp_op {e : I.Op} {k : I.Ret e → Prog I α} {Q : α → σ → Prop} {s : σ} :
    W.wp (.op e k) Q s ↔ ∀ s', W.drift s s' → W.Allowed s' e ∧
      ∀ r s'', W.answer s' e r s'' → W.wp (k r) Q s'' := Iff.rfl

theorem wp_perform {e : I.Op} {Q : I.Ret e → σ → Prop} {s : σ} :
    W.wp (Prog.perform e) Q s ↔ ∀ s', W.drift s s' → W.Allowed s' e ∧
      ∀ r s'', W.answer s' e r s'' → Q r s'' := Iff.rfl

theorem wp_mono {p : Prog I α} {Q Q' : α → σ → Prop} {s : σ} (h : W.wp p Q s)
    (hQ : ∀ a s', Q a s' → Q' a s') : W.wp p Q' s := by
  induction p generalizing s with
  | pure a => exact hQ a s h
  | fault f => exact h
  | op e k ih => exact fun s' hs' ↦ ⟨(h s' hs').1, fun r s'' hs'' ↦ ih r ((h s' hs').2 r s'' hs'')⟩

@[simp] theorem wp_bind {p : Prog I α} {f : α → Prog I β} {Q : β → σ → Prop}
    {s : σ} : W.wp (p >>= f) Q s ↔ W.wp p (fun a ↦ W.wp (f a) Q) s := by
  induction p generalizing s with
  | pure a => rfl
  | fault e => rfl
  | op e k ih => simp only [Prog.op_bind, wp_op, ih]

theorem wp_ofChecked {c : Checked α} {Q : α → σ → Prop} {s : σ} :
    W.wp (Prog.ofChecked c) Q s ↔ ∃ a, c = .ok a ∧ Q a s := by
  cases c with
  | error f => simp [Prog.ofChecked]
  | ok a => simp [Prog.ofChecked]

theorem wp_liftChecked {c : Checked α} {Q : α → σ → Prop} {s : σ} :
    W.wp (liftM c : Prog I α) Q s ↔ ∃ a, c = .ok a ∧ Q a s := wp_ofChecked

theorem wp_and {p : Prog I α} {Q Q' : α → σ → Prop} {s : σ} (h : W.wp p Q s)
    (h' : W.wp p Q' s) : W.wp p (fun a s' ↦ Q a s' ∧ Q' a s') s := by
  induction p generalizing s with
  | pure a => exact ⟨h, h'⟩
  | fault f => exact h
  | op e k ih =>
    exact fun s' hs' ↦ ⟨(h s' hs').1, fun r s'' hs'' ↦
      ih r ((h s' hs').2 r s'' hs'') ((h' s' hs').2 r s'' hs'')⟩

/-- **The loop rule**: an invariant that the body keeps while a measure goes down. The bound of
the loop is never reached. -/
theorem wp_iterate {body : α → Prog I (α ⊕ β)} {Q : β → σ → Prop}
    (inv : α → σ → Prop) (measure : α → ℕ)
    (hbody : ∀ a s, inv a s →
      W.wp (body a) (Sum.elim (fun a' s' ↦ inv a' s' ∧ measure a' < measure a) Q) s)
    {n : ℕ} {a : α} {s : σ} (hinv : inv a s) (hn : measure a < n) :
    W.wp (Prog.iterate body n a) Q s := by
  induction n generalizing a s with
  | zero => omega
  | succ n ih =>
    rw [Prog.iterate, wp_bind]
    refine wp_mono (hbody a s hinv) fun r s' hr ↦ ?_
    cases r with
    | inl a' =>
      obtain ⟨hinv', hlt⟩ := hr
      exact ih hinv' (by omega)
    | inr b => exact hr

/-! ## Soundness -/

/-- A trace that takes the world from one state to another. -/
inductive Path (W : World I σ) : σ → List (Event I) → σ → Prop
  | nil (s : σ) : Path W s [] s
  | cons {s s' s'' s₃ : σ} {e : I.Op} {r : I.Ret e} {t : List (Event I)}
      (hdrift : W.drift s s') (hanswer : W.answer s' e r s'') (h : Path W s'' t s₃) :
      Path W s (⟨e, r⟩ :: t) s₃

/-- **Soundness**: after any part of a run the rest of the program has the precondition. -/
theorem wp_sound {p q : Prog I α} {Q : α → σ → Prop} {s s' : σ}
    {t : List (Event I)} (h : W.wp p Q s) (hreach : p.Reaches t q) (hpath : W.Path s t s') :
    W.wp q Q s' := by
  induction hreach generalizing s with
  | refl p => cases hpath; exact h
  | step r hreach ih =>
    cases hpath with
    | cons hdrift hanswer hpath => exact ih ((h _ hdrift).2 r _ hanswer) hpath

theorem wp_returns {p : Prog I α} {Q : α → σ → Prop} {s s' : σ} {a : α}
    {t : List (Event I)} (h : W.wp p Q s) (hret : p.Returns t a) (hpath : W.Path s t s') :
    Q a s' :=
  wp_sound h hret hpath

theorem wp_allowed {p : Prog I α} {Q : α → σ → Prop} {s s' s'' : σ} {e : I.Op}
    {k : I.Ret e → Prog I α} {t : List (Event I)} (h : W.wp p Q s)
    (hreach : p.Reaches t (.op e k)) (hpath : W.Path s t s') (hdrift : W.drift s' s'') :
    W.Allowed s'' e :=
  (wp_sound h hreach hpath s'' hdrift).1

/-- The same environment with other obligations. -/
def restrict (W : World I σ) (A : σ → I.Op → Prop) : World I σ := { W with Allowed := A }

/-- A trace does not depend on what is allowed. -/
theorem path_restrict {A : σ → I.Op → Prop} {s s' : σ} {t : List (Event I)} :
    (W.restrict A).Path s t s' ↔ W.Path s t s' := by
  constructor <;> intro h
  · induction h with
    | nil s => exact .nil s
    | cons hdrift hanswer _ ih => exact .cons hdrift hanswer ih
  · induction h with
    | nil s => exact .nil s
    | cons hdrift hanswer _ ih => exact .cons hdrift hanswer ih

theorem path_append {s s' : σ} {t t' : List (Event I)} :
    W.Path s (t ++ t') s' ↔ ∃ s₁, W.Path s t s₁ ∧ W.Path s₁ t' s' := by
  constructor
  · intro h
    induction t generalizing s with
    | nil => exact ⟨s, .nil s, h⟩
    | cons ev t ih =>
      cases h with
      | cons hdrift hanswer h =>
        obtain ⟨s₁, h₁, h₂⟩ := ih h
        exact ⟨s₁, .cons hdrift hanswer h₁, h₂⟩
  · rintro ⟨s₁, h₁, h₂⟩
    induction h₁ with
    | nil s => exact h₂
    | cons hdrift hanswer _ ih => exact .cons hdrift hanswer (ih h₂)

/-- What the drift of a world keeps. -/
def Stable (W : World I σ) (P : σ → Prop) : Prop := ∀ s s', P s → W.drift s s' → P s'

/-- The rule of one operation under a stable property. -/
theorem wp_op_of_stable {P : σ → Prop} (hstable : W.Stable P) {e : I.Op}
    {k : I.Ret e → Prog I α} {Q : α → σ → Prop} {s : σ} (hs : P s)
    (hallowed : ∀ s, P s → W.Allowed s e)
    (h : ∀ s' r s'', P s' → W.answer s' e r s'' → W.wp (k r) Q s'') : W.wp (.op e k) Q s :=
  fun s' hdrift ↦ ⟨hallowed s' (hstable s s' hs hdrift), fun r s'' hanswer ↦
    h s' r s'' (hstable s s' hs hdrift) hanswer⟩

/-! ## Runs -/

/-- A complete run of a program in a world. -/
def Runs (W : World I σ) (p : Prog I α) (s : σ) (a : α) (s' : σ) : Prop :=
  ∃ t, p.Returns t a ∧ W.Path s t s'

theorem runs_pure (a : α) (s : σ) : W.Runs (.pure a) s a s := ⟨[], .refl _, .nil s⟩

theorem Runs.bind {p : Prog I α} {f : α → Prog I β} {s s₁ s' : σ} {a : α} {b : β}
    (h : W.Runs p s a s₁) (h' : W.Runs (f a) s₁ b s') : W.Runs (p >>= f) s b s' := by
  obtain ⟨t, hret, hpath⟩ := h
  obtain ⟨t', hret', hpath'⟩ := h'
  exact ⟨t ++ t', Prog.returns_bind.mpr ⟨t, t', a, rfl, hret, hret'⟩,
    path_append.mpr ⟨s₁, hpath, hpath'⟩⟩

theorem runs_perform {e : I.Op} {r : I.Ret e} {s s₁ s' : σ} (hdrift : W.drift s s₁)
    (hanswer : W.answer s₁ e r s') : W.Runs (Prog.perform e) s r s' :=
  ⟨[⟨e, r⟩], .step r (.refl _), .cons hdrift hanswer (.nil s')⟩

theorem Runs.iterate {body : α → Prog I (α ⊕ β)} {s s₁ s' : σ} {a a' : α} {b : β} {n : ℕ}
    (h : W.Runs (body a) s (.inl a') s₁) (h' : W.Runs (Prog.iterate body n a') s₁ b s') :
    W.Runs (Prog.iterate body (n + 1) a) s b s' := Runs.bind h h'

theorem Runs.iterate_inr {body : α → Prog I (α ⊕ β)} {s s' : σ} {a : α} {b : β}
    (h : W.Runs (body a) s (.inr b) s') (n : ℕ) : W.Runs (Prog.iterate body (n + 1) a) s b s' :=
  Runs.bind h (runs_pure b s')

/-- Every operation gets an answer, from which `J` holds again. -/
def Live (W : World I σ) (J : σ → Prop) : Prop :=
  ∀ s e, J s → ∃ s' r s'', W.drift s s' ∧ W.answer s' e r s'' ∧ J s''

/-- A program that does not fault has a run where every operation gets an answer. -/
theorem exists_runs {J : σ → Prop} (hlive : W.Live J) {p : Prog I α} {Q : α → σ → Prop} {s : σ}
    (h : W.wp p Q s) (hs : J s) : ∃ a s', W.Runs p s a s' := by
  induction p generalizing s with
  | pure a => exact ⟨a, s, runs_pure a s⟩
  | fault f => exact h.elim
  | op e k ih =>
    obtain ⟨s₁, r, s₂, hdrift, hanswer, hs₂⟩ := hlive s e hs
    obtain ⟨a, s', t, hret, hpath⟩ := ih r ((h s₁ hdrift).2 r s₂ hanswer) hs₂
    exact ⟨a, s', _, .step r hret, .cons hdrift hanswer hpath⟩

/-- A program has a run in `V` if everything it may do in `W` is answered there and in `V`. -/
theorem exists_runs_in {V : World I σ} {J : σ → Prop} (hW : ∀ s, W.drift s s)
    (hV : ∀ s, V.drift s s)
    (hstep : ∀ s e, J s → W.Allowed s e → ∃ r s', W.answer s e r s' ∧ V.answer s e r s' ∧ J s')
    {p : Prog I α} {Q : α → σ → Prop} {s : σ} (h : W.wp p Q s) (hs : J s) :
    ∃ a s', V.Runs p s a s' ∧ Q a s' := by
  induction p generalizing s with
  | pure a => exact ⟨a, s, runs_pure a s, h⟩
  | fault f => exact h.elim
  | op e k ih =>
    obtain ⟨hallowed, hanswers⟩ := h s (hW s)
    obtain ⟨r, s₁, hw, hv, hs₁⟩ := hstep s e hs hallowed
    obtain ⟨a, s', ⟨t, hret, hpath⟩, hQ⟩ := ih r (hanswers r s₁ hw) hs₁
    exact ⟨a, s', ⟨_, .step r hret, .cons (hV s) hv hpath⟩, hQ⟩

/-- A world whose moves are moves of another has its traces. -/
theorem Path.mono {V : World I σ} {s s' : σ} {t : List (Event I)} (h : W.Path s t s')
    (hdrift : ∀ s s', W.drift s s' → V.drift s s')
    (hanswer : ∀ s e r s', W.answer s e r s' → V.answer s e r s') : V.Path s t s' := by
  induction h with
  | nil s => exact .nil s
  | cons hd ha _ ih => exact .cons (hdrift _ _ hd) (hanswer _ _ _ _ ha) ih

end World

/-! ## Monitors -/

/-- A summary of the history of a run and the operations that are allowed after it. -/
structure Monitor (I : Interface) (σ : Type) where
  Allowed : σ → I.Op → Prop
  update : σ → (e : I.Op) → I.Ret e → σ

namespace Monitor

variable {I : Interface} {σ α β : Type}

/-- The world of a monitor: the environment may answer as it likes. -/
def world (M : Monitor I σ) : World I σ where
  drift s s' := s' = s
  Allowed := M.Allowed
  answer s e r s' := s' = M.update s e r

variable (M : Monitor I σ)

/-- The state of the monitor after a trace. -/
def after (s : σ) (t : List (Event I)) : σ :=
  t.foldl (fun s ev ↦ M.update s ev.op ev.ret) s

variable {M}

theorem path_after (s : σ) (t : List (Event I)) : M.world.Path s t (M.after s t) := by
  induction t generalizing s with
  | nil => exact .nil _
  | cons ev t ih => exact .cons rfl rfl (ih _)

@[simp] theorem wp_op {e : I.Op} {k : I.Ret e → Prog I α} {Q : α → σ → Prop}
    {s : σ} : M.world.wp (.op e k) Q s ↔
      M.Allowed s e ∧ ∀ r, M.world.wp (k r) Q (M.update s e r) := by
  constructor
  · exact fun h ↦ ⟨(h s rfl).1, fun r ↦ (h s rfl).2 r _ rfl⟩
  · rintro ⟨hallowed, hk⟩ s' rfl
    exact ⟨hallowed, fun r s'' hs'' ↦ hs'' ▸ hk r⟩

@[simp] theorem wp_perform {e : I.Op} {Q : I.Ret e → σ → Prop} {s : σ} :
    M.world.wp (Prog.perform e) Q s ↔ M.Allowed s e ∧ ∀ r, Q r (M.update s e r) := wp_op

/-- A trace all of whose operations are allowed. -/
def Accepts (M : Monitor I σ) (s : σ) (t : List (Event I)) : Prop :=
  ∀ t₁ ev t₂, t = t₁ ++ ev :: t₂ → M.Allowed (M.after s t₁) ev.op

/-- **Soundness for monitors**: every trace of the program is accepted. -/
theorem accepts_of_wp {p q : Prog I α} {Q : α → σ → Prop} {s : σ}
    {t : List (Event I)} (h : M.world.wp p Q s) (hreach : p.Reaches t q) : M.Accepts s t := by
  induction hreach generalizing s with
  | refl p => intro t₁ ev t₂ heq; simp at heq
  | @step e k t q r hreach ih =>
    obtain ⟨hallowed, hk⟩ := wp_op.mp h
    intro t₁ ev t₂ heq
    cases t₁ with
    | nil => cases heq; exact hallowed
    | cons ev' t₁ => cases heq; exact ih (hk r) t₁ ev t₂ rfl

/-- What every allowed operation keeps holds after an accepted trace. -/
theorem invariant_of_accepts {P : σ → Prop}
    (hstep : ∀ s e r, P s → M.Allowed s e → P (M.update s e r)) {s : σ} {t : List (Event I)}
    (h : M.Accepts s t) (hs : P s) : P (M.after s t) := by
  induction t generalizing s with
  | nil => exact hs
  | cons ev t ih =>
    refine ih (fun t₁ ev' t₂ heq ↦ ?_) (hstep s ev.op ev.ret hs (h [] ev t rfl))
    exact h (ev :: t₁) ev' t₂ (by rw [heq, List.cons_append])

theorem post_of_wp {p : Prog I α} {Q : α → σ → Prop} {s : σ} {a : α}
    {t : List (Event I)} (h : M.world.wp p Q s) (hret : p.Returns t a) : Q a (M.after s t) :=
  World.wp_returns h hret (path_after s t)

end Monitor

end Interaction
