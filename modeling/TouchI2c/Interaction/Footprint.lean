import TouchI2c.Interaction.Simulate
import TouchI2c.Interaction.World

/-!
# Footprints

Which operations a program may perform, whatever it is answered. `within P` is the monitor that only
knows whether an operation is in `P`; a weakest precondition in its world is a footprint together
with the absence of faults and a postcondition.

## The footprint rule

A footprint is proved once for each function, by its syntax, and carried into every world in which
the operations of `P` keep an invariant (`World.wp_of_within`). So an invariant over a run costs one
proof for each kind of operation, not one for each function. Where the postcondition of the
footprint is wanted as well, it comes along: in any world the results are among those of the
footprint (`World.wp_and_within`), and the runs of the program can be asked for their results and
their operations (`Prog.Within.returns`, `Prog.Within.events`).

## Programs over a state

A driver also has a state of its own. `World.wpS` is the weakest precondition of a program over such
a state; a program that does not look at the state, a checked computation and a program over a part
of the state have their own rules.
-/

namespace Interaction

open CMemory

variable {I : Interface} {σ δ α β : Type}

/-! ## Programs within a set of operations -/

/-- The monitor that allows the operations in `P`. -/
def within (P : I.Op → Prop) : Monitor I Unit := ⟨fun _ e ↦ P e, fun _ _ _ ↦ ()⟩

/-- Every operation of `p` is in `P`, `p` does not fault and its results satisfy `Q`. -/
abbrev Prog.Within (P : I.Op → Prop) (p : Prog I α) (Q : α → Prop) : Prop :=
  (within P).world.wp p (fun a _ ↦ Q a) ()

theorem Prog.Within.mono {P P' : I.Op → Prop} {p : Prog I α} {Q : α → Prop} (h : p.Within P Q)
    (hP : ∀ e, P e → P' e) : p.Within P' Q := by
  induction p with
  | pure a => exact h
  | fault f => exact h
  | op e k ih =>
    obtain ⟨hop, hk⟩ := Monitor.wp_op.mp h
    exact Monitor.wp_op.mpr ⟨hP e hop, fun r ↦ ih r (hk r)⟩

/-- **The footprint rule**: what the operations of `P` keep, a program within `P` keeps. -/
theorem World.wp_of_within {W : World I σ} {P : I.Op → Prop} {J : σ → Prop} {p : Prog I α}
    {Q : α → Prop} (h : p.Within P Q) (hdrift : W.Stable J)
    (hop : ∀ s e, J s → P e → W.Allowed s e ∧ ∀ r s', W.answer s e r s' → J s') {s : σ}
    (hs : J s) : W.wp p (fun a s' ↦ Q a ∧ J s') s := by
  induction p generalizing s with
  | pure a => exact ⟨h, hs⟩
  | fault f => exact h.elim
  | op e k ih =>
    obtain ⟨hP, hk⟩ := Monitor.wp_op.mp h
    intro s' hs'
    obtain ⟨hallowed, hanswer⟩ := hop s' e (hdrift s s' hs hs') hP
    exact ⟨hallowed, fun r s'' hr ↦ ih r (hk r) (hanswer r s'' hr)⟩

theorem Monitor.wp_of_within {M : Monitor I σ} {P : I.Op → Prop} {J : σ → Prop} {p : Prog I α}
    {Q : α → Prop} (h : p.Within P Q)
    (hop : ∀ s e, J s → P e → M.Allowed s e ∧ ∀ r, J (M.update s e r)) {s : σ} (hs : J s) :
    M.world.wp p (fun a s' ↦ Q a ∧ J s') s := by
  refine World.wp_of_within h (fun s s' hs hs' ↦ hs' ▸ hs) (fun s e hs he ↦ ?_) hs
  obtain ⟨hallowed, hupdate⟩ := hop s e hs he
  exact ⟨hallowed, fun r s' hs' ↦ hs' ▸ hupdate r⟩

/-- The operations of `P` keep `J`. -/
def World.Keeps (W : World I σ) (P : I.Op → Prop) (J : σ → Prop) : Prop :=
  ∀ e s, P e → J s → W.wp (Prog.perform e) (fun _ s' ↦ J s') s

theorem World.Keeps.mono {W : World I σ} {P P' : I.Op → Prop} {J : σ → Prop} (hJ : W.Keeps P J)
    (hP : ∀ e, P' e → P e) : W.Keeps P' J := fun e s he ↦ hJ e s (hP e he)

theorem World.Keeps.perform {W : World I σ} {P : I.Op → Prop} {J : σ → Prop} (hJ : W.Keeps P J)
    {e : I.Op} {Q : I.Ret e → σ → Prop} {s : σ} (he : P e) (hs : J s) (hQ : ∀ r s', J s' → Q r s') :
    W.wp (Prog.perform e) Q s := World.wp_mono (hJ e s he hs) hQ

/-- A program within operations that keep `J` keeps it. -/
theorem World.Keeps.wp {W : World I σ} {P : I.Op → Prop} {J : σ → Prop} (hJ : W.Keeps P J)
    {p : Prog I α} {Q : α → Prop} (h : p.Within P Q) {s : σ} (hs : J s) :
    W.wp p (fun a s' ↦ Q a ∧ J s') s := by
  induction p generalizing s with
  | pure a => exact ⟨h, hs⟩
  | fault f => exact h.elim
  | op e k ih =>
    obtain ⟨hP, hk⟩ := Monitor.wp_op.mp h
    intro s' hs'
    obtain ⟨hallowed, hanswer⟩ := World.wp_perform.mp (hJ e s hP hs) s' hs'
    exact ⟨hallowed, fun r s'' hr ↦ ih r (hk r) (hanswer r s'' hr)⟩

/-- The results of a program within a set of operations. -/
theorem Prog.Within.returns {P : I.Op → Prop} {p : Prog I α} {Q : α → Prop} {t : List (Event I)}
    {a : α} (h : p.Within P Q) (hret : p.Returns t a) : Q a := Monitor.post_of_wp h hret

/-- What a program within a set of operations performs. -/
theorem Prog.Within.events {P : I.Op → Prop} {p q : Prog I α} {Q : α → Prop} {t : List (Event I)}
    (h : p.Within P Q) (hreach : p.Reaches t q) : ∀ ev ∈ t, P ev.op := by
  induction hreach with
  | refl p =>
    intro ev hev
    contradiction
  | step r hreach ih =>
    obtain ⟨he, hk⟩ := Monitor.wp_op.mp h
    intro ev hev
    rcases List.mem_cons.mp hev with rfl | hev
    · exact he
    · exact ih (hk r) ev hev

/-- A program that does not fault ends in every environment. -/
theorem Prog.Within.simulate {P : I.Op → Prop} {p : Prog I α} {Q : α → Prop} (h : p.Within P Q)
    (env : σ → (e : I.Op) → I.Ret e × σ) (s : σ) : ∃ a, (p.simulate env s).2 = some a := by
  induction p generalizing s with
  | pure a => exact ⟨a, rfl⟩
  | fault f => exact h.elim
  | op e k ih => exact ih (env s e).1 ((h () rfl).2 _ () rfl) (env s e).2

/-- In any world the results of a program within a set of operations are as in that set. -/
theorem World.wp_and_within {W : World I σ} {P : I.Op → Prop} {p : Prog I α} {Q : α → σ → Prop}
    {Q' : α → Prop} {s : σ} (h : W.wp p Q s) (h' : p.Within P Q') :
    W.wp p (fun a s' ↦ Q a s' ∧ Q' a) s := by
  induction p generalizing s with
  | pure a => exact ⟨h, h'⟩
  | fault f => exact h
  | op e k ih =>
    intro s' hs'
    exact ⟨(h s' hs').1, fun r s'' hr ↦ ih r ((h s' hs').2 r s'' hr) ((Monitor.wp_op.mp h').2 r)⟩

/-! ## Programs over a state -/

namespace World

variable {W : World I σ}

/-- The weakest precondition of a program over a state of type `δ`. -/
def wpS (W : World I σ) (p : StateT δ (Prog I) α) (Q : α → δ → σ → Prop) (d : δ) (s : σ) : Prop :=
  W.wp (p.run d) (fun r s' ↦ Q r.1 r.2 s') s

variable {Q Q' : α → δ → σ → Prop} {d : δ} {s : σ}

theorem wpS_mono {p : StateT δ (Prog I) α} (h : W.wpS p Q d s)
    (hQ : ∀ a d' s', Q a d' s' → Q' a d' s') : W.wpS p Q' d s :=
  wp_mono h fun r s' ↦ hQ r.1 r.2 s'

@[simp] theorem wpS_pure {a : α} :
    W.wpS (pure a : StateT δ (Prog I) α) Q d s ↔ Q a d s := Iff.rfl

@[simp] theorem wpS_bind {p : StateT δ (Prog I) β} {f : β → StateT δ (Prog I) α} :
    W.wpS (p >>= f) Q d s ↔ W.wpS p (fun b d' s' ↦ W.wpS (f b) Q d' s') d s := by
  unfold wpS
  rw [StateT.run_bind, wp_bind]

@[simp] theorem wpS_get {Q : δ → δ → σ → Prop} :
    W.wpS (get : StateT δ (Prog I) δ) Q d s ↔ Q d d s := Iff.rfl

@[simp] theorem wpS_set {d' : δ} {Q : PUnit → δ → σ → Prop} :
    W.wpS (set d' : StateT δ (Prog I) PUnit) Q d s ↔ Q ⟨⟩ d' s := Iff.rfl

@[simp] theorem wpS_modify {f : δ → δ} {Q : PUnit → δ → σ → Prop} :
    W.wpS (modify f : StateT δ (Prog I) PUnit) Q d s ↔ Q ⟨⟩ (f d) s := Iff.rfl

@[simp] theorem wpS_lift {p : Prog I α} :
    W.wpS (liftM p : StateT δ (Prog I) α) Q d s ↔ W.wp p (fun a s' ↦ Q a d s') s := by
  unfold wpS
  have hrun : (liftM p : StateT δ (Prog I) α).run d = p >>= fun a ↦ Prog.pure (a, d) := rfl
  rw [hrun, wp_bind]
  rfl

@[simp] theorem wpS_liftChecked {c : Checked α} :
    W.wpS (liftM c : StateT δ (Prog I) α) Q d s ↔ ∃ a, c = .ok a ∧ Q a d s := by
  unfold wpS
  have hrun : (liftM c : StateT δ (Prog I) α).run d
      = Prog.ofChecked c >>= fun a ↦ Prog.pure (a, d) := rfl
  rw [hrun, wp_bind, wp_ofChecked]
  rfl

end World

theorem World.wpS_and {W : World I σ} {p : StateT δ (Prog I) α} {Q Q' : α → δ → σ → Prop} {d : δ}
    {s : σ} (h : W.wpS p Q d s) (h' : W.wpS p Q' d s) :
    W.wpS p (fun a d' s' ↦ Q a d' s' ∧ Q' a d' s') d s := World.wp_and h h'

theorem World.wpS_and_within {W : World I σ} {P : I.Op → Prop} {p : StateT δ (Prog I) α}
    {Q : α → δ → σ → Prop} {Q' : α → δ → Prop} {d : δ} {s : σ} (h : W.wpS p Q d s)
    (h' : (within P).world.wpS p (fun a d' _ ↦ Q' a d') d ()) :
    W.wpS p (fun a d' s' ↦ Q a d' s' ∧ Q' a d') d s :=
  @World.wp_and_within I σ (α × δ) W P (p.run d) (fun r s' ↦ Q r.1 r.2 s')
    (fun r ↦ Q' r.1 r.2) s h h'

/-- A program over a state, within operations that keep `J`. -/
theorem World.Keeps.wpS {W : World I σ} {P : I.Op → Prop} {J : σ → Prop} (hJ : W.Keeps P J)
    {p : StateT δ (Prog I) α} {Q : α → δ → Prop} {d : δ} {s : σ}
    (h : (within P).world.wpS p (fun a d' _ ↦ Q a d') d ()) (hs : J s) :
    W.wpS p (fun a d' s' ↦ Q a d' ∧ J s') d s :=
  @World.Keeps.wp I σ (α × δ) W P J hJ (p.run d) (fun r ↦ Q r.1 r.2) h s hs

/-- The result of a program over a state satisfies the postcondition. -/
theorem World.returns_of_wpS {W : World I σ} {p : StateT δ (Prog I) α} {Q : α → δ → σ → Prop}
    {d d' : δ} {s s' : σ} {a : α} {t : List (Event I)} (h : W.wpS p Q d s)
    (hret : (p.run d).Returns t (a, d')) (hpath : W.Path s t s') : Q a d' s' :=
  World.wp_returns (p := p.run d) (Q := fun r s' ↦ Q r.1 r.2 s') h hret hpath

theorem Monitor.post_of_wpS {M : Monitor I σ} {p : StateT δ (Prog I) α} {Q : α → δ → σ → Prop}
    {d d' : δ} {s : σ} {a : α} {t : List (Event I)} (h : M.world.wpS p Q d s)
    (hret : (p.run d).Returns t (a, d')) : Q a d' (M.after s t) :=
  World.returns_of_wpS h hret (Monitor.path_after s t)

end Interaction
