import TouchI2c.CMemory.Checked

/-!
# Programs that interact with their environment

A driver does nothing by itself: it reads and writes registers and calls services, and what comes
back is up to the hardware and the firmware. `Prog I α` is such a program as a tree: it ends with a
result, faults, or performs an operation of the interface `I` and continues with the answer.

## Traces instead of environments

`Reaches p t q` says that `p` performs the operations of the trace `t`, is given the answers in it
and is left with `q`. Every answer the environment could give has its trace, so a statement about
all traces is a statement about every environment, and one about all prefixes is a statement about
every moment of a run. No environment is ever part of a statement.

`Returns`, `Performs` and `PerformsAfter` are the three ways of stopping: with a result, in front of
an operation, and in front of one behind a first part whose events are known. A sequence runs as its
first program and then the second one (`returns_bind`), and a program does not act differently on
the same answers: of two runs one of whose traces extends the other's, the first to return ends both
(`Returns.unique`).

Loops are bounded recursions over the tree (`iterate`), so that every program is a finite object.
-/

namespace Interaction

open CMemory

/-- The operations a program may perform, each with the type of its answer. -/
structure Interface where
  Op : Type
  Ret : Op → Type

/-- A program over an interface. -/
inductive Prog (I : Interface) (α : Type) : Type where
  | pure (a : α)
  | fault (f : Fault)
  | op (e : I.Op) (k : I.Ret e → Prog I α)

/-- An operation with the answer it was given. -/
structure Event (I : Interface) where
  op : I.Op
  ret : I.Ret op

namespace Prog

variable {I : Interface} {α β γ : Type}

/-! ## The monad -/

/-- Sequencing: a fault ends the whole program. -/
def bind : Prog I α → (α → Prog I β) → Prog I β
  | .pure a, f => f a
  | .fault e, _ => .fault e
  | .op e k, f => .op e fun r ↦ (k r).bind f

instance : Monad (Prog I) where
  pure := .pure
  bind := .bind

@[simp] theorem pure_eq (a : α) : (Pure.pure a : Prog I α) = .pure a := rfl

@[simp] theorem pure_bind' (a : α) (f : α → Prog I β) : (Prog.pure a >>= f) = f a := rfl

@[simp] theorem op_bind (e : I.Op) (k : I.Ret e → Prog I α) (f : α → Prog I β) :
    (Prog.op e k >>= f) = .op e fun r ↦ k r >>= f := rfl

theorem bind_pure' (p : Prog I α) : (p >>= Prog.pure) = p := by
  induction p with
  | pure a => rfl
  | fault e => rfl
  | op e k ih => rw [op_bind]; exact congrArg _ (funext ih)

theorem bind_assoc' (p : Prog I α) (f : α → Prog I β) (g : β → Prog I γ) :
    ((p >>= f) >>= g) = p >>= fun a ↦ f a >>= g := by
  induction p with
  | pure a => rfl
  | fault e => rfl
  | op e k ih => simp only [op_bind, ih]

instance : LawfulMonad (Prog I) :=
  .mk' (Prog I) (fun p ↦ bind_pure' p) (fun _ _ ↦ rfl) bind_assoc'

/-- One operation. -/
def perform (e : I.Op) : Prog I (I.Ret e) := .op e .pure

/-- A checked computation as a program without operations. -/
def ofChecked : Checked α → Prog I α
  | .ok a => .pure a
  | .error f => .fault f

instance : MonadLift (Except Fault) (Prog I) := ⟨ofChecked⟩

@[simp] theorem ofChecked_ok (a : α) : (ofChecked (.ok a) : Prog I α) = .pure a := rfl

/-- Repeats a body until it returns `inr`, at most `n` times. -/
def iterate (body : α → Prog I (α ⊕ β)) : ℕ → α → Prog I β
  | 0, _ => .fault .unbounded
  | n + 1, a => do
    match ← body a with
    | .inl a' => iterate body n a'
    | .inr b => return b

/-! ## Runs -/

/-- `p` performs the operations of `t`, is given the answers in it and is left with `q`. -/
inductive Reaches : Prog I α → List (Event I) → Prog I α → Prop
  | refl (p : Prog I α) : Reaches p [] p
  | step {e : I.Op} {k : I.Ret e → Prog I α} {t : List (Event I)} {q : Prog I α} (r : I.Ret e)
      (h : Reaches (k r) t q) : Reaches (.op e k) (⟨e, r⟩ :: t) q

/-- A complete run of `p` with the result `a`. -/
def Returns (p : Prog I α) (t : List (Event I)) (a : α) : Prop := Reaches p t (.pure a)

theorem reaches_nil {p q : Prog I α} : Reaches p [] q ↔ q = p := by
  constructor
  · rintro ⟨⟩
    rfl
  · rintro rfl
    exact .refl _

theorem reaches_op_cons {e : I.Op} {k : I.Ret e → Prog I α} {ev : Event I} {t : List (Event I)}
    {q : Prog I α} : Reaches (.op e k) (ev :: t) q ↔ ∃ r, ev = ⟨e, r⟩ ∧ Reaches (k r) t q := by
  constructor
  · rintro ⟨⟩
    next r h => exact ⟨r, rfl, h⟩
  · rintro ⟨r, rfl, h⟩
    exact .step r h

theorem Reaches.trans {p q s : Prog I α} {t u : List (Event I)} (h : Reaches p t q)
    (h' : Reaches q u s) : Reaches p (t ++ u) s := by
  induction h with
  | refl p => exact h'
  | step r _ ih => exact .step r (ih h')

theorem Reaches.bind {p q : Prog I α} {t : List (Event I)} (h : Reaches p t q)
    (f : α → Prog I β) : Reaches (p >>= f) t (q >>= f) := by
  induction h with
  | refl p => exact .refl _
  | step r _ ih => exact .step r ih

theorem returns_pure {a b : α} {t : List (Event I)} :
    Returns (Prog.pure a : Prog I α) t b ↔ t = [] ∧ b = a := by
  constructor
  · rintro ⟨⟩
    exact ⟨rfl, rfl⟩
  · rintro ⟨rfl, rfl⟩
    exact .refl _

theorem not_returns_fault {f : Fault} {a : α} {t : List (Event I)} :
    ¬Returns (Prog.fault f : Prog I α) t a := by
  rintro ⟨⟩

/-- After the first part of a run the rest of the program runs on. -/
theorem Reaches.rest {p q s : Prog I α} {t u : List (Event I)} (h : Reaches p t q)
    (h' : Reaches p (t ++ u) s) : Reaches q u s := by
  induction h with
  | refl p => exact h'
  | step r _ ih =>
    obtain ⟨r', hev, h'⟩ := reaches_op_cons.mp h'
    cases hev
    exact ih h'

/-- A run of a sequence is a run of the first program and then one of the second. -/
theorem returns_bind {p : Prog I α} {f : α → Prog I β} {t : List (Event I)} {b : β} :
    Returns (p >>= f) t b ↔ ∃ t₁ t₂ a, t = t₁ ++ t₂ ∧ Returns p t₁ a ∧ Returns (f a) t₂ b := by
  constructor
  · intro h
    induction p generalizing t with
    | pure a => exact ⟨[], t, a, rfl, .refl _, h⟩
    | fault e => exact absurd h not_returns_fault
    | op e k ih =>
      cases t with
      | nil =>
        rw [Returns, op_bind, reaches_nil] at h
        contradiction
      | cons ev t =>
        rw [Returns, op_bind, reaches_op_cons] at h
        obtain ⟨r, rfl, h⟩ := h
        obtain ⟨t₁, t₂, a, rfl, h₁, h₂⟩ := ih r h
        exact ⟨⟨e, r⟩ :: t₁, t₂, a, rfl, .step r h₁, h₂⟩
  · rintro ⟨t₁, t₂, a, rfl, h₁, h₂⟩
    exact (h₁.bind f).trans h₂

/-- A program does not act differently on the same answers: of two runs one of whose traces
extends the other's, the first to return ends both. -/
theorem Returns.unique {p : Prog I α} {t t' u u' : List (Event I)} {a b : α}
    (h : Returns p t a) (h' : Returns p t' b) (heq : t ++ u = t' ++ u') : a = b ∧ t = t' := by
  induction p generalizing t t' with
  | pure c =>
    obtain ⟨rfl, rfl⟩ := returns_pure.mp h
    obtain ⟨rfl, rfl⟩ := returns_pure.mp h'
    exact ⟨rfl, rfl⟩
  | fault e => exact absurd h not_returns_fault
  | op e k ih =>
    cases h with
    | step r h =>
      cases h' with
      | step r' h' =>
        rw [List.cons_append, List.cons_append, List.cons.injEq] at heq
        obtain ⟨hev, heq⟩ := heq
        cases hev
        obtain ⟨rfl, rfl⟩ := ih r h h' heq
        exact ⟨rfl, rfl⟩

theorem returns_perform {e : I.Op} {t : List (Event I)} {r : I.Ret e} :
    Returns (.op e .pure) t r ↔ t = [⟨e, r⟩] := by
  constructor
  · intro h
    cases h with
    | step r' h =>
      obtain ⟨rfl, rfl⟩ := returns_pure.mp h
      rfl
  · rintro rfl
    exact .step r (.refl _)

theorem returns_ofChecked {c : Checked α} {t : List (Event I)} {a : α} :
    Returns (ofChecked c) t a ↔ t = [] ∧ c = .ok a := by
  cases c with
  | ok b =>
    rw [ofChecked_ok, returns_pure, Except.ok.injEq]
    exact and_congr_right fun _ ↦ eq_comm
  | error f => exact ⟨fun h ↦ absurd h not_returns_fault, fun h ↦ absurd h.2 (by simp)⟩

/-! ## Programs over a state -/

section

variable {δ : Type} {d d' : δ} {t : List (Event I)} {a : α}

/-- A run of a sequence over a state. -/
theorem returnsS_bind {p : StateT δ (Prog I) β} {f : β → StateT δ (Prog I) α} :
    ((p >>= f).run d).Returns t (a, d') ↔ ∃ t₁ t₂ b d₁, t = t₁ ++ t₂ ∧
      (p.run d).Returns t₁ (b, d₁) ∧ ((f b).run d₁).Returns t₂ (a, d') := by
  rw [StateT.run_bind, returns_bind]
  constructor
  · rintro ⟨t₁, t₂, ⟨b, d₁⟩, h⟩
    exact ⟨t₁, t₂, b, d₁, h⟩
  · rintro ⟨t₁, t₂, b, d₁, h⟩
    exact ⟨t₁, t₂, (b, d₁), h⟩

/-- When the first program of a sequence has returned, the second is left. -/
theorem reachesS_bind {p : StateT δ (Prog I) β} {f : β → StateT δ (Prog I) α} {b : β}
    (h : (p.run d).Returns t (b, d')) : ((p >>= f).run d).Reaches t ((f b).run d') := by
  rw [StateT.run_bind]
  exact Reaches.bind h fun r ↦ (f r.1).run r.2

private theorem returns_pair {a' : α} {d₁ : δ} :
    (Prog.pure (a', d₁) : Prog I (α × δ)).Returns t (a, d') ↔ t = [] ∧ a' = a ∧ d₁ = d' := by
  rw [returns_pure, Prod.mk.injEq, @eq_comm _ a, @eq_comm _ d']

theorem returnsS_pure {a' : α} :
    ((Pure.pure a' : StateT δ (Prog I) α).run d).Returns t (a, d') ↔
      t = [] ∧ a' = a ∧ d = d' := returns_pair

theorem returnsS_get {d₁ : δ} :
    ((get : StateT δ (Prog I) δ).run d).Returns t (d₁, d') ↔ t = [] ∧ d = d₁ ∧ d = d' :=
  returns_pair

theorem returnsS_set {d₁ : δ} {u : PUnit} :
    ((set d₁ : StateT δ (Prog I) PUnit).run d).Returns t (u, d') ↔ t = [] ∧ d₁ = d' :=
  returns_pair.trans (and_congr_right fun _ ↦ and_iff_right rfl)

theorem returnsS_modify {f : δ → δ} {u : PUnit} :
    ((modify f : StateT δ (Prog I) PUnit).run d).Returns t (u, d') ↔ t = [] ∧ f d = d' :=
  returns_pair.trans (and_congr_right fun _ ↦ and_iff_right rfl)

/-- A run of a program that does not look at the state. -/
theorem returnsS_lift {p : Prog I α} :
    ((liftM p : StateT δ (Prog I) α).run d).Returns t (a, d') ↔ p.Returns t a ∧ d = d' := by
  have hrun : (liftM p : StateT δ (Prog I) α).run d = p >>= fun a ↦ Prog.pure (a, d) := rfl
  rw [hrun, returns_bind]
  constructor
  · rintro ⟨t₁, t₂, a', rfl, h₁, h₂⟩
    obtain ⟨rfl, rfl, rfl⟩ := returns_pair.mp h₂
    rw [List.append_nil]
    exact ⟨h₁, rfl⟩
  · rintro ⟨h, rfl⟩
    exact ⟨t, [], a, (List.append_nil t).symm, h, .refl _⟩

theorem returnsS_liftChecked {c : Checked α} :
    ((liftM c : StateT δ (Prog I) α).run d).Returns t (a, d') ↔ t = [] ∧ c = .ok a ∧ d = d' := by
  have hrun : (liftM c : StateT δ (Prog I) α).run d
      = ofChecked c >>= fun a ↦ Prog.pure (a, d) := rfl
  have hlift : (liftM (ofChecked c : Prog I α) : StateT δ (Prog I) α).run d
      = ofChecked c >>= fun a ↦ Prog.pure (a, d) := rfl
  rw [hrun, ← hlift, returnsS_lift, returns_ofChecked, and_assoc]

end

/-! ## The next operation -/

section

variable {δ : Type} {d d' : δ} {t u : List (Event I)} {e : I.Op}

/-- After `t` the program performs `e`. -/
def Performs (p : Prog I α) (t : List (Event I)) (e : I.Op) : Prop :=
  ∃ k, p.Reaches t (.op e k)

/-- After a trace that ends with `u`, and in which everything before is `ok`, the program performs
`e`. -/
def PerformsAfter (p : Prog I α) (ok : Event I → Prop) (u : List (Event I)) (e : I.Op) : Prop :=
  ∃ t, (∀ ev ∈ t, ok ev) ∧ p.Performs (t ++ u) e

/-- Every operation of a trace has been performed. -/
theorem Reaches.performs {p q : Prog I α} {ev : Event I} (h : p.Reaches (t ++ ev :: u) q) :
    p.Performs t ev.op := by
  induction t generalizing p with
  | nil =>
    cases h with
    | step r h => exact ⟨_, .refl _⟩
  | cons ev' t ih =>
    cases h with
    | step r h =>
      obtain ⟨k, hreach⟩ := ih h
      exact ⟨k, .step r hreach⟩

theorem Performs.bindS {p : StateT δ (Prog I) β} (h : (p.run d).Performs t e)
    (f : β → StateT δ (Prog I) α) : ((p >>= f).run d).Performs t e := by
  obtain ⟨k, h⟩ := h
  rw [StateT.run_bind]
  exact ⟨fun r ↦ k r >>= fun r ↦ (f r.1).run r.2, h.bind _⟩

/-- The first program of a sequence returns, and the second performs it. -/
theorem performsS_bind {p : StateT δ (Prog I) β} {f : β → StateT δ (Prog I) α} {b : β}
    (h : (p.run d).Returns t (b, d')) (h' : ((f b).run d').Performs u e) :
    ((p >>= f).run d).Performs (t ++ u) e := by
  obtain ⟨k, h'⟩ := h'
  exact ⟨k, (reachesS_bind h).trans h'⟩

theorem Performs.after {p : Prog I α} (h : p.Performs u e) (ok : Event I → Prop) :
    p.PerformsAfter ok u e := ⟨[], fun _ hev ↦ absurd hev List.not_mem_nil, h⟩

theorem PerformsAfter.bindS {ok : Event I → Prop} {p : StateT δ (Prog I) β}
    (h : (p.run d).PerformsAfter ok u e) (f : β → StateT δ (Prog I) α) :
    ((p >>= f).run d).PerformsAfter ok u e := by
  obtain ⟨t, hok, h⟩ := h
  exact ⟨t, hok, h.bindS f⟩

theorem performsAfterS_bind {ok : Event I → Prop} {p : StateT δ (Prog I) β}
    {f : β → StateT δ (Prog I) α} {b : β} (h : (p.run d).Returns t (b, d'))
    (ht : ∀ ev ∈ t, ok ev) (h' : ((f b).run d').PerformsAfter ok u e) :
    ((p >>= f).run d).PerformsAfter ok u e := by
  obtain ⟨t', hok, h'⟩ := h'
  refine ⟨t ++ t', List.forall_mem_append.mpr ⟨ht, hok⟩, ?_⟩
  rw [List.append_assoc]
  exact performsS_bind h h'

end

end Prog

end Interaction
