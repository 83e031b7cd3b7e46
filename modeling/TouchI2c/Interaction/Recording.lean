import TouchI2c.Interaction.Footprint

/-!
# Obligations on whole traces

`recording A C` is the world that remembers the whole trace: after the trace `s` the program may
perform the operations in `A s`, and the environment answers so that the trace stays in `C`. An
obligation there can speak of the runs of other programs in the trace: "this write comes behind an
initialisation that succeeded" is a statement about a part of the trace being a run of another
program.

## The vocabulary of parts

The statements about parts of a trace that occur are few, and each has a rule for one more event and
for one more part: no part of a kind (`Avoids`, `AvoidsAfter`), every part of one kind followed by
one of another (`Answered`), a part of a kind with nothing disturbing behind it (`Since`). A program
keeps `Answered P Q` if it adds no part in `P`, and establishes it by adding one in `Q` behind,
which answers everything before it.

## Parts and runs

A weakest precondition in this world speaks of the run that the program adds (`wp_trace`,
`wpS_trace`): the trace behind is the trace before and a run of the program. So a condition on the
trace, such as that it avoids the runs of some kind, gives a fact about the run itself
(`wp_avoidsAfter`).
-/

namespace Interaction

/-! ## Parts of a trace -/

section

variable {α : Type} {P Q B : List α → Prop} {s t : List α} {n : ℕ} {a : α}

/-- The list ends with a part in `P`. -/
def EndsIn (P : List α → Prop) (t : List α) : Prop := ∃ t₁ t₂, t = t₁ ++ t₂ ∧ P t₂

/-- No part of the list is in `B`. -/
def Avoids (B : List α → Prop) (t : List α) : Prop := ∀ t₁ t₂ t₃, t = t₁ ++ t₂ ++ t₃ → ¬B t₂

/-- No part of the list is in `B` of the list before it. -/
def AvoidsAfter (B : List α → List α → Prop) (t : List α) : Prop :=
  ∀ t₁ t₂ t₃, t = t₁ ++ t₂ ++ t₃ → ¬B t₁ t₂

/-- No part in `P` ends after the first `n` elements. -/
def NoneAfter (P : List α → Prop) (n : ℕ) (t : List α) : Prop :=
  ∀ t₁ t₂ t₃, t = t₁ ++ t₂ ++ t₃ → P t₂ → (t₁ ++ t₂).length ≤ n

/-- There is a part in `P` of the list before it, and no element in `E` since. -/
def Since (P : List α → List α → Prop) (E : α → Prop) (t : List α) : Prop :=
  ∃ t₁ t₂ t₃, t = t₁ ++ t₂ ++ t₃ ∧ P t₁ t₂ ∧ ∀ a ∈ t₃, ¬E a

/-- Every part in `P` is followed by one in `Q`. -/
def Answered (P Q : List α → Prop) (t : List α) : Prop :=
  ∀ t₁ t₂ t₃, t = t₁ ++ t₂ ++ t₃ → P t₂ → ∃ u₁ u₂ u₃, t₃ = u₁ ++ u₂ ++ u₃ ∧ Q u₂

/-- What holds of a list holds of the lists that it extends. -/
def PrefixClosed (C : List α → Prop) : Prop := ∀ t t', C (t ++ t') → C t

theorem prefixClosed_avoidsAfter {B : List α → List α → Prop} : PrefixClosed (AvoidsAfter B) := by
  intro t t' h t₁ t₂ t₃ heq
  exact h t₁ t₂ (t₃ ++ t') (by rw [heq, List.append_assoc])

theorem prefixClosed_avoids : PrefixClosed (Avoids B) :=
  prefixClosed_avoidsAfter (B := fun _ ↦ B)

theorem AvoidsAfter.last {B : List α → List α → Prop} (h : AvoidsAfter B (s ++ t)) : ¬B s t :=
  h s t [] (List.append_nil _).symm

theorem PrefixClosed.and {C C' : List α → Prop} (h : PrefixClosed C) (h' : PrefixClosed C') :
    PrefixClosed fun t ↦ C t ∧ C' t :=
  fun t t' ht ↦ ⟨h t t' ht.1, h' t t' ht.2⟩

theorem since_of_last {P : List α → List α → Prop} {E : α → Prop} (h : P s t) :
    Since P E (s ++ t) :=
  ⟨s, t, [], (List.append_nil _).symm, h, fun _ ha ↦ absurd ha List.not_mem_nil⟩

theorem Since.append {P : List α → List α → Prop} {E : α → Prop} (h : Since P E s)
    (ht : ∀ a ∈ t, ¬E a) : Since P E (s ++ t) := by
  obtain ⟨t₁, t₂, t₃, rfl, hP, hE⟩ := h
  refine ⟨t₁, t₂, t₃ ++ t, List.append_assoc _ _ _, hP, fun a ha ↦ ?_⟩
  rcases List.mem_append.mp ha with ha | ha
  · exact hE a ha
  · exact ht a ha

theorem Since.concat {P : List α → List α → Prop} {E : α → Prop} (h : Since P E s) (ha : ¬E a) :
    Since P E (s ++ [a]) := h.append fun a' ha' ↦ by rwa [List.mem_singleton.mp ha']

theorem noneAfter_length (t : List α) : NoneAfter P t.length t := by
  intro t₁ t₂ t₃ heq _
  simp only [heq, List.length_append]
  omega

theorem NoneAfter.concat (h : NoneAfter P n t) (hends : ¬EndsIn P (t ++ [a])) :
    NoneAfter P n (t ++ [a]) := by
  intro t₁ t₂ t₃ heq hP
  rcases List.eq_nil_or_concat t₃ with rfl | ⟨t₄, b, rfl⟩
  · rw [List.append_nil] at heq
    exact absurd ⟨t₁, t₂, heq, hP⟩ hends
  · rw [List.concat_eq_append, ← List.append_assoc] at heq
    obtain ⟨rfl, -⟩ := List.append_inj_left' heq rfl, List.append_inj_right' heq rfl
    exact h t₁ t₂ t₄ rfl hP

/-- Parts of one element that occur nowhere in the second list. -/
theorem noneAfter_of_events (hone : ∀ u, P u → ∃ a, u = [a]) (hnone : ∀ a ∈ t, ¬P [a]) :
    NoneAfter P s.length (s ++ t) := by
  intro t₁ t₂ t₃ heq hP
  obtain ⟨a, rfl⟩ := hone t₂ hP
  rcases List.append_eq_append_iff.mp heq with ⟨u, hu, ht⟩ | ⟨u, rfl, -⟩
  · rcases List.eq_nil_or_concat u with rfl | ⟨v, b, rfl⟩
    · rw [hu, List.append_nil]
    · rw [List.concat_eq_append, ← List.append_assoc] at hu
      obtain rfl := List.singleton_inj.mp (List.append_inj_right' hu rfl)
      exact absurd hP (hnone a (by simp [ht]))
  · simp

/-- A part that ends within the first list lies in it. -/
theorem exists_rest {t₁ t₂ t₃ : List α} (heq : s ++ t = t₁ ++ t₂ ++ t₃)
    (hle : (t₁ ++ t₂).length ≤ s.length) : ∃ u, s = t₁ ++ t₂ ++ u ∧ t₃ = u ++ t := by
  rcases List.append_eq_append_iff.mp heq with ⟨u, hu, ht⟩ | ⟨u, hs, ht₃⟩
  · have hnil : u = [] := by
      rw [hu, List.length_append] at hle
      exact List.length_eq_zero_iff.mp (by omega)
    subst hnil
    exact ⟨[], by rw [List.append_nil, hu, List.append_nil], by rw [List.nil_append, ht,
      List.nil_append]⟩
  · exact ⟨u, hs, ht₃⟩

theorem Answered.append (h : Answered P Q s) (hw : NoneAfter P s.length (s ++ t)) :
    Answered P Q (s ++ t) := by
  intro t₁ t₂ t₃ heq hP
  obtain ⟨u, rfl, rfl⟩ := exists_rest heq (hw t₁ t₂ t₃ heq hP)
  obtain ⟨u₁, u₂, u₃, rfl, hQ⟩ := h t₁ t₂ u rfl hP
  exact ⟨u₁, u₂, u₃ ++ t, by rw [List.append_assoc _ u₃], hQ⟩

theorem answered_of_reply (hQ : Q t) (hw : NoneAfter P s.length (s ++ t)) :
    Answered P Q (s ++ t) := by
  intro t₁ t₂ t₃ heq hP
  obtain ⟨u, -, rfl⟩ := exists_rest heq (hw t₁ t₂ t₃ heq hP)
  exact ⟨u, t, [], by rw [List.append_nil], hQ⟩

end

/-! ## The world -/

variable {I : Interface} {α : Type} {A : List (Event I) → I.Op → Prop}
  {C : List (Event I) → Prop}

/-- The world that remembers the trace: the operations in `A` are allowed, and the trace stays in
`C`. -/
def recording (A : List (Event I) → I.Op → Prop) (C : List (Event I) → Prop) :
    World I (List (Event I)) where
  drift s s' := s' = s
  Allowed := A
  answer s e r s' := s' = s ++ [⟨e, r⟩] ∧ C s'

theorem stable_recording (J : List (Event I) → Prop) : (recording A C).Stable J :=
  fun _ _ hs hdrift ↦ hdrift ▸ hs

theorem wp_op_recording {e : I.Op} {k : I.Ret e → Prog I α} {Q : α → List (Event I) → Prop}
    {s : List (Event I)} : (recording A C).wp (.op e k) Q s ↔
      A s e ∧ ∀ r, C (s ++ [⟨e, r⟩]) → (recording A C).wp (k r) Q (s ++ [⟨e, r⟩]) := by
  constructor
  · intro h
    obtain ⟨hallowed, hk⟩ := h s rfl
    exact ⟨hallowed, fun r hC ↦ hk r _ ⟨rfl, hC⟩⟩
  · rintro ⟨hallowed, hk⟩ s' rfl
    refine ⟨hallowed, fun r s'' hs'' ↦ ?_⟩
    obtain ⟨rfl, hC⟩ := hs''
    exact hk r hC

theorem wp_perform_recording {e : I.Op} {Q : I.Ret e → List (Event I) → Prop}
    {s : List (Event I)} : (recording A C).wp (.op e .pure) Q s ↔
      A s e ∧ ∀ r, C (s ++ [⟨e, r⟩]) → Q r (s ++ [⟨e, r⟩]) := wp_op_recording

/-- Operations that are allowed wherever `J` holds, and that keep `J`. -/
theorem keeps_recording {F : I.Op → Prop} {J : List (Event I) → Prop}
    (hA : ∀ s e, F e → J s → A s e) (hJ : ∀ s e r, F e → J s → J (s ++ [⟨e, r⟩])) :
    (recording A C).Keeps F J := fun e s he hs ↦
  wp_perform_recording.mpr ⟨hA s e he hs, fun r _ ↦ hJ s e r he hs⟩

theorem path_recording (hclosed : PrefixClosed C) {s t : List (Event I)} (h : C (s ++ t)) :
    (recording A C).Path s t (s ++ t) := by
  induction t generalizing s with
  | nil =>
    rw [List.append_nil]
    exact .nil s
  | cons ev t ih =>
    rw [← List.singleton_append, ← List.append_assoc] at h ⊢
    exact .cons rfl ⟨rfl, hclosed _ _ h⟩ (ih h)

/-- A weakest precondition speaks of the run that the program adds. -/
theorem wp_trace {p : Prog I α} {Q : α → List (Event I) → Prop} {s : List (Event I)}
    (h : (recording A C).wp p Q s) (hs : C s) : (recording A C).wp p
      (fun a s' ↦ Q a s' ∧ C s' ∧ ∃ t, s' = s ++ t ∧ p.Returns t a) s := by
  induction p generalizing s with
  | pure a => exact ⟨h, hs, [], (List.append_nil s).symm, .refl _⟩
  | fault f => exact h
  | op e k ih =>
    obtain ⟨hallowed, hk⟩ := wp_op_recording.mp h
    refine wp_op_recording.mpr ⟨hallowed, fun r hC ↦ ?_⟩
    refine World.wp_mono (ih r (hk r hC) hC) fun a s' h' ↦ ?_
    obtain ⟨hQ, hC', t, rfl, hret⟩ := h'
    exact ⟨hQ, hC', ⟨e, r⟩ :: t, by rw [List.append_assoc, List.singleton_append], .step r hret⟩

theorem wpS_trace {δ : Type} {p : StateT δ (Prog I) α} {Q : α → δ → List (Event I) → Prop} {d : δ}
    {s : List (Event I)} (h : (recording A C).wpS p Q d s) (hs : C s) : (recording A C).wpS p
      (fun a d' s' ↦ Q a d' s' ∧ C s' ∧ ∃ t, s' = s ++ t ∧ (p.run d).Returns t (a, d')) d s :=
  @wp_trace I (α × δ) A C (p.run d) (fun r s' ↦ Q r.1 r.2 s') s h hs

/-- A program every operation of which is allowed behind the ones before it. -/
theorem wp_of_reaches {P : I.Op → Prop} {p : Prog I α} {Q : α → Prop} (h : p.Within P Q)
    {s : List (Event I)} (hA : ∀ t e k, p.Reaches t (.op e k) → A (s ++ t) e) :
    (recording A C).wp p (fun a _ ↦ Q a) s := by
  induction p generalizing s with
  | pure a => exact h
  | fault f => exact h.elim
  | op e k ih =>
    have hnow : A (s ++ []) e := hA [] e k (.refl _)
    rw [List.append_nil] at hnow
    refine wp_op_recording.mpr ⟨hnow, fun r _ ↦ ih r ((Monitor.wp_op.mp h).2 r) fun t e' k' ht ↦ ?_⟩
    rw [List.append_assoc, List.singleton_append]
    exact hA (⟨e, r⟩ :: t) e' k' (.step r ht)

/-- A run that the program adds is none of those to avoid. -/
theorem wp_avoidsAfter {B : List (Event I) → List (Event I) → Prop}
    (hC : ∀ s, C s → AvoidsAfter B s) {p : Prog I α} {Q : α → List (Event I) → Prop}
    {s : List (Event I)} (h : (recording A C).wp p Q s) (hs : C s) : (recording A C).wp p
      (fun a s' ↦ Q a s' ∧ ∃ t, s' = s ++ t ∧ p.Returns t a ∧ ¬B s t) s := by
  refine World.wp_mono (wp_trace h hs) fun a s' h' ↦ ?_
  obtain ⟨hQ, hC', t, rfl, hret⟩ := h'
  exact ⟨hQ, t, rfl, hret, (hC _ hC').last⟩

theorem wpS_avoidsAfter {B : List (Event I) → List (Event I) → Prop} {δ : Type}
    (hC : ∀ s, C s → AvoidsAfter B s) {p : StateT δ (Prog I) α}
    {Q : α → δ → List (Event I) → Prop} {d : δ} {s : List (Event I)}
    (h : (recording A C).wpS p Q d s) (hs : C s) : (recording A C).wpS p
      (fun a d' s' ↦ Q a d' s' ∧ ∃ t, s' = s ++ t ∧ (p.run d).Returns t (a, d') ∧ ¬B s t) d s :=
  @wp_avoidsAfter I (α × δ) A C B hC (p.run d) (fun r s' ↦ Q r.1 r.2 s') s h hs

/-- The footprint rule: a program keeps what its operations keep. -/
theorem wp_recording_of_within {P : I.Op → Prop} {J : List (Event I) → Prop} {p : Prog I α}
    {Q : α → Prop} (h : p.Within P Q)
    (hop : ∀ s e, J s → P e → A s e ∧ ∀ r, C (s ++ [⟨e, r⟩]) → J (s ++ [⟨e, r⟩]))
    {s : List (Event I)} (hs : J s) : (recording A C).wp p (fun a s' ↦ Q a ∧ J s') s := by
  refine World.wp_of_within h (stable_recording J) (fun s e hJ he ↦ ?_) hs
  obtain ⟨hallowed, hkeep⟩ := hop s e hJ he
  refine ⟨hallowed, fun r s' hs' ↦ ?_⟩
  obtain ⟨rfl, hC⟩ := hs'
  exact hkeep r hC

end Interaction
