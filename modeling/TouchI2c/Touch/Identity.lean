import TouchI2c.Smbios.Structures
import TouchI2c.Touch.Rules

/-!
# The identity gates the hardware

An attempt accesses no hardware unless a profile matches the identity that SMBIOS gave: every pass
of detection starts with the match, and behind detection there is a panel only if a pass has found
one.

A table with a malformed structure therefore fails closed exactly when no structure up to the
malformed one supplies a name: the names that were read before stay, and with them the match.
`FailsClosed` asks for all of it: both names empty, no profile that matches, and no attempt that
accesses hardware at any moment. The last two follow from the first, since an identity without names
matches no profile.
-/

namespace TouchI2c

open CMemory Interaction

/-! ## An attempt without a match -/

/-- **Without a matching profile an attempt accesses no hardware**, whatever it is answered. -/
theorem touchTryBringUp_noAccess {d : TouchDev}
    (hnone : ∀ prof ∈ mProfiles, touchProfileMatchesIdentity d.dmi prof = false) :
    (within NoAccess).world.wpS touchTryBringUp (fun status _ _ ↦ status.isError = true) d () := by
  have habsurd : ∀ {prof}, prof ∈ mProfiles → touchProfileMatchesIdentity d.dmi prof = true →
      False := fun hprof hmatch ↦ by rw [hnone _ hprof] at hmatch; exact absurd hmatch (by decide)
  have rules : DetectRules (within NoAccess).world d.dmi (fun d' _ ↦ d'.dmi = d.dmi)
      (fun _ _ ↦ False) :=
    { identity := fun h ↦ h
      profile := fun hprof hmatch ↦ (habsurd (List.mem_of_getElem? hprof) hmatch).elim
      mtkSweep := fun hprof hmatch ↦ (habsurd hprof hmatch).elim
      dwSweep := fun hprof hmatch ↦ (habsurd hprof hmatch).elim }
  rw [touchTryBringUp, World.wpS_bind, World.wpS_modify, World.wpS_bind]
  refine World.wpS_mono (rules.wpS_touchDetect rfl) fun status d' _ h ↦ ?_
  split at h
  · next herr =>
    rw [if_pos herr]
    exact herr
  · exact h.elim

/-! ## A malformed table -/

/-- The identity that the configuration table leads to is empty, no profile matches it, and no
attempt accesses hardware at any moment. -/
def FailsClosed (entries : List ConfigurationEntry) : Prop :=
  ∃ dmi, touchReadDmiIdentity entries = .ok dmi ∧ dmi.productName = [] ∧ dmi.boardName = [] ∧
    (∀ prof, touchProfileMatchesIdentity dmi prof = false) ∧
    ∀ d, d.dmi = dmi → ∀ t q, (touchTryBringUp.run d).Reaches t q → ∀ ev ∈ t, NoAccess ev.op

theorem failsClosed_iff {entries : List ConfigurationEntry} {dmi : DmiIdentity}
    (hread : touchReadDmiIdentity entries = .ok dmi) :
    FailsClosed entries ↔ dmi.productName = [] ∧ dmi.boardName = [] := by
  constructor
  · rintro ⟨dmi', hread', hproduct, hboard, -⟩
    rw [hread, Except.ok.injEq] at hread'
    subst hread'
    exact ⟨hproduct, hboard⟩
  · rintro ⟨hproduct, hboard⟩
    have hnone := touchProfileMatchesIdentity_of_empty hproduct hboard
    refine ⟨dmi, hread, hproduct, hboard, hnone, ?_⟩
    rintro d rfl t q hreach ev hev
    obtain ⟨t₁, t₂, rfl⟩ := List.mem_iff_append.mp hev
    exact Monitor.accepts_of_wp (touchTryBringUp_noAccess fun prof _ ↦ hnone prof) hreach t₁ ev t₂
      rfl

/-- **When a malformed table fails closed.** If the walk meets a malformed structure before both
names are known, it does so if and only if no structure up to and including the malformed one
supplies a product name. -/
theorem failsClosed_iff_of_malformed {entries : List ConfigurationEntry} {table : List UInt8}
    {qs : List ℕ} {p : ℕ} (htable : findTable entries none = some table)
    (h : MeetsMalformed table qs p) :
    FailsClosed entries ↔ ∀ q ∈ qs ++ [p], ¬Supplies table q smbiosTypeSystemInformation ∧
      ¬Supplies table q smbiosTypeBaseboardInformation := by
  obtain ⟨dmi, hread, hproduct, hboard⟩ := touchReadDmiIdentity_malformed htable h
  rw [failsClosed_iff hread]
  have hempty : dmi.productName = [] ∧ dmi.boardName = [] ↔
      ¬Known table (qs ++ [p]) smbiosTypeSystemInformation ∧
        ¬Known table (qs ++ [p]) smbiosTypeBaseboardInformation := by
    rw [← hproduct, ← hboard, not_not, not_not]
  rw [hempty, Known, Known]
  constructor
  · rintro ⟨hsystem, hbaseboard⟩ q hq
    exact ⟨fun hs ↦ hsystem ⟨q, hq, hs⟩, fun hs ↦ hbaseboard ⟨q, hq, hs⟩⟩
  · intro hnone
    constructor
    · rintro ⟨q, hq, hs⟩
      exact (hnone q hq).1 hs
    · rintro ⟨q, hq, hs⟩
      exact (hnone q hq).2 hs

/-! ### Two tables that end too early -/

/-- A Type 1 structure whose product name is cut off by the end of the table. -/
def cutOffTable : List UInt8 := [1, 6, 0, 0, 0, 1] ++ asciiBytes "Galileo"

theorem meetsMalformed_cutOffTable : MeetsMalformed cutOffTable [] 0 :=
  ⟨.nil 0, by decide, fun h ↦ h.1.elim fun _ hq ↦ absurd hq.1 List.not_mem_nil⟩

/-- The name is kept, and a profile with fixed registers matches it. -/
theorem not_failsClosed_cutOffTable :
    MeetsMalformed cutOffTable [] 0 ∧ ¬FailsClosed [.smbios3 (some cutOffTable)] ∧
      ∃ dmi, touchReadDmiIdentity [.smbios3 (some cutOffTable)] = .ok dmi ∧
        touchProfileMatchesIdentity dmi steamDeckOled = true := by
  have hread : touchReadDmiIdentity [.smbios3 (some cutOffTable)]
      = .ok ⟨asciiBytes "Galileo" ++ List.replicate 25 0, List.replicate 32 0⟩ := by decide
  refine ⟨meetsMalformed_cutOffTable, fun h ↦ ?_, _, hread, by decide⟩
  obtain ⟨hproduct, -⟩ := (failsClosed_iff hread).mp h
  exact absurd hproduct (by decide)

theorem failsClosed_headerOnly : FailsClosed [.smbios3 (some [1, 2, 0, 0])] :=
  (failsClosed_iff_of_malformed rfl
    ⟨.nil 0, by decide, fun h ↦ h.1.elim fun _ hq ↦ absurd hq.1 List.not_mem_nil⟩).mpr (by decide)

end TouchI2c
