import TouchI2c.Smbios.Walk

/-!
# What the walk reads

An SMBIOS table as a chain of structures. `visit` says what the walk finds at an offset: the end of
the table, a malformed structure, or a structure and the offset after its string set. `Supplies`
says which structures have a product name.

## Along a chain

`walkStructure_ok` and `walkTable_chain` connect both with the code. The loops over a string set end
at the numbered string, at the double NUL or at the end of the table, so one pass of the walk takes
the name of the structure and goes on behind its string set. The names after the pass are a fold
over the structures of the chain: a name is known if it was before or the structure supplies it, and
a later one replaces it.

## Malformed tables

A malformed structure ends the walk, after its name has been taken if its formatted part is well
formed. So the names read so far are kept, and the identity stays empty only if no structure up to
the malformed one supplies a name.

## Safety

Every pass goes on behind the structure it has seen, so the bound of the walk is never reached, and
every access is inside the table or one of the two arrays, which keep their size and their NUL.
-/

namespace TouchI2c

open CMemory

/-! ## String sets -/

/-- String number `k + 1` of a string set; the last one may lack its NUL. -/
def nthString : ℕ → List UInt8 → Option (List UInt8)
  | 0, bytes => if bytes.head?.getD 0 = 0 then none else some (cString bytes)
  | k + 1, bytes =>
    if bytes.head?.getD 0 = 0 then none
    else nthString k (bytes.drop ((cString bytes).length + 1))

/-- The distance from the start of a string set to its double NUL. -/
def stringSetEnd : List UInt8 → Option ℕ
  | b :: b' :: bytes =>
    if b = 0 ∧ b' = 0 then some 0 else (stringSetEnd (b' :: bytes)).map (· + 1)
  | _ => none

/-! ## Structures -/

section

variable (table : List UInt8) (p : ℕ)

/-- `Hdr->Type`. -/
def smbiosType : UInt8 := table.getD p 0

/-- `Hdr->Length`. -/
def smbiosLength : ℕ := (table.getD (p + 1) 0).toNat

/-- The formatted part of the structure at `p` is well formed. -/
structure Formatted : Prop where
  header : p + smbiosStructureSize ≤ table.length
  type : smbiosType table p ≠ smbiosTypeEndOfTable
  length : smbiosStructureSize ≤ smbiosLength table p
  inside : p + smbiosLength table p ≤ table.length

instance : Decidable (Formatted table p) :=
  decidable_of_iff (p + smbiosStructureSize ≤ table.length ∧
    smbiosType table p ≠ smbiosTypeEndOfTable ∧ smbiosStructureSize ≤ smbiosLength table p ∧
    p + smbiosLength table p ≤ table.length)
    ⟨fun ⟨h₁, h₂, h₃, h₄⟩ ↦ ⟨h₁, h₂, h₃, h₄⟩, fun h ↦ ⟨h.header, h.type, h.length, h.inside⟩⟩

/-- The string that `ProductName` of the structure at `p` numbers. -/
def productName : Option (List UInt8) :=
  if smbiosProductNameOffset < smbiosLength table p ∧
      table.getD (p + smbiosProductNameOffset) 0 ≠ 0 then
    nthString ((table.getD (p + smbiosProductNameOffset) 0).toNat - 1)
      (table.drop (p + smbiosLength table p))
  else none

/-- The structure at `p` has the type `type` and a product name. -/
def Supplies (type : UInt8) : Prop :=
  Formatted table p ∧ smbiosType table p = type ∧ (productName table p).isSome

instance (type : UInt8) : Decidable (Supplies table p type) :=
  inferInstanceAs (Decidable (_ ∧ _))

/-- What the walk finds at an offset. -/
inductive Visit where
  | finished
  | malformed
  | next (p : ℕ)
  deriving DecidableEq

/-- The walk finishes at the end of the table or at the end-of-table structure. A structure is
malformed if its formatted length is below 4, if it runs past the end of the table, with its
header or its formatted part, or if its string set does not end inside the table. -/
def visit : Visit :=
  if table.length ≤ p ∨
      p + smbiosStructureSize ≤ table.length ∧ smbiosType table p = smbiosTypeEndOfTable then
    .finished
  else if Formatted table p then
    match stringSetEnd (table.drop (p + smbiosLength table p)) with
    | some k => .next (p + smbiosLength table p + k + 2)
    | none => .malformed
  else .malformed

end

/-- From `p` the walk comes to `p'` over the structures at `qs`. -/
inductive Chain (table : List UInt8) : ℕ → List ℕ → ℕ → Prop
  | nil (p : ℕ) : Chain table p [] p
  | cons {p p₁ p' : ℕ} {qs : List ℕ} (hvisit : visit table p = .next p₁)
      (h : Chain table p₁ qs p') : Chain table p (p :: qs) p'

/-! ## Names -/

/-- The name that an array holds. -/
abbrev DmiIdentity.productName (dmi : DmiIdentity) : List UInt8 := cString dmi.product

abbrev DmiIdentity.boardName (dmi : DmiIdentity) : List UInt8 := cString dmi.board

/-- Both arrays have their size. -/
structure DmiIdentity.Sized (dmi : DmiIdentity) : Prop where
  product : dmi.product.length = 32
  board : dmi.board.length = 32

/-- An array after a name has been offered to it. -/
def offer (destination : List UInt8) : Option (List UInt8) → List UInt8
  | some s => storeString destination (s.take (destination.length - 1))
  | none => destination

/-- The names after the structure at `p`. -/
def DmiIdentity.supply (table : List UInt8) (dmi : DmiIdentity) (p : ℕ) : DmiIdentity :=
  if smbiosType table p = smbiosTypeSystemInformation then
    { dmi with product := offer dmi.product (TouchI2c.productName table p) }
  else if smbiosType table p = smbiosTypeBaseboardInformation then
    { dmi with board := offer dmi.board (TouchI2c.productName table p) }
  else dmi

theorem length_offer {destination : List UInt8} (h : 0 < destination.length)
    (s : Option (List UInt8)) : (offer destination s).length = destination.length := by
  cases s with
  | none => rfl
  | some s => exact length_storeString (by rw [List.length_take]; omega)

/-! ## The code -/

private theorem getElem_eq_getD {table : List UInt8} {i : ℕ} (h : i < table.length) :
    table[i] = table.getD i 0 := by
  rw [List.getD_eq_getElem?_getD, List.getElem?_eq_getElem h, Option.getD_some]

private theorem head_drop (table : List UInt8) (i : ℕ) :
    (table.drop i).head?.getD 0 = table.getD i 0 := by
  rw [List.head?_drop, List.getD_eq_getElem?_getD]

/-- The loop over the string set finds the numbered string. -/
theorem copyNthString_ok {table destination : List UInt8} {stringNumber number : UInt8} {n str : ℕ}
    (hdest : 0 < destination.length) (hstr : str ≤ table.length) (hn : table.length < str + n)
    (hnumber : number.toNat ≤ stringNumber.toNat) :
    copyNthString table stringNumber destination n str number
      = .ok (offer destination
          (nthString (stringNumber.toNat - number.toNat) (table.drop str))) := by
  induction n generalizing str number with
  | zero => omega
  | succ n ih =>
    rw [copyNthString]
    by_cases hlt : str < table.length
    swap
    · -- the string set ends with the table
      rw [if_neg hlt, List.drop_eq_nil_of_le (by omega)]
      cases stringNumber.toNat - number.toNat <;> rfl
    rw [if_pos hlt, readAt_getElem hlt, ok_bind, getElem_eq_getD hlt]
    by_cases hzero : table.getD str 0 = 0
    · rw [if_neg (not_not_intro hzero)]
      cases stringNumber.toNat - number.toNat <;>
        simp only [nthString, head_drop, hzero, if_true, offer, pure_eq_ok]
    have hlen : strLen table str (table.length - str) 0
        = .ok (cString (table.drop str)).length := by
      rw [strLen_ok (by omega), Nat.add_zero, Nat.zero_add]
    rw [if_pos hzero, hlen, ok_bind]
    by_cases heq : number = stringNumber
    · subst heq
      rw [if_pos rfl, Nat.sub_self, nthString, head_drop, if_neg hzero, offer]
      have hmin : (cString (table.drop str)).take (destination.length - 1)
          = (cString (table.drop str)).take
              (min (cString (table.drop str)).length (destination.length - 1)) := by
        rw [Nat.min_comm, ← List.take_take, List.take_of_length_le le_rfl]
      rw [hmin]
      exact copyMem_cString (by omega) hlt.le (Nat.min_le_left _ _)
    · have hne : number.toNat ≠ stringNumber.toNat := fun h ↦ heq (UInt8.toNat_inj.mp h)
      obtain ⟨k, hk⟩ : ∃ k, stringNumber.toNat - number.toNat = k + 1 :=
        ⟨stringNumber.toNat - number.toNat - 1, by omega⟩
      rw [if_neg heq, hk, nthString, head_drop, if_neg hzero, List.drop_drop]
      by_cases hend : table.length ≤ str + (cString (table.drop str)).length
      · rw [if_pos hend, List.drop_eq_nil_of_le (by omega)]
        cases k <;> rfl
      · have hsucc : (number + 1).toNat = number.toNat + 1 := by
          have := stringNumber.toNat_lt
          rw [UInt8.toNat_add]
          exact Nat.mod_eq_of_lt (by simp; omega)
        have hpos : 0 < (cString (table.drop str)).length := by
          rw [List.length_pos_iff, Ne, cString_eq_nil_iff, head_drop]
          exact hzero
        rw [if_neg hend, ih (by omega) (by omega) (by omega), hsucc, ← Nat.add_assoc]
        congr 3
        omega

/-- `TouchCopySmbiosString` offers the numbered string of a formatted structure. -/
theorem touchCopySmbiosString_ok {table destination : List UInt8} {p : ℕ} (h : Formatted table p)
    (hlen : smbiosProductNameOffset < smbiosLength table p) (hdest : 0 < destination.length) :
    touchCopySmbiosString table p (table.getD (p + smbiosProductNameOffset) 0) destination
      = .ok (offer destination (productName table p)) := by
  unfold touchCopySmbiosString productName
  by_cases hzero : table.getD (p + smbiosProductNameOffset) 0 = 0
  · rw [if_pos (.inl hzero), if_neg (fun h ↦ h.2 hzero)]
    rfl
  · have hnumber : 1 ≤ (table.getD (p + smbiosProductNameOffset) 0).toNat :=
      Nat.pos_of_ne_zero fun h ↦ hzero (UInt8.toNat_inj.mp h)
    have hinside : p + (table.getD (p + 1) 0).toNat ≤ table.length := h.inside
    have hheader := h.header
    unfold smbiosStructureSize at hheader
    rw [if_neg (by rintro (h | h) <;> [exact hzero h; omega]), if_pos ⟨hlen, hzero⟩,
      readAt_getElem (by omega), ok_bind, getElem_eq_getD, if_neg (by omega)]
    exact copyNthString_ok hdest hinside (by omega) hnumber

theorem copyNames_ok {table : List UInt8} {p : ℕ} {dmi : DmiIdentity} (h : Formatted table p)
    (hdmi : dmi.Sized) :
    copyNames table p (smbiosType table p) (table.getD (p + 1) 0) dmi
      = .ok (dmi.supply table p) := by
  have hinside : p + smbiosLength table p ≤ table.length := h.inside
  have hproduct : 0 < dmi.product.length := by rw [hdmi.product]; decide
  have hboard : 0 < dmi.board.length := by rw [hdmi.board]; decide
  unfold copyNames DmiIdentity.supply
  have hnone (hlen : ¬smbiosProductNameOffset < smbiosLength table p) :
      productName table p = none := if_neg fun h ↦ hlen h.1
  by_cases hlen : smbiosProductNameOffset < smbiosLength table p
  · have hread : readAt table (p + smbiosProductNameOffset)
        = .ok (table.getD (p + smbiosProductNameOffset) 0) := by
      rw [readAt_getElem (by omega), getElem_eq_getD]
    have hlen' : smbiosProductNameOffset < (table.getD (p + 1) 0).toNat := hlen
    simp only [hlen', and_true, hread, ok_bind, touchCopySmbiosString_ok h hlen hproduct,
      touchCopySmbiosString_ok h hlen hboard]
    split_ifs <;> rfl
  · have hlen' : ¬smbiosProductNameOffset < (table.getD (p + 1) 0).toNat := hlen
    simp only [hlen', and_false, if_false, hnone hlen, offer, ite_self]
    rfl

theorem stringSetEnd_lt {bytes : List UInt8} {k : ℕ} (h : stringSetEnd bytes = some k) :
    k + 1 < bytes.length := by
  induction bytes generalizing k with
  | nil => exact absurd h (by simp [stringSetEnd])
  | cons b bytes ih =>
    cases bytes with
    | nil => exact absurd h (by simp [stringSetEnd])
    | cons b' bytes =>
      rw [stringSetEnd] at h
      split at h
      · cases h
        simp
      · obtain ⟨k', hk', rfl⟩ := Option.map_eq_some_iff.mp h
        have := ih hk'
        rw [List.length_cons]
        omega

theorem stringSetEnd_of_length_le {bytes : List UInt8} (h : bytes.length ≤ 1) :
    stringSetEnd bytes = none := by
  match bytes, h with
  | [], _ => rfl
  | [_], _ => rfl

/-- The skip over a string set ends at its double NUL, or at the end of the table. -/
theorem skipStrings_ok {table : List UInt8} {n str : ℕ} (hn : n = table.length - (str + 1)) :
    ∃ str', skipStrings table n str = .ok str' ∧
      (∀ k, stringSetEnd (table.drop str) = some k → str' = str + k ∧ str' + 1 < table.length) ∧
      (stringSetEnd (table.drop str) = none → table.length ≤ str' + 1) := by
  induction n generalizing str with
  | zero =>
    rw [stringSetEnd_of_length_le (by rw [List.length_drop]; omega)]
    exact ⟨str, rfl, fun k hk ↦ absurd hk (by simp), fun _ ↦ by omega⟩
  | succ n ih =>
    have hlt : str + 1 < table.length := by omega
    have hdrop : table.drop str = table[str] :: table[str + 1] :: table.drop (str + 1 + 1) := by
      rw [List.drop_eq_getElem_cons (by omega), List.drop_eq_getElem_cons hlt]
    obtain ⟨str', hskip, hsome, hnone⟩ := @ih (str + 1) (by omega)
    have hend : stringSetEnd (table.drop str) = if table[str] = 0 ∧ table[str + 1] = 0 then some 0
        else (stringSetEnd (table.drop (str + 1))).map (· + 1) := by
      rw [hdrop, stringSetEnd, List.drop_eq_getElem_cons hlt]
    rw [skipStrings, readAt_getElem (by omega), readAt_getElem hlt, ok_bind, ok_bind]
    by_cases hnul : table[str] = 0 ∧ table[str + 1] = 0
    · rw [if_pos hnul] at hend
      rw [if_pos hnul.1, if_pos hnul.2, hend]
      exact ⟨str, rfl, fun k hk ↦ by cases hk; exact ⟨rfl, hlt⟩, fun h ↦ absurd h (by simp)⟩
    · rw [if_neg hnul] at hend
      refine ⟨str', ?_, fun k hk ↦ ?_, fun h ↦ ?_⟩
      · by_cases hfirst : table[str] = 0
        · rw [if_pos hfirst, if_neg fun h ↦ hnul ⟨hfirst, h⟩, hskip]
        · rw [if_neg hfirst, hskip]
      · rw [hend] at hk
        obtain ⟨k', hk', rfl⟩ := Option.map_eq_some_iff.mp hk
        obtain ⟨rfl, hinside⟩ := hsome k' hk'
        exact ⟨by omega, hinside⟩
      · rw [hend, Option.map_eq_none_iff] at h
        exact hnone h

theorem DmiIdentity.Sized.supply {dmi : DmiIdentity} (h : dmi.Sized) (table : List UInt8) (p : ℕ) :
    (dmi.supply table p).Sized := by
  have hproduct : 0 < dmi.product.length := by rw [h.product]; decide
  have hboard : 0 < dmi.board.length := by rw [h.board]; decide
  unfold DmiIdentity.supply
  split_ifs
  · exact ⟨(length_offer hproduct _).trans h.product, h.board⟩
  · exact ⟨h.product, (length_offer hboard _).trans h.board⟩
  · exact h

/-- Both names are known. -/
def DmiIdentity.Known (dmi : DmiIdentity) : Prop := dmi.productName ≠ [] ∧ dmi.boardName ≠ []

instance (dmi : DmiIdentity) : Decidable dmi.Known := inferInstanceAs (Decidable (_ ∧ _))

private theorem known_iff {dmi : DmiIdentity} (h : dmi.Sized) :
    ∃ product board, readAt dmi.product 0 = .ok product ∧ readAt dmi.board 0 = .ok board ∧
      (product ≠ 0 ∧ board ≠ 0 ↔ dmi.Known) := by
  have hhead {xs : List UInt8} (hlen : xs.length = 32) :
      ∃ b, readAt xs 0 = .ok b ∧ (b ≠ 0 ↔ cString xs ≠ []) := by
    cases xs with
    | nil => exact absurd hlen (by decide)
    | cons b xs =>
      refine ⟨b, rfl, not_congr ?_⟩
      rw [cString_eq_nil_iff, List.head?_cons, Option.getD_some]
  obtain ⟨product, hp, hproduct⟩ := hhead h.product
  obtain ⟨board, hb, hboard⟩ := hhead h.board
  exact ⟨product, board, hp, hb, and_congr hproduct hboard⟩

section

variable {table : List UInt8} {p : ℕ} {dmi : DmiIdentity}

private theorem read_header (hp : p + smbiosStructureSize ≤ table.length) :
    readAt table p = .ok (smbiosType table p) ∧ readAt table (p + 1) = .ok (table.getD (p + 1) 0) := by
  unfold smbiosStructureSize at hp
  exact ⟨by rw [readAt_getElem (by omega), getElem_eq_getD]; rfl, by
    rw [readAt_getElem (by omega), getElem_eq_getD]⟩

/-- The walk returns at the end of the table and at a structure without a formatted part. -/
theorem walkStructure_of_not_formatted (hp : p + smbiosStructureSize ≤ table.length)
    (h : ¬Formatted table p) : walkStructure table p dmi = .ok (dmi, none) := by
  obtain ⟨htype, hlength⟩ := read_header hp
  rw [walkStructure, htype, hlength, ok_bind, ok_bind, if_pos]
  · rfl
  · by_contra hnot
    rw [not_or, not_or] at hnot
    exact h ⟨hp, hnot.1, Nat.not_lt.mp hnot.2.1, Nat.not_lt.mp hnot.2.2⟩

/-- The walk takes the name of a formatted structure, and goes on if its string set ends. -/
theorem walkStructure_of_formatted (h : Formatted table p) (hdmi : dmi.Sized) :
    (∀ k, stringSetEnd (table.drop (p + smbiosLength table p)) = some k →
      walkStructure table p dmi = .ok (dmi.supply table p,
        if (dmi.supply table p).Known then none else some (p + smbiosLength table p + k + 2))) ∧
    (stringSetEnd (table.drop (p + smbiosLength table p)) = none →
      walkStructure table p dmi = .ok (dmi.supply table p, none)) := by
  obtain ⟨htype, hlength⟩ := read_header h.header
  obtain ⟨str, hskip, hsome, hnone⟩ := @skipStrings_ok table _ (p + smbiosLength table p) rfl
  have hsized := hdmi.supply table p
  obtain ⟨product, board, hp, hb, hknown⟩ := known_iff hsized
  have hgo : ¬(smbiosType table p = smbiosTypeEndOfTable ∨
      (table.getD (p + 1) 0).toNat < smbiosStructureSize ∨
      table.length < p + (table.getD (p + 1) 0).toNat) := by
    rintro (h' | h' | h')
    · exact h.type h'
    · exact absurd h.length (Nat.not_le.mpr h')
    · exact absurd h.inside (Nat.not_le.mpr h')
  have hwalk : walkStructure table p dmi = if table.length ≤ str + 1 then
      .ok (dmi.supply table p, none) else .ok (dmi.supply table p,
        if (dmi.supply table p).Known then none else some (str + 2)) := by
    have hskip' : skipStrings table (table.length - (p + (table.getD (p + 1) 0).toNat + 1))
        (p + (table.getD (p + 1) 0).toNat) = .ok str := hskip
    rw [walkStructure, htype, hlength, ok_bind, ok_bind, if_neg hgo, copyNames_ok h hdmi, ok_bind]
    simp only [hskip', ok_bind]
    split
    · rfl
    · rw [hp, hb, ok_bind, ok_bind]
      simp only [hknown]
      rfl
  refine ⟨fun k hk ↦ ?_, fun hk ↦ ?_⟩
  · obtain ⟨rfl, hinside⟩ := hsome k hk
    rw [hwalk, if_neg (by omega)]
  · rw [hwalk, if_pos (hnone hk)]

end

/-! ## Names along a chain -/

theorem nthString_ne_nil {k : ℕ} {bytes s : List UInt8} (h : nthString k bytes = some s) :
    s ≠ [] ∧ ∀ b ∈ s, b ≠ 0 := by
  induction k generalizing bytes with
  | zero =>
    rw [nthString] at h
    split at h
    · exact absurd h (by simp)
    · next hhead =>
      cases h
      exact ⟨fun hnil ↦ hhead (cString_eq_nil_iff.mp hnil), fun b ↦ ne_zero_of_mem_cString⟩
  | succ k ih =>
    rw [nthString] at h
    split at h
    · exact absurd h (by simp)
    · exact ih h

private theorem cString_offer_ne_nil (table : List UInt8) (p : ℕ) {destination : List UInt8}
    (h : destination.length = 32) : cString (offer destination (productName table p)) ≠ [] ↔
      cString destination ≠ [] ∨ (productName table p).isSome = true := by
  cases hname : productName table p with
  | none => simp [offer]
  | some s =>
    have hs : nthString ((table.getD (p + smbiosProductNameOffset) 0).toNat - 1)
        (table.drop (p + smbiosLength table p)) = some s := by
      unfold productName at hname
      split at hname
      · exact hname
      · exact absurd hname (by simp)
    obtain ⟨hne, hnul⟩ := nthString_ne_nil hs
    rw [offer, cString_storeString fun b hb ↦ hnul b (List.mem_of_mem_take hb), h]
    simpa using hne

section

variable {table : List UInt8} {p p' : ℕ} {qs : List ℕ} {dmi : DmiIdentity}

/-- The structures at `qs` supply a name of the type `type`. -/
def Known (table : List UInt8) (qs : List ℕ) (type : UInt8) : Prop :=
  ∃ q ∈ qs, Supplies table q type

/-- A name is known if it was before or the structure supplies it. -/
theorem supply_ne_nil (hdmi : dmi.Sized) (h : Formatted table p) :
    ((dmi.supply table p).productName ≠ [] ↔ dmi.productName ≠ [] ∨
      Supplies table p smbiosTypeSystemInformation) ∧
    ((dmi.supply table p).boardName ≠ [] ↔ dmi.boardName ≠ [] ∨
      Supplies table p smbiosTypeBaseboardInformation) := by
  have hproduct := cString_offer_ne_nil table p hdmi.product
  have hboard := cString_offer_ne_nil table p hdmi.board
  unfold Supplies DmiIdentity.supply DmiIdentity.productName DmiIdentity.boardName
  by_cases h1 : smbiosType table p = smbiosTypeSystemInformation
  · have hne : smbiosTypeSystemInformation ≠ smbiosTypeBaseboardInformation := by decide
    simp only [h1, h, true_and, hproduct, hne, false_and, and_false, or_false, and_self, if_true]
  · by_cases h2 : smbiosType table p = smbiosTypeBaseboardInformation
    · have hne : smbiosTypeBaseboardInformation ≠ smbiosTypeSystemInformation := by decide
      simp only [h2, h, true_and, hboard, hne, false_and, and_false, or_false, and_self, if_true,
        if_false]
    · simp only [h1, h2, false_and, and_false, or_false, and_self, if_false]

theorem formatted_of_visit (h : visit table p = .next p') : Formatted table p ∧
    ∃ k, stringSetEnd (table.drop (p + smbiosLength table p)) = some k ∧
      p' = p + smbiosLength table p + k + 2 := by
  unfold visit at h
  split_ifs at h with hfin hformatted
  cases hend : stringSetEnd (table.drop (p + smbiosLength table p)) with
  | none =>
    rw [hend] at h
    exact absurd h (by simp)
  | some k =>
    rw [hend] at h
    cases h
    exact ⟨hformatted, k, rfl, rfl⟩

theorem foldl_supply_ne_nil (hdmi : dmi.Sized) (h : ∀ q ∈ qs, Formatted table q) :
    (qs.foldl (DmiIdentity.supply table) dmi).Sized ∧
    ((qs.foldl (DmiIdentity.supply table) dmi).productName ≠ [] ↔ dmi.productName ≠ [] ∨
      Known table qs smbiosTypeSystemInformation) ∧
    ((qs.foldl (DmiIdentity.supply table) dmi).boardName ≠ [] ↔ dmi.boardName ≠ [] ∨
      Known table qs smbiosTypeBaseboardInformation) := by
  induction qs generalizing dmi with
  | nil => simp [Known, hdmi]
  | cons q qs ih =>
    obtain ⟨hsized, hproduct, hboard⟩ := ih (hdmi.supply table q)
      fun q' hq' ↦ h q' (List.mem_cons_of_mem _ hq')
    obtain ⟨hproduct', hboard'⟩ := supply_ne_nil hdmi (h q List.mem_cons_self)
    rw [List.foldl_cons]
    refine ⟨hsized, hproduct.trans ?_, hboard.trans ?_⟩
    · rw [hproduct', or_assoc]
      simp only [Known, List.mem_cons, exists_eq_or_imp]
    · rw [hboard', or_assoc]
      simp only [Known, List.mem_cons, exists_eq_or_imp]

theorem Chain.formatted (h : Chain table p qs p') : ∀ q ∈ qs, Formatted table q := by
  induction h with
  | nil p => exact fun q hq ↦ absurd hq List.not_mem_nil
  | cons hvisit _ ih =>
    intro q hq
    rcases List.mem_cons.mp hq with rfl | hq
    · exact (formatted_of_visit hvisit).1
    · exact ih q hq

/-- Along a chain the walk collects the names, until both are known. -/
theorem walkTable_chain (h : Chain table p qs p') (hdmi : dmi.Sized) {n : ℕ}
    (hn : table.length < p + n) (hle : p ≤ table.length)
    (hunknown : ¬((dmi.productName ≠ [] ∨ Known table qs smbiosTypeSystemInformation) ∧
      (dmi.boardName ≠ [] ∨ Known table qs smbiosTypeBaseboardInformation))) :
    ∃ m, table.length < p' + m ∧ p' ≤ table.length ∧
      walkTable table n p dmi = walkTable table m p' (qs.foldl (DmiIdentity.supply table) dmi) := by
  induction h generalizing n dmi with
  | nil p => exact ⟨n, hn, hle, rfl⟩
  | @cons p p₁ p' qs hvisit _ ih =>
    obtain ⟨hformatted, k, hend, rfl⟩ := formatted_of_visit hvisit
    obtain ⟨hproduct, hboard⟩ := supply_ne_nil hdmi hformatted
    have hsplit (type : UInt8) : Known table (p :: qs) type ↔
        Supplies table p type ∨ Known table qs type := by
      simp only [Known, List.mem_cons, exists_eq_or_imp]
    rw [hsplit, hsplit, ← or_assoc, ← or_assoc, ← hproduct, ← hboard] at hunknown
    have hgo : ¬(dmi.supply table p).Known := fun hknown ↦
      hunknown ⟨.inl hknown.1, .inl hknown.2⟩
    have hlt := stringSetEnd_lt hend
    rw [List.length_drop] at hlt
    have hlength := hformatted.length
    unfold smbiosStructureSize at hlength
    cases n with
    | zero => omega
    | succ n =>
      have hpass : walkTable table (n + 1) p dmi
          = walkTable table n (p + smbiosLength table p + k + 2) (dmi.supply table p) := by
        rw [walkTable, if_pos hformatted.header, (walkStructure_of_formatted hformatted hdmi).1 k hend,
          if_neg hgo]
        rfl
      rw [hpass, List.foldl_cons]
      exact ih (hdmi.supply table p) (by omega) (by omega) hunknown

/-- A malformed structure ends the walk, after its name has been taken if its formatted part is
well formed. -/
theorem walkTable_malformed (h : visit table p = .malformed) (hdmi : dmi.Sized) {n : ℕ}
    (hn : table.length < p + n) (hle : p ≤ table.length) :
    walkTable table n p dmi = .ok (if Formatted table p then dmi.supply table p else dmi) := by
  cases n with
  | zero => omega
  | succ n =>
    rw [walkTable]
    by_cases hformatted : Formatted table p
    · have hend : stringSetEnd (table.drop (p + smbiosLength table p)) = none := by
        unfold visit at h
        cases hend : stringSetEnd (table.drop (p + smbiosLength table p)) with
        | none => rfl
        | some k =>
          rw [if_pos hformatted, hend] at h
          split at h <;> exact absurd h (by simp)
      rw [if_pos hformatted.header, (walkStructure_of_formatted hformatted hdmi).2 hend,
        if_pos hformatted]
      rfl
    · rw [if_neg hformatted]
      split
      · next hheader =>
        rw [walkStructure_of_not_formatted hheader hformatted]
        rfl
      · rfl

end

/-- The walk meets the structure at `p`, which is malformed, before both names are known; it has
passed the structures at `qs`. -/
structure MeetsMalformed (table : List UInt8) (qs : List ℕ) (p : ℕ) : Prop where
  chain : Chain table 0 qs p
  malformed : visit table p = .malformed
  unknown : ¬(Known table qs smbiosTypeSystemInformation ∧
    Known table qs smbiosTypeBaseboardInformation)

/-- **A malformed structure keeps the names read so far**: the identity is empty only if no
structure up to the malformed one supplies a name. -/
theorem touchReadDmiIdentity_malformed {entries : List ConfigurationEntry} {table : List UInt8}
    {qs : List ℕ} {p : ℕ} (htable : findTable entries none = some table)
    (h : MeetsMalformed table qs p) :
    ∃ dmi, touchReadDmiIdentity entries = .ok dmi ∧
      (dmi.productName ≠ [] ↔ Known table (qs ++ [p]) smbiosTypeSystemInformation) ∧
      (dmi.boardName ≠ [] ↔ Known table (qs ++ [p]) smbiosTypeBaseboardInformation) := by
  have hunread : DmiIdentity.unread.Sized := ⟨rfl, rfl⟩
  have hproduct₀ : ¬DmiIdentity.unread.productName ≠ [] := by decide
  have hboard₀ : ¬DmiIdentity.unread.boardName ≠ [] := by decide
  have hlength : table.length ≠ 0 := by
    intro hzero
    have hmalformed := h.malformed
    rw [visit, if_pos (.inl (by omega))] at hmalformed
    exact absurd hmalformed (by simp)
  obtain ⟨m, hm, hle, hwalk⟩ := @walkTable_chain table 0 p qs .unread h.chain hunread
    (table.length + 1) (by omega) (Nat.zero_le _) (by simpa [hproduct₀, hboard₀] using h.unknown)
  obtain ⟨hsized, hproduct, hboard⟩ := foldl_supply_ne_nil hunread h.chain.formatted
  rw [or_iff_right hproduct₀] at hproduct
  rw [or_iff_right hboard₀] at hboard
  have hsplit (type : UInt8) : Known table (qs ++ [p]) type ↔
      Known table qs type ∨ Supplies table p type := by
    simp only [Known, List.mem_append, List.mem_singleton, or_and_right, exists_or, exists_eq_left]
  have hread : touchReadDmiIdentity entries = walkTable table (table.length + 1) 0 .unread := by
    rw [touchReadDmiIdentity, htable]
    exact if_neg hlength
  rw [hread, hwalk, walkTable_malformed h.malformed hsized hm hle, hsplit, hsplit]
  refine ⟨_, rfl, ?_⟩
  by_cases hformatted : Formatted table p
  · obtain ⟨hproduct', hboard'⟩ := supply_ne_nil hsized hformatted
    rw [if_pos hformatted, hproduct', hboard', hproduct, hboard]
    exact ⟨Iff.rfl, Iff.rfl⟩
  · have hnone (type : UInt8) : ¬Supplies table p type := fun hs ↦ hformatted hs.1
    rw [if_neg hformatted, hproduct, hboard]
    exact ⟨(or_iff_left (hnone _)).symm, (or_iff_left (hnone _)).symm⟩

/-! ## Memory safety -/

/-- Both arrays have their size and hold a NUL. -/
structure DmiIdentity.Terminated (dmi : DmiIdentity) : Prop extends dmi.Sized where
  nulProduct : 0 ∈ dmi.product
  nulBoard : 0 ∈ dmi.board

private theorem zero_mem_offer {destination : List UInt8} (h : 0 ∈ destination)
    (s : Option (List UInt8)) : 0 ∈ offer destination s := by
  cases s with
  | none => exact h
  | some s => exact List.mem_append_right _ List.mem_cons_self

theorem DmiIdentity.Terminated.supply {dmi : DmiIdentity} (h : dmi.Terminated)
    (table : List UInt8) (p : ℕ) : (dmi.supply table p).Terminated := by
  refine ⟨h.toSized.supply table p, ?_, ?_⟩
  · unfold DmiIdentity.supply
    split_ifs
    · exact zero_mem_offer h.nulProduct _
    · exact h.nulProduct
    · exact h.nulProduct
  · unfold DmiIdentity.supply
    split_ifs
    · exact h.nulBoard
    · exact zero_mem_offer h.nulBoard _
    · exact h.nulBoard

/-- One pass of the walk does not fault, and goes on behind the structure, inside the table. -/
theorem walkStructure_ok {table : List UInt8} {p : ℕ} {dmi : DmiIdentity}
    (hp : p + smbiosStructureSize ≤ table.length) (hdmi : dmi.Terminated) :
    ∃ dmi' next, walkStructure table p dmi = .ok (dmi', next) ∧ dmi'.Terminated ∧
      ∀ p', next = some p' → p < p' ∧ p' ≤ table.length := by
  by_cases h : Formatted table p
  · obtain ⟨hsome, hnone⟩ := walkStructure_of_formatted h hdmi.toSized
    cases hend : stringSetEnd (table.drop (p + smbiosLength table p)) with
    | none => exact ⟨_, _, hnone hend, hdmi.supply table p, fun p' heq ↦ by contradiction⟩
    | some k =>
      refine ⟨_, _, hsome k hend, hdmi.supply table p, fun p' heq ↦ ?_⟩
      have hlt := stringSetEnd_lt hend
      rw [List.length_drop] at hlt
      split at heq
      · contradiction
      · cases heq
        omega
  · exact ⟨dmi, none, walkStructure_of_not_formatted hp h, hdmi, fun p' heq ↦ by contradiction⟩

/-- The walk ends without a fault: its bound is never reached, since every pass goes on behind
the structure it has seen. -/
theorem walkTable_ok {table : List UInt8} {n p : ℕ} {dmi : DmiIdentity}
    (hn : table.length < p + n) (hle : p ≤ table.length) (hdmi : dmi.Terminated) :
    ∃ dmi', walkTable table n p dmi = .ok dmi' ∧ dmi'.Terminated := by
  induction n generalizing p dmi with
  | zero => omega
  | succ n ih =>
    rw [walkTable]
    split
    · next hp =>
      obtain ⟨dmi', next, hwalk, hdmi', hnext⟩ := walkStructure_ok hp hdmi
      rw [hwalk, ok_bind]
      cases next with
      | none => exact ⟨dmi', rfl, hdmi'⟩
      | some p' =>
        obtain ⟨hlt, hle'⟩ := hnext p' rfl
        exact ih (by omega) hle' hdmi'
    · exact ⟨dmi, rfl, hdmi⟩

theorem touchReadDmiIdentity_ok (entries : List ConfigurationEntry) :
    ∃ dmi, touchReadDmiIdentity entries = .ok dmi ∧ dmi.Terminated := by
  have hunread : DmiIdentity.unread.Terminated := ⟨⟨rfl, rfl⟩, by decide, by decide⟩
  rw [touchReadDmiIdentity]
  cases findTable entries none with
  | none => exact ⟨.unread, rfl, hunread⟩
  | some table =>
    dsimp only
    split
    · exact ⟨.unread, rfl, hunread⟩
    · exact walkTable_ok (by omega) (Nat.zero_le _) hunread

/-- **Reading the identity is memory safe** on any bytes: no access leaves the table or the two
arrays, which stay terminated, and every pass of the walk advances inside the table. -/
theorem touchReadDmiIdentity_safe :
    (∀ entries : List ConfigurationEntry, ∃ dmi, touchReadDmiIdentity entries = .ok dmi ∧
      dmi.Terminated) ∧
    ∀ (table : List UInt8) (p : ℕ) (dmi : DmiIdentity), p + smbiosStructureSize ≤ table.length →
      dmi.Terminated → ∃ dmi' next, walkStructure table p dmi = .ok (dmi', next) ∧
        dmi'.Terminated ∧ ∀ p', next = some p' → p < p' ∧ p' ≤ table.length :=
  ⟨touchReadDmiIdentity_ok, fun _ _ _ hp hdmi ↦ walkStructure_ok hp hdmi⟩

/-- A table with both names, whose last structure ends with it. -/
def namedTable : List UInt8 :=
  [1, 6, 0, 0, 0, 1] ++ asciiBytes "Galileo" ++ [0, 0] ++
  [2, 6, 0, 0, 0, 1] ++ asciiBytes "RC71L" ++ [0, 0] ++ [3, 4, 0, 0, 0, 0]

theorem touchReadDmiIdentity_safe_board :
    (∃ dmi, touchReadDmiIdentity [.smbios3 namedTable] = .ok dmi ∧ dmi.Terminated ∧
      dmi.product.take 8 = asciiBytes "Galileo" ++ [0] ∧
      dmi.board.take 6 = asciiBytes "RC71L" ++ [0]) ∧
    ∃ dmi, walkStructure namedTable 28 .unread = .ok (dmi, some namedTable.length) ∧
      dmi.Terminated := by
  have hnames : (touchReadDmiIdentity [.smbios3 namedTable]).toOption.map (fun dmi ↦
      (dmi.product.take 8, dmi.board.take 6))
      = some (asciiBytes "Galileo" ++ [0], asciiBytes "RC71L" ++ [0]) := by decide +kernel
  have hlast : (walkStructure namedTable 28 .unread).toOption.map Prod.snd
      = some (some namedTable.length) := by decide +kernel
  have hunread : DmiIdentity.unread.Terminated := ⟨⟨rfl, rfl⟩, by decide, by decide⟩
  obtain ⟨dmi, hread, hterminated⟩ := touchReadDmiIdentity_safe.1 [.smbios3 namedTable]
  obtain ⟨dmi', next, hwalk, hterminated', -⟩ :=
    touchReadDmiIdentity_safe.2 namedTable 28 .unread (by decide) hunread
  rw [hread] at hnames
  rw [hwalk] at hlast
  obtain ⟨hproduct, hboard⟩ := Prod.mk.inj (Option.some.inj hnames)
  obtain rfl : next = some namedTable.length := Option.some.inj hlast
  exact ⟨⟨dmi, hread, hterminated, hproduct, hboard⟩, dmi', hwalk, hterminated'⟩

end TouchI2c
