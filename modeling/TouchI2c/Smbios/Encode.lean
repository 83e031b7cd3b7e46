import Mathlib.Data.List.Basic
import TouchI2c.Smbios.Structures

/-!
# Decoding an encoded table

Well-formed SMBIOS structures with their encoding, and the walk over an encoded table. A structure
is its formatted bytes and a list of non-empty strings without NULs; the encoding puts the strings
behind the formatted part, each with its NUL, and one more NUL behind the set. Reading back is then
a matter of counting: the numbered string is the one that was encoded, and the double NUL of a
string set lies at its end.

## Which name is kept

The walk stops as soon as both names are known, and until then a later structure replaces the name
that an earlier one supplied. So each name is the last one among the structures that the walk has
seen, and the walk has seen the structures up to the one that makes both names known. It is the
first name of its type exactly if the names that are seen begin and end alike.
-/

namespace TouchI2c

open CMemory

/-! ## Encoding -/

/-- A well-formed SMBIOS structure. -/
structure SmbiosStructure where
  type : UInt8
  /-- The formatted area behind `Type` and `Length`. -/
  formatted : List UInt8
  strings : List (List UInt8)
  length_ge : smbiosStructureSize ≤ formatted.length + 2
  length_lt : formatted.length + 2 < 256
  nonempty : ∀ s ∈ strings, s ≠ []
  nonzero : ∀ s ∈ strings, ∀ b ∈ s, b ≠ 0

/-- Terminated strings, and the NUL that ends the set. -/
def encodeStringSet (strings : List (List UInt8)) : List UInt8 :=
  strings.flatMap (· ++ [0]) ++ [0]

/-- A string set; without strings it is two NULs. -/
def encodeStrings (strings : List (List UInt8)) : List UInt8 :=
  if strings = [] then [0, 0] else encodeStringSet strings

namespace SmbiosStructure

variable (e : SmbiosStructure)

def encode : List UInt8 :=
  e.type :: UInt8.ofNat (e.formatted.length + 2) :: (e.formatted ++ encodeStrings e.strings)

/-- The string that `ProductName` numbers. -/
def productName : Option (List UInt8) :=
  match e.formatted[smbiosProductNameOffset - 2]? with
  | none => none
  | some number => if number = 0 then none else e.strings[number.toNat - 1]?

/-- The product name of a structure of the type `type`. -/
def nameOf (type : UInt8) : Option (List UInt8) := if e.type = type then e.productName else none

end SmbiosStructure

/-- A well-formed table: structures, and the one that ends it. -/
structure SmbiosTable where
  structures : List SmbiosStructure
  endOfTable : SmbiosStructure
  structures_type : ∀ e ∈ structures, e.type ≠ smbiosTypeEndOfTable
  endOfTable_type : endOfTable.type = smbiosTypeEndOfTable

def SmbiosTable.encode (t : SmbiosTable) : List UInt8 :=
  t.structures.flatMap SmbiosStructure.encode ++ t.endOfTable.encode

/-! ## String sets -/

theorem stringSetEnd_append {s : List UInt8} (hs : s ≠ []) (hnul : ∀ b ∈ s, b ≠ 0)
    (bytes : List UInt8) :
    stringSetEnd (s ++ 0 :: bytes) = (stringSetEnd (0 :: bytes)).map (· + s.length) := by
  induction s with
  | nil => exact absurd rfl hs
  | cons b s ih =>
    have hb : b ≠ 0 := hnul b List.mem_cons_self
    rcases s with _ | ⟨b', s⟩
    · rw [List.cons_append, List.nil_append, stringSetEnd, if_neg fun h ↦ hb h.1]
      rfl
    · have hrest := ih (List.cons_ne_nil _ _) fun c hc ↦ hnul c (List.mem_cons_of_mem _ hc)
      rw [List.cons_append, List.cons_append, stringSetEnd, if_neg fun h ↦ hb h.1,
        ← List.cons_append, hrest, Option.map_map]
      rfl

/-- The double NUL of a string set lies at its end. -/
theorem stringSetEnd_encodeStringSet {strings : List (List UInt8)} (hne : strings ≠ [])
    (hs : ∀ s ∈ strings, s ≠ []) (hnul : ∀ s ∈ strings, ∀ b ∈ s, b ≠ 0) (after : List UInt8) :
    stringSetEnd (encodeStringSet strings ++ after)
      = some ((encodeStringSet strings).length - 2) := by
  induction strings with
  | nil => exact absurd rfl hne
  | cons s strings ih =>
    have hshape : encodeStringSet (s :: strings) ++ after
        = s ++ 0 :: (encodeStringSet strings ++ after) := by
      simp [encodeStringSet]
    have hlength : (encodeStringSet (s :: strings)).length
        = s.length + 1 + (encodeStringSet strings).length := by
      simp [encodeStringSet]
      omega
    have hpos : 0 < s.length := List.length_pos_of_ne_nil (hs s List.mem_cons_self)
    rw [hshape, stringSetEnd_append (hs s List.mem_cons_self) (hnul s List.mem_cons_self), hlength]
    rcases strings with _ | ⟨s', strings⟩
    · -- the NUL of the last string and the one that ends the set
      simp [encodeStringSet, stringSetEnd]
    · have hlong : 2 ≤ (encodeStringSet (s' :: strings)).length := by
        simp [encodeStringSet]
        omega
      obtain ⟨b, bytes, hb⟩ := List.exists_cons_of_ne_nil (hs s' (by simp))
      have hfirst : b ≠ 0 := hnul s' (by simp) b (by simp [hb])
      have hskip : stringSetEnd (0 :: (encodeStringSet (s' :: strings) ++ after))
          = (stringSetEnd (encodeStringSet (s' :: strings) ++ after)).map (· + 1) := by
        simp [encodeStringSet, hb, stringSetEnd, hfirst]
      rw [hskip, ih (List.cons_ne_nil _ _) (fun c hc ↦ hs c (List.mem_cons_of_mem _ hc))
        fun c hc ↦ hnul c (List.mem_cons_of_mem _ hc)]
      simp only [Option.map_some, Option.some.injEq]
      omega

theorem two_le_length_encodeStrings (strings : List (List UInt8)) :
    2 ≤ (encodeStrings strings).length := by
  unfold encodeStrings
  split
  · decide
  · next hne =>
    obtain ⟨s, strings, rfl⟩ := List.exists_cons_of_ne_nil hne
    simp [encodeStringSet]
    omega

theorem stringSetEnd_encodeStrings (e : SmbiosStructure) (after : List UInt8) :
    stringSetEnd (encodeStrings e.strings ++ after)
      = some ((encodeStrings e.strings).length - 2) := by
  unfold encodeStrings
  split
  · rfl
  · next hne => exact stringSetEnd_encodeStringSet hne e.nonempty e.nonzero after

private theorem nthString_zero_cons (k : ℕ) (bytes : List UInt8) :
    nthString k (0 :: bytes) = none := by
  cases k <;> rfl

/-- The numbered string is the one that was encoded. -/
theorem nthString_encodeStringSet {strings : List (List UInt8)} (hs : ∀ s ∈ strings, s ≠ [])
    (hnul : ∀ s ∈ strings, ∀ b ∈ s, b ≠ 0) (k : ℕ) (after : List UInt8) :
    nthString k (encodeStringSet strings ++ after) = strings[k]? := by
  induction strings generalizing k with
  | nil =>
    rw [List.getElem?_nil]
    exact nthString_zero_cons k after
  | cons s strings ih =>
    have hshape : encodeStringSet (s :: strings) ++ after
        = s ++ 0 :: (encodeStringSet strings ++ after) := by
      simp [encodeStringSet]
    have hstring : cString (encodeStringSet (s :: strings) ++ after) = s := by
      rw [hshape, cString_append_zero (hnul s List.mem_cons_self)]
    have hhead : (encodeStringSet (s :: strings) ++ after).head?.getD 0 ≠ 0 := by
      intro hzero
      rw [← cString_eq_nil_iff, hstring] at hzero
      exact hs s List.mem_cons_self hzero
    have hdrop : (encodeStringSet (s :: strings) ++ after).drop (s.length + 1)
        = encodeStringSet strings ++ after := by
      rw [hshape, ← List.drop_drop, List.drop_left, List.drop_one, List.tail_cons]
    rcases k with _ | k
    · rw [nthString, if_neg hhead, hstring]
      rfl
    · rw [nthString, if_neg hhead, hstring, hdrop, List.getElem?_cons_succ]
      exact ih (fun c hc ↦ hs c (List.mem_cons_of_mem _ hc))
        (fun c hc ↦ hnul c (List.mem_cons_of_mem _ hc)) k

theorem nthString_encodeStrings (e : SmbiosStructure) (k : ℕ) (after : List UInt8) :
    nthString k (encodeStrings e.strings ++ after) = e.strings[k]? := by
  unfold encodeStrings
  split
  · next hnil =>
    rw [hnil, List.getElem?_nil]
    exact nthString_zero_cons k _
  · exact nthString_encodeStringSet e.nonempty e.nonzero k after

/-! ## An encoded structure in the table -/

section

variable {table after : List UInt8} {p : ℕ} {e : SmbiosStructure}

theorem SmbiosStructure.length_encode (e : SmbiosStructure) :
    e.encode.length = e.formatted.length + 2 + (encodeStrings e.strings).length := by
  rw [encode, List.length_cons, List.length_cons, List.length_append]
  omega

private theorem getD_of_drop {bytes : List UInt8} (h : table.drop p = bytes) (i : ℕ) :
    table.getD (p + i) 0 = bytes.getD i 0 := by
  rw [← h, List.getD_eq_getElem?_getD, List.getD_eq_getElem?_getD, List.getElem?_drop]

variable (h : table.drop p = e.encode ++ after)

include h

theorem smbiosType_of_encode : smbiosType table p = e.type := getD_of_drop h 0

theorem smbiosLength_of_encode : smbiosLength table p = e.formatted.length + 2 := by
  have hbyte : table.getD (p + 1) 0 = UInt8.ofNat (e.formatted.length + 2) := getD_of_drop h 1
  rw [smbiosLength, hbyte, UInt8.toNat_ofNat']
  exact Nat.mod_eq_of_lt e.length_lt

theorem drop_of_encode : table.drop (p + e.encode.length) = after := by
  rw [← List.drop_drop, h, List.drop_left]

theorem drop_formatted_of_encode :
    table.drop (p + (e.formatted.length + 2)) = encodeStrings e.strings ++ after := by
  rw [← List.drop_drop, h, SmbiosStructure.encode, List.cons_append, List.cons_append,
    List.drop_succ_cons, List.drop_succ_cons, List.append_assoc, List.drop_left]

theorem inside_of_encode : p + e.encode.length ≤ table.length := by
  have hpos : 0 < e.encode.length := by
    rw [e.length_encode]
    omega
  have hlength := congrArg List.length h
  rw [List.length_drop, List.length_append] at hlength
  omega

theorem formatted_of_encode (htype : e.type ≠ smbiosTypeEndOfTable) : Formatted table p := by
  have hinside := inside_of_encode h
  have hge := e.length_ge
  rw [e.length_encode] at hinside
  refine ⟨by omega, ?_, ?_, ?_⟩
  · rw [smbiosType_of_encode h]
    exact htype
  · rw [smbiosLength_of_encode h]
    exact hge
  · rw [smbiosLength_of_encode h]
    omega

theorem productName_of_encode : productName table p = e.productName := by
  have hnumber : table.getD (p + smbiosProductNameOffset) 0
      = (e.formatted ++ (encodeStrings e.strings ++ after)).getD
        (smbiosProductNameOffset - 2) 0 := by
    rw [getD_of_drop h, SmbiosStructure.encode, List.cons_append, List.cons_append,
      List.append_assoc]
    rfl
  rw [productName, SmbiosStructure.productName, hnumber, smbiosLength_of_encode h,
    drop_formatted_of_encode h]
  by_cases hlen : smbiosProductNameOffset < e.formatted.length + 2
  · have hlt : smbiosProductNameOffset - 2 < e.formatted.length := by
      unfold smbiosProductNameOffset at hlen ⊢
      omega
    rw [List.getD_eq_getElem?_getD, List.getElem?_append_left hlt, List.getElem?_eq_getElem hlt,
      Option.getD_some]
    dsimp only
    by_cases hzero : e.formatted[smbiosProductNameOffset - 2] = 0
    · rw [if_neg fun hs ↦ hs.2 hzero, if_pos hzero]
    · rw [if_pos ⟨hlen, hzero⟩, if_neg hzero]
      exact nthString_encodeStrings e _ after
  · -- the formatted area is too short for a `ProductName`
    have hle : e.formatted.length ≤ smbiosProductNameOffset - 2 := by
      unfold smbiosProductNameOffset at hlen ⊢
      omega
    rw [if_neg fun hs ↦ hlen hs.1, List.getElem?_eq_none hle]

end

/-! ## The walk over an encoded table -/

/-- The names after a structure. -/
def DmiIdentity.take (dmi : DmiIdentity) (e : SmbiosStructure) : DmiIdentity :=
  ⟨offer dmi.product (e.nameOf smbiosTypeSystemInformation),
    offer dmi.board (e.nameOf smbiosTypeBaseboardInformation)⟩

/-- The names after the structures, until both are known. -/
def DmiIdentity.collect (dmi : DmiIdentity) : List SmbiosStructure → DmiIdentity
  | [] => dmi
  | e :: es => if (dmi.take e).Known then dmi.take e else (dmi.take e).collect es

theorem supply_of_encode {table after : List UInt8} {p : ℕ} {e : SmbiosStructure}
    (h : table.drop p = e.encode ++ after) (dmi : DmiIdentity) :
    dmi.supply table p = dmi.take e := by
  rw [DmiIdentity.supply, DmiIdentity.take, smbiosType_of_encode h, productName_of_encode h,
    SmbiosStructure.nameOf, SmbiosStructure.nameOf]
  by_cases hsystem : e.type = smbiosTypeSystemInformation
  · have hne : smbiosTypeSystemInformation ≠ smbiosTypeBaseboardInformation := by decide
    rw [hsystem, if_pos rfl, if_pos rfl, if_neg hne]
    rfl
  · rw [if_neg hsystem, if_neg hsystem]
    split <;> rfl

theorem DmiIdentity.Sized.take {dmi : DmiIdentity} (h : dmi.Sized) (e : SmbiosStructure) :
    (dmi.take e).Sized := by
  have hproduct : 0 < dmi.product.length := by rw [h.product]; decide
  have hboard : 0 < dmi.board.length := by rw [h.board]; decide
  exact ⟨(length_offer hproduct _).trans h.product, (length_offer hboard _).trans h.board⟩

/-- The walk over encoded structures and an end-of-table structure collects the names. -/
theorem walkTable_encode {table after : List UInt8} {es : List SmbiosStructure}
    {last : SmbiosStructure} {n p : ℕ} {dmi : DmiIdentity}
    (htypes : ∀ e ∈ es, e.type ≠ smbiosTypeEndOfTable) (hlast : last.type = smbiosTypeEndOfTable)
    (htable : table.drop p = es.flatMap SmbiosStructure.encode ++ (last.encode ++ after))
    (hdmi : dmi.Sized) (hn : table.length < p + n) :
    walkTable table n p dmi = .ok (dmi.collect es) := by
  -- on the structures before the last one; each moves the walk on by its own length
  induction es generalizing n p dmi with
  | nil =>
    have hinside := inside_of_encode htable
    have hge := last.length_ge
    rw [last.length_encode] at hinside
    rcases n with _ | n
    · omega
    have hstop : ¬Formatted table p := by
      intro hformatted
      apply hformatted.type
      rw [smbiosType_of_encode htable, hlast]
    rw [walkTable, if_pos (by omega), walkStructure_of_not_formatted (by omega) hstop]
    rfl
  | cons e es ih =>
    rw [List.flatMap_cons, List.append_assoc] at htable
    have hformatted := formatted_of_encode htable (htypes e List.mem_cons_self)
    have hinside := inside_of_encode htable
    have htwo := two_le_length_encodeStrings e.strings
    have hlength := e.length_encode
    have hend : stringSetEnd (table.drop (p + smbiosLength table p))
        = some ((encodeStrings e.strings).length - 2) := by
      rw [smbiosLength_of_encode htable, drop_formatted_of_encode htable]
      exact stringSetEnd_encodeStrings e _
    have hnext : p + smbiosLength table p + ((encodeStrings e.strings).length - 2) + 2
        = p + e.encode.length := by
      rw [smbiosLength_of_encode htable]
      omega
    rcases n with _ | n
    · omega
    have hfuel : table.length < p + e.encode.length + n := by omega
    rw [walkTable, if_pos hformatted.header, (walkStructure_of_formatted hformatted hdmi).1 _ hend,
      ok_bind, supply_of_encode htable, hnext, DmiIdentity.collect]
    by_cases hknown : (dmi.take e).Known
    · rw [if_pos hknown, if_pos hknown]
      rfl
    · rw [if_neg hknown, if_neg hknown]
      exact ih (fun e' he' ↦ htypes e' (List.mem_cons_of_mem _ he')) (drop_of_encode htable)
        (hdmi.take e) hfuel

/-! ## The last name -/

/-- The product names that the structures of the type `type` supply, in order. -/
def names (type : UInt8) (es : List SmbiosStructure) : List (List UInt8) :=
  es.filterMap (SmbiosStructure.nameOf · type)

/-- The number of structures up to the first that supplies a name of the type `type`, and one more
than there are if none does. -/
def firstNamed (type : UInt8) (es : List SmbiosStructure) : ℕ :=
  es.findIdx (fun e ↦ (e.nameOf type).isSome) + 1

/-- The structures up to the one with which both names are known. -/
def SmbiosTable.seen (t : SmbiosTable) : List SmbiosStructure :=
  t.structures.take (max (firstNamed smbiosTypeSystemInformation t.structures)
    (firstNamed smbiosTypeBaseboardInformation t.structures))

theorem SmbiosStructure.nameOf_ne_nil {e : SmbiosStructure} {type : UInt8} {s : List UInt8}
    (h : e.nameOf type = some s) : s ≠ [] ∧ ∀ b ∈ s, b ≠ 0 := by
  have hmem : s ∈ e.strings := by
    unfold nameOf productName at h
    split at h
    swap
    · exact absurd h (by simp)
    split at h
    · exact absurd h (by simp)
    · split at h
      · exact absurd h (by simp)
      · exact List.mem_of_getElem? h
  exact ⟨e.nonempty s hmem, e.nonzero s hmem⟩

/-- An array after a structure has been passed: the name it supplied, cut to fit. -/
theorem cString_offer_nameOf {destination : List UInt8} (h : destination.length = 32)
    (e : SmbiosStructure) (type : UInt8) : cString (offer destination (e.nameOf type))
      = ((e.nameOf type).map (List.take 31)).getD (cString destination) := by
  cases hname : e.nameOf type with
  | none => rfl
  | some s =>
    have hnul := (SmbiosStructure.nameOf_ne_nil hname).2
    rw [offer, cString_storeString fun b hb ↦ hnul b (List.mem_of_mem_take hb), h]
    rfl

theorem cString_offer_nameOf_ne_nil {destination : List UInt8} (h : destination.length = 32)
    (e : SmbiosStructure) (type : UInt8) : cString (offer destination (e.nameOf type)) ≠ [] ↔
      cString destination ≠ [] ∨ (e.nameOf type).isSome = true := by
  rw [cString_offer_nameOf h]
  cases hname : e.nameOf type with
  | none => simp
  | some s => simpa using (SmbiosStructure.nameOf_ne_nil hname).1

/-- How many structures the walk sees before it knows a name that it knows already or not. -/
def toName (known : Prop) [Decidable known] (type : UInt8) (es : List SmbiosStructure) : ℕ :=
  if known then 0 else firstNamed type es

theorem toName_cons {known known' : Prop} [Decidable known] [Decidable known'] {type : UInt8}
    {e : SmbiosStructure} (h : known' ↔ known ∨ (e.nameOf type).isSome = true)
    (es : List SmbiosStructure) : toName known type (e :: es) - 1 = toName known' type es := by
  unfold toName firstNamed
  rw [List.findIdx_cons]
  by_cases hknown : known
  · rw [if_pos hknown, if_pos (h.mpr (.inl hknown))]
  · by_cases hsome : (e.nameOf type).isSome = true
    · rw [if_neg hknown, if_pos (h.mpr (.inr hsome)), hsome]
      rfl
    · rw [if_neg hknown, if_neg fun h' ↦ (h.mp h').elim hknown hsome]
      rw [Bool.not_eq_true] at hsome
      rw [hsome]
      rfl

theorem toName_pos {known : Prop} [Decidable known] (h : ¬known) (type : UInt8)
    (es : List SmbiosStructure) : 0 < toName known type es := by
  rw [toName, if_neg h]
  exact Nat.succ_pos _

/-- The name that an array holds after the names `ss` have been stored in it. -/
def lastName (ss : List (List UInt8)) (before : List UInt8) : List UInt8 :=
  (ss.getLast?.map (List.take 31)).getD before

theorem lastName_nil (ss : List (List UInt8)) : lastName ss [] = (ss.getLast?.getD []).take 31 := by
  rw [lastName]
  cases ss.getLast? <;> rfl

theorem lastName_names_cons (e : SmbiosStructure) (es : List SmbiosStructure) (type : UInt8)
    {destination : List UInt8} (h : destination.length = 32) :
    lastName (names type (e :: es)) (cString destination)
      = lastName (names type es) (cString (offer destination (e.nameOf type))) := by
  rw [cString_offer_nameOf h, names, names, List.filterMap_cons]
  cases e.nameOf type with
  | none => rfl
  | some s =>
    rw [lastName, lastName, List.getLast?_cons]
    cases (es.filterMap (SmbiosStructure.nameOf · type)).getLast? <;> rfl

/-- Collecting stops with the structure that makes both names known, and keeps the last ones. -/
theorem collect_names {dmi : DmiIdentity} (hdmi : dmi.Sized) (hunknown : ¬dmi.Known)
    {es : List SmbiosStructure} {n : ℕ}
    (hn : n = max (toName (dmi.productName ≠ []) smbiosTypeSystemInformation es)
      (toName (dmi.boardName ≠ []) smbiosTypeBaseboardInformation es)) :
    (dmi.collect es).productName
        = lastName (names smbiosTypeSystemInformation (es.take n)) dmi.productName ∧
      (dmi.collect es).boardName
        = lastName (names smbiosTypeBaseboardInformation (es.take n)) dmi.boardName := by
  induction es generalizing dmi n with
  | nil =>
    rw [List.take_nil]
    exact ⟨rfl, rfl⟩
  | cons e es ih =>
    have hproduct : toName (dmi.productName ≠ []) smbiosTypeSystemInformation (e :: es) - 1
        = toName ((dmi.take e).productName ≠ []) smbiosTypeSystemInformation es :=
      toName_cons (cString_offer_nameOf_ne_nil hdmi.product e _) es
    have hboard : toName (dmi.boardName ≠ []) smbiosTypeBaseboardInformation (e :: es) - 1
        = toName ((dmi.take e).boardName ≠ []) smbiosTypeBaseboardInformation es :=
      toName_cons (cString_offer_nameOf_ne_nil hdmi.board e _) es
    have hpos : 0 < n := by
      rcases not_and_or.mp hunknown with h | h
      · have := toName_pos h smbiosTypeSystemInformation (e :: es)
        omega
      · have := toName_pos h smbiosTypeBaseboardInformation (e :: es)
        omega
    obtain ⟨m, rfl⟩ : ∃ m, n = m + 1 := ⟨n - 1, by omega⟩
    have hm : m = max (toName ((dmi.take e).productName ≠ []) smbiosTypeSystemInformation es)
        (toName ((dmi.take e).boardName ≠ []) smbiosTypeBaseboardInformation es) := by omega
    rw [List.take_succ_cons, DmiIdentity.collect, lastName_names_cons _ _ _ hdmi.product,
      lastName_names_cons _ _ _ hdmi.board]
    by_cases hknown : (dmi.take e).Known
    · -- both names are known: nothing behind this structure is seen
      have hzero : m = 0 := by
        rw [hm, toName, toName, if_pos hknown.1, if_pos hknown.2]
        rfl
      rw [if_pos hknown, hzero, List.take_zero]
      exact ⟨rfl, rfl⟩
    · rw [if_neg hknown]
      exact ih (hdmi.take e) hknown hm

theorem head?_filterMap_take {α β : Type*} (f : α → Option β) {xs : List α} {n : ℕ}
    (hn : xs.findIdx (fun x ↦ (f x).isSome) < n) :
    ((xs.take n).filterMap f).head? = (xs.filterMap f).head? := by
  induction xs generalizing n with
  | nil => rw [List.take_nil]
  | cons x xs ih =>
    obtain ⟨n, rfl⟩ : ∃ m, n = m + 1 := ⟨n - 1, by omega⟩
    rw [List.take_succ_cons, List.filterMap_cons, List.filterMap_cons]
    rw [List.findIdx_cons] at hn
    cases hx : f x with
    | some y => rfl
    | none =>
      rw [hx] at hn
      exact ih (Nat.lt_of_succ_lt_succ hn)

/-- The first names are among the ones that the walk sees. -/
theorem head?_names_seen (t : SmbiosTable) :
    (names smbiosTypeSystemInformation t.seen).head?
        = (names smbiosTypeSystemInformation t.structures).head? ∧
      (names smbiosTypeBaseboardInformation t.seen).head?
        = (names smbiosTypeBaseboardInformation t.structures).head? := by
  constructor
  · apply head?_filterMap_take
    exact Nat.lt_of_lt_of_le (Nat.lt_succ_self _) (Nat.le_max_left _ _)
  · apply head?_filterMap_take
    exact Nat.lt_of_lt_of_le (Nat.lt_succ_self _) (Nat.le_max_right _ _)

/-! ## Reading the identity -/

/-- The names of the type `type` among the structures that the walk sees begin and end alike, as
far as an array holds them. -/
def SmbiosTable.Settled (t : SmbiosTable) (type : UInt8) : Prop :=
  ((names type t.seen).getLast?.getD []).take 31 = ((names type t.seen).head?.getD []).take 31

/-- **Decoding an encoded table**: each name is the last one that the structures of its type
supply, up to the structure with which both names are known, and empty if there is none. It is the
first one exactly if the names that are seen begin and end alike. -/
theorem touchReadDmiIdentity_encode (t : SmbiosTable) (after : List UInt8)
    {entries : List ConfigurationEntry} (h : findTable entries none = some (t.encode ++ after)) :
    ∃ dmi, touchReadDmiIdentity entries = .ok dmi ∧
      dmi.productName = ((names smbiosTypeSystemInformation t.seen).getLast?.getD []).take 31 ∧
      dmi.boardName
        = ((names smbiosTypeBaseboardInformation t.seen).getLast?.getD []).take 31 ∧
      (dmi.productName = ((names smbiosTypeSystemInformation t.structures).head?.getD []).take 31 ↔
        t.Settled smbiosTypeSystemInformation) ∧
      (dmi.boardName = ((names smbiosTypeBaseboardInformation t.structures).head?.getD []).take 31 ↔
        t.Settled smbiosTypeBaseboardInformation) := by
  have hunread : DmiIdentity.unread.Sized := ⟨rfl, rfl⟩
  have hwalk : walkTable (t.encode ++ after) ((t.encode ++ after).length + 1) 0 .unread
      = .ok (DmiIdentity.unread.collect t.structures) :=
    walkTable_encode t.structures_type t.endOfTable_type (List.append_assoc ..) hunread (by omega)
  have hlength : (t.encode ++ after).length ≠ 0 := by
    have := t.endOfTable.length_encode
    rw [List.length_append, SmbiosTable.encode, List.length_append]
    omega
  have hread : touchReadDmiIdentity entries = .ok (DmiIdentity.unread.collect t.structures) := by
    rw [touchReadDmiIdentity, h]
    dsimp only
    rw [if_neg hlength, hwalk]
  obtain ⟨hproduct, hboard⟩ := @collect_names .unread hunread (by decide) t.structures _ rfl
  replace hproduct := hproduct.trans (lastName_nil _)
  replace hboard := hboard.trans (lastName_nil _)
  obtain ⟨hsystem, hbaseboard⟩ := head?_names_seen t
  refine ⟨_, hread, hproduct, hboard, ?_, ?_⟩
  · rw [hproduct, ← hsystem]
    rfl
  · rw [hboard, ← hbaseboard]
    rfl

/-! ### Two systems before a board -/

/-- A structure with the product name `s` only. -/
def named (type : UInt8) (s : List UInt8) (hs : s ≠ []) (hnul : ∀ b ∈ s, b ≠ 0) :
    SmbiosStructure where
  type := type
  formatted := [0, 0, 0, 1]
  strings := [s]
  length_ge := by decide
  length_lt := by decide
  nonempty := by simpa using hs
  nonzero := by simpa using hnul

/-- Two systems and a board. -/
def twoSystems : SmbiosTable where
  structures := [named 1 [0x41] (by decide) (by simp), named 1 [0x42] (by decide) (by simp),
    named 2 [0x43] (by decide) (by simp)]
  endOfTable := named 127 [0x44] (by decide) (by simp)
  structures_type := by decide
  endOfTable_type := rfl

theorem touchReadDmiIdentity_encode_twoSystems :
    ∃ dmi, touchReadDmiIdentity [.smbios3 (some (twoSystems.encode ++ []))] = .ok dmi ∧
      dmi.productName = [0x42] ∧ dmi.boardName = [0x43] := by
  have htable : findTable [.smbios3 (some (twoSystems.encode ++ []))] none
      = some (twoSystems.encode ++ []) := rfl
  obtain ⟨dmi, hread, hproduct, hboard, -⟩ := touchReadDmiIdentity_encode twoSystems [] htable
  exact ⟨dmi, hread, hproduct, hboard⟩

/-- The second system replaces the name of the first. -/
theorem second_system_renames :
    ¬∀ (t : SmbiosTable) (entries : List ConfigurationEntry),
      findTable entries none = some t.encode → ∃ dmi, touchReadDmiIdentity entries = .ok dmi ∧
        dmi.productName
          = ((names smbiosTypeSystemInformation t.structures).head?.getD []).take 31 ∧
        dmi.boardName
          = ((names smbiosTypeBaseboardInformation t.structures).head?.getD []).take 31 := by
  intro hfirst
  obtain ⟨dmi, hread, hproduct, -⟩ := hfirst twoSystems [.smbios3 (some twoSystems.encode)] rfl
  have hsecond : (touchReadDmiIdentity [.smbios3 (some twoSystems.encode)]).map
      DmiIdentity.productName = .ok [0x42] := by decide +kernel
  rw [hread] at hsecond
  have hnames : dmi.productName = [0x42] := Except.ok.inj hsecond
  rw [hproduct] at hnames
  exact absurd hnames (by decide)

end TouchI2c
