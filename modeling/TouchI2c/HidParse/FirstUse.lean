import TouchI2c.HidParse.Spec

/-!
# Which fields the parser takes

What the loop takes from a report, for every report length that the parser admits: the first field
with each touch usage, as the loop counts usages and offsets. A field remembers the Input item that
it comes from.

## The invariant

`RidState.Takes` relates the record of a report to the list of fields that the loop has seen: each
of the three offsets of the record is that of the first field in the list with its usage, if there
is one. A field behind all those keeps it, so the loop over the fields of an item does, and the loop
over the items.

An offset from `2 ^ 31` on reads as a negative `INT32`, which is as good as none, so a report whose
first field with a usage lies there is never selected. That is why the selection test speaks of
offsets below `2 ^ 31` and the fields themselves do not.
-/

namespace TouchI2c

open CMemory BitField

namespace HidParse

/-! ## Uses -/

/-- A field as the loop sees it: its usage, its bit offset and the Input item it belongs to. -/
structure Use where
  usage : Option ℕ
  off : ℕ
  item : InputItem

/-- The `k`-th field of an item whose first bit is at `start`. -/
def InputItem.useAt (d : InputItem) (start k : ℕ) : Use :=
  ⟨d.loopUsage k, start + k * d.g.reportSize, d⟩

/-- The fields of an item whose first bit is at `start`. -/
def InputItem.uses (d : InputItem) (start : ℕ) : List Use :=
  (List.range d.g.reportCount).map (d.useAt start)

/-- The fields of Input items whose first bit is at `start`. -/
def usesFrom : ℕ → List InputItem → List Use
  | _, [] => []
  | start, d :: ds => d.uses start ++ usesFrom (start + d.bits) ds

/-- The three fields that a record keeps. -/
inductive Target where
  | tip
  | x
  | y
  deriving DecidableEq

def Target.usage : Target → ℕ
  | .tip => usageTipSwitch
  | .x => usageX
  | .y => usageY

/-- Where the record keeps a field; negative if it does not. -/
def RidState.off (r : RidState) : Target → ℤ
  | .tip => r.tipOff
  | .x => r.xOff
  | .y => r.yOff

/-- The size and the logical maximum that the record keeps with a field. -/
def RidState.extent (r : RidState) : Target → Option (ℕ × ℕ)
  | .tip => none
  | .x => some (r.xBits, r.xMax)
  | .y => some (r.yBits, r.yMax)

/-- The size and the logical maximum of a field. -/
def Use.extent (u : Use) : Target → Option (ℕ × ℕ)
  | .tip => none
  | .x => some (u.item.g.reportSize, resolveLogicalMax u.item.g)
  | .y => some (u.item.g.reportSize, resolveLogicalMax u.item.g)

/-- The first field with the usage of a target. -/
def firstUse (target : Target) (uses : List Use) : Option Use :=
  uses.find? (·.usage = some target.usage)

theorem firstUse_append (target : Target) (uses uses' : List Use) :
    firstUse target (uses ++ uses') = (firstUse target uses).or (firstUse target uses') := by
  rw [firstUse, List.find?_append, firstUse, firstUse]

theorem usesFrom_append (start : ℕ) (ds ds' : List InputItem) :
    usesFrom start (ds ++ ds') = usesFrom start ds ++ usesFrom (start + totalBits ds) ds' := by
  induction ds generalizing start with
  | nil => rfl
  | cons d ds ih =>
    have htotal : totalBits (d :: ds) = d.bits + totalBits ds := by
      rw [totalBits, List.map_cons, List.sum_cons, totalBits]
    rw [List.cons_append, usesFrom, usesFrom, ih, htotal, List.append_assoc, Nat.add_assoc]

theorem InputItem.off_lt_of_mem_uses {d : InputItem} (hsize : 1 ≤ d.g.reportSize) {start : ℕ}
    {u : Use} (h : u ∈ d.uses start) :
    start ≤ u.off ∧ u.off < start + d.bits ∧ u.item = d := by
  obtain ⟨k, hk, rfl⟩ := List.mem_map.mp h
  have hlt : (k + 1) * d.g.reportSize ≤ d.g.reportCount * d.g.reportSize :=
    Nat.mul_le_mul_right _ (List.mem_range.mp hk)
  rw [Nat.succ_mul, Nat.mul_comm d.g.reportCount] at hlt
  refine ⟨Nat.le_add_right _ _, ?_, rfl⟩
  rw [InputItem.bits]
  dsimp only [InputItem.useAt]
  omega

theorem off_lt_of_mem_usesFrom {ds : List InputItem} (hsize : ∀ d ∈ ds, 1 ≤ d.g.reportSize)
    {start : ℕ} {u : Use} (h : u ∈ usesFrom start ds) :
    start ≤ u.off ∧ u.off < start + totalBits ds := by
  induction ds generalizing start with
  | nil => exact absurd h List.not_mem_nil
  | cons d ds ih =>
    have htotal : totalBits (d :: ds) = d.bits + totalBits ds := by
      rw [totalBits, List.map_cons, List.sum_cons, totalBits]
    rw [htotal]
    rcases List.mem_append.mp h with hd | hds
    · obtain ⟨hle, hlt, -⟩ := InputItem.off_lt_of_mem_uses (hsize d List.mem_cons_self) hd
      omega
    · obtain ⟨hle, hlt⟩ := ih (fun d' hd' ↦ hsize d' (List.mem_cons_of_mem _ hd')) hds
      omega

/-! ## The record of a report -/

/-- The record after one field. -/
def RidState.take (r : RidState) (u : Use) : RidState :=
  match u.usage with
  | none => r
  | some usage => r.assign u.item.g usage u.off

/-- The record keeps the first field with each touch usage, unless that lies too far. -/
structure RidState.Takes (r : RidState) (uses : List Use) : Prop where
  found : ∀ target, 0 ≤ r.off target ↔ ∃ u, firstUse target uses = some u ∧ u.off < 2 ^ 31
  kept : ∀ target u, firstUse target uses = some u → u.off < 2 ^ 31 →
    r.off target = u.off ∧ r.extent target = u.extent target

theorem RidState.take_target (r : RidState) (u : Use) (target : Target) :
    (u.usage = some target.usage ∧ r.off target < 0 →
      (r.take u).off target = toInt32 u.off ∧ (r.take u).extent target = u.extent target) ∧
    (¬(u.usage = some target.usage ∧ r.off target < 0) →
      (r.take u).off target = r.off target ∧ (r.take u).extent target = r.extent target) := by
  unfold RidState.take
  cases u.usage with
  | none => simp
  | some usage =>
    dsimp only
    rw [Option.some_inj]
    unfold RidState.assign
    cases target <;> simp only [RidState.off, RidState.extent, Use.extent, Target.usage] <;>
      split_ifs <;> simp_all [usageTipSwitch, usageX, usageY]

theorem RidState.Takes.take {r : RidState} {uses : List Use} (h : r.Takes uses) {u : Use}
    (hlast : ∀ u' ∈ uses, u'.off ≤ u.off) (hoff : u.off < u32) :
    (r.take u).Takes (uses ++ [u]) := by
  have hfirst (target : Target) : firstUse target (uses ++ [u])
      = (firstUse target uses).or (if u.usage = some target.usage then some u else none) := by
    rw [firstUse_append, firstUse, firstUse, List.find?_singleton]
    simp only [decide_eq_true_eq]
  have hboth (target : Target) :
      (0 ≤ (r.take u).off target ↔ ∃ u', firstUse target (uses ++ [u]) = some u' ∧
        u'.off < 2 ^ 31) ∧
      ∀ u', firstUse target (uses ++ [u]) = some u' → u'.off < 2 ^ 31 →
        (r.take u).off target = u'.off ∧ (r.take u).extent target = u'.extent target := by
    rw [hfirst]
    have hfound := h.found target
    have hkept := h.kept target
    by_cases hset : u.usage = some target.usage ∧ r.off target < 0
    · obtain ⟨hoff', hextent⟩ := (r.take_target u target).1 hset
      rw [if_pos hset.1, hoff', hextent, toInt32_nonneg_iff hoff]
      rcases hnone : firstUse target uses with _ | u'
      · constructor
        · simp
        · rintro _ ⟨⟩ hlt
          exact ⟨toInt32_of_lt hlt, rfl⟩
      · -- the first field with this usage lies too far, and so does this one
        have hfar : ¬u'.off < 2 ^ 31 := by
          intro hlt
          have := hfound.mpr ⟨u', hnone, hlt⟩
          omega
        have hle := hlast u' (List.mem_of_find?_eq_some hnone)
        constructor
        · constructor
          · intro hlt
            omega
          · rintro ⟨_, ⟨⟩, hlt⟩
            exact absurd hlt hfar
        · rintro _ ⟨⟩ hlt
          exact absurd hlt hfar
    · obtain ⟨hoff', hextent⟩ := (r.take_target u target).2 hset
      have hsame : (firstUse target uses).or (if u.usage = some target.usage then some u else none)
          = firstUse target uses := by
        by_cases husage : u.usage = some target.usage
        · obtain ⟨u', hu', -⟩ := hfound.mp (Int.not_lt.mp fun hneg ↦ hset ⟨husage, hneg⟩)
          rw [hu', Option.some_or]
        · rw [if_neg husage, Option.or_none]
      rw [hoff', hextent, hsame]
      exact ⟨hfound, hkept⟩
  exact ⟨fun target ↦ (hboth target).1, fun target ↦ (hboth target).2⟩

theorem foldl_field_eq_take (d : InputItem) (r : RidState) (n : ℕ) :
    (List.range n).foldl d.field r
        = ((List.range n).map (d.useAt r.bitPos)).foldl RidState.take r ∧
      ((List.range n).foldl d.field r).bitPos = r.bitPos := by
  induction n with
  | zero => exact ⟨rfl, rfl⟩
  | succ n ih =>
    obtain ⟨hfold, hpos⟩ := ih
    rw [List.range_succ, List.map_append, List.foldl_append, List.foldl_append, ← hfold,
      List.map_singleton, List.foldl_cons, List.foldl_cons, List.foldl_nil, List.foldl_nil,
      InputItem.field_bitPos]
    refine ⟨?_, hpos⟩
    rw [InputItem.field, hpos]
    rfl

private theorem foldl_take_uses {d : InputItem} (hsize : 1 ≤ d.g.reportSize) {start n : ℕ}
    {r : RidState} {uses : List Use} (h : r.Takes uses) (hbefore : ∀ u ∈ uses, u.off < start)
    (hend : start + n * d.g.reportSize < u32) :
    (((List.range n).map (d.useAt start)).foldl RidState.take r).Takes
      (uses ++ (List.range n).map (d.useAt start)) := by
  induction n with
  | zero => simpa using h
  | succ n ih =>
    rw [Nat.succ_mul] at hend
    rw [List.range_succ, List.map_append, List.foldl_append, List.map_singleton, List.foldl_cons,
      List.foldl_nil, ← List.append_assoc]
    apply (ih (by omega)).take
    · intro u hu
      rcases List.mem_append.mp hu with hu | hu
      · have := hbefore u hu
        dsimp only [InputItem.useAt]
        omega
      · obtain ⟨k, hk, rfl⟩ := List.mem_map.mp hu
        exact Nat.add_le_add_left (Nat.mul_le_mul_right _ (List.mem_range.mp hk).le) _
    · dsimp only [InputItem.useAt]
      omega

/-- The record takes the first field with each touch usage, as the loop sees them. -/
abbrev RidState.Reads (r : RidState) (maxReportBits : ℕ) (ds : List InputItem) : Prop :=
  r.Knows (fun r ds ↦ r.Takes (usesFrom 0 ds)) maxReportBits ds

private theorem freshRecord_takes (id : UInt8) : (freshRecord id).Takes (usesFrom 0 []) := by
  refine ⟨fun target ↦ ?_, fun target u hu ↦ absurd hu (by simp [firstUse, usesFrom])⟩
  have hneg : ¬0 ≤ (freshRecord id).off target := by
    cases target <;> exact Int.not_le.mpr (Int.negSucc_lt_zero 0)
  simp [hneg, firstUse, usesFrom]

theorem foldl_absorb_reads {maxReportBits : ℕ} (hmax : maxReportBits < u32) (id : UInt8)
    (ds : List InputItem) :
    (ds.foldl (absorb maxReportBits) (freshRecord id)).Reads maxReportBits ds := by
  refine @foldl_absorb_knows _ _ _ (fun _ ↦ True) id (freshRecord_takes id)
    (fun r ds d _ hds hfits hpos htakes ↦ ?_) fun _ _ ↦ trivial
  have hsize := hfits.1
  have hbits := hfits.2.2
  have huses : usesFrom 0 (ds ++ [d]) = usesFrom 0 ds ++ d.uses r.bitPos := by
    rw [usesFrom_append, Nat.zero_add, hpos, usesFrom, usesFrom, List.append_nil]
  have hbefore : ∀ u ∈ usesFrom 0 ds, u.off < r.bitPos := by
    intro u hu
    have := (off_lt_of_mem_usesFrom (fun d' hd' ↦ (hds.1 d' hd').1) hu).2
    omega
  have htakes' := @foldl_take_uses d hsize _ d.g.reportCount _ _ htakes hbefore (by
    rw [InputItem.bits, Nat.mul_comm] at hbits
    omega)
  rw [← (foldl_field_eq_take d r _).1] at htakes'
  rw [huses]
  refine ⟨fun target ↦ ?_, fun target ↦ ?_⟩
  · exact Iff.trans (by cases target <;> rfl) (htakes'.found target)
  · intro u hu hlt
    obtain ⟨hoff, hextent⟩ := htakes'.kept target u hu hlt
    cases target <;> exact ⟨hoff, hextent⟩

/-! ## The selected report -/

/-- The Input items of a report have a size and a count, fit in a payload and have a field with
each touch usage. -/
structure IsTouchReport (ds : List InputItem) (payload : ℕ) : Prop where
  nonempty : ∀ d ∈ ds, 1 ≤ d.g.reportSize ∧ 1 ≤ d.g.reportCount
  fits : totalBits ds ≤ payload
  uses : ∀ target, ∃ u, firstUse target (usesFrom 0 ds) = some u ∧ u.off < 2 ^ 31

/-- What the selection test says about the record of some Input items. -/
theorem RidState.Reads.selectable_iff {r : RidState} {maxReportBits payload : ℕ}
    {ds : List InputItem} (h : r.Reads maxReportBits ds) (hplaced : r.Placed r.bitPos)
    (hpayload : payload ≤ maxReportBits) :
    r.selectable payload = true ↔ IsTouchReport ds payload := by
  rw [r.selectable_iff]
  constructor
  · rintro ⟨-, hover, ht, hx, hy, hbits, -⟩
    have hfit := h.overflowed.mp hover
    refine ⟨hfit.1, by rwa [← h.bitPos hfit], fun target ↦ ((h.kept hfit).found target).mp ?_⟩
    cases target
    · exact ht
    · exact hx
    · exact hy
  · rintro ⟨hne, hbits, huses⟩
    have hfit : AllFit maxReportBits ds := ⟨hne, hbits.trans hpayload⟩
    have hoff (target : Target) : 0 ≤ r.off target :=
      ((h.kept hfit).found target).mpr (huses target)
    rw [← h.bitPos hfit] at hbits
    exact ⟨h.used, h.overflowed.mpr hfit, hoff .tip, hoff .x, hoff .y, hbits,
      (hplaced.tip (hoff .tip)).trans hbits, (hplaced.x (hoff .x)).1.trans hbits,
      (hplaced.y (hoff .y)).1.trans hbits⟩

section

variable (desc : List UInt8)

/-- The Input items that the parser reads. -/
def readItems : List InputItem := inputItems .source .init (shortItems desc)

/-- The Input items that the parser reads for a report. -/
def readItemsOf (id : UInt8) : List InputItem := (readItems desc).filter (·.reportId = id)

/-- The report is the first touch report among the first 16 reports. -/
def Selected (maxInputLength : ℕ) (id : UInt8) : Prop :=
  ∃ before after,
    (Keyed.keys InputItem.reportId (readItems desc)).take maxReportIds = before ++ id :: after ∧
      (∀ id' ∈ before, ¬IsTouchReport (readItemsOf desc id')
        (payloadBits maxInputLength (hasReportIdItem desc))) ∧
      IsTouchReport (readItemsOf desc id) (payloadBits maxInputLength (hasReportIdItem desc))

end

end HidParse

/-- Where a layout says that a field lies. -/
def HidTouchLayout.off (layout : HidTouchLayout) : HidParse.Target → ℕ
  | .tip => layout.tipBitOffset
  | .x => layout.xBitOffset
  | .y => layout.yBitOffset

/-- The size and the logical maximum that a layout gives a field. -/
def HidTouchLayout.extent (layout : HidTouchLayout) : HidParse.Target → Option (ℕ × ℕ)
  | .tip => none
  | .x => some (layout.xBitSize, layout.xLogicalMax)
  | .y => some (layout.yBitSize, layout.yLogicalMax)

namespace HidParse

theorem Selected.unique {desc : List UInt8} {maxInputLength : ℕ} {id id' : UInt8}
    (h : Selected desc maxInputLength id) (h' : Selected desc maxInputLength id') : id = id' := by
  obtain ⟨before, after, heq, hnot, htouch⟩ := h
  obtain ⟨before', after', heq', hnot', htouch'⟩ := h'
  rw [heq] at heq'
  rcases List.append_eq_append_iff.mp heq' with ⟨mid, rfl, hmid⟩ | ⟨mid, rfl, hmid⟩
  · rcases mid with _ | ⟨b, mid⟩
    · exact (List.cons.inj hmid).1
    · rw [List.cons_append, List.cons.injEq] at hmid
      exact absurd htouch (hnot' id (by rw [hmid.1]; simp))
  · rcases mid with _ | ⟨b, mid⟩
    · exact (List.cons.inj hmid).1.symm
    · rw [List.cons_append, List.cons.injEq] at hmid
      exact absurd htouch' (hnot id' (by rw [hmid.1]; simp))

/-- **What a successful parse returns**, for every descriptor and every length: the first touch
report, with the first field for each touch usage. -/
theorem selected_of_hidParseTouchLayout {desc : List UInt8} {maxInputLength : ℕ}
    {layout layout' : HidTouchLayout}
    (h : hidParseTouchLayout desc maxInputLength layout = .ok (.success, layout')) :
    Selected desc maxInputLength layout'.reportId ∧
      ∀ target, ∃ u, firstUse target (usesFrom 0 (readItemsOf desc layout'.reportId)) = some u ∧
        layout'.off target = u.off ∧ layout'.extent target = u.extent target := by
  by_cases hguard : desc = [] ∨ ¬Admitted maxInputLength
  · rw [hidParseTouchLayout_of_not_admitted hguard] at h
    exact absurd h (by simp)
  obtain ⟨hdesc, hlen⟩ := not_or.mp hguard
  rw [not_not] at hlen
  have hany : (parsedContext .source desc).anyReportId = hasReportIdItem desc := by
    rw [parsedContext, anyReportId_contextAfter]
    rfl
  have hmax : 8 * (maxInputLength - 2) < u32 := by
    unfold u32
    unfold Admitted at hlen
    omega
  -- a record has the first uses of its report, and the table one record for each report ID
  have hreads (id : UInt8) : (reportRecord (8 * (maxInputLength - 2)) (readItems desc) id).Reads
      (8 * (maxInputLength - 2)) (readItemsOf desc id) := foldl_absorb_reads hmax id _
  have htable : parsedTable .source (8 * (maxInputLength - 2)) desc
      = ((Keyed.keys InputItem.reportId (readItems desc)).take maxReportIds).map
        (reportRecord (8 * (maxInputLength - 2)) (readItems desc)) := tableAfter_source_take _ _
  have hselect : ∀ id ∈ (Keyed.keys InputItem.reportId (readItems desc)).take maxReportIds,
      ((reportRecord (8 * (maxInputLength - 2)) (readItems desc) id).selectable
        (payloadBits maxInputLength (hasReportIdItem desc)) = true ↔
          IsTouchReport (readItemsOf desc id)
            (payloadBits maxInputLength (hasReportIdItem desc))) := by
    intro id hid
    refine (hreads id).selectable_iff ?_ (Nat.sub_le _ _)
    refine tableAfter_placed .source hmax (readItems desc)
      (fun r hr ↦ absurd hr List.not_mem_nil) _ ?_
    rw [tableAfter_source_take]
    exact List.mem_map_of_mem hid
  rw [hidParseTouchLayout_eq hdesc hlen, Except.ok.injEq, hany, htable] at h
  obtain ⟨r, hfind, rfl⟩ := selectLayout_eq_success h
  rw [List.find?_map, Option.map_eq_some_iff] at hfind
  obtain ⟨id, hfind, rfl⟩ := hfind
  obtain ⟨hsel, before, after, heq, hbefore⟩ := List.find?_eq_some_iff_append.mp hfind
  have hmem := List.mem_of_find?_eq_some hfind
  have htouch := (hselect id hmem).mp hsel
  have hid : ((reportRecord (8 * (maxInputLength - 2)) (readItems desc) id).layout
      (hasReportIdItem desc)).reportId = id := reportRecord_id _ _ _
  rw [hid]
  constructor
  · -- the reports before it fail the selection test, so none is a touch report
    refine ⟨before, after, heq, fun id' hid' htouch' ↦ ?_, htouch⟩
    have hmem' : id' ∈ (Keyed.keys InputItem.reportId (readItems desc)).take maxReportIds := by
      rw [heq]
      exact List.mem_append_left _ hid'
    have hnot := hbefore id' hid'
    rw [Function.comp_apply, (hselect id' hmem').mpr htouch'] at hnot
    exact absurd hnot (by decide)
  · intro target
    obtain ⟨u, hu, hlt⟩ := htouch.uses target
    have hfit : AllFit (8 * (maxInputLength - 2)) (readItemsOf desc id) :=
      ⟨htouch.nonempty, htouch.fits.trans (Nat.sub_le _ _)⟩
    obtain ⟨hoff, hextent⟩ := ((hreads id).kept hfit).kept target u hu hlt
    refine ⟨u, hu, ?_, hextent.symm ▸ ?_⟩
    · cases target <;> exact (congrArg Int.toNat hoff).trans (Int.toNat_natCast _)
    · cases target <;> rfl

end HidParse

end TouchI2c
