import TouchI2c.HidParse.Placement

/-!
# Which layout the parser returns

The specification reads a descriptor one report at a time. The Input items of a report declare
fields, each with a usage and an offset; a report is eligible when its items have a size and a
count, fit in the payload together and declare a tip switch, an X and a Y. The parser returns the
layout of the first eligible report, provided the descriptor stays within the fixed arrays of the
source: then the bounded parser declares the same items as the unbounded one.

## The specification's own values

Which usage a field has, where it lies and how large its maximum is are read off the short items in
the terms of the HID specification: the value of an item's data, a usage with its page, a signed
maximum where the minimum is negative. None of the parser's own functions occurs in it, so a parser
that computed other usages would not meet it.

## The induction

The table of records is one record for each report ID, in the order of first occurrence, and each is
the fold of the Input items of its report. So it is enough to follow one record. `RidState.Knows`
says what it holds after some items of its report: while they fit, the bit position is their total
size and the offsets are those of the first declared fields; from the first item that does not fit
on, the record is marked overflowed for good. The record of a whole report then passes the selection
test exactly when the report is eligible.
-/

namespace TouchI2c

open CMemory BitField

namespace HidParse

/-! ## Fields -/

/-- A declared field: its usage, its bit offset in the payload and the globals in force. -/
structure Field where
  usage : Option ℕ
  off : ℕ
  g : HidGlobals

/-- The usage of field `k` of an Input item: from the usage range if both bounds were given, else
from the list of usages, the last of which repeats. -/
def InputItem.fieldUsage (d : InputItem) (k : ℕ) : Option ℕ :=
  match d.usageMin, d.usageMax with
  | some lo, some hi => some (min (lo + k) hi)
  | _, _ => d.usages[min k (d.usages.length - 1)]?

/-- The fields of Input items whose first bit is at `start`. -/
def fieldsFrom : ℕ → List InputItem → List Field
  | _, [] => []
  | start, d :: ds =>
    (List.range d.g.reportCount).map (fun k ↦ ⟨d.fieldUsage k, start + k * d.g.reportSize, d.g⟩) ++
      fieldsFrom (start + d.bits) ds

/-- The first field with a usage. -/
def firstField (usage : ℕ) (fields : List Field) : Option Field :=
  fields.find? (·.usage = some usage)

/-! ## Reports -/

/-- The Input items of a descriptor, whatever their number and nesting. -/
def declaredItems (desc : List UInt8) : List InputItem :=
  inputItems .unbounded .init (shortItems desc)

/-- The Input items declared under a report ID. -/
def itemsOf (desc : List UInt8) (id : UInt8) : List InputItem :=
  (declaredItems desc).filter (·.reportId = id)

/-- The report IDs in the order of their first Input items. -/
def reportIds (desc : List UInt8) : List UInt8 := Keyed.keys InputItem.reportId (declaredItems desc)

/-- Whether the parsed part has a Report ID item. -/
def hasReportIdItem (desc : List UInt8) : Bool :=
  (shortItems desc).any fun item ↦ item.type == 1 && item.tag == 0x8

/-- All bits of some Input items. -/
def totalBits (ds : List InputItem) : ℕ := (ds.map InputItem.bits).sum

/-- A report with this ID can be a touch report: with its two length bytes, and its ID byte if
there are report IDs, it fits in a report of the maximal length, and it has a tip switch
(digitizers page), an X and a Y (generic desktop page). -/
structure Eligible (desc : List UInt8) (maxInputLength : ℕ) (id : UInt8) : Prop where
  declared : id ∈ reportIds desc
  nonempty : ∀ d ∈ itemsOf desc id, 1 ≤ d.g.reportSize ∧ 1 ≤ d.g.reportCount
  fits : 16 + (if hasReportIdItem desc then 8 else 0) + totalBits (itemsOf desc id)
    ≤ 8 * maxInputLength
  tip : (firstField (usageCode 0x0D 0x42) (fieldsFrom 0 (itemsOf desc id))).isSome
  x : (firstField (usageCode 0x01 0x30) (fieldsFrom 0 (itemsOf desc id))).isSome
  y : (firstField (usageCode 0x01 0x31) (fieldsFrom 0 (itemsOf desc id))).isSome

/-- The logical maximum that an item declares: unsigned if the minimum is not negative. -/
def HidGlobals.declaredMax (g : HidGlobals) : ℤ :=
  if g.logicalMaxSigned < 0 ∧ 0 ≤ g.logicalMin then g.logicalMaxRaw else g.logicalMaxSigned

/-- The layout describes the first fields of the report with this ID. -/
structure Describes (layout : HidTouchLayout) (desc : List UInt8) (id : UInt8) : Prop where
  hasReportId : layout.hasReportId = hasReportIdItem desc
  reportId : layout.reportId = id
  tip : ∃ f, firstField (usageCode 0x0D 0x42) (fieldsFrom 0 (itemsOf desc id)) = some f ∧
    layout.tipBitOffset = f.off
  x : ∃ f, firstField (usageCode 0x01 0x30) (fieldsFrom 0 (itemsOf desc id)) = some f ∧
    layout.xBitOffset = f.off ∧ layout.xBitSize = f.g.reportSize ∧
    layout.xLogicalMax = f.g.declaredMax.toNat
  y : ∃ f, firstField (usageCode 0x01 0x31) (fieldsFrom 0 (itemsOf desc id)) = some f ∧
    layout.yBitOffset = f.off ∧ layout.yBitSize = f.g.reportSize ∧
    layout.yLogicalMax = f.g.declaredMax.toNat

/-- No prefix of the descriptor's items needs more than the source's arrays hold. -/
structure WithinCapacities (desc : List UInt8) : Prop where
  pushes : ∀ items, items <+: shortItems desc →
    (contextAfter .unbounded .init items).stack.length ≤ 4
  usages : ∀ items, items <+: shortItems desc →
    (contextAfter .unbounded .init items).usages.length ≤ 32
  reportIds : (reportIds desc).length ≤ 16

/-! ## Within the capacities the parser is the unbounded one -/

private theorem step_source_eq {ctx : Context} {item : ShortItem}
    (hstack : (ctx.step .unbounded item).stack.length ≤ globalStackMax)
    (husages : (ctx.step .unbounded item).usages.length ≤ maxLocalUsages) :
    ctx.step .source item = ctx.step .unbounded item := by
  unfold Context.step at *
  split
  · -- a global item: only Push needs room
    unfold Context.global at *
    split <;> try rfl
    next hone _ htag =>
    simp only [hone, htag, Capacities.unbounded, room_none, if_true, List.length_cons] at hstack
    have hroom : room Capacities.source.stack ctx.stack.length = true := (room_some _ _).mpr hstack
    simp only [hroom, Capacities.unbounded, room_none]
  · -- a local item: only Usage needs room
    unfold Context.local at *
    split <;> try rfl
    next htwo _ htag =>
    simp only [htwo, htag, Capacities.unbounded, room_none, if_true, List.length_append,
      List.length_singleton] at husages
    have hroom : room Capacities.source.usages ctx.usages.length = true :=
      (room_some _ _).mpr husages
    simp only [hroom, Capacities.unbounded, room_none]
  · rfl
  · rfl

/-- Under the source's arrays every prefix of the items leads to the same context. -/
private theorem contextAfter_source_eq {items : List ShortItem} {ctx : Context}
    (hstack : ∀ items', items' <+: items →
      (contextAfter .unbounded ctx items').stack.length ≤ globalStackMax)
    (husages : ∀ items', items' <+: items →
      (contextAfter .unbounded ctx items').usages.length ≤ maxLocalUsages) :
    contextAfter .source ctx items = contextAfter .unbounded ctx items ∧
      inputItems .source ctx items = inputItems .unbounded ctx items := by
  induction items generalizing ctx with
  | nil => exact ⟨rfl, rfl⟩
  | cons item items ih =>
    have hone : [item] <+: item :: items := ⟨items, rfl⟩
    have hstep : ctx.step .source item = ctx.step .unbounded item :=
      step_source_eq (hstack [item] hone) (husages [item] hone)
    obtain ⟨hctx, hitems⟩ := @ih (ctx.step .unbounded item)
      (fun items' h ↦ hstack (item :: items') (List.cons_prefix_cons.mpr ⟨rfl, h⟩))
      (fun items' h ↦ husages (item :: items') (List.cons_prefix_cons.mpr ⟨rfl, h⟩))
    rw [contextAfter, contextAfter, List.foldl_cons, List.foldl_cons, inputItems, inputItems, hstep,
      hitems]
    exact ⟨hctx, rfl⟩

/-- The record of a report ID after some Input items. -/
def reportRecord (maxReportBits : ℕ) (ds : List InputItem) (id : UInt8) : RidState :=
  Keyed.recordOf InputItem.reportId freshRecord (absorb maxReportBits) ds id

@[simp] theorem reportRecord_id (maxReportBits : ℕ) (ds : List InputItem) (id : UInt8) :
    (reportRecord maxReportBits ds id).id = id :=
  Keyed.keyOf_recordOf freshRecord_id (absorb_id maxReportBits) ds id

private theorem reportRecord_append_of_ne {maxReportBits : ℕ} {ds : List InputItem} {d : InputItem}
    {id : UInt8} (h : d.reportId ≠ id) :
    reportRecord maxReportBits (ds ++ [d]) id = reportRecord maxReportBits ds id := by
  rw [reportRecord, Keyed.recordOf_append_singleton, if_neg h, reportRecord]

/-- The table of the source holds one record for each of the first 16 report IDs, in order. -/
theorem tableAfter_source_take (maxReportBits : ℕ) (ds : List InputItem) :
    tableAfter .source maxReportBits [] ds
      = ((Keyed.keys InputItem.reportId ds).take maxReportIds).map
        (reportRecord maxReportBits ds) := by
  induction ds using List.reverseRecOn with
  | nil => rfl
  | append_singleton ds d ih =>
    have hids : (tableAfter .source maxReportBits [] ds).map RidState.id
        = (Keyed.keys InputItem.reportId ds).take maxReportIds := by
      rw [ih]
      exact Keyed.map_keyOf_recordOf freshRecord_id (absorb_id maxReportBits) ds _
    have hkeys : d.reportId ∈ Keyed.keys InputItem.reportId ds ↔
        d.reportId ∈ ds.map InputItem.reportId := by
      rw [Keyed.keys, List.mem_eraseDups]
    rw [tableAfter, List.foldl_append, List.foldl_cons, List.foldl_nil, ← tableAfter, tableStep, hids,
      Keyed.keys_append_singleton]
    by_cases hmem : d.reportId ∈ (Keyed.keys InputItem.reportId ds).take maxReportIds
    · -- the record of the report absorbs the item
      have hnodup : ((tableAfter .source maxReportBits [] ds).map RidState.id).Nodup := by
        rw [hids]
        exact (Keyed.nodup_keys ds).sublist (List.take_sublist _ _)
      rw [if_pos (.inl hmem), if_pos (hkeys.mp (List.mem_of_mem_take hmem)),
        Keyed.record_of_mem hnodup (by rwa [hids]), ih, List.map_map]
      refine List.map_congr_left fun id _ ↦ ?_
      rw [Function.comp_apply, reportRecord_id]
      by_cases hid : d.reportId = id
      · rw [if_pos hid.symm, reportRecord, reportRecord, Keyed.recordOf_append_singleton, if_pos hid]
      · rw [if_neg (Ne.symm hid), reportRecord_append_of_ne hid]
    · have hother : ∀ id ∈ (Keyed.keys InputItem.reportId ds).take maxReportIds,
          reportRecord maxReportBits (ds ++ [d]) id = reportRecord maxReportBits ds id := by
        intro id hid
        exact reportRecord_append_of_ne fun heq ↦ hmem (heq ▸ hid)
      have hlength : (tableAfter .source maxReportBits [] ds).length
          = min maxReportIds (Keyed.keys InputItem.reportId ds).length := by
        rw [ih, List.length_map, List.length_take]
      by_cases hroom : (Keyed.keys InputItem.reportId ds).length < maxReportIds
      · -- a new report takes a free record
        have htake : (Keyed.keys InputItem.reportId ds).take maxReportIds
            = Keyed.keys InputItem.reportId ds := List.take_of_length_le hroom.le
        rw [htake] at hmem hids hother
        have hnew : d.reportId ∉ ds.map InputItem.reportId := mt hkeys.mpr hmem
        have hnone : ds.filter (InputItem.reportId · = d.reportId) = [] := by
          rw [List.filter_eq_nil_iff]
          intro d' hd' heq
          exact hnew (of_decide_eq_true heq ▸ List.mem_map_of_mem hd')
        rw [if_pos (.inr ((room_some _ _).mpr (by omega))), if_neg hnew,
          Keyed.record_of_not_mem (by rwa [hids]), ih, htake,
          List.take_of_length_le (by rw [List.length_append, List.length_singleton]; omega),
          List.map_append, List.map_singleton]
        congr 1
        · exact (List.map_congr_left hother).symm
        · rw [reportRecord, Keyed.recordOf_append_singleton, if_pos rfl, Keyed.recordOf, hnone,
            List.foldl_nil]
      · -- all records are taken by others
        have hfull : ¬(d.reportId ∈ (Keyed.keys InputItem.reportId ds).take maxReportIds ∨
            room Capacities.source.reportIds (tableAfter .source maxReportBits [] ds).length
              = true) := by
          rintro (hin | hfree)
          · exact hmem hin
          · have := (room_some _ _).mp hfree
            omega
        have htake : (if d.reportId ∈ ds.map InputItem.reportId then
            Keyed.keys InputItem.reportId ds
          else Keyed.keys InputItem.reportId ds ++ [d.reportId]).take maxReportIds
            = (Keyed.keys InputItem.reportId ds).take maxReportIds := by
          split
          · rfl
          · exact List.take_append_of_le_length (Nat.not_lt.mp hroom)
        rw [if_neg hfull, htake, ih]
        exact (List.map_congr_left hother).symm

/-- With a slot for each report ID the table is one record for each ID, in order. -/
private theorem tableAfter_source_eq (maxReportBits : ℕ) {ds : List InputItem}
    (h : (Keyed.keys InputItem.reportId ds).length ≤ maxReportIds) :
    tableAfter .source maxReportBits [] ds
      = (Keyed.keys InputItem.reportId ds).map (reportRecord maxReportBits ds) := by
  rw [tableAfter_source_take, List.take_of_length_le h]

theorem tableAfter_unbounded_eq (maxReportBits : ℕ) (ds : List InputItem) :
    tableAfter .unbounded maxReportBits [] ds
      = (Keyed.keys InputItem.reportId ds).map (reportRecord maxReportBits ds) := by
  have hstep : tableStep .unbounded maxReportBits
      = Keyed.record InputItem.reportId RidState.id freshRecord (absorb maxReportBits) := by
    funext table d
    exact if_pos (.inr rfl)
  rw [tableAfter, hstep]
  exact Keyed.foldl_record freshRecord_id (absorb_id maxReportBits) ds

/-! ## The usage range

The loop lets `UsageMin + k` wrap before it clamps. A wrapped usage is below the number of fields
and so never a touch usage, and the upper bound it should have been was already seen in field 0. -/

/-- A usage the loop will not act on any more. -/
private def RidState.Settled (r : RidState) (usage : ℕ) : Prop :=
  (usage = usageTipSwitch → 0 ≤ r.tipOff) ∧ (usage = usageX → 0 ≤ r.xOff) ∧
    (usage = usageY → 0 ≤ r.yOff)

private theorem RidState.Settled.assign_eq {r : RidState} {usage : ℕ} (h : r.Settled usage)
    (g : HidGlobals) (off : ℕ) : r.assign g usage off = r := by
  obtain ⟨ht, hx, hy⟩ := h
  unfold RidState.assign
  rw [if_neg fun hu ↦ Int.not_le.mpr hu.2 (ht hu.1), if_neg fun hu ↦ Int.not_le.mpr hu.2 (hx hu.1),
    if_neg fun hu ↦ Int.not_le.mpr hu.2 (hy hu.1)]

private theorem RidState.Settled.assign {r : RidState} {usage : ℕ} (h : r.Settled usage)
    (g : HidGlobals) (usage' : ℕ) {off : ℕ} (hoff : off < 2 ^ 31) :
    (r.assign g usage' off).Settled usage := by
  obtain ⟨ht, hx, hy⟩ := h
  have hpos : 0 ≤ toInt32 off := by rw [toInt32_of_lt hoff]; omega
  unfold RidState.assign
  split_ifs
  · exact ⟨fun _ ↦ hpos, hx, hy⟩
  · exact ⟨ht, fun _ ↦ hpos, hy⟩
  · exact ⟨ht, hx, fun _ ↦ hpos⟩
  · exact ⟨ht, hx, hy⟩

private theorem RidState.settled_assign_self (r : RidState) (g : HidGlobals) (usage : ℕ) {off : ℕ}
    (hoff : off < 2 ^ 31) : (r.assign g usage off).Settled usage := by
  have hpos : 0 ≤ toInt32 off := by rw [toInt32_of_lt hoff]; omega
  unfold RidState.assign RidState.Settled
  split_ifs <;> simp_all [usageTipSwitch, usageX, usageY]

private theorem settled_of_not_touch {usage : ℕ} (h : usage < usageX ∨ usageTipSwitch < usage)
    (r : RidState) : r.Settled usage := by
  unfold usageX usageTipSwitch at h
  refine ⟨?_, ?_, ?_⟩ <;> rintro rfl <;> exact absurd h (by decide)

/-- The record after one declared field. -/
def RidState.assignField (r : RidState) (f : Field) : RidState :=
  match f.usage with
  | none => r
  | some usage => r.assign f.g usage f.off

/-- The `k`-th field of an item whose first bit is at `start`. -/
def InputItem.fieldAt (d : InputItem) (start k : ℕ) : Field :=
  ⟨d.fieldUsage k, start + k * d.g.reportSize, d.g⟩

/-- The bounds of the usage range of an item are `UINT32` values. -/
def InputItem.RangeInBounds (d : InputItem) : Prop :=
  (∀ lo ∈ d.usageMin, lo < u32) ∧ (∀ hi ∈ d.usageMax, hi < u32)

/-- Unless the usage range wraps, the loop and the declaration agree on a field. -/
private theorem loopUsage_eq_fieldUsage {d : InputItem} {k : ℕ} (hrange : d.RangeInBounds)
    (hk : ∀ lo ∈ d.usageMin, ∀ hi ∈ d.usageMax, lo + k < u32 ∨ hi < (lo + k) % u32) :
    d.loopUsage k = d.fieldUsage k := by
  unfold InputItem.loopUsage InputItem.fieldUsage
  cases hlo : d.usageMin with
  | none => rfl
  | some lo =>
    cases hhi : d.usageMax with
    | none => rfl
    | some hi =>
      have hlo' := hrange.1 lo hlo
      have hhi' := hrange.2 hi hhi
      have := hk lo hlo hi hhi
      dsimp only
      unfold u32 at *
      congr 1
      split <;> omega

private theorem foldl_field_declared {d : InputItem} (hrange : d.RangeInBounds) (r : RidState)
    {n : ℕ}
    (hn : n < usageX) (hoff : r.bitPos + n * d.g.reportSize < 2 ^ 31) :
    (List.range n).foldl d.field r
        = ((List.range n).map (d.fieldAt r.bitPos)).foldl RidState.assignField r ∧
      ((List.range n).foldl d.field r).bitPos = r.bitPos ∧
      (∀ lo ∈ d.usageMin, ∀ hi ∈ d.usageMax, hi < lo → 0 < n →
        ((List.range n).foldl d.field r).Settled hi) := by
  induction n with
  | zero => exact ⟨rfl, rfl, fun _ _ _ _ _ h ↦ absurd h (lt_irrefl 0)⟩
  | succ n ih =>
    rw [Nat.succ_mul] at hoff
    obtain ⟨hfold, hpos, hsettled⟩ := ih (by omega) (by omega)
    rw [List.range_succ, List.map_append, List.foldl_append, List.foldl_append, ← hfold]
    simp only [List.map_cons, List.map_nil, List.foldl_cons, List.foldl_nil]
    have hoff' : r.bitPos + n * d.g.reportSize < 2 ^ 31 := by omega
    generalize (List.range n).foldl d.field r = rec at hpos hsettled
    refine ⟨?_, by rw [InputItem.field_bitPos, hpos], ?_⟩
    · unfold InputItem.field RidState.assignField InputItem.fieldAt
      dsimp only
      rw [hpos]
      -- where the usage of the loop wraps, that of the field is capped, and both are settled
      by_cases hwrap : ∃ lo ∈ d.usageMin, ∃ hi ∈ d.usageMax, u32 ≤ lo + n ∧ (lo + n) % u32 ≤ hi
      · obtain ⟨lo, hlo, hi, hhi, hover, hle⟩ := hwrap
        have hlo' := hrange.1 lo hlo
        have hhi' := hrange.2 hi hhi
        have hloop : d.loopUsage n = some ((lo + n) % u32) := by
          rw [InputItem.loopUsage_of_range hlo hhi, if_neg (Nat.not_lt.mpr hle)]
        have hfield : d.fieldUsage n = some hi := by
          rw [InputItem.fieldUsage, hlo, hhi]
          dsimp only
          rw [Nat.min_eq_right (by omega)]
        have hsmall : (lo + n) % u32 < usageX := by
          unfold usageX u32 at *
          omega
        have hhi_settled : rec.Settled hi := by
          by_cases hhl : hi < lo
          · exact hsettled lo hlo hi hhi hhl (by omega)
          · exact settled_of_not_touch (by unfold usageX usageTipSwitch u32 at *; omega) rec
        rw [hloop, hfield]
        dsimp only
        rw [(settled_of_not_touch (Or.inl hsmall) rec).assign_eq, hhi_settled.assign_eq]
      · have heq : d.loopUsage n = d.fieldUsage n := by
          refine loopUsage_eq_fieldUsage hrange fun lo hlo hi hhi ↦ ?_
          by_contra hno
          exact hwrap ⟨lo, hlo, hi, hhi, by omega, by omega⟩
        cases hu : d.fieldUsage n <;> simp only [heq, hu]
    · intro lo hlo hi hhi hlt _
      have hfirst : n = 0 → d.loopUsage n = some hi := by
        rintro rfl
        rw [InputItem.loopUsage_of_range hlo hhi, Nat.add_zero, Nat.mod_eq_of_lt (hrange.1 lo hlo),
          if_pos hlt]
      unfold InputItem.field
      by_cases hn0 : n = 0
      · rw [hfirst hn0]
        exact rec.settled_assign_self d.g hi (by rwa [hpos])
      · have hrec := hsettled lo hlo hi hhi hlt (by omega)
        split
        · exact hrec
        · exact hrec.assign d.g _ (by rwa [hpos])

/-! ## The record of one report -/

/-- The record holds exactly these first fields. -/
structure RidState.Keeps (r : RidState) (ft fx fy : Option Field) : Prop where
  tip : r.tipOff = ft.elim (-1) fun f ↦ (f.off : ℤ)
  x : r.xOff = fx.elim (-1) fun f ↦ (f.off : ℤ)
  x_field : ∀ f ∈ fx, r.xBits = f.g.reportSize ∧ r.xMax = resolveLogicalMax f.g
  y : r.yOff = fy.elim (-1) fun f ↦ (f.off : ℤ)
  y_field : ∀ f ∈ fy, r.yBits = f.g.reportSize ∧ r.yMax = resolveLogicalMax f.g

private theorem firstField_cons (usage : ℕ) (f : Field) (fields : List Field) :
    firstField usage (f :: fields)
      = (if f.usage = some usage then some f else none).or (firstField usage fields) := by
  rw [firstField, List.find?_cons, firstField]
  split <;> simp_all

theorem firstField_append (usage : ℕ) (fields fields' : List Field) :
    firstField usage (fields ++ fields')
      = (firstField usage fields).or (firstField usage fields') := by
  rw [firstField, List.find?_append, firstField, firstField]

theorem elim_neg_iff {o : Option Field} :
    (o.elim (-1) fun f ↦ (f.off : ℤ)) < 0 ↔ o = none := by
  cases o with
  | none => simp
  | some f =>
    rw [Option.elim_some]
    exact ⟨fun h ↦ absurd h (by omega), fun h ↦ absurd h (by simp)⟩

private theorem RidState.Keeps.assignField {r : RidState} {ft fx fy : Option Field}
    (h : r.Keeps ft fx fy) {f : Field} (hoff : f.off < 2 ^ 31) :
    (r.assignField f).Keeps (ft.or (if f.usage = some usageTipSwitch then some f else none))
      (fx.or (if f.usage = some usageX then some f else none))
      (fy.or (if f.usage = some usageY then some f else none)) := by
  have htip : r.tipOff < 0 ↔ ft = none := by rw [h.tip, elim_neg_iff]
  have hx : r.xOff < 0 ↔ fx = none := by rw [h.x, elim_neg_iff]
  have hy : r.yOff < 0 ↔ fy = none := by rw [h.y, elim_neg_iff]
  have hint := toInt32_of_lt hoff
  unfold RidState.assignField
  split
  · next hnone => simpa [hnone] using h
  · next usage husage =>
    rw [husage]
    simp only [Option.some_inj]
    unfold RidState.assign
    by_cases h1 : usage = usageTipSwitch ∧ r.tipOff < 0
    · rw [if_pos h1]
      obtain ⟨rfl, hneg⟩ := h1
      obtain rfl := htip.mp hneg
      exact { h with
        tip := by simpa using hint
        x := by simpa [usageTipSwitch, usageX] using h.x
        x_field := by simpa [usageTipSwitch, usageX] using h.x_field
        y := by simpa [usageTipSwitch, usageY] using h.y
        y_field := by simpa [usageTipSwitch, usageY] using h.y_field }
    rw [if_neg h1]
    by_cases h2 : usage = usageX ∧ r.xOff < 0
    · rw [if_pos h2]
      obtain ⟨rfl, hneg⟩ := h2
      obtain rfl := hx.mp hneg
      exact { h with
        tip := by simpa [usageTipSwitch, usageX] using h.tip
        x := by simpa using hint
        x_field := by simp
        y := by simpa [usageY, usageX] using h.y
        y_field := by simpa [usageY, usageX] using h.y_field }
    rw [if_neg h2]
    by_cases h3 : usage = usageY ∧ r.yOff < 0
    · rw [if_pos h3]
      obtain ⟨rfl, hneg⟩ := h3
      obtain rfl := hy.mp hneg
      exact { h with
        tip := by simpa [usageTipSwitch, usageY] using h.tip
        x := by simpa [usageX, usageY] using h.x
        x_field := by simpa [usageX, usageY] using h.x_field
        y := by simpa using hint
        y_field := by simp }
    rw [if_neg h3]
    have keep {u : ℕ} {o : Option Field} (hno : ¬(usage = u ∧ o = none)) :
        o.or (if usage = u then some f else none) = o := by
      cases o with
      | some f' => rfl
      | none => rw [if_neg fun hu ↦ hno ⟨hu, rfl⟩]; rfl
    rw [keep (by rwa [← htip]), keep (by rwa [← hx]), keep (by rwa [← hy])]
    exact h

private theorem foldl_assignField_keeps {fields : List Field} (hoff : ∀ f ∈ fields, f.off < 2 ^ 31)
    {r : RidState} {ft fx fy : Option Field} (h : r.Keeps ft fx fy) :
    (fields.foldl RidState.assignField r).Keeps (ft.or (firstField usageTipSwitch fields))
      (fx.or (firstField usageX fields)) (fy.or (firstField usageY fields)) := by
  induction fields generalizing r ft fx fy with
  | nil => simpa [firstField] using h
  | cons f fields ih =>
    obtain ⟨hf, hfields⟩ := List.forall_mem_cons.mp hoff
    rw [List.foldl_cons, firstField_cons, firstField_cons, firstField_cons, ← Option.or_assoc,
      ← Option.or_assoc, ← Option.or_assoc]
    exact ih hfields (h.assignField hf)

theorem totalBits_append (ds ds' : List InputItem) :
    totalBits (ds ++ ds') = totalBits ds + totalBits ds' := by
  rw [totalBits, List.map_append, List.sum_append, totalBits, totalBits]

theorem fieldsFrom_append (start : ℕ) (ds ds' : List InputItem) :
    fieldsFrom start (ds ++ ds')
      = fieldsFrom start ds ++ fieldsFrom (start + totalBits ds) ds' := by
  induction ds generalizing start with
  | nil => rfl
  | cons d ds ih =>
    have htotal : totalBits (d :: ds) = d.bits + totalBits ds := by
      rw [totalBits, List.map_cons, List.sum_cons, totalBits]
    rw [List.cons_append, fieldsFrom, fieldsFrom, ih, htotal, List.append_assoc, Nat.add_assoc]

/-- The items of a report all have a size and a count and fit together. -/
def AllFit (maxReportBits : ℕ) (ds : List InputItem) : Prop :=
  (∀ d ∈ ds, 1 ≤ d.g.reportSize ∧ 1 ≤ d.g.reportCount) ∧ totalBits ds ≤ maxReportBits

theorem allFit_append_singleton {maxReportBits : ℕ} {ds : List InputItem} {d : InputItem} :
    AllFit maxReportBits (ds ++ [d]) ↔
      AllFit maxReportBits ds ∧ d.Fits maxReportBits (totalBits ds) := by
  have htotal : totalBits (ds ++ [d]) = totalBits ds + d.bits := by
    rw [totalBits_append]
    rfl
  unfold AllFit InputItem.Fits
  rw [htotal]
  simp only [List.mem_append, List.mem_singleton, or_imp, forall_and, forall_eq]
  constructor
  · rintro ⟨⟨⟨hs, hs'⟩, hc, hc'⟩, hfit⟩
    exact ⟨⟨⟨hs, hc⟩, by omega⟩, hs', hc', hfit⟩
  · rintro ⟨⟨⟨hs, hc⟩, -⟩, hs', hc', hfit⟩
    exact ⟨⟨⟨hs, hs'⟩, hc, hc'⟩, hfit⟩

/-- What the record of a report knows after the Input items `ds`. As long as they fit, it knows
`Kept` of their fields. -/
structure RidState.Knows (Kept : RidState → List InputItem → Prop) (r : RidState)
    (maxReportBits : ℕ) (ds : List InputItem) : Prop where
  used : r.used = true
  overflowed : r.overflowed = false ↔ AllFit maxReportBits ds
  bitPos : AllFit maxReportBits ds → r.bitPos = totalBits ds
  kept : AllFit maxReportBits ds → Kept r ds

/-- The record after an Input item that fits. -/
def RidState.taken (r : RidState) (d : InputItem) : RidState :=
  { (List.range d.g.reportCount).foldl d.field r with bitPos := r.bitPos + d.bits }

section

variable {Kept : RidState → List InputItem → Prop} {maxReportBits : ℕ} {r : RidState}
  {ds : List InputItem}

/-- An item that fits behind the others is taken. One that does not, or that follows such a one,
leaves the record overflowed. -/
theorem RidState.Knows.absorb (h : r.Knows Kept maxReportBits ds) (d : InputItem)
    (htaken : AllFit maxReportBits ds → d.Fits maxReportBits r.bitPos → r.bitPos = totalBits ds →
      Kept r ds → Kept (r.taken d) (ds ++ [d])) :
    (absorb maxReportBits r d).Knows Kept maxReportBits (ds ++ [d]) := by
  have hused : (HidParse.absorb maxReportBits r d).used = true := by rw [absorb_used, h.used]
  by_cases hfit : AllFit maxReportBits (ds ++ [d])
  · obtain ⟨hds, hd⟩ := allFit_append_singleton.mp hfit
    have hpos := h.bitPos hds
    rw [← hpos] at hd
    have habsorb : HidParse.absorb maxReportBits r d = r.taken d := if_pos hd
    rw [habsorb] at hused ⊢
    exact {
      used := hused
      overflowed := iff_of_true ((foldl_field_eq d _ r).2.2.trans (h.overflowed.mpr hds)) hfit
      bitPos := fun _ ↦ by
        rw [totalBits_append, ← hpos]
        rfl
      kept := fun _ ↦ htaken hds hd hpos (h.kept hds) }
  · have hover : (HidParse.absorb maxReportBits r d).overflowed = true := by
      unfold HidParse.absorb
      split
      · next hd =>
        have hds : ¬AllFit maxReportBits ds := fun hds ↦
          hfit (allFit_append_singleton.mpr ⟨hds, by rwa [← h.bitPos hds]⟩)
        have := mt h.overflowed.mp hds
        rw [Bool.not_eq_false] at this
        exact (foldl_field_eq d _ r).2.2.trans this
      · rfl
    exact ⟨hused, by rw [hover]; simpa using hfit, fun h' ↦ absurd h' hfit,
      fun h' ↦ absurd h' hfit⟩

theorem foldl_absorb_knows {Q : InputItem → Prop} (id : UInt8) (hfresh : Kept (freshRecord id) [])
    (htaken : ∀ r ds d, Q d → AllFit maxReportBits ds → d.Fits maxReportBits r.bitPos →
      r.bitPos = totalBits ds → Kept r ds → Kept (r.taken d) (ds ++ [d]))
    (hds : ∀ d ∈ ds, Q d) :
    (ds.foldl (absorb maxReportBits) (freshRecord id)).Knows Kept maxReportBits ds := by
  induction ds using List.reverseRecOn with
  | nil =>
    exact ⟨rfl, by simp [AllFit, totalBits, freshRecord, RidState.opened], fun _ ↦ rfl,
      fun _ ↦ hfresh⟩
  | append_singleton ds d ih =>
    obtain ⟨hds, hd⟩ := List.forall_mem_append.mp hds
    rw [List.foldl_append, List.foldl_cons, List.foldl_nil]
    exact (ih hds).absorb d (htaken _ ds d (List.forall_mem_singleton.mp hd))

end

/-- The record keeps the first field with each touch usage. -/
abbrev RidState.Summarises (r : RidState) (maxReportBits : ℕ) (ds : List InputItem) : Prop :=
  r.Knows (fun r ds ↦ r.Keeps (firstField usageTipSwitch (fieldsFrom 0 ds))
    (firstField usageX (fieldsFrom 0 ds)) (firstField usageY (fieldsFrom 0 ds))) maxReportBits ds

theorem foldl_absorb_summarises {maxReportBits : ℕ} (hmax : maxReportBits < usageX)
    (id : UInt8) {ds : List InputItem} (hrange : ∀ d ∈ ds, d.RangeInBounds) :
    (ds.foldl (absorb maxReportBits) (freshRecord id)).Summarises maxReportBits ds := by
  refine foldl_absorb_knows id ?_ (fun r ds d hd hds hfits hpos hkeeps ↦ ?_) hrange
  · exact ⟨rfl, rfl, by simp [firstField, fieldsFrom], rfl, by simp [firstField, fieldsFrom]⟩
  · obtain ⟨hsize, hcount, hbits⟩ := hfits
    have hcount_le : d.g.reportCount ≤ d.bits := Nat.le_mul_of_pos_left _ hsize
    have hbits_eq : d.g.reportCount * d.g.reportSize = d.bits := Nat.mul_comm _ _
    unfold usageX at hmax
    obtain ⟨hfold, -, -⟩ := foldl_field_declared hd r (n := d.g.reportCount)
      (by unfold usageX; omega) (by omega)
    have hfields : fieldsFrom 0 (ds ++ [d]) = fieldsFrom 0 ds ++
        (List.range d.g.reportCount).map (d.fieldAt r.bitPos) := by
      rw [fieldsFrom_append, Nat.zero_add, hpos, fieldsFrom, fieldsFrom, List.append_nil]
      rfl
    have hoff : ∀ f ∈ (List.range d.g.reportCount).map (d.fieldAt r.bitPos), f.off < 2 ^ 31 := by
      intro f hf
      obtain ⟨k, hk, rfl⟩ := List.mem_map.mp hf
      have hle : k * d.g.reportSize ≤ d.g.reportCount * d.g.reportSize :=
        Nat.mul_le_mul_right _ (List.mem_range.mp hk).le
      dsimp only [InputItem.fieldAt]
      omega
    have hkeeps' := foldl_assignField_keeps hoff hkeeps
    rw [← hfold, ← firstField_append, ← firstField_append, ← firstField_append, ← hfields]
      at hkeeps'
    exact { hkeeps' with }

/-! ## What the contexts of a descriptor hold -/

/-- The bounds of the usage range in force are `UINT32` values. -/
def Context.RangeInBounds (ctx : Context) : Prop :=
  (∀ lo ∈ ctx.usageMin, lo < u32) ∧ (∀ hi ∈ ctx.usageMax, hi < u32)

private theorem Context.RangeInBounds.step {ctx : Context} (h : ctx.RangeInBounds)
    (caps : Capacities) {item : ShortItem} (hitem : item.Sized) :
    (ctx.step caps item).RangeInBounds := by
  unfold Context.step
  split
  · unfold Context.global
    split <;> first | exact h | (split <;> exact h)
  · unfold Context.local
    split
    · split <;> exact h
    · exact ⟨by simpa using hitem.usageValue_lt _, h.2⟩
    · exact ⟨h.1, by simpa using hitem.usageValue_lt _⟩
    · exact h
  · exact ⟨by simp [Context.main], by simp [Context.main]⟩
  · exact h

theorem inputItems_rangeInBounds {caps : Capacities} {items : List ShortItem}
    (hsized : ∀ item ∈ items, item.Sized) {ctx : Context} (h : ctx.RangeInBounds) :
    ∀ d ∈ inputItems caps ctx items, d.RangeInBounds := by
  induction items generalizing ctx with
  | nil => simp [inputItems]
  | cons item items ih =>
    obtain ⟨hitem, hitems⟩ := List.forall_mem_cons.mp hsized
    intro d hd
    rw [inputItems, List.mem_append] at hd
    rcases hd with hd | hd
    · unfold Context.input? at hd
      split at hd
      · rw [Option.toList_some, List.mem_singleton] at hd
        rw [hd]
        exact h
      · simp at hd
    · exact ih hitems (h.step caps hitem) d hd

private theorem anyReportId_step (caps : Capacities) (ctx : Context) (item : ShortItem) :
    (ctx.step caps item).anyReportId
      = (ctx.anyReportId || (item.type == 1 && item.tag == 0x8)) := by
  unfold Context.step
  split
  · next h =>
    rw [h]
    unfold Context.global
    split <;> simp_all <;> split <;> rfl
  · next h =>
    rw [h]
    unfold Context.local
    split <;> simp
    split <;> rfl
  · next h => simp [h, Context.main]
  · simp_all

theorem anyReportId_contextAfter (caps : Capacities) (ctx : Context)
    (items : List ShortItem) :
    (contextAfter caps ctx items).anyReportId
      = (ctx.anyReportId || items.any fun item ↦ item.type == 1 && item.tag == 0x8) := by
  induction items generalizing ctx with
  | nil => simp [contextAfter]
  | cons item items ih =>
    rw [contextAfter, List.foldl_cons, ← contextAfter, ih, anyReportId_step, List.any_cons,
      Bool.or_assoc]

/-! ## The selected report -/

/-- The Input items of a report declare a touch report that fits in a payload. -/
structure DeclaresTouch (ds : List InputItem) (payload : ℕ) : Prop where
  nonempty : ∀ d ∈ ds, 1 ≤ d.g.reportSize ∧ 1 ≤ d.g.reportCount
  fits : totalBits ds ≤ payload
  tip : (firstField usageTipSwitch (fieldsFrom 0 ds)).isSome
  x : (firstField usageX (fieldsFrom 0 ds)).isSome
  y : (firstField usageY (fieldsFrom 0 ds)).isSome

/-- What the selection test says about the record of some Input items. -/
theorem RidState.Summarises.selectable_iff {r : RidState} {maxReportBits payload : ℕ}
    {ds : List InputItem} (h : r.Summarises maxReportBits ds) (hplaced : r.Placed r.bitPos)
    (hpayload : payload ≤ maxReportBits) :
    r.selectable payload = true ↔ DeclaresTouch ds payload := by
  have hnonneg {o : Option Field} : 0 ≤ (o.elim (-1) fun f ↦ (f.off : ℤ)) ↔ o.isSome = true := by
    rw [← not_lt, elim_neg_iff, Option.isSome_iff_ne_none]
  rw [r.selectable_iff]
  constructor
  · rintro ⟨-, hover, ht, hx, hy, hbits, -⟩
    have hfit := h.overflowed.mp hover
    have hkeeps := h.kept hfit
    rw [hkeeps.tip, hnonneg] at ht
    rw [hkeeps.x, hnonneg] at hx
    rw [hkeeps.y, hnonneg] at hy
    exact ⟨hfit.1, by rwa [← h.bitPos hfit], ht, hx, hy⟩
  · rintro ⟨hne, hbits, ht, hx, hy⟩
    have hfit : AllFit maxReportBits ds := ⟨hne, hbits.trans hpayload⟩
    have hkeeps := h.kept hfit
    rw [← hnonneg, ← hkeeps.tip] at ht
    rw [← hnonneg, ← hkeeps.x] at hx
    rw [← hnonneg, ← hkeeps.y] at hy
    rw [← h.bitPos hfit] at hbits
    exact ⟨h.used, h.overflowed.mpr hfit, ht, hx, hy, hbits, (hplaced.tip ht).trans hbits,
      (hplaced.x hx).1.trans hbits, (hplaced.y hy).1.trans hbits⟩

/-- The logical maximum that the parser keeps is the declared one, if that is not negative. -/
theorem resolveLogicalMax_eq_toNat (g : HidGlobals) :
    resolveLogicalMax g = g.declaredMax.toNat := by
  unfold resolveLogicalMax HidGlobals.declaredMax
  split
  · rfl
  · split <;> omega

/-- A report passes the selection test exactly when it is eligible. -/
private theorem selectable_iff_eligible {desc : List UInt8} {maxInputLength : ℕ} {id : UInt8}
    (hmin : 3 ≤ maxInputLength) (hid : id ∈ reportIds desc) {r : RidState} (hplaced : r.Placed r.bitPos)
    (h : r.Summarises (8 * (maxInputLength - 2)) (itemsOf desc id)) :
    r.selectable (payloadBits maxInputLength (hasReportIdItem desc)) = true ↔
      Eligible desc maxInputLength id := by
  have hpayload : payloadBits maxInputLength (hasReportIdItem desc) ≤ 8 * (maxInputLength - 2) :=
    Nat.sub_le _ _
  have hfits : totalBits (itemsOf desc id) ≤ payloadBits maxInputLength (hasReportIdItem desc) ↔
      16 + (if hasReportIdItem desc then 8 else 0) + totalBits (itemsOf desc id)
        ≤ 8 * maxInputLength := by
    unfold payloadBits
    split <;> omega
  rw [h.selectable_iff hplaced hpayload]
  constructor
  · intro htouch
    exact ⟨hid, htouch.nonempty, hfits.mp htouch.fits, htouch.tip, htouch.x, htouch.y⟩
  · intro helig
    exact ⟨helig.nonempty, hfits.mpr helig.fits, helig.tip, helig.x, helig.y⟩

private theorem layout_describes {desc : List UInt8} {maxInputLength maxReportBits : ℕ} {id : UInt8}
    (helig : Eligible desc maxInputLength id) {r : RidState} (hid : r.id = id)
    (hfit : AllFit maxReportBits (itemsOf desc id))
    (h : r.Summarises maxReportBits (itemsOf desc id)) :
    Describes (r.layout (hasReportIdItem desc)) desc id := by
  have hkeeps := h.kept hfit
  obtain ⟨ft, hft⟩ := Option.isSome_iff_exists.mp helig.tip
  obtain ⟨fx, hfx⟩ := Option.isSome_iff_exists.mp helig.x
  obtain ⟨fy, hfy⟩ := Option.isSome_iff_exists.mp helig.y
  have hkeeps : r.Keeps (some ft) (some fx) (some fy) := hft ▸ hfx ▸ hfy ▸ hkeeps
  obtain ⟨hxBits, hxMax⟩ := hkeeps.x_field fx rfl
  obtain ⟨hyBits, hyMax⟩ := hkeeps.y_field fy rfl
  rw [resolveLogicalMax_eq_toNat] at hxMax hyMax
  exact {
    hasReportId := rfl
    reportId := hid
    tip := ⟨ft, hft, by rw [RidState.layout, hkeeps.tip]; rfl⟩
    x := ⟨fx, hfx, by rw [RidState.layout, hkeeps.x]; rfl, hxBits, hxMax⟩
    y := ⟨fy, hfy, by rw [RidState.layout, hkeeps.y]; rfl, hyBits, hyMax⟩ }

/-- **Correctness of the parser.** Within the capacities of the source, for a report length that
the HID descriptor reader admits, the parser succeeds exactly when some report is eligible, and
its layout describes the first eligible report in the order of their first Input items. -/
theorem hidParseTouchLayout_correct (desc : List UInt8) (maxInputLength : ℕ)
    (layout : HidTouchLayout) (hmin : 3 ≤ maxInputLength) (hmax : maxInputLength ≤ 1024)
    (hcap : WithinCapacities desc) :
    ∃ status layout', hidParseTouchLayout desc maxInputLength layout = .ok (status, layout') ∧
      (status = .success ↔ ∃ id, Eligible desc maxInputLength id) ∧
      (status = .success → ∃ before id after, reportIds desc = before ++ id :: after ∧
        (∀ id' ∈ before, ¬Eligible desc maxInputLength id') ∧ Eligible desc maxInputLength id ∧
        Describes layout' desc id) := by
  by_cases hdesc : desc = []
  · refine ⟨_, _, hidParseTouchLayout_of_not_admitted (Or.inl hdesc) layout, ?_, by simp⟩
    simp only [reduceCtorEq, false_iff, not_exists]
    intro id helig
    have hmem := helig.declared
    rw [hdesc, reportIds, declaredItems, shortItems_nil, inputItems] at hmem
    simp [Keyed.keys] at hmem
  -- within the capacities the source parses as if it had none
  obtain ⟨hctx, hitems⟩ := contextAfter_source_eq hcap.pushes hcap.usages
  have hany : (parsedContext .source desc).anyReportId = hasReportIdItem desc := by
    rw [parsedContext, hctx, anyReportId_contextAfter]
    rfl
  have htable : parsedTable .source (8 * (maxInputLength - 2)) desc = (reportIds desc).map
      (reportRecord (8 * (maxInputLength - 2)) (declaredItems desc)) := by
    rw [parsedTable, hitems]
    exact tableAfter_source_eq _ hcap.reportIds
  have hbits : 8 * (maxInputLength - 2) < u32 := by unfold u32; omega
  have hrecord (id : UInt8) : (reportRecord (8 * (maxInputLength - 2)) (declaredItems desc) id
      ).Summarises (8 * (maxInputLength - 2)) (itemsOf desc id) := by
    refine foldl_absorb_summarises (by unfold usageX; omega) id fun d hd ↦ ?_
    have hinit : Context.RangeInBounds .init := ⟨by simp [Context.init], by simp [Context.init]⟩
    exact inputItems_rangeInBounds (fun item ↦ sized_of_mem_shortItems) hinit d
      (List.mem_of_mem_filter hd)
  -- a record is selectable just when its report is eligible
  have hselect : ∀ id ∈ reportIds desc,
      ((reportRecord (8 * (maxInputLength - 2)) (declaredItems desc) id).selectable
        (payloadBits maxInputLength (hasReportIdItem desc)) = true ↔
          Eligible desc maxInputLength id) := by
    intro id hid
    refine selectable_iff_eligible hmin hid ?_ (hrecord id)
    refine tableAfter_placed .source hbits (declaredItems desc)
      (fun r hr ↦ absurd hr List.not_mem_nil) _ ?_
    rw [tableAfter_source_eq _ hcap.reportIds]
    exact List.mem_map_of_mem hid
  rw [hidParseTouchLayout_eq hdesc ⟨hmin, by omega⟩, hany, htable, selectLayout, List.find?_map]
  cases hfind : (reportIds desc).find? ((·.selectable (payloadBits maxInputLength
      (hasReportIdItem desc))) ∘ reportRecord (8 * (maxInputLength - 2)) (declaredItems desc)) with
  | none =>
    refine ⟨_, _, rfl, ?_, by simp⟩
    simp only [reduceCtorEq, false_iff, not_exists]
    intro id helig
    exact List.find?_eq_none.mp hfind id helig.declared ((hselect id helig.declared).mpr helig)
  | some id =>
    obtain ⟨hsel, before, after, happend, hbefore⟩ := List.find?_eq_some_iff_append.mp hfind
    have hmem : id ∈ reportIds desc := List.mem_of_find?_eq_some hfind
    have helig := (hselect id hmem).mp hsel
    have hfit : AllFit (8 * (maxInputLength - 2)) (itemsOf desc id) :=
      (hrecord id).overflowed.mp (((reportRecord _ _ id).selectable_iff _).mp hsel).2.1
    refine ⟨_, _, rfl, ⟨fun _ ↦ ⟨id, helig⟩, fun _ ↦ rfl⟩, fun _ ↦ ?_⟩
    refine ⟨before, id, after, happend, fun id' hid' hno ↦ ?_, helig,
      layout_describes helig (reportRecord_id _ _ _) hfit (hrecord id)⟩
    have hmem' : id' ∈ reportIds desc := by
      rw [happend]
      exact List.mem_append_left _ hid'
    have := hbefore id' hid'
    rw [Function.comp_apply, (hselect id' hmem').mpr hno] at this
    simp at this

/-! ### A digitizer with a tip switch and two 16-bit axes -/

/-- One report with ID 1: a tip switch, seven bits of padding, X and Y. -/
def digitizerDescriptor : List UInt8 :=
  [0x05, 0x0D, 0x85, 0x01, 0x25, 0x01, 0x75, 0x01, 0x95, 0x01, 0x09, 0x42, 0x81, 0x02,
   0x95, 0x07, 0x81, 0x03, 0x05, 0x01, 0x26, 0xFF, 0x0F, 0x75, 0x10, 0x95, 0x02, 0x09, 0x30,
   0x09, 0x31, 0x81, 0x02]

private theorem shortItems_digitizerDescriptor : shortItems digitizerDescriptor =
    [⟨1, 0, 1, 0x0D⟩, ⟨1, 8, 1, 1⟩, ⟨1, 2, 1, 1⟩, ⟨1, 7, 1, 1⟩, ⟨1, 9, 1, 1⟩, ⟨2, 0, 1, 0x42⟩,
     ⟨0, 8, 1, 2⟩, ⟨1, 9, 1, 7⟩, ⟨0, 8, 1, 3⟩, ⟨1, 0, 1, 1⟩, ⟨1, 2, 2, 0xFFF⟩, ⟨1, 7, 1, 0x10⟩,
     ⟨1, 9, 1, 2⟩, ⟨2, 0, 1, 0x30⟩, ⟨2, 0, 1, 0x31⟩, ⟨0, 8, 1, 2⟩] := by
  simp [digitizerDescriptor, shortItems, dataSize, ShortItem.ofBytes, uValOf]

/-- A mouse report with ID 2 before the digitizer: it has an X and a Y but no tip switch. -/
def mouseAndDigitizerDescriptor : List UInt8 :=
  [0x05, 0x01, 0x85, 0x02, 0x75, 0x08, 0x95, 0x02, 0x09, 0x30, 0x09, 0x31, 0x81, 0x06] ++
    digitizerDescriptor

private theorem shortItems_mouseAndDigitizerDescriptor : shortItems mouseAndDigitizerDescriptor =
    [⟨1, 0, 1, 1⟩, ⟨1, 8, 1, 2⟩, ⟨1, 7, 1, 8⟩, ⟨1, 9, 1, 2⟩, ⟨2, 0, 1, 0x30⟩, ⟨2, 0, 1, 0x31⟩,
     ⟨0, 8, 1, 6⟩] ++ shortItems digitizerDescriptor := by
  simp [mouseAndDigitizerDescriptor, digitizerDescriptor, shortItems, dataSize, ShortItem.ofBytes,
    uValOf]

private theorem mouseAndDigitizerDescriptor_withinCapacities :
    WithinCapacities mouseAndDigitizerDescriptor := by
  constructor
  · simp only [← List.mem_inits, shortItems_mouseAndDigitizerDescriptor,
      shortItems_digitizerDescriptor]
    decide
  · simp only [← List.mem_inits, shortItems_mouseAndDigitizerDescriptor,
      shortItems_digitizerDescriptor]
    decide
  · rw [reportIds, declaredItems, shortItems_mouseAndDigitizerDescriptor,
      shortItems_digitizerDescriptor]
    decide

/-- The mouse report is passed over, and the digitizer's layout is returned. -/
theorem hidParseTouchLayout_correct_digitizer :
    hidParseTouchLayout mouseAndDigitizerDescriptor 64 .zero
        = .ok (.success, ⟨true, 1, 0, 8, 16, 0xFFF, 24, 16, 0xFFF⟩) ∧
      reportIds mouseAndDigitizerDescriptor = [2, 1] ∧
      ¬Eligible mouseAndDigitizerDescriptor 64 2 ∧ Eligible mouseAndDigitizerDescriptor 64 1 ∧
      Describes ⟨true, 1, 0, 8, 16, 0xFFF, 24, 16, 0xFFF⟩ mouseAndDigitizerDescriptor 1 := by
  have hrun : hidParseTouchLayout mouseAndDigitizerDescriptor 64 .zero
      = .ok (.success, ⟨true, 1, 0, 8, 16, 0xFFF, 24, 16, 0xFFF⟩) := by decide +kernel
  have hids : reportIds mouseAndDigitizerDescriptor = [2, 1] := by
    rw [reportIds, declaredItems, shortItems_mouseAndDigitizerDescriptor,
      shortItems_digitizerDescriptor]
    decide
  obtain ⟨status, layout, hparse, -, hfirst⟩ := hidParseTouchLayout_correct
    mouseAndDigitizerDescriptor 64 .zero (by decide) (by decide)
    mouseAndDigitizerDescriptor_withinCapacities
  rw [hrun] at hparse
  cases hparse
  obtain ⟨before, id, after, happend, hbefore, helig, hdescribes⟩ := hfirst rfl
  obtain rfl : id = 1 := hdescribes.reportId.symm
  have hmouse : 2 ∈ before := by
    rw [hids] at happend
    cases before with
    | nil => exact absurd (List.cons.inj happend).1 (by decide)
    | cons id' before =>
      rw [(List.cons.inj happend).1]
      exact List.mem_cons_self
  exact ⟨hrun, hids, hbefore 2 hmouse, helig, hdescribes⟩

end HidParse

end TouchI2c
