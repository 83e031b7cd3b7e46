import TouchI2c.HidParse.Spec

/-!
# Beyond the capacities

The three fixed arrays of the parser overflow differently. A report ID without a slot only loses its
report. A Usage without a slot loses the fields that would take it, and a later field can win in
their place. A Push without a slot is harmless until a Pop that should undo it restores the globals
of another Push.

## The simulation

The unbounded parser and the parser of the source walk over the same items. Where the unbounded one
holds a stack or a list of usages, the source holds its first part; `step_kept` keeps that relation
for every item but a Pop while more than four Pushes are open. So as long as there is no such Pop,
the bounded parser is the unbounded one on the items whose usage lists are cut off after 32 usages.

## The first fields

A field whose usage was cut off takes the last usage that was kept. So the first field with a usage
either stays where it is, or is lost, and then a field behind it comes first (`firstField_kept`).
Hence the layout is right exactly if none of the first fields of the first report that keeps a touch
report was lost.
-/

namespace TouchI2c

open CMemory

namespace HidParse

/-! ## The parser without bounds -/

/-- `HidParseTouchLayout` with an unbounded stack, usage list and report table. -/
def parseUnbounded (desc : List UInt8) (maxInputLength : ℕ) (layout : HidTouchLayout) :
    EfiStatus × HidTouchLayout :=
  selectLayout (parsedTable .unbounded (8 * (maxInputLength - 2)) desc)
    (parsedContext .unbounded desc).anyReportId
    (payloadBits maxInputLength (parsedContext .unbounded desc).anyReportId) layout

/-- A layout that the parser returns is right: without bounds the parser succeeds too, and the
report that the layout names passes its selection test with the same offsets, sizes and maxima. -/
def FailsSafe (desc : List UInt8) (maxInputLength : ℕ) : Prop :=
  ∀ layout₀ layout, hidParseTouchLayout desc maxInputLength layout₀ = .ok (.success, layout) →
    (∃ layout', parseUnbounded desc maxInputLength layout₀ = (.success, layout')) ∧
      ∃ r ∈ parsedTable .unbounded (8 * (maxInputLength - 2)) desc, r.id = layout.reportId ∧
        r.selectable (payloadBits maxInputLength (parsedContext .unbounded desc).anyReportId) ∧
          r.layout (parsedContext .unbounded desc).anyReportId = layout

/-! ## Pops -/

/-- A Pop item. -/
def ShortItem.isPop (item : ShortItem) : Bool := item.type == 1 && item.tag == 0xB

/-- Every Pop comes while at most four Pushes are open. -/
def NoDeepPop (ctx : Context) (items : List ShortItem) : Prop :=
  ∀ before item, before ++ [item] <+: items → item.isPop = true →
    (contextAfter .unbounded ctx before).stack.length ≤ globalStackMax

/-- The Input item with the usages that the usage list of the source holds. -/
def InputItem.kept (d : InputItem) : InputItem := { d with usages := d.usages.take maxLocalUsages }

/-- The context with what the arrays of the source hold: of the open Pushes the outermost four, and
the first 32 usages. -/
def Context.kept (ctx : Context) : Context :=
  { ctx with stack := ctx.stack.drop (ctx.stack.length - globalStackMax),
             usages := ctx.usages.take maxLocalUsages }

section

variable {ctx : Context}

private theorem room_stack_kept :
    room Capacities.source.stack ctx.kept.stack.length = true ↔
      ctx.stack.length < globalStackMax := by
  refine (room_some _ _).trans ?_
  rw [Context.kept, List.length_drop]
  unfold globalStackMax
  omega

private theorem room_usages_kept :
    room Capacities.source.usages ctx.kept.usages.length = true ↔
      ctx.usages.length < maxLocalUsages := by
  refine (room_some _ _).trans ?_
  rw [Context.kept, List.length_take]
  unfold maxLocalUsages
  omega

/-- A Push that has no slot is one of those that the source does not hold. -/
private theorem kept_push :
    (if room Capacities.source.stack ctx.kept.stack.length = true then
        { ctx.kept with stack := ctx.kept.g :: ctx.kept.stack }
      else ctx.kept) = ({ ctx with stack := ctx.g :: ctx.stack } : Context).kept := by
  by_cases hroom : ctx.stack.length < globalStackMax
  · rw [if_pos (room_stack_kept.mpr hroom)]
    have hnone : ctx.stack.length - globalStackMax = 0 := by omega
    have hnone' : (ctx.g :: ctx.stack).length - globalStackMax = 0 := by
      rw [List.length_cons]
      omega
    simp only [Context.kept, hnone, hnone', List.drop_zero]
  · rw [if_neg (mt room_stack_kept.mp hroom)]
    have hsucc : (ctx.g :: ctx.stack).length - globalStackMax
        = (ctx.stack.length - globalStackMax) + 1 := by
      rw [List.length_cons]
      omega
    simp only [Context.kept, hsucc, List.drop_succ_cons]

/-- A usage that has no slot is one of those that the source does not hold. -/
private theorem kept_usage (usage : ℕ) :
    (if room Capacities.source.usages ctx.kept.usages.length = true then
        { ctx.kept with usages := ctx.kept.usages ++ [usage] }
      else ctx.kept) = ({ ctx with usages := ctx.usages ++ [usage] } : Context).kept := by
  by_cases hroom : ctx.usages.length < maxLocalUsages
  · rw [if_pos (room_usages_kept.mpr hroom)]
    have htake : (ctx.usages ++ [usage]).take maxLocalUsages = ctx.usages ++ [usage] :=
      List.take_of_length_le (by rw [List.length_append, List.length_singleton]; omega)
    simp only [Context.kept, htake, List.take_of_length_le hroom.le]
  · rw [if_neg (mt room_usages_kept.mp hroom)]
    have htake : (ctx.usages ++ [usage]).take maxLocalUsages = ctx.usages.take maxLocalUsages :=
      List.take_append_of_le_length (Nat.not_lt.mp hroom)
    simp only [Context.kept, htake]

/-- **One item** keeps the bounded context what the arrays hold of the unbounded one, unless it is
a Pop while more than four Pushes are open. -/
private theorem step_kept {item : ShortItem}
    (hpop : item.isPop = true → ctx.stack.length ≤ globalStackMax) :
    ctx.kept.step .source item = (ctx.step .unbounded item).kept := by
  unfold Context.step
  split
  · next hone =>
    unfold Context.global
    split <;> try rfl
    · exact kept_push
    · next htag =>
      have hle : ctx.stack.length - globalStackMax = 0 := by
        have := hpop (by rw [ShortItem.isPop, hone, htag]; rfl)
        omega
      have hstack : ctx.kept.stack = ctx.stack := by rw [Context.kept, hle, List.drop_zero]
      rw [hstack]
      cases hctx : ctx.stack with
      | nil => rfl
      | cons g stack =>
        rw [hctx, List.length_cons] at hle
        have hnone : stack.length - globalStackMax = 0 := by omega
        simp only [Context.kept, hnone, List.drop_zero]
  · unfold Context.local
    split <;> try rfl
    exact kept_usage _
  · rfl
  · rfl

/-- **Without a deep Pop** the bounded parser sees the Input items of the unbounded one, with the
usages that its list holds. -/
private theorem inputItems_source_eq {items : List ShortItem} (h : NoDeepPop ctx items) :
    inputItems .source ctx.kept items = (inputItems .unbounded ctx items).map InputItem.kept := by
  induction items generalizing ctx with
  | nil => rfl
  | cons item items ih =>
    have hstep : ctx.kept.step .source item = (ctx.step .unbounded item).kept :=
      step_kept fun hpop ↦ h [] item ⟨items, rfl⟩ hpop
    have hrest : NoDeepPop (ctx.step .unbounded item) items := fun before item' hprefix hpop ↦
      h (item :: before) item' (List.cons_prefix_cons.mpr ⟨rfl, hprefix⟩) hpop
    have hinput : (ctx.kept.input? item).toList
        = (ctx.input? item).toList.map InputItem.kept := by
      unfold Context.input?
      split <;> rfl
    rw [inputItems, inputItems, hstep, ih hrest, hinput, List.map_append]

end

/-! ## Lost fields -/

/-- Field `k` takes a usage that the usage list of the source does not hold. -/
def InputItem.drops (d : InputItem) (k : ℕ) : Bool :=
  !(d.usageMin.isSome && d.usageMax.isSome) && maxLocalUsages ≤ min k (d.usages.length - 1)

/-- The first field of an item with a usage. -/
def InputItem.firstIndex (d : InputItem) (usage : ℕ) : Option ℕ :=
  (List.range d.g.reportCount).find? fun k ↦ d.fieldUsage k = some usage

/-- The first field of a report with a usage: its item and its number in the item. -/
def firstDeclared (usage : ℕ) : List InputItem → Option (InputItem × ℕ)
  | [] => none
  | d :: ds => ((d.firstIndex usage).map fun k ↦ (d, k)).or (firstDeclared usage ds)

section

variable {d : InputItem} {usage k : ℕ}

private theorem le_of_drops (h : d.drops k = true) : maxLocalUsages ≤ k := by
  simp only [InputItem.drops, Bool.and_eq_true, decide_eq_true_eq] at h
  omega

private theorem drops_mono {j : ℕ} (h : d.drops k = true) (hkj : k ≤ j) : d.drops j = true := by
  simp only [InputItem.drops, Bool.and_eq_true, decide_eq_true_eq] at h ⊢
  exact ⟨h.1, by omega⟩

private theorem fieldUsage_kept (d : InputItem) (k : ℕ) :
    d.kept.fieldUsage k
      = if d.drops k then d.fieldUsage (maxLocalUsages - 1) else d.fieldUsage k := by
  have hlist (usages : List ℕ) :
      (usages.take maxLocalUsages)[min k ((usages.take maxLocalUsages).length - 1)]?
        = if maxLocalUsages ≤ min k (usages.length - 1) then
            usages[min (maxLocalUsages - 1) (usages.length - 1)]?
          else usages[min k (usages.length - 1)]? := by
    rw [List.length_take, List.getElem?_take]
    unfold maxLocalUsages
    split_ifs <;> first | omega | (congr 1; omega)
  unfold InputItem.fieldUsage InputItem.drops InputItem.kept
  dsimp only
  cases hmin : d.usageMin with
  | none => simpa using hlist d.usages
  | some lo =>
    cases hmax : d.usageMax with
    | none => simpa using hlist d.usages
    | some hi => rfl

/-- The first field with a usage is the same, or it is lost and the item has no such field left. -/
private theorem firstIndex_kept (d : InputItem) (usage : ℕ) :
    d.kept.firstIndex usage = (d.firstIndex usage).filter fun k ↦ !d.drops k := by
  have hlast {k : ℕ} (hdrop : d.drops k = true) : maxLocalUsages - 1 < k := by
    have := le_of_drops hdrop
    unfold maxLocalUsages at *
    omega
  unfold InputItem.firstIndex
  change (List.range d.g.reportCount).find? (fun k ↦ d.kept.fieldUsage k = some usage) = _
  cases hfirst : (List.range d.g.reportCount).find? fun k ↦ d.fieldUsage k = some usage with
  | none =>
    rw [List.find?_eq_none] at hfirst
    rw [Option.filter_none, List.find?_eq_none]
    intro k hk
    rw [fieldUsage_kept]
    split
    · next hdrop =>
      exact hfirst _ (List.mem_range.mpr ((hlast hdrop).trans (List.mem_range.mp hk)))
    · exact hfirst k hk
  | some k =>
    rw [List.find?_range_eq_some] at hfirst
    obtain ⟨hk, hmem, hbefore⟩ := hfirst
    cases hdrop : d.drops k with
    | false =>
      rw [Option.filter_some_pos (by simpa using hdrop), List.find?_range_eq_some]
      refine ⟨?_, hmem, fun j hj ↦ ?_⟩
      · rw [fieldUsage_kept, hdrop]
        exact hk
      · rw [fieldUsage_kept]
        split
        · next hlost => exact hbefore _ ((hlast hlost).trans hj)
        · exact hbefore j hj
    | true =>
      rw [Option.filter_some_neg (by simpa using hdrop), List.find?_eq_none]
      intro j hj
      rw [fieldUsage_kept]
      split
      · next hlost => simpa using hbefore _ (hlast hdrop)
      · next hkeep =>
        have hjk : j < k := by
          by_contra hle
          exact hkeep (drops_mono hdrop (Nat.not_lt.mp hle))
        simpa using hbefore j hjk

end

private theorem le_off_of_mem_fieldsFrom {ds : List InputItem} {start : ℕ} {f : Field}
    (h : f ∈ fieldsFrom start ds) : start ≤ f.off := by
  induction ds generalizing start with
  | nil => exact absurd h List.not_mem_nil
  | cons d ds ih =>
    rw [fieldsFrom, List.mem_append, List.mem_map] at h
    rcases h with ⟨k, -, rfl⟩ | h
    · exact Nat.le_add_right _ _
    · exact (Nat.le_add_right _ _).trans (ih h)

/-- The first field of an item with a usage, and then those of the items after it. -/
private theorem firstField_fieldsFrom_cons (usage start : ℕ) (d : InputItem) (ds : List InputItem) :
    firstField usage (fieldsFrom start (d :: ds))
      = ((d.firstIndex usage).map fun k ↦ ⟨some usage, start + k * d.g.reportSize, d.g⟩).or
        (firstField usage (fieldsFrom (start + d.bits) ds)) := by
  rw [fieldsFrom, firstField_append]
  congr 1
  rw [firstField, List.find?_map, InputItem.firstIndex]
  cases hfirst : (List.range d.g.reportCount).find? fun k ↦ d.fieldUsage k = some usage with
  | none =>
    have hnone : (List.range d.g.reportCount).find?
        ((fun f : Field ↦ decide (f.usage = some usage)) ∘
          fun k ↦ ⟨d.fieldUsage k, start + k * d.g.reportSize, d.g⟩) = none := hfirst
    rw [hnone]
    rfl
  | some k =>
    have hsome : (List.range d.g.reportCount).find?
        ((fun f : Field ↦ decide (f.usage = some usage)) ∘
          fun k ↦ ⟨d.fieldUsage k, start + k * d.g.reportSize, d.g⟩) = some k := hfirst
    have husage : d.fieldUsage k = some usage := by simpa using List.find?_some hfirst
    rw [hsome, Option.map_some, Option.map_some, husage]

/-- **What becomes of the first field** with a usage when the usages past the end of the list are
dropped: it stays the first unless it is lost, and then a field behind it comes first. -/
private theorem firstField_kept {usage : ℕ} {ds : List InputItem}
    (hsize : ∀ d ∈ ds, 1 ≤ d.g.reportSize) (start : ℕ) :
    (firstDeclared usage ds = none →
      firstField usage (fieldsFrom start (ds.map InputItem.kept)) = none) ∧
    ∀ d k, firstDeclared usage ds = some (d, k) →
      ∃ f, firstField usage (fieldsFrom start ds) = some f ∧
        (d.drops k = false → firstField usage (fieldsFrom start (ds.map InputItem.kept)) = some f) ∧
        (d.drops k = true → ∀ f', firstField usage (fieldsFrom start (ds.map InputItem.kept)) = some f' →
          f.off < f'.off) := by
  induction ds generalizing start with
  | nil => exact ⟨fun _ ↦ rfl, fun d k h ↦ by contradiction⟩
  | cons d₀ ds ih =>
    obtain ⟨hsize₀, hsizes⟩ := List.forall_mem_cons.mp hsize
    have hkept : firstField usage (fieldsFrom start ((d₀ :: ds).map InputItem.kept))
        = (((d₀.firstIndex usage).filter fun k ↦ !d₀.drops k).map
            fun k ↦ ⟨some usage, start + k * d₀.g.reportSize, d₀.g⟩).or
          (firstField usage (fieldsFrom (start + d₀.bits) (ds.map InputItem.kept))) := by
      rw [List.map_cons, firstField_fieldsFrom_cons, firstIndex_kept]
      rfl
    rw [hkept, firstField_fieldsFrom_cons, firstDeclared]
    cases hfirst : d₀.firstIndex usage with
    | none => exact ih hsizes _
    | some k₀ =>
      refine ⟨fun h ↦ by contradiction, fun d k h ↦ ?_⟩
      obtain ⟨rfl, rfl⟩ : d₀ = d ∧ k₀ = k := by simpa using h
      have hk : k₀ < d₀.g.reportCount := by
        rw [InputItem.firstIndex] at hfirst
        exact List.mem_range.mp (List.mem_of_find?_eq_some hfirst)
      refine ⟨_, rfl, fun hkeep ↦ ?_, fun hdrop f' hf' ↦ ?_⟩
      · rw [Option.filter_some_pos (by simpa using hkeep)]
        rfl
      · rw [Option.filter_some_neg (by simpa using hdrop), Option.map_none, Option.none_or] at hf'
        have hle := le_off_of_mem_fieldsFrom (List.mem_of_find?_eq_some hf')
        have hlt : k₀ * d₀.g.reportSize < d₀.bits := by
          rw [InputItem.bits, Nat.mul_comm]
          exact Nat.mul_lt_mul_of_pos_left hk hsize₀
        dsimp only
        omega

/-! ## The selected report -/

/-- The usages of a touch report. -/
def touchUsages : List ℕ := [usageTipSwitch, usageX, usageY]

/-- The Input items of a report declare a touch report even without the usages that are dropped. -/
def KeptTouch (desc : List UInt8) (maxInputLength : ℕ) (id : UInt8) : Prop :=
  DeclaresTouch ((itemsOf desc id).map InputItem.kept)
    (payloadBits maxInputLength (hasReportIdItem desc))

/-- Of the first 16 report IDs the first one that keeps a touch report has lost none of the first
fields that the descriptor declares with a touch usage. -/
def KeepsFirstFields (desc : List UInt8) (maxInputLength : ℕ) : Prop :=
  ∀ before id after, (reportIds desc).take maxReportIds = before ++ id :: after →
    (∀ id' ∈ before, ¬KeptTouch desc maxInputLength id') → KeptTouch desc maxInputLength id →
      ∀ usage ∈ touchUsages, ∀ d k, firstDeclared usage (itemsOf desc id) = some (d, k) →
        d.drops k = false

theorem RidState.Summarises.layout_eq {r : RidState} {maxReportBits payload : ℕ}
    {ds : List InputItem} (h : r.Summarises maxReportBits ds) (htouch : DeclaresTouch ds payload)
    (hpayload : payload ≤ maxReportBits) (anyReportId : Bool) :
    ∃ ft fx fy, firstField usageTipSwitch (fieldsFrom 0 ds) = some ft ∧
      firstField usageX (fieldsFrom 0 ds) = some fx ∧
      firstField usageY (fieldsFrom 0 ds) = some fy ∧
      r.layout anyReportId = ⟨anyReportId, r.id, ft.off, fx.off, fx.g.reportSize,
        resolveLogicalMax fx.g, fy.off, fy.g.reportSize, resolveLogicalMax fy.g⟩ := by
  have hkeeps := h.kept ⟨htouch.nonempty, htouch.fits.trans hpayload⟩
  obtain ⟨ft, hft⟩ := Option.isSome_iff_exists.mp htouch.tip
  obtain ⟨fx, hfx⟩ := Option.isSome_iff_exists.mp htouch.x
  obtain ⟨fy, hfy⟩ := Option.isSome_iff_exists.mp htouch.y
  refine ⟨ft, fx, fy, hft, hfx, hfy, ?_⟩
  rw [hft, hfx, hfy] at hkeeps
  obtain ⟨hxbits, hxmax⟩ := hkeeps.x_field fx rfl
  obtain ⟨hybits, hymax⟩ := hkeeps.y_field fy rfl
  rw [RidState.layout, hkeeps.tip, hkeeps.x, hkeeps.y, hxbits, hxmax, hybits, hymax]
  rfl

section

variable {desc : List UInt8} {maxInputLength : ℕ}

private theorem totalBits_map_kept (ds : List InputItem) :
    totalBits (ds.map InputItem.kept) = totalBits ds := by
  rw [totalBits, List.map_map]
  rfl

private theorem KeptTouch.declaresTouch {id : UInt8} (h : KeptTouch desc maxInputLength id) :
    DeclaresTouch (itemsOf desc id) (payloadBits maxInputLength (hasReportIdItem desc)) := by
  have hnonempty : ∀ d ∈ itemsOf desc id, 1 ≤ d.g.reportSize ∧ 1 ≤ d.g.reportCount :=
    fun d hd ↦ h.nonempty d.kept (List.mem_map_of_mem hd)
  have hfirst {usage : ℕ}
      (hkept : (firstField usage (fieldsFrom 0 ((itemsOf desc id).map InputItem.kept))).isSome) :
      (firstField usage (fieldsFrom 0 (itemsOf desc id))).isSome := by
    obtain ⟨hnone, hsome⟩ := @firstField_kept usage _ (fun d hd ↦ (hnonempty d hd).1) 0
    cases hdeclared : firstDeclared usage (itemsOf desc id) with
    | none =>
      rw [hnone hdeclared] at hkept
      contradiction
    | some p =>
      obtain ⟨f, hf, -⟩ := hsome p.1 p.2 hdeclared
      rw [hf]
      rfl
  exact ⟨hnonempty, totalBits_map_kept _ ▸ h.fits, hfirst h.tip, hfirst h.x, hfirst h.y⟩

/-- The Input items of the bounded parser. -/
private def keptItems (desc : List UInt8) : List InputItem :=
  (declaredItems desc).map InputItem.kept

private theorem keys_keptItems (desc : List UInt8) :
    Keyed.keys InputItem.reportId (keptItems desc) = reportIds desc := by
  rw [reportIds, Keyed.keys, Keyed.keys, keptItems, List.map_map]
  rfl

private theorem filter_keptItems (desc : List UInt8) (id : UInt8) :
    (keptItems desc).filter (InputItem.reportId · = id)
      = (itemsOf desc id).map InputItem.kept := by
  rw [keptItems, itemsOf, List.filter_map]
  rfl

private theorem anyReportId_parsedContext (caps : Capacities) (desc : List UInt8) :
    (parsedContext caps desc).anyReportId = hasReportIdItem desc := by
  rw [parsedContext, anyReportId_contextAfter]
  rfl

variable (hmax : maxInputLength ≤ 1024)

include hmax in
private theorem summarises_records (id : UInt8) :
    (reportRecord (8 * (maxInputLength - 2)) (declaredItems desc) id).Summarises
      (8 * (maxInputLength - 2)) (itemsOf desc id) ∧
    (reportRecord (8 * (maxInputLength - 2)) (keptItems desc) id).Summarises
      (8 * (maxInputLength - 2)) ((itemsOf desc id).map InputItem.kept) := by
  have hbits : 8 * (maxInputLength - 2) < usageX := by
    unfold usageX
    omega
  have hrange : ∀ d ∈ itemsOf desc id, d.RangeInBounds := by
    intro d hd
    have hinit : Context.RangeInBounds .init := ⟨by simp [Context.init], by simp [Context.init]⟩
    exact inputItems_rangeInBounds (fun item ↦ sized_of_mem_shortItems) hinit d
      (List.mem_of_mem_filter hd)
  refine ⟨foldl_absorb_summarises hbits id hrange, ?_⟩
  rw [reportRecord, Keyed.recordOf, filter_keptItems]
  refine foldl_absorb_summarises hbits id fun d hd ↦ ?_
  obtain ⟨d', hd', rfl⟩ := List.mem_map.mp hd
  exact hrange d' hd'

include hmax in
/-- The record of a report passes the selection test of the unbounded parser if the report declares
a touch report. -/
private theorem selectable_declared {id : UInt8} (hid : id ∈ reportIds desc) :
    (reportRecord (8 * (maxInputLength - 2)) (declaredItems desc) id).selectable
        (payloadBits maxInputLength (hasReportIdItem desc)) = true ↔
      DeclaresTouch (itemsOf desc id) (payloadBits maxInputLength (hasReportIdItem desc)) := by
  have hbits : 8 * (maxInputLength - 2) < u32 := by
    unfold u32
    omega
  refine (summarises_records hmax id).1.selectable_iff ?_ (Nat.sub_le _ _)
  refine tableAfter_placed .unbounded hbits (declaredItems desc)
    (fun r hr ↦ absurd hr List.not_mem_nil) _ ?_
  rw [tableAfter_unbounded_eq]
  exact List.mem_map_of_mem hid

include hmax in
/-- The record of a report passes the selection test of the source if the report keeps a touch
report. -/
private theorem selectable_kept {id : UInt8} (hid : id ∈ (reportIds desc).take maxReportIds) :
    (reportRecord (8 * (maxInputLength - 2)) (keptItems desc) id).selectable
        (payloadBits maxInputLength (hasReportIdItem desc)) = true ↔
      KeptTouch desc maxInputLength id := by
  have hbits : 8 * (maxInputLength - 2) < u32 := by
    unfold u32
    omega
  refine (summarises_records hmax id).2.selectable_iff ?_ (Nat.sub_le _ _)
  refine tableAfter_placed .source hbits (keptItems desc)
    (fun r hr ↦ absurd hr List.not_mem_nil) _ ?_
  rw [tableAfter_source_take, keys_keptItems]
  exact List.mem_map_of_mem hid

include hmax in
private theorem hidParseTouchLayout_success_iff (hmin : 3 ≤ maxInputLength)
    (hpop : NoDeepPop .init (shortItems desc)) (layout₀ layout : HidTouchLayout) :
    hidParseTouchLayout desc maxInputLength layout₀ = .ok (.success, layout) ↔
      ∃ before id after, (reportIds desc).take maxReportIds = before ++ id :: after ∧
        (∀ id' ∈ before, ¬KeptTouch desc maxInputLength id') ∧ KeptTouch desc maxInputLength id ∧
        layout = (reportRecord (8 * (maxInputLength - 2)) (keptItems desc) id).layout
          (hasReportIdItem desc) := by
  by_cases hdesc : desc = []
  · have hnone : reportIds desc = [] := by
      rw [hdesc, reportIds, declaredItems, shortItems_nil]
      rfl
    rw [hidParseTouchLayout_of_not_admitted (.inl hdesc), hnone]
    simp
  have htable : parsedTable .source (8 * (maxInputLength - 2)) desc
      = ((reportIds desc).take maxReportIds).map
        (reportRecord (8 * (maxInputLength - 2)) (keptItems desc)) := by
    have hitems : inputItems .source .init (shortItems desc) = keptItems desc :=
      inputItems_source_eq hpop
    rw [parsedTable, hitems, tableAfter_source_take, keys_keptItems]
  rw [hidParseTouchLayout_eq hdesc ⟨hmin, by omega⟩, anyReportId_parsedContext, htable, selectLayout,
    List.find?_map]
  cases hfind : ((reportIds desc).take maxReportIds).find? ((·.selectable (payloadBits maxInputLength
      (hasReportIdItem desc))) ∘ reportRecord (8 * (maxInputLength - 2)) (keptItems desc)) with
  | none =>
    rw [List.find?_eq_none] at hfind
    constructor
    · intro h
      simp at h
    · rintro ⟨before, id, after, heq, -, hkept, -⟩
      have hid : id ∈ (reportIds desc).take maxReportIds := by
        rw [heq]
        exact List.mem_append_right _ List.mem_cons_self
      exact absurd ((selectable_kept hmax hid).mpr hkept) (hfind id hid)
  | some id =>
    have hmem := List.mem_of_find?_eq_some hfind
    obtain ⟨hsel, before, after, heq, hbefore⟩ := List.find?_eq_some_iff_append.mp hfind
    have hnot : ∀ id' ∈ before, ¬KeptTouch desc maxInputLength id' := by
      intro id' hid' hkept
      have hmem' : id' ∈ (reportIds desc).take maxReportIds := by
        rw [heq]
        exact List.mem_append_left _ hid'
      have := hbefore id' hid'
      rw [Function.comp_apply, (selectable_kept hmax hmem').mpr hkept] at this
      simp at this
    have hkept := (selectable_kept hmax hmem).mp hsel
    constructor
    · intro h
      simp only [Option.map_some, Except.ok.injEq, Prod.mk.injEq, true_and] at h
      exact ⟨before, id, after, heq, hnot, hkept, h.symm⟩
    · rintro ⟨before', id', after', heq', hnot', hkept', rfl⟩
      -- both are the first report that keeps a touch report
      have hsame : id' = id := by
        have hfind' : ((reportIds desc).take maxReportIds).find? ((·.selectable (payloadBits
            maxInputLength (hasReportIdItem desc))) ∘
              reportRecord (8 * (maxInputLength - 2)) (keptItems desc)) = some id' := by
          refine List.find?_eq_some_iff_append.mpr ⟨?_, before', after', heq', fun id'' hid'' ↦ ?_⟩
          · exact (selectable_kept hmax (by rw [heq']; simp)).mpr hkept'
          · rw [Function.comp_apply, Bool.not_eq_true', ← Bool.not_eq_true,
              selectable_kept hmax (by rw [heq']; simp [hid''])]
            exact hnot' id'' hid''
        exact Option.some.inj (hfind'.symm.trans hfind)
      rw [hsame]
      rfl

/-- **When the fixed capacities fail safe.** If no Pop comes while more than four Pushes are open,
then a layout that the parser returns is always right if and only if the first report that keeps a
touch report has lost none of its first fields. -/
theorem failsSafe_iff (hmin : 3 ≤ maxInputLength) (hmax : maxInputLength ≤ 1024)
    (hpop : NoDeepPop .init (shortItems desc)) :
    FailsSafe desc maxInputLength ↔ KeepsFirstFields desc maxInputLength := by
  have hpayload : payloadBits maxInputLength (hasReportIdItem desc) ≤ 8 * (maxInputLength - 2) :=
    Nat.sub_le _ _
  constructor
  · -- the layouts of the cut and of the uncut record agree, so no field of the three was lost
    intro hsafe before id after heq hbefore hkept usage husage d k hfirst
    have hmem : id ∈ (reportIds desc).take maxReportIds := by
      rw [heq]
      exact List.mem_append_right _ List.mem_cons_self
    obtain ⟨-, r, hr, hid, -, hlayout⟩ := hsafe .zero _
      ((hidParseTouchLayout_success_iff hmax hmin hpop .zero _).mpr
        ⟨before, id, after, heq, hbefore, hkept, rfl⟩)
    obtain ⟨hdeclared, hcut⟩ := @summarises_records desc maxInputLength hmax id
    have hrecord : r = reportRecord (8 * (maxInputLength - 2)) (declaredItems desc) id := by
      rw [parsedTable] at hr
      change r ∈ tableAfter .unbounded _ [] (declaredItems desc) at hr
      rw [tableAfter_unbounded_eq] at hr
      obtain ⟨id', -, rfl⟩ := List.mem_map.mp hr
      have hid' : id' = id := by simpa [RidState.layout] using hid
      rw [hid']
    obtain ⟨ft, fx, fy, hft, hfx, hfy, hl⟩ :=
      hdeclared.layout_eq hkept.declaresTouch hpayload (hasReportIdItem desc)
    obtain ⟨ft', fx', fy', hft', hfx', hfy', hl'⟩ :=
      hcut.layout_eq hkept hpayload (hasReportIdItem desc)
    rw [anyReportId_parsedContext, hrecord, hl, hl'] at hlayout
    simp only [HidTouchLayout.mk.injEq] at hlayout
    obtain ⟨-, -, htip, hx, -, -, hy, -, -⟩ := hlayout
    by_contra hdrop
    rw [Bool.not_eq_false] at hdrop
    -- a dropped first field would leave one further on in its place
    obtain ⟨f, hf, -, hlost⟩ :=
      (firstField_kept (fun d hd ↦ (hkept.declaresTouch.nonempty d hd).1) 0).2 d k hfirst
    have hlost := hlost hdrop
    simp only [touchUsages, List.mem_cons, List.not_mem_nil, or_false] at husage
    rcases husage with rfl | rfl | rfl
    · obtain rfl := Option.some.inj (hf.symm.trans hft)
      exact absurd (hlost ft' hft') (by omega)
    · obtain rfl := Option.some.inj (hf.symm.trans hfx)
      exact absurd (hlost fx' hfx') (by omega)
    · obtain rfl := Option.some.inj (hf.symm.trans hfy)
      exact absurd (hlost fy' hfy') (by omega)
  · -- the first fields are all kept, so that both records choose the same three
    intro hfields layout₀ layout hparse
    obtain ⟨before, id, after, heq, hbefore, hkept, rfl⟩ :=
      (hidParseTouchLayout_success_iff hmax hmin hpop layout₀ layout).mp hparse
    have hid : id ∈ reportIds desc := by
      refine List.mem_of_mem_take (i := maxReportIds) ?_
      rw [heq]
      exact List.mem_append_right _ List.mem_cons_self
    have htouch := hkept.declaresTouch
    obtain ⟨hdeclared, hcut⟩ := @summarises_records desc maxInputLength hmax id
    have hsame : ∀ usage ∈ touchUsages, ∀ f f',
        firstField usage (fieldsFrom 0 (itemsOf desc id)) = some f →
        firstField usage (fieldsFrom 0 ((itemsOf desc id).map InputItem.kept)) = some f' →
          f = f' := by
      intro usage husage f f' hf hf'
      obtain ⟨hnone, hsome⟩ :=
        @firstField_kept usage _ (fun d hd ↦ (htouch.nonempty d hd).1) 0
      cases hfirst : firstDeclared usage (itemsOf desc id) with
      | none => exact absurd ((hnone hfirst).symm.trans hf') (by simp)
      | some p =>
        obtain ⟨g, hg, hkeep, -⟩ := hsome p.1 p.2 hfirst
        have hkeep := hkeep (hfields before id after heq hbefore hkept usage husage p.1 p.2 hfirst)
        exact (Option.some.inj (hf.symm.trans hg)).trans (Option.some.inj (hkeep.symm.trans hf'))
    obtain ⟨ft, fx, fy, hft, hfx, hfy, hl⟩ :=
      hdeclared.layout_eq htouch hpayload (hasReportIdItem desc)
    obtain ⟨ft', fx', fy', hft', hfx', hfy', hl'⟩ :=
      hcut.layout_eq hkept hpayload (hasReportIdItem desc)
    obtain rfl := hsame usageTipSwitch (by decide) ft ft' hft hft'
    obtain rfl := hsame usageX (by decide) fx fx' hfx hfx'
    obtain rfl := hsame usageY (by decide) fy fy' hfy hfy'
    have hin : reportRecord (8 * (maxInputLength - 2)) (declaredItems desc) id
        ∈ parsedTable .unbounded (8 * (maxInputLength - 2)) desc := by
      change _ ∈ tableAfter .unbounded _ [] (declaredItems desc)
      rw [tableAfter_unbounded_eq]
      exact List.mem_map_of_mem hid
    have hsel := (selectable_declared hmax hid).mpr htouch
    rw [← anyReportId_parsedContext .unbounded desc] at hsel
    refine ⟨?_, _, hin, ?_, hsel, ?_⟩
    · rw [parseUnbounded, selectLayout]
      cases hfind : (parsedTable .unbounded (8 * (maxInputLength - 2)) desc).find?
          (·.selectable (payloadBits maxInputLength
            (parsedContext .unbounded desc).anyReportId)) with
      | none => exact absurd hsel (List.find?_eq_none.mp hfind _ hin)
      | some r => exact ⟨_, rfl⟩
    · rw [hl', reportRecord_id, reportRecord_id]
    · rw [anyReportId_parsedContext, hl, hl', reportRecord_id, reportRecord_id]

end

/-! ### Two descriptors that overflow -/

/-- The digitizer with five Pushes before its axes: the fifth saves a maximum of 4095, and the Pop
restores the 255 of the fourth. -/
def fivePushes : List UInt8 :=
  [0x05, 0x0D, 0x85, 0x01, 0x25, 0x01, 0x75, 0x01, 0x95, 0x01, 0x09, 0x42, 0x81, 0x02,
   0x05, 0x01, 0x75, 0x10, 0x26, 0xFF, 0x00, 0xA4, 0xA4, 0xA4, 0xA4, 0x26, 0xFF, 0x0F, 0xA4,
   0x25, 0x01, 0xB4, 0x09, 0x30, 0x81, 0x02, 0x09, 0x31, 0x81, 0x02]

/-- The parser returns a layout with the wrong maxima. -/
theorem not_failsSafe_of_fivePushes :
    ¬∀ desc maxInputLength, 3 ≤ maxInputLength → maxInputLength ≤ 1024 →
      FailsSafe desc maxInputLength := by
  intro h
  have hparse : hidParseTouchLayout fivePushes 64 .zero
      = .ok (.success, ⟨true, 1, 0, 1, 16, 255, 17, 16, 255⟩) := by decide +kernel
  obtain ⟨-, r, hr, -, -, hlayout⟩ := h fivePushes 64 (by decide) (by decide) _ _ hparse
  have hwrong : ∀ r ∈ parsedTable .unbounded (8 * (64 - 2)) fivePushes,
      (r.layout (parsedContext .unbounded fivePushes).anyReportId).xLogicalMax = 4095 := by
    decide +kernel
  have hmaximum := hwrong r hr
  rw [hlayout] at hmaximum
  exact absurd hmaximum (by decide)

/-- An item with 33 usages, X the last of them, before the digitizer's own X and Y. -/
def manyUsages : List UInt8 :=
  [0x05, 0x0D, 0x85, 0x01, 0x25, 0x01, 0x75, 0x01, 0x95, 0x01, 0x09, 0x42, 0x81, 0x02, 0x05, 0x01] ++
    (List.replicate 32 [0x09, 0x01]).flatten ++
    [0x09, 0x30, 0x95, 0x21, 0x81, 0x02, 0x26, 0xFF, 0x0F, 0x75, 0x10, 0x95, 0x01, 0x09, 0x30,
     0x81, 0x02, 0x09, 0x31, 0x81, 0x02]

/-- The first X of that report is lost. -/
private theorem not_keepsFirstFields_manyUsages : ¬KeepsFirstFields manyUsages 64 := by
  intro hkeeps
  have hlost : ((firstDeclared usageX (itemsOf manyUsages 1)).any fun p ↦ p.1.drops p.2) = true := by
    decide +kernel
  obtain ⟨⟨d, k⟩, hfirst, hdrop⟩ := (Option.any_eq_true _ _).mp hlost
  have htouch : KeptTouch manyUsages 64 1 :=
    ⟨by decide +kernel, by decide +kernel, by decide +kernel, by decide +kernel, by decide +kernel⟩
  have hkeep := hkeeps [] 1 [] (by decide +kernel) (by simp) htouch usageX (by decide) d k hfirst
  exact Bool.false_ne_true (hkeep.symm.trans hdrop)

theorem failsSafe_iff_manyUsages : ¬FailsSafe manyUsages 64 := by
  have hnone : ∀ item ∈ shortItems manyUsages, item.isPop = false := by decide +kernel
  have hpop : NoDeepPop .init (shortItems manyUsages) := by
    intro before item hprefix hitem
    have hmem : item ∈ shortItems manyUsages := hprefix.mem (by simp)
    exact absurd (hitem.symm.trans (hnone item hmem)) (by simp)
  exact mt (failsSafe_iff (by decide) (by decide) hpop).mp not_keepsFirstFields_manyUsages

end HidParse

end TouchI2c
