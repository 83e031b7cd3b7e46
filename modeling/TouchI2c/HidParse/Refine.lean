import TouchI2c.HidParse.Declared

/-!
# The parser never faults, and refines the list parser

`Refines` relates the locals of `HidParseTouchLayout` to a context and a table of report records:
the initialised parts of `Usages`, `Stack` and `Rids` are the lists of the context, and the counters
are their lengths.

Each item keeps the relation without a fault, so the whole loop does (`parseLoop_refines`): every
array access is in range and initialised, and no bit position wraps. What is left of the source's
arrays afterwards are the capacities of `Capacities.source`: an array that is full is a list that
takes no more.

The table of the source has free records behind the ones in use, which `GetRidState` opens one by
one and the selection loop passes over. With that the status and the layout of the parser are those
of the list parser, for every descriptor and every admitted length (`hidParseTouchLayout_eq`).
-/

namespace TouchI2c

namespace HidParse

open CMemory

/-! ## Reading an item -/

theorem readUVal_ok {desc : List UInt8} {start n : ℕ} (h : start + n ≤ desc.length) :
    readUVal desc start n = .ok (uValOf ((desc.drop start).take n)) := by
  induction n with
  | zero => simp [readUVal]
  | succ n ih =>
    have hn : start + n < desc.length := by omega
    have hget : (desc.drop start)[n]? = some desc[start + n] := by
      rw [List.getElem?_drop, List.getElem?_eq_getElem hn]
    have hlen : ((desc.drop start).take n).length = n := by
      rw [List.length_take, List.length_drop]
      omega
    have hlt : uValOf ((desc.drop start).take n) < 2 ^ (8 * n) := by
      simpa only [hlen] using uValOf_lt ((desc.drop start).take n)
    rw [readUVal, ih (by omega), ok_bind, readAt_getElem hn, ok_bind, List.take_add_one, hget,
      Option.toList_some, uValOf_append_singleton, hlen, pure_eq_ok, Nat.lor_comm,
      ← Nat.shiftLeft_add_eq_or_of_lt hlt, Nat.shiftLeft_eq, Nat.add_comm]

/-! ## The relation -/

/-- The locals of the parser hold this context and this table of records. -/
structure Refines (st : ParserState) (ctx : Context) (table : List RidState) : Prop where
  g : st.g = ctx.g
  reportId : st.reportId = ctx.g.reportId
  anyReportId : st.anyReportId = ctx.anyReportId
  sp : st.sp = ctx.stack.length
  stack : ctx.stack.reverse.map some <+: st.stack
  stack_length : st.stack.length = globalStackMax
  numUsages : st.numUsages = ctx.usages.length
  usages : ctx.usages.map some <+: st.usages
  usages_length : st.usages.length = maxLocalUsages
  usageMin : ctx.usageMin = if st.haveUsageMin then some st.usageMin else none
  usageMax : ctx.usageMax = if st.haveUsageMax then some st.usageMax else none
  rids : st.rids = table ++ List.replicate (maxReportIds - table.length) .zero
  table_length : table.length ≤ maxReportIds
  used : ∀ r ∈ table, r.used = true

theorem refines_init : Refines .init .init [] where
  g := rfl
  reportId := rfl
  anyReportId := rfl
  sp := rfl
  stack := List.nil_prefix
  stack_length := rfl
  numUsages := rfl
  usages := List.nil_prefix
  usages_length := rfl
  usageMin := rfl
  usageMax := rfl
  rids := rfl
  table_length := Nat.zero_le _
  used := by simp

section

variable {st : ParserState} {ctx : Context} {table : List RidState}

/-! ## Global and local items -/

/-- A global item that changes only the globals, and not the report ID. -/
private theorem Refines.setGlobals (h : Refines st ctx table) {g g' : HidGlobals}
    (hg : g = g') (hid : g'.reportId = ctx.g.reportId) :
    Refines { st with g := g } { ctx with g := g' } table :=
  { h with g := hg, reportId := h.reportId.trans hid.symm }

private theorem Refines.push (h : Refines st ctx table)
    (hsp : st.sp < globalStackMax) :
    Refines { st with stack := st.stack.set st.sp (some st.g), sp := st.sp + 1 }
      { ctx with stack := ctx.g :: ctx.stack } table := by
  have hlen : ctx.stack.reverse.length = st.sp := by rw [List.length_reverse, h.sp]
  have hpre := prefix_set_length st.g h.stack (by rwa [hlen, h.stack_length])
  rw [hlen, h.g, ← List.reverse_cons] at hpre
  exact { h with
    sp := by rw [h.sp, List.length_cons]
    stack := by rw [h.g]; exact hpre
    stack_length := by rw [List.length_set, h.stack_length] }

private theorem Refines.pop (h : Refines st ctx table) {g : HidGlobals}
    {stack : List HidGlobals} (hstack : ctx.stack = g :: stack) :
    readSlot st.stack (st.sp - 1) = .ok g ∧
      Refines { st with g := g, sp := st.sp - 1, reportId := g.reportId }
        { ctx with g := g, stack := stack } table := by
  have hsp : st.sp = stack.length + 1 := by rw [h.sp, hstack, List.length_cons]
  have hpre := h.stack
  rw [hstack, List.reverse_cons] at hpre
  refine ⟨readSlot_of_initialised hpre ?_, ?_⟩
  · rw [hsp, Nat.add_sub_cancel, List.getElem?_append_right (by simp), List.length_reverse,
      Nat.sub_self, List.getElem?_cons_zero]
  · exact { h with
      g := rfl
      reportId := rfl
      sp := by rw [hsp, Nat.add_sub_cancel]
      stack := prefix_of_append_singleton hpre }

private theorem Refines.addUsage (h : Refines st ctx table) (usage : ℕ)
    (hn : st.numUsages < maxLocalUsages) :
    Refines { st with usages := st.usages.set st.numUsages (some usage), numUsages := st.numUsages + 1 }
      { ctx with usages := ctx.usages ++ [usage] } table := by
  have hpre := prefix_set_length usage h.usages (by rwa [← h.numUsages, h.usages_length])
  exact { h with
    numUsages := by rw [h.numUsages, List.length_append, List.length_singleton]
    usages := by rw [h.numUsages]; exact hpre
    usages_length := by rw [List.length_set, h.usages_length] }

theorem globalItem_refines (h : Refines st ctx table) {item : ShortItem} (hitem : item.Sized) :
    ∃ st', globalItem st item.tag item.uVal (sValOf item.dSize item.uVal) = .ok st' ∧
      Refines st' (ctx.global .source item) table := by
  rw [hitem.sValOf_eq]
  unfold globalItem Context.global
  have hg := h.g
  generalize item.tag = tag
  split
  case h_1 => exact ⟨_, rfl, h.setGlobals (by rw [hg]) rfl⟩
  case h_2 => exact ⟨_, rfl, h.setGlobals (by rw [hg]) rfl⟩
  case h_3 => exact ⟨_, rfl, h.setGlobals (by rw [hg]) rfl⟩
  case h_4 => exact ⟨_, rfl, h.setGlobals (by rw [hg]) rfl⟩
  case h_5 =>
    exact ⟨_, rfl, { h with g := by simp only [hg], reportId := rfl, anyReportId := rfl }⟩
  case h_6 => exact ⟨_, rfl, h.setGlobals (by rw [hg]) rfl⟩
  case h_7 =>
    have hroom : room Capacities.source.stack ctx.stack.length = true ↔ st.sp < globalStackMax := by
      rw [h.sp]
      exact room_some _ _
    try dsimp only
    by_cases hsp : st.sp < globalStackMax
    · rw [if_pos hsp, if_pos (hroom.mpr hsp), writeAt_ok _ (by rw [h.stack_length]; exact hsp)]
      exact ⟨_, rfl, h.push hsp⟩
    · rw [if_neg hsp, if_neg (fun hr ↦ hsp (hroom.mp hr))]
      exact ⟨_, rfl, h⟩
  case h_8 =>
    try dsimp only
    have hsp := h.sp
    cases hstack : ctx.stack with
    | nil =>
      rw [hstack, List.length_nil] at hsp
      rw [if_neg (by omega)]
      exact ⟨_, rfl, h⟩
    | cons g stack =>
      rw [hstack, List.length_cons] at hsp
      obtain ⟨hread, hpop⟩ := h.pop hstack
      rw [if_pos (by omega), hread]
      exact ⟨_, rfl, hpop⟩
  -- no other tag changes anything on either side
  case h_9 => exact ⟨_, rfl, by simp_all⟩

theorem localItem_refines (h : Refines st ctx table) {item : ShortItem} (hitem : item.Sized) :
    ∃ st', localItem st item.tag item.dSize item.uVal = .ok st' ∧
      Refines st' (ctx.local .source item) table := by
  have hext : extendedUsage st.g item.dSize item.uVal
      = usageValue ctx.g.usagePage item.dSize item.uVal := by
    rw [hitem.extendedUsage_eq, h.g]
  unfold localItem Context.local
  rw [hext]
  generalize item.tag = tag
  split
  case h_1 =>
    have hroom : room Capacities.source.usages ctx.usages.length = true ↔
        st.numUsages < maxLocalUsages := by
      rw [h.numUsages]
      exact room_some _ _
    by_cases hn : st.numUsages < maxLocalUsages
    · rw [if_pos hn, if_pos (hroom.mpr hn), writeAt_ok _ (by rw [h.usages_length]; exact hn)]
      exact ⟨_, rfl, h.addUsage _ hn⟩
    · rw [if_neg hn, if_neg (fun hr ↦ hn (hroom.mp hr))]
      exact ⟨_, rfl, h⟩
  case h_2 => exact ⟨_, rfl, { h with usageMin := (if_pos rfl).symm }⟩
  case h_3 => exact ⟨_, rfl, { h with usageMax := (if_pos rfl).symm }⟩
  case h_4 => exact ⟨_, rfl, by simp_all⟩

/-! ## Input items -/

/-- The Input item that the locals of the parser describe. -/
private def itemOf (ctx : Context) (flags : ℕ) : InputItem :=
  ⟨ctx.g, ctx.usages, ctx.usageMin, ctx.usageMax, flags⟩

private theorem loopUsage_ok (h : Refines st ctx table) (flags k : ℕ) :
    loopUsage st k = .ok ((itemOf ctx flags).loopUsage k) := by
  have hmin := h.usageMin
  have hmax := h.usageMax
  have hn := h.numUsages
  rw [loopUsage]
  by_cases hrange : st.haveUsageMin = true ∧ st.haveUsageMax = true
  · rw [if_pos hrange.1] at hmin
    rw [if_pos hrange.2] at hmax
    rw [if_pos hrange, InputItem.loopUsage_of_range (d := itemOf ctx flags) hmin hmax]
  · have hnone : ctx.usageMin = none ∨ ctx.usageMax = none := by
      rcases not_and_or.mp hrange with hno | hno
      · exact Or.inl (hmin.trans (if_neg hno))
      · exact Or.inr (hmax.trans (if_neg hno))
    rw [if_neg hrange, InputItem.loopUsage_of_no_range (d := itemOf ctx flags) hnone, itemOf]
    by_cases hpos : 0 < st.numUsages
    · have hidx : (if k < st.numUsages then k else st.numUsages - 1) = min k (st.numUsages - 1) := by
        split <;> omega
      have hlt : min k (st.numUsages - 1) < ctx.usages.length := by omega
      rw [if_pos hpos, hidx, readSlot_of_initialised h.usages (List.getElem?_eq_getElem hlt), ok_bind,
        ← hn, List.getElem?_eq_getElem hlt, pure_eq_ok]
    · rw [if_neg hpos, List.getElem?_eq_none (by dsimp only; omega)]

@[simp] theorem RidState.assign_bitPos (r : RidState) (g : HidGlobals) (usage off : ℕ) :
    (r.assign g usage off).bitPos = r.bitPos := by
  unfold RidState.assign
  split_ifs <;> rfl

@[simp] theorem InputItem.field_bitPos (d : InputItem) (r : RidState) (k : ℕ) :
    (d.field r k).bitPos = r.bitPos := by
  unfold InputItem.field
  split
  · rfl
  · exact RidState.assign_bitPos _ _ _ _

/-- One pass of the field loop: the offset of a field of an item that fits does not wrap. -/
private theorem inputField_ok (h : Refines st ctx table) {maxReportBits : ℕ}
    (hmax : maxReportBits < u32) (flags : ℕ) {r : RidState} {k : ℕ} (hk : k < ctx.g.reportCount)
    (hfit : r.bitPos + (itemOf ctx flags).bits ≤ maxReportBits) :
    inputField st r k = .ok ((itemOf ctx flags).field r k) := by
  have hbits : k * ctx.g.reportSize ≤ (itemOf ctx flags).bits := by
    rw [InputItem.bits, itemOf, Nat.mul_comm]
    exact Nat.mul_le_mul_left _ hk.le
  rw [inputField, h.g, mulU32_ok (by omega), ok_bind, addU32_ok (by omega), ok_bind,
    loopUsage_ok h flags, ok_bind, InputItem.field]
  split <;> simp_all [itemOf]

/-- The Input branch does to the record what the declared item does. -/
private theorem inputItem_ok (h : Refines st ctx table) {maxReportBits : ℕ}
    (hmax : maxReportBits < u32) (flags : ℕ) (r : RidState) :
    inputItem maxReportBits st r = .ok (absorb maxReportBits r (itemOf ctx flags)) := by
  have hbits : (itemOf ctx flags).bits = ctx.g.reportSize * ctx.g.reportCount := rfl
  have hsize : (itemOf ctx flags).g.reportSize = ctx.g.reportSize := rfl
  have hcount : (itemOf ctx flags).g.reportCount = ctx.g.reportCount := rfl
  rw [inputItem, absorb, h.g]
  by_cases hbad : ctx.g.reportSize = 0 ∨ ctx.g.reportCount = 0 ∨
      ctx.g.reportSize > maxReportBits ∨ ctx.g.reportCount > maxReportBits / ctx.g.reportSize
  · rw [if_pos hbad, if_neg]
    · rfl
    · rintro ⟨hs, hc, hfit⟩
      rw [hsize] at hs
      rw [hcount] at hc
      rw [hbits] at hfit
      have hle : ctx.g.reportSize * ctx.g.reportCount ≤ maxReportBits := by omega
      rcases hbad with hb | hb | hb | hb
      · omega
      · omega
      · exact absurd ((Nat.le_mul_of_pos_right _ hc).trans hle) (by omega)
      · have hdiv : ctx.g.reportCount ≤ maxReportBits / ctx.g.reportSize :=
          (Nat.le_div_iff_mul_le hs).mpr (by rwa [Nat.mul_comm])
        omega
  · rw [if_neg hbad]
    push Not at hbad
    obtain ⟨hs, hc, -, hdiv⟩ := hbad
    have hle : ctx.g.reportSize * ctx.g.reportCount ≤ maxReportBits := by
      rw [Nat.mul_comm]
      exact (Nat.le_div_iff_mul_le (Nat.pos_of_ne_zero hs)).mp hdiv
    rw [mulU32_ok (by omega), ok_bind, subUnsigned_ok hle, ok_bind]
    by_cases hover : r.bitPos > maxReportBits - ctx.g.reportSize * ctx.g.reportCount
    · rw [if_pos hover, if_neg]
      · rfl
      · rintro ⟨-, -, hfit⟩
        rw [hbits] at hfit
        omega
    · have hfit : r.bitPos + (itemOf ctx flags).bits ≤ maxReportBits := by
        rw [hbits]
        omega
      have hstep : ∀ r' : RidState, r'.bitPos = r.bitPos → ∀ k ∈ List.range ctx.g.reportCount,
          inputField st r' k = .ok ((itemOf ctx flags).field r' k) ∧
            ((itemOf ctx flags).field r' k).bitPos = r.bitPos := fun r' hr' k hk ↦
        ⟨inputField_ok h hmax flags (List.mem_range.mp hk) (by rwa [hr']),
          by rw [InputItem.field_bitPos, hr']⟩
      obtain ⟨hfold, hpos⟩ := foldlM_ok _ hstep rfl
      rw [if_neg hover, if_pos ⟨Nat.pos_of_ne_zero hs, Nat.pos_of_ne_zero hc, hfit⟩, hfold, ok_bind, hpos,
        addU32_ok (by omega), ok_bind, hcount, hbits]
      rfl

/-! ## Main items -/

@[simp] theorem freshRecord_id (id : UInt8) : (freshRecord id).id = id := rfl

@[simp] theorem freshRecord_used (id : UInt8) : (freshRecord id).used = true := rfl

theorem RidState.assign_eq (r : RidState) (g : HidGlobals) (usage off : ℕ) :
    (r.assign g usage off).id = r.id ∧ (r.assign g usage off).used = r.used ∧
      (r.assign g usage off).overflowed = r.overflowed := by
  unfold RidState.assign
  split_ifs <;> exact ⟨rfl, rfl, rfl⟩

/-- The fields of an item do not change what the record is for. -/
theorem foldl_field_eq (d : InputItem) (ks : List ℕ) (r : RidState) :
    (ks.foldl d.field r).id = r.id ∧ (ks.foldl d.field r).used = r.used ∧
      (ks.foldl d.field r).overflowed = r.overflowed := by
  induction ks generalizing r with
  | nil => exact ⟨rfl, rfl, rfl⟩
  | cons k ks ih =>
    have hk : (d.field r k).id = r.id ∧ (d.field r k).used = r.used ∧
        (d.field r k).overflowed = r.overflowed := by
      unfold InputItem.field
      split
      · exact ⟨rfl, rfl, rfl⟩
      · exact RidState.assign_eq _ _ _ _
    obtain ⟨hid, hused, hover⟩ := ih (d.field r k)
    rw [List.foldl_cons]
    exact ⟨hid.trans hk.1, hused.trans hk.2.1, hover.trans hk.2.2⟩

@[simp] theorem absorb_id (maxReportBits : ℕ) (r : RidState) (d : InputItem) :
    (absorb maxReportBits r d).id = r.id := by
  unfold absorb
  split
  · exact (foldl_field_eq d _ r).1
  · rfl

@[simp] theorem absorb_used (maxReportBits : ℕ) (r : RidState) (d : InputItem) :
    (absorb maxReportBits r d).used = r.used := by
  unfold absorb
  split
  · exact (foldl_field_eq d _ r).2.1
  · rfl

/-- The records of the source's array that no report ID has taken. -/
private def freeRecords (table : List RidState) : List RidState :=
  List.replicate (maxReportIds - table.length) .zero

private theorem findIdx?_congr {p q : RidState → Bool} {rs : List RidState}
    (h : ∀ r ∈ rs, p r = q r) : rs.findIdx? p = rs.findIdx? q := by
  induction rs with
  | nil => rfl
  | cons r rs ih =>
    rw [List.findIdx?_cons, List.findIdx?_cons, h r List.mem_cons_self,
      ih fun r hr ↦ h r (List.mem_cons_of_mem _ hr)]

private theorem modify_append_cons (f : RidState → RidState) (rs rest : List RidState)
    (r : RidState) : (rs ++ r :: rest).modify rs.length f = rs ++ f r :: rest := by
  induction rs with
  | nil => rfl
  | cons r' rs ih =>
    rw [List.cons_append, List.length_cons, List.modify_succ_cons, ih, List.cons_append]

private theorem getRidState_of_mem (used : ∀ r ∈ table, r.used = true) {id : UInt8}
    (hid : id ∈ table.map RidState.id) :
    ∃ i, table.findIdx? (fun r ↦ decide (r.id = id)) = some i ∧
      getRidState (table ++ freeRecords table) id = (some i, table ++ freeRecords table) := by
  have hsame : table.findIdx? (fun r ↦ r.used && r.id == id)
      = table.findIdx? (fun r ↦ decide (r.id = id)) :=
    findIdx?_congr fun r hr ↦ by rw [used r hr, Bool.true_and]; rfl
  obtain ⟨r, hr, hrid⟩ := List.mem_map.mp hid
  cases hfind : table.findIdx? (fun r ↦ decide (r.id = id)) with
  | none =>
    have hno := List.findIdx?_eq_none_iff.mp hfind r hr
    rw [decide_eq_false_iff_not] at hno
    exact absurd hrid hno
  | some i =>
    refine ⟨i, rfl, ?_⟩
    rw [getRidState, List.findIdx?_append, hsame, hfind, Option.some_or]

/-- `GetRidState` opens the first free record for a new report ID, if there is one. -/
private theorem getRidState_of_not_mem (used : ∀ r ∈ table, r.used = true) {id : UInt8}
    (hid : id ∉ table.map RidState.id) :
    getRidState (table ++ freeRecords table) id
      = if table.length < maxReportIds then
          (some table.length,
            table ++ freshRecord id :: List.replicate (maxReportIds - (table.length + 1)) .zero)
        else (none, table ++ freeRecords table) := by
  have hknown : (table ++ freeRecords table).findIdx? (fun r ↦ r.used && r.id == id) = none := by
    rw [List.findIdx?_eq_none_iff]
    intro r hr
    rcases List.mem_append.mp hr with hr | hr
    · have hne : r.id ≠ id := fun heq ↦ hid (heq ▸ List.mem_map_of_mem hr)
      simp [hne]
    · rw [(List.mem_replicate.mp hr).2]
      rfl
  have htaken : table.findIdx? (fun r ↦ !r.used) = none :=
    List.findIdx?_eq_none_iff.mpr fun r hr ↦ by rw [used r hr]; rfl
  rw [getRidState, hknown, List.findIdx?_append, htaken, Option.none_or]
  by_cases hroom : table.length < maxReportIds
  · obtain ⟨n, hn⟩ : ∃ n, maxReportIds - table.length = n + 1 :=
      ⟨_, (Nat.sub_add_cancel (by omega)).symm⟩
    have hn' : maxReportIds - (table.length + 1) = n := by omega
    have hfree : (RidState.zero :: List.replicate n RidState.zero).findIdx? (fun r ↦ !r.used)
        = some 0 := rfl
    rw [if_pos hroom, freeRecords, hn, hn', List.replicate_succ, hfree]
    simp only [Option.map_some, Nat.zero_add]
    rw [modify_append_cons]
    rfl
  · rw [if_neg hroom, freeRecords, Nat.sub_eq_zero_of_le (by omega)]
    rfl

/-- The parser clears the locals, whatever the main item did to the records. -/
private theorem Refines.main (h : Refines st ctx table) {rids table' : List RidState}
    (hrids : rids = table' ++ freeRecords table') (hlen : table'.length ≤ maxReportIds)
    (hused : ∀ r ∈ table', r.used = true) :
    Refines { st with rids := rids, numUsages := 0, haveUsageMin := false, haveUsageMax := false }
      ctx.main table' :=
  { h with
    numUsages := rfl
    usages := List.nil_prefix
    usageMin := rfl
    usageMax := rfl
    rids := hrids
    table_length := hlen
    used := hused }

private theorem recordInput_ok (h : Refines st ctx table) {maxReportBits : ℕ}
    (hmax : maxReportBits < u32) (flags : ℕ) :
    ∃ table', tableStep .source maxReportBits table (itemOf ctx flags) = table' ∧
      recordInput maxReportBits st = .ok (table' ++ freeRecords table') ∧
      table'.length ≤ maxReportIds ∧ ∀ r ∈ table', r.used = true := by
  have hid : (itemOf ctx flags).reportId = st.reportId := h.reportId.symm
  have hrids : st.rids = table ++ freeRecords table := h.rids
  have hlen := h.table_length
  unfold recordInput
  by_cases hmem : st.reportId ∈ table.map RidState.id
  · -- the report has a record, which is updated in place
    obtain ⟨i, hfind, hget⟩ := getRidState_of_mem h.used hmem
    obtain ⟨r, hr, hrecord⟩ : ∃ r, table[i]? = some r ∧
        Keyed.record InputItem.reportId RidState.id freshRecord (absorb maxReportBits) table
          (itemOf ctx flags) = table.set i (absorb maxReportBits r (itemOf ctx flags)) :=
      Keyed.record_eq_set (by rwa [hid])
    have hi : i < table.length := (List.getElem?_eq_some_iff.mp hr).1
    have hlen' : (table.set i (absorb maxReportBits r (itemOf ctx flags))).length = table.length :=
      List.length_set
    refine ⟨table.set i (absorb maxReportBits r (itemOf ctx flags)), ?_, ?_, ?_, ?_⟩
    · rw [tableStep, if_pos (Or.inl (by rwa [hid])), hrecord]
    · have hread : (table ++ freeRecords table)[i]? = some r := by
        rw [List.getElem?_append_left hi, hr]
      rw [hrids, hget]
      dsimp only
      rw [readAt_ok hread, ok_bind, inputItem_ok h hmax flags, ok_bind,
        writeAt_ok _ (by rw [List.length_append]; omega), List.set_append_left _ _ hi, freeRecords,
        freeRecords, hlen']
    · rw [hlen']
      exact hlen
    · intro r' hr'
      rcases List.mem_or_eq_of_mem_set hr' with hr' | rfl
      · exact h.used r' hr'
      · rw [absorb_used, h.used r (List.mem_of_getElem? hr)]
  · have hnew : (itemOf ctx flags).reportId ∉ table.map RidState.id := by rwa [hid]
    have hroom : room Capacities.source.reportIds table.length = true ↔
        table.length < maxReportIds := room_some _ _
    rw [hrids, getRidState_of_not_mem h.used hmem]
    -- a first item takes the next free record, and is dropped where there is none
    by_cases hfree : table.length < maxReportIds
    · refine ⟨table ++ [absorb maxReportBits (freshRecord st.reportId) (itemOf ctx flags)],
        ?_, ?_, ?_, ?_⟩
      · rw [tableStep, if_pos (Or.inr (hroom.mpr hfree)), Keyed.record_of_not_mem hnew, hid]
      · rw [if_pos hfree]
        dsimp only
        rw [readAt_ok (by rw [List.getElem?_append_right le_rfl, Nat.sub_self]; rfl), ok_bind,
          inputItem_ok h hmax flags, ok_bind, writeAt_ok _ (by simp),
          List.set_append_right _ _ le_rfl, Nat.sub_self, List.set_cons_zero, freeRecords,
          List.length_append, List.length_singleton, List.append_assoc]
        rfl
      · rw [List.length_append, List.length_singleton]
        exact hfree
      · intro r hr
        rcases List.mem_append.mp hr with hr | hr
        · exact h.used r hr
        · rw [List.mem_singleton.mp hr, absorb_used, freshRecord_used]
    · refine ⟨table, ?_, ?_, hlen, h.used⟩
      · rw [tableStep, if_neg]
        rintro (hin | hr)
        · exact hnew hin
        · exact hfree (hroom.mp hr)
      · rw [if_neg hfree]
        rfl

/-- The table after one short item. -/
def tableItem (caps : Capacities) (maxReportBits : ℕ) (ctx : Context) (table : List RidState)
    (item : ShortItem) : List RidState :=
  tableAfter caps maxReportBits table (ctx.input? item).toList

theorem mainItem_refines (h : Refines st ctx table) {maxReportBits : ℕ}
    (hmax : maxReportBits < u32) (item : ShortItem) (htype : item.type = 0) :
    ∃ st', mainItem maxReportBits st item.tag = .ok st' ∧
      Refines st' ctx.main (tableItem .source maxReportBits ctx table item) := by
  rw [mainItem, tableItem, Context.input?, ShortItem.isInput, htype]
  by_cases htag : item.tag = 0x8
  · obtain ⟨table', hstep, hrids, hlen, hused⟩ := recordInput_ok h hmax item.uVal
    rw [if_pos htag, hrids, ok_bind, htag]
    refine ⟨_, rfl, ?_⟩
    rw [beq_self_eq_true, beq_self_eq_true, Bool.and_self, if_pos rfl, Option.toList_some, tableAfter,
      List.foldl_cons, List.foldl_nil]
    subst hstep
    exact h.main rfl hlen hused
  · rw [if_neg htag, pure_eq_ok, ok_bind]
    refine ⟨_, rfl, ?_⟩
    rw [if_neg (by simp [htag]), Option.toList_none, tableAfter, List.foldl_nil]
    exact h.main h.rids h.table_length h.used

/-! ## The loop -/

theorem shortItem_refines (h : Refines st ctx table) {maxReportBits : ℕ}
    (hmax : maxReportBits < u32) {pfx : UInt8} {data : List UInt8}
    (hdata : data.length = dataSize pfx) :
    ∃ st', shortItem maxReportBits st pfx.toNat data.length (uValOf data) = .ok st' ∧
      Refines st' (ctx.step .source (.ofBytes pfx data))
        (tableItem .source maxReportBits ctx table (.ofBytes pfx data)) := by
  have hother : ((pfx.toNat >>> 2) &&& 3) ≠ 0 →
      tableItem .source maxReportBits ctx table (.ofBytes pfx data) = table := by
    intro hne
    rw [tableItem, Context.input?, if_neg, Option.toList_none]
    · rfl
    · simp [ShortItem.isInput, ShortItem.ofBytes, hne]
  have hty : (ShortItem.ofBytes pfx data).type = (pfx.toNat >>> 2) &&& 3 := rfl
  unfold shortItem Context.step
  rw [hty]
  generalize htype : (pfx.toNat >>> 2) &&& 3 = ty at hother hty
  split
  case h_1 =>
    rw [hother (by decide)]
    exact globalItem_refines h (ShortItem.sized_ofBytes hdata)
  case h_2 =>
    rw [hother (by decide)]
    exact localItem_refines h (ShortItem.sized_ofBytes hdata)
  case h_3 => exact mainItem_refines h hmax (.ofBytes pfx data) hty
  case h_4 h0 =>
    rw [hother h0]
    exact ⟨st, rfl, by simp_all⟩

/-- **The parser refines the list parser**: from related states the loop ends without a fault, in
the state that the short items of the remaining bytes lead to. -/
theorem parseLoop_refines {maxReportBits : ℕ} (hmax : maxReportBits < u32) (desc : List UInt8)
    (i : ℕ) (h : Refines st ctx table) :
    ∃ st', parseLoop desc maxReportBits st i = .ok st' ∧
      Refines st' (contextAfter .source ctx (shortItems (desc.drop i)))
        (tableAfter .source maxReportBits table
          (inputItems .source ctx (shortItems (desc.drop i)))) := by
  induction hn : desc.length - i using Nat.strong_induction_on generalizing st ctx table i with
  | _ n ih =>
  subst hn
  rw [parseLoop]
  by_cases hi : i < desc.length
  · rw [if_pos hi, readAt_getElem hi, ok_bind, List.drop_eq_getElem_cons hi]
    have hrest : (desc.drop (i + 1)).length = desc.length - (i + 1) := List.length_drop
    by_cases hlong : desc[i] = 0xFE
    · rw [if_pos hlong, hlong]
      by_cases htrunc : i + 2 ≥ desc.length
      · rw [if_pos htrunc, shortItems_long_truncated (by omega)]
        exact ⟨st, rfl, h⟩
      · have hi1 : i + 1 < desc.length := by omega
        have hi2 : i + 1 + 1 < desc.length := by omega
        rw [if_neg htrunc, readAt_getElem hi1, ok_bind, List.drop_eq_getElem_cons hi1,
          List.drop_eq_getElem_cons hi2, shortItems_long, List.drop_drop,
          show i + 1 + 1 + 1 + desc[i + 1].toNat = i + (3 + desc[i + 1].toNat) from by omega]
        exact ih (desc.length - (i + (3 + desc[i + 1].toNat))) (by omega) _ h rfl
    · rw [if_neg hlong]
      dsimp only
      rw [dSizeOf_toNat]
      by_cases hfit : i + 1 + dataSize desc[i] > desc.length
      · rw [if_pos hfit, shortItems_truncated hlong (by omega)]
        exact ⟨st, rfl, h⟩
      · have hlen : ((desc.drop (i + 1)).take (dataSize desc[i])).length = dataSize desc[i] := by
          rw [List.length_take]
          omega
        obtain ⟨st', hshort, hst'⟩ := shortItem_refines h hmax hlen
        rw [hlen] at hshort
        rw [if_neg hfit, readUVal_ok (by omega), ok_bind, hshort, ok_bind,
          shortItems_short hlong (by omega), List.drop_drop,
          show i + 1 + dataSize desc[i] = i + (1 + dataSize desc[i]) from by omega]
        obtain ⟨st'', hloop, hst''⟩ :=
          ih (desc.length - (i + (1 + dataSize desc[i]))) (by omega) _ hst' rfl
        refine ⟨st'', hloop, ?_⟩
        rw [inputItems, tableAfter, List.foldl_append]
        exact hst''
  · rw [if_neg hi, List.drop_eq_nil_of_le (by omega), shortItems_nil]
    exact ⟨st, rfl, h⟩

end

/-! ## The whole parser -/

/-- The table of records after the whole descriptor. -/
def parsedTable (caps : Capacities) (maxReportBits : ℕ) (desc : List UInt8) : List RidState :=
  tableAfter caps maxReportBits [] (inputItems caps .init (shortItems desc))

/-- The context after the whole descriptor. -/
def parsedContext (caps : Capacities) (desc : List UInt8) : Context :=
  contextAfter caps .init (shortItems desc)

/-- The bits of a report after its length and report-ID bytes. -/
def payloadBits (maxInputLength : ℕ) (hasReportId : Bool) : ℕ :=
  8 * (maxInputLength - 2) - if hasReportId then 8 else 0

/-- The lengths that the entry guard of the parser admits. -/
def Admitted (maxInputLength : ℕ) : Prop :=
  3 ≤ maxInputLength ∧ maxInputLength - 2 ≤ 0xFFFFFFFF / 8

/-- The selection loop passes over the records that no report ID has taken. -/
private theorem selectLayout_append_free (table : List RidState) (n : ℕ) (anyReportId : Bool)
    (payload : ℕ) (layout : HidTouchLayout) :
    selectLayout (table ++ List.replicate n .zero) anyReportId payload layout
      = selectLayout table anyReportId payload layout := by
  have hfree : (List.replicate n RidState.zero).find? (·.selectable payload) = none := by
    rw [List.find?_eq_none]
    intro r hr
    rw [(List.mem_replicate.mp hr).2]
    simp [RidState.selectable, RidState.zero]
  rw [selectLayout, selectLayout, List.find?_append, hfree, Option.or_none]

/-- **The parser never faults**: for every descriptor and every admitted length it returns what
the selection loop makes of the records of the list parser. -/
theorem hidParseTouchLayout_eq {desc : List UInt8} (hdesc : desc ≠ []) {maxInputLength : ℕ}
    (hlen : Admitted maxInputLength) (layout : HidTouchLayout) :
    hidParseTouchLayout desc maxInputLength layout =
      .ok (selectLayout (parsedTable .source (8 * (maxInputLength - 2)) desc)
        (parsedContext .source desc).anyReportId
        (payloadBits maxInputLength (parsedContext .source desc).anyReportId) layout) := by
  obtain ⟨hmin, hbound⟩ := hlen
  have hne : desc.length ≠ 0 := fun h ↦ hdesc (List.length_eq_zero_iff.mp h)
  have hmax : 8 * (maxInputLength - 2) < u32 := by
    unfold u32
    omega
  obtain ⟨st, hloop, hst⟩ := parseLoop_refines hmax desc 0 refines_init
  rw [List.drop_zero] at hst
  rw [hidParseTouchLayout, if_neg (by omega), Nat.mul_comm 8, mulU32_ok (by omega), ok_bind,
    Nat.mul_comm _ 8, hloop, ok_bind, subUnsigned_ok (by split <;> omega), ok_bind, hst.rids,
    selectLayout_append_free, hst.anyReportId]
  rfl

/-- Outside the admitted lengths, and for an empty descriptor, the layout is not touched. -/
theorem hidParseTouchLayout_of_not_admitted {desc : List UInt8} {maxInputLength : ℕ}
    (h : desc = [] ∨ ¬Admitted maxInputLength) (layout : HidTouchLayout) :
    hidParseTouchLayout desc maxInputLength layout = .ok (.invalidParameter, layout) := by
  rw [hidParseTouchLayout, if_pos]
  · rfl
  · rcases h with rfl | h
    · exact Or.inl rfl
    · unfold Admitted at h
      omega

end HidParse

end TouchI2c
