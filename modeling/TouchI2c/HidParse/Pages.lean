import TouchI2c.HidParse.Spec

/-!
# When usage pages bind

A short `Usage`, `Usage Minimum` or `Usage Maximum` has 16 bits, and the rest is a usage page. The
parser takes the page in force at the local item, and the HID specification the one in force at the
next main item.

## One walk for both

Both disciplines are the same walk over the items, `Scan`, which keeps the local items with the
pages they stand under until a main item reads them. Reading the pending items changes the local
part of the context only, so it commutes with global items and is undone by main items. Binding at
the local item is therefore the same as reading each local item at once, which is the parser
(`inputItems_eq_boundItems`).

The parser is the other discipline too where at every main item the pending local items agree with
the page in force there, because a usage has room for 16 bits of its page.
-/

namespace TouchI2c

open CMemory

namespace HidParse

/-! ## The two disciplines -/

/-- Which usage page a short usage gets. -/
inductive Binding where
  | atLocal
  | atMain
  deriving DecidableEq

/-- A local item with the usage page that it stands under. -/
structure PendingLocal where
  page : ℕ
  item : ShortItem

/-- The global items in force, and the local items since the last main item. -/
structure Scan where
  ctx : Context
  locals : List PendingLocal

/-- Nothing has been scanned. -/
def Scan.init : Scan := ⟨.init, []⟩

/-- One short item. -/
def Scan.step (caps : Capacities) (scan : Scan) (item : ShortItem) : Scan :=
  match item.type with
  | 2 => { scan with locals := scan.locals ++ [⟨scan.ctx.g.usagePage, item⟩] }
  | 0 => ⟨scan.ctx.main, []⟩
  | _ => { scan with ctx := scan.ctx.step caps item }

/-- Reads a local item under a usage page. -/
def Context.localUnder (caps : Capacities) (ctx : Context) (page : ℕ) (item : ShortItem) :
    Context :=
  { Context.local caps { ctx with g.usagePage := page } item with g := ctx.g }

/-- Reads a pending local item. -/
def Context.readPending (caps : Capacities) (binding : Binding) (ctx : Context)
    (p : PendingLocal) : Context :=
  match binding with
  | .atLocal => ctx.localUnder caps p.page p.item
  | .atMain => ctx.localUnder caps ctx.g.usagePage p.item

/-- The context of the next item, with the local items read. -/
def Scan.read (caps : Capacities) (binding : Binding) (scan : Scan) : Context :=
  scan.locals.foldl (Context.readPending caps binding) scan.ctx

/-- The Input items that a list of items declares. -/
def boundItems (caps : Capacities) (binding : Binding) : Scan → List ShortItem → List InputItem
  | _, [] => []
  | scan, item :: items =>
    ((scan.read caps binding).input? item).toList ++
      boundItems caps binding (scan.step caps item) items

instance (maxInputLength : ℕ) : Decidable (Admitted maxInputLength) :=
  inferInstanceAs (Decidable (_ ∧ _))

/-- The status and the layout that a discipline leads to. -/
def parseBinding (binding : Binding) (desc : List UInt8) (maxInputLength : ℕ)
    (layout : HidTouchLayout) : EfiStatus × HidTouchLayout :=
  if desc = [] ∨ ¬Admitted maxInputLength then (.invalidParameter, layout)
  else
    selectLayout (tableAfter .source (8 * (maxInputLength - 2)) []
      (boundItems .source binding .init (shortItems desc))) (hasReportIdItem desc)
      (payloadBits maxInputLength (hasReportIdItem desc)) layout

/-- The page of the local item, if it has a short usage, is the one in force. -/
def PendingLocal.Agrees (p : PendingLocal) (g : HidGlobals) : Prop :=
  p.item.tag ≤ 2 → p.item.dSize ≠ 4 → p.page % 2 ^ 16 = g.usagePage % 2 ^ 16

instance (p : PendingLocal) (g : HidGlobals) : Decidable (p.Agrees g) :=
  inferInstanceAs (Decidable (_ → _))

/-- At every Input item the pages of the local items before it are the one in force. -/
def Settled (caps : Capacities) : Scan → List ShortItem → Prop
  | _, [] => True
  | scan, item :: items =>
    (item.isInput = true → ∀ p ∈ scan.locals, p.Agrees scan.ctx.g) ∧
      Settled caps (scan.step caps item) items

instance decidableSettled (caps : Capacities) (scan : Scan) (items : List ShortItem) :
    Decidable (Settled caps scan items) :=
  match items with
  | [] => inferInstanceAs (Decidable True)
  | item :: items =>
    have := decidableSettled caps (scan.step caps item) items
    inferInstanceAs (Decidable ((item.isInput = true → ∀ p ∈ scan.locals, p.Agrees scan.ctx.g) ∧
      Settled caps (scan.step caps item) items))

/-! ## Binding at the local item -/

section

variable {caps : Capacities} {ctx : Context}

theorem Context.localUnder_self (item : ShortItem) :
    ctx.localUnder caps ctx.g.usagePage item = ctx.local caps item := by
  have hself : { ctx with g.usagePage := ctx.g.usagePage } = ctx := rfl
  rw [Context.localUnder, hself]
  unfold Context.local
  split
  · split <;> rfl
  · rfl
  · rfl
  · rfl

/-- A local item changes the local part of a context, whatever the rest of it is. -/
private theorem localUnder_eq (caps : Capacities) (page : ℕ) (item : ShortItem) :
    ∃ (usages : List ℕ → List ℕ) (usageMin usageMax : Option ℕ → Option ℕ), ∀ ctx : Context,
      ctx.localUnder caps page item = { ctx with
        usages := usages ctx.usages
        usageMin := usageMin ctx.usageMin
        usageMax := usageMax ctx.usageMax } := by
  obtain ⟨type, tag, dSize, uVal⟩ := item
  unfold Context.localUnder Context.local
  dsimp only
  generalize usageValue page dSize uVal = usage
  split
  · refine ⟨fun usages ↦ if room caps.usages usages.length then usages ++ [usage] else usages, id,
      id, fun ctx ↦ ?_⟩
    dsimp only
    split <;> rfl
  · exact ⟨id, fun _ ↦ some usage, id, fun ctx ↦ rfl⟩
  · exact ⟨id, id, fun _ ↦ some usage, fun ctx ↦ rfl⟩
  · exact ⟨id, id, id, fun ctx ↦ rfl⟩

/-- A main item clears whatever a local item has left. -/
theorem Context.main_localUnder (page : ℕ) (item : ShortItem) :
    (ctx.localUnder caps page item).main = ctx.main := by
  obtain ⟨usages, usageMin, usageMax, heq⟩ := localUnder_eq caps page item
  rw [heq]
  rfl

/-- A local item and a global item act on different parts of the context. -/
theorem Context.global_localUnder (page : ℕ) (item item' : ShortItem) :
    (ctx.localUnder caps page item).global caps item'
      = (ctx.global caps item').localUnder caps page item := by
  obtain ⟨usages, usageMin, usageMax, heq⟩ := localUnder_eq caps page item
  obtain ⟨g, stack, anyReportId, _, _, _⟩ := ctx
  rw [heq, heq]
  unfold Context.global
  split <;> try rfl
  · dsimp only
    split <;> rfl
  · cases stack <;> rfl

end

section

variable {caps : Capacities} {scan : Scan}

/-- What reading the pending local items leaves alone, and what it commutes with. -/
theorem Scan.read_atLocal (scan : Scan) :
    (scan.read caps .atLocal).g = scan.ctx.g ∧
      (scan.read caps .atLocal).main = scan.ctx.main ∧
      ∀ item, (scan.read caps .atLocal).global caps item
        = ({ scan with ctx := scan.ctx.global caps item } : Scan).read caps .atLocal := by
  obtain ⟨ctx, locals⟩ := scan
  unfold Scan.read
  dsimp only
  induction locals generalizing ctx with
  | nil => exact ⟨rfl, rfl, fun _ ↦ rfl⟩
  | cons p locals ih =>
    obtain ⟨hg, hmain, hglobal⟩ := ih (ctx.localUnder caps p.page p.item)
    rw [List.foldl_cons]
    refine ⟨hg, hmain.trans (ctx.main_localUnder _ _), fun item ↦ ?_⟩
    rw [List.foldl_cons]
    refine (hglobal item).trans ?_
    rw [Context.global_localUnder]
    rfl

/-- One item, with the pending local items read before or after it. -/
theorem Scan.read_step (scan : Scan) (item : ShortItem) :
    (scan.read caps .atLocal).step caps item = (scan.step caps item).read caps .atLocal := by
  obtain ⟨hg, hmain, hglobal⟩ := @Scan.read_atLocal caps scan
  obtain ⟨type, tag, dSize, uVal⟩ := item
  unfold Context.step Scan.step
  dsimp only
  split
  · -- a global item
    refine (hglobal _).trans ?_
    rfl
  · -- a local item is read where it stands
    have hread (p : PendingLocal) :
        ({ scan with locals := scan.locals ++ [p] } : Scan).read caps .atLocal
          = (scan.read caps .atLocal).localUnder caps p.page p.item := List.foldl_append
    rw [← Context.localUnder_self, hg]
    exact (hread ⟨scan.ctx.g.usagePage, _⟩).symm
  · exact hmain
  · -- an item of no known type
    have hstep : scan.ctx.step caps ⟨type, tag, dSize, uVal⟩ = scan.ctx := by
      unfold Context.step
      dsimp only
      split <;> first | contradiction | rfl
    rw [hstep]
    split <;> first | contradiction | rfl

/-- The list parser binds at the local item. -/
theorem inputItems_eq_boundItems (items : List ShortItem) :
    inputItems caps (scan.read caps .atLocal) items = boundItems caps .atLocal scan items := by
  induction items generalizing scan with
  | nil => rfl
  | cons item items ih => rw [inputItems, boundItems, Scan.read_step, ih]

/-! ## Binding at the main item -/

private theorem usageValue_congr {page page' dSize : ℕ}
    (h : dSize ≠ 4 → page % 2 ^ 16 = page' % 2 ^ 16) (uVal : ℕ) :
    usageValue page dSize uVal = usageValue page' dSize uVal := by
  unfold usageValue
  split
  · rfl
  · next hsize => rw [h hsize]

theorem Context.readPending_of_agrees {ctx : Context} {p : PendingLocal} (h : p.Agrees ctx.g) :
    ctx.readPending caps .atMain p = ctx.readPending caps .atLocal p := by
  obtain ⟨page, type, tag, dSize, uVal⟩ := p
  have husage (htag : tag ≤ 2) :
      usageValue ctx.g.usagePage dSize uVal = usageValue page dSize uVal :=
    usageValue_congr (fun hsize ↦ (h htag hsize).symm) uVal
  unfold Context.readPending Context.localUnder Context.local
  dsimp only at husage ⊢
  split
  · rw [husage (by omega)]
    split <;> rfl
  · rw [husage (by omega)]
  · rw [husage (by omega)]
  · rfl

theorem Scan.read_of_agrees (h : ∀ p ∈ scan.locals, p.Agrees scan.ctx.g) :
    scan.read caps .atMain = scan.read caps .atLocal := by
  obtain ⟨ctx, locals⟩ := scan
  unfold Scan.read
  dsimp only at h ⊢
  induction locals generalizing ctx with
  | nil => rfl
  | cons p locals ih =>
    obtain ⟨hp, hlocals⟩ := List.forall_mem_cons.mp h
    rw [List.foldl_cons, List.foldl_cons, Context.readPending_of_agrees hp]
    exact ih _ hlocals

/-- **Where the pages agree both disciplines declare the same Input items.** -/
theorem boundItems_of_settled {items : List ShortItem} (h : Settled caps scan items) :
    boundItems caps .atMain scan items = boundItems caps .atLocal scan items := by
  induction items generalizing scan with
  | nil => rfl
  | cons item items ih =>
    obtain ⟨hitem, hitems⟩ := h
    have hsame : (scan.read caps .atMain).input? item = (scan.read caps .atLocal).input? item := by
      by_cases hinput : item.isInput = true
      · rw [Scan.read_of_agrees (hitem hinput)]
      · rw [Context.input?, Context.input?, if_neg hinput, if_neg hinput]
    rw [boundItems, boundItems, hsame, ih hitems]

end

/-! ## The parser -/

section

variable (desc : List UInt8) (maxInputLength : ℕ) (layout : HidTouchLayout)

/-- The parser binds at the local item, for every descriptor and every length. -/
theorem hidParseTouchLayout_eq_atLocal : hidParseTouchLayout desc maxInputLength layout
    = .ok (parseBinding .atLocal desc maxInputLength layout) := by
  by_cases hguard : desc = [] ∨ ¬Admitted maxInputLength
  · rw [hidParseTouchLayout_of_not_admitted hguard, parseBinding, if_pos hguard]
  · obtain ⟨hdesc, hlen⟩ := not_or.mp hguard
    have hany : (parsedContext .source desc).anyReportId = hasReportIdItem desc := by
      rw [parsedContext, anyReportId_contextAfter]
      rfl
    have hitems : inputItems .source .init (shortItems desc)
        = boundItems .source .atLocal .init (shortItems desc) :=
      @inputItems_eq_boundItems .source .init (shortItems desc)
    rw [hidParseTouchLayout_eq hdesc (not_not.mp hlen), parseBinding, if_neg hguard, hany,
      parsedTable, hitems]

/-- **Usage pages bind at the local item.** The parser gives each short usage the page in force at
its local item. That is what binding at the main item gives too, if the pages agree at every Input
item. -/
theorem hidParseTouchLayout_binding :
    hidParseTouchLayout desc maxInputLength layout
        = .ok (parseBinding .atLocal desc maxInputLength layout) ∧
      (Settled .source .init (shortItems desc) →
        hidParseTouchLayout desc maxInputLength layout
          = .ok (parseBinding .atMain desc maxInputLength layout)) := by
  have hlocal := hidParseTouchLayout_eq_atLocal desc maxInputLength layout
  refine ⟨hlocal, fun hsettled ↦ ?_⟩
  rw [hlocal, parseBinding, parseBinding, boundItems_of_settled hsettled]

end

/-! ### A page between two usages -/

theorem hidParseTouchLayout_binding_digitizer :
    hidParseTouchLayout digitizerDescriptor 64 .zero
      = .ok (parseBinding .atMain digitizerDescriptor 64 .zero) :=
  (hidParseTouchLayout_binding digitizerDescriptor 64 .zero).2 (by decide +kernel)

/-- The digitizer, with the page of X declared after X. -/
def latePageDescriptor : List UInt8 :=
  [0x05, 0x0D, 0x85, 0x01, 0x25, 0x01, 0x75, 0x01, 0x95, 0x01, 0x09, 0x42, 0x81, 0x02,
   0x95, 0x07, 0x81, 0x03, 0x26, 0xFF, 0x0F, 0x75, 0x10, 0x95, 0x02, 0x09, 0x30, 0x05, 0x01,
   0x09, 0x31, 0x81, 0x02]

/-- The parser does not find its X. -/
theorem late_page_not_found :
    ¬∀ (desc : List UInt8) (maxInputLength : ℕ) (layout : HidTouchLayout),
      hidParseTouchLayout desc maxInputLength layout
        = .ok (parseBinding .atMain desc maxInputLength layout) := by
  intro hall
  have hnot : hidParseTouchLayout latePageDescriptor 64 .zero = .ok (.notFound, .zero) := by
    decide +kernel
  have hfound : parseBinding .atMain latePageDescriptor 64 .zero
      = (.success, ⟨true, 1, 0, 8, 16, 4095, 24, 16, 4095⟩) := by decide +kernel
  have heq := hall latePageDescriptor 64 .zero
  rw [hnot, hfound] at heq
  exact absurd heq (by simp)

end HidParse

end TouchI2c
