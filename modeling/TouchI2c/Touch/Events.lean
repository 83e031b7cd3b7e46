import TouchI2c.Slot.Latest
import TouchI2c.Touch.Range

/-!
# The events of the pointer

The matching reports of a run say where the finger is, or that it is up; the pointer turns them into
strokes: every touch is an event, and after the last touch of a stroke there is one release at the
same place.

## Runs

A `PointerRun` is a sequence of polls and calls of the client under any changes of the display. A
poll that receives a report is a run of `touchPoll` whose read succeeded with those bytes, and a
receptive driver always has such a run, so no step of a run is vacuous: for whatever is read and
called the driver goes on.

## The slot

`State` with `StateChanged` is a slot for the latest event, from which `TouchGetState` takes. Each
step of the driver is a step of the slot (`PointerStep.post`): a matching report puts the event of
its contact, if it has one, and a call of `TouchGetState` takes. So the facts about slots give the
facts about clients: a call that succeeds returns the latest event, no two return the same put, and
a client that calls after every poll receives all of them.
-/

namespace TouchI2c

open CMemory HidParse Interaction Slot

/-! ## Strokes -/

/-- What a matching report says: where the finger is, or that it is up. -/
abbrev Contact := Option (ℕ × ℕ)

/-- A touch at a position. -/
def touchAt (p : ℕ × ℕ) : AbsolutePointerState :=
  { currentX := p.1, currentY := p.2, activeButtons := efiAbspTouchActive }

/-- The release of a touch at a position. -/
def releaseAt (p : ℕ × ℕ) : AbsolutePointerState := { currentX := p.1, currentY := p.2 }

/-- The events that contacts lead to, with the contact before them. -/
def contactEvents : Contact → List Contact → List AbsolutePointerState
  | _, [] => []
  | _, some p :: cs => touchAt p :: contactEvents (some p) cs
  | some p, none :: cs => releaseAt p :: contactEvents none cs
  | none, none :: cs => contactEvents none cs

/-- The last contact. -/
def lastContact (c : Contact) (cs : List Contact) : Contact := (c :: cs).getLast (List.cons_ne_nil _ _)

/-- The contacts are strokes, and these are their events: of each maximal run of touches the
positions in order, and then one release at the last of them, unless the stroke still lasts. -/
inductive Strokes : List Contact → List AbsolutePointerState → Prop
  | nil : Strokes [] []
  | up {cs : List Contact} {es : List AbsolutePointerState} (h : Strokes cs es) :
      Strokes (none :: cs) es
  | lasting (p : ℕ × ℕ) (ps : List (ℕ × ℕ)) :
      Strokes ((p :: ps).map some) ((p :: ps).map touchAt)
  | stroke {cs : List Contact} {es : List AbsolutePointerState} (p : ℕ × ℕ) (ps : List (ℕ × ℕ))
      (h : Strokes cs es) :
      Strokes ((p :: ps).map some ++ none :: cs)
        ((p :: ps).map touchAt ++ releaseAt ((p :: ps).getLast (List.cons_ne_nil _ _)) :: es)

/-- The events are those of the strokes; a stroke may be under way. -/
private theorem strokes_aux (cs : List Contact) : Strokes cs (contactEvents none cs) ∧
    ∀ p ps, Strokes ((p :: ps).map some ++ cs) ((p :: ps).map touchAt ++
      contactEvents (some ((p :: ps).getLast (List.cons_ne_nil _ _))) cs) := by
  induction cs with
  | nil =>
    refine ⟨.nil, fun p ps ↦ ?_⟩
    rw [List.append_nil, contactEvents, List.append_nil]
    exact .lasting p ps
  | cons c cs ih =>
    obtain ⟨hidle, hunder⟩ := ih
    cases c with
    | none => exact ⟨.up hidle, fun p ps ↦ .stroke p ps hidle⟩
    | some q =>
      refine ⟨hunder q [], fun p ps ↦ ?_⟩
      -- the touch belongs to the stroke under way
      have h := hunder p (ps ++ [q])
      have hlast : (p :: (ps ++ [q])).getLast (List.cons_ne_nil _ _) = q := by simp
      rw [hlast] at h
      simpa only [List.map_cons, List.map_append, List.map_nil, List.cons_append, List.append_assoc,
        List.nil_append, contactEvents] using h

theorem strokes_contactEvents (cs : List Contact) : Strokes cs (contactEvents none cs) :=
  (strokes_aux cs).1

theorem strokes_contactEvents_of_down (p : ℕ × ℕ) (cs : List Contact) :
    Strokes (some p :: cs) (touchAt p :: contactEvents (some p) cs) :=
  (strokes_aux cs).2 p []

theorem contactEvents_append_singleton (c : Contact) (cs : List Contact) (c' : Contact) :
    contactEvents c (cs ++ [c']) = contactEvents c cs ++ contactEvents (lastContact c cs) [c'] := by
  induction cs generalizing c with
  | nil => rfl
  | cons c₁ cs ih =>
    have hlast : lastContact c (c₁ :: cs) = lastContact c₁ cs := List.getLast_cons _
    rw [hlast]
    cases c₁ with
    | some p =>
      change touchAt p :: contactEvents (some p) (cs ++ [c']) = _
      rw [ih]
      rfl
    | none =>
      cases c with
      | some p =>
        change releaseAt p :: contactEvents none (cs ++ [c']) = _
        rw [ih]
        rfl
      | none =>
        change contactEvents none (cs ++ [c']) = _
        rw [ih]
        rfl

/-! ## What a run does -/

/-- The contact of a step: that of the report which a poll received, if it is a matching one. -/
def contactOf (desk : Desk) : PointerAct → Option Contact
  | .poll (some bytes) =>
    match decodeReport desk.dev.layout desk.dev.maxInputLength bytes with
    | .ok (some (tip, x, y)) =>
      some (if tip then some (desk.dev.place (desk.dev.wantsRotation desk.screen) x y) else none)
    | _ => none
  | _ => none

/-- The contact that the driver remembers. -/
def TouchDev.contact (d : TouchDev) : Contact :=
  if d.lastTip then some (d.state.currentX, d.state.currentY) else none

/-- What a step does to the slot of the latest event. -/
def slotActs (desk : Desk) (act : PointerAct) : List (Act AbsolutePointerState) :=
  match act with
  | .getState true status state => [.take (if status.isError then none else state)]
  | _ => ((contactOf desk act).elim [] fun c ↦ contactEvents desk.dev.contact [c]).map .put

/-- The state that waits to be read. -/
def TouchDev.pending (d : TouchDev) : Option AbsolutePointerState :=
  if d.stateChanged then some d.state else none

/-- Everything that a run does to the slot. -/
def runActs (steps : List (Desk × PointerAct)) : List (Act AbsolutePointerState) :=
  steps.flatMap fun step ↦ slotActs step.1 step.2

/-- The contacts of a run. -/
def contacts (steps : List (Desk × PointerAct)) : List Contact :=
  steps.filterMap fun step ↦ contactOf step.1 step.2

/-- The client calls `TouchGetState` after every poll. -/
def Attentive : List (Desk × PointerAct) → Prop
  | [] => True
  | (_, .poll _) :: (_, .getState true _ _) :: steps => Attentive steps
  | (_, .poll _) :: _ => False
  | _ :: steps => Attentive steps

/-- Nothing that a client sees has changed. -/
structure SamePointer (d d' : TouchDev) : Prop where
  state : d'.state = d.state
  stateChanged : d'.stateChanged = d.stateChanged
  lastTip : d'.lastTip = d.lastTip
  mode : d'.mode = d.mode

/-! ## One step -/

section

variable {desk desk' : Desk}

private theorem SamePointer.contact {d d' : TouchDev} (h : SamePointer d d') :
    d'.contact = d.contact := by
  rw [TouchDev.contact, h.lastTip, h.state, TouchDev.contact]

private theorem SamePointer.pending {d d' : TouchDev} (h : SamePointer d d') :
    d'.pending = d.pending := by
  rw [TouchDev.pending, h.stateChanged, h.state, TouchDev.pending]

/-- A poll without a matching report changes nothing; any other puts the event of its contact. -/
private theorem PointerStep.poll_cases {report : Option (List UInt8)}
    (h : PointerStep desk (.poll report) desk') (hready : desk.dev.ready = true) :
    desk'.dev.ready = true ∧
      (contactOf desk (.poll report) = none ∧ SamePointer desk.dev desk'.dev ∨
        ∃ c, contactOf desk (.poll report) = some c ∧ desk'.dev.contact = c ∧
          desk'.dev.pending
            = content desk.dev.pending ((contactEvents desk.dev.contact [c]).map .put)) := by
  cases h with
  | noReport hret hshow hnone =>
    obtain ⟨bus, reinit, buf, rfl⟩ := touchPoll_noReport hret hnone
    exact ⟨hready, .inl ⟨rfl, rfl, rfl, rfl, rfl⟩⟩
  | @report d d' screen t bytes _ hret hshow hreceives =>
    obtain ⟨bus, reinit, buf, ⟨hnone, rfl⟩ | ⟨tip, x, y, gop, hsome, rfl⟩⟩ :=
      touchPoll_report hready hret hshow hreceives
    · refine ⟨hready, .inl ⟨?_, rfl, rfl, rfl, rfl⟩⟩
      rw [contactOf, hnone]
    · have hcontact : contactOf ⟨d, screen⟩ (.poll (some bytes))
          = some (if tip then some (d.place (d.wantsRotation screen) x y) else none) := by
        rw [contactOf, hsome]
      cases tip with
      | true => exact ⟨hready, .inr ⟨_, hcontact, rfl, rfl⟩⟩
      | false =>
        unfold TouchDev.publish
        split
        · next hdown =>
          -- the release keeps the last position
          have hlast : d.lastTip = true := hdown
          refine ⟨hready, .inr ⟨_, hcontact, rfl, ?_⟩⟩
          have hd : d.contact = some (d.state.currentX, d.state.currentY) := if_pos hlast
          change _ = content d.pending ((contactEvents d.contact [none]).map .put)
          rw [hd]
          rfl
        · next hup =>
          have hlast : d.lastTip = false := Bool.eq_false_of_not_eq_true hup
          refine ⟨hready, .inr ⟨_, hcontact, ?_, ?_⟩⟩
          · exact if_neg (by rw [Bool.not_eq_true]; exact hlast)
          · have hd : d.contact = none := if_neg (by rw [hlast]; decide)
            change _ = content d.pending ((contactEvents d.contact [none]).map .put)
            rw [hd]
            rfl

private theorem touchGetState_takes {d d' : TouchDev} {t : List (Event Uefi)} {status : EfiStatus}
    {state : Option AbsolutePointerState} (hready : d.ready = true)
    (hret : ((touchGetState true).run d).Returns t ((status, state), d')) :
    (if status.isError then none else state) = d.pending ∧ d' = { d with stateChanged := false } := by
  rw [touchGetState, if_neg (by decide), Prog.returnsS_bind] at hret
  obtain ⟨_, _, _, _, rfl, hraise, hrest⟩ := hret
  obtain ⟨-, rfl⟩ := Prog.returnsS_lift.mp hraise
  obtain ⟨_, _, _, _, rfl, hget, hgo⟩ := Prog.returnsS_bind.mp hrest
  obtain ⟨rfl, rfl, rfl⟩ := Prog.returnsS_get.mp hget
  unfold TouchDev.pending
  split at hgo
  · next hnone =>
    have hchanged : d.stateChanged = false := by simpa [hready] using hnone
    obtain ⟨_, _, _, _, rfl, hrestore, hend⟩ := Prog.returnsS_bind.mp hgo
    obtain ⟨-, rfl⟩ := Prog.returnsS_lift.mp hrestore
    obtain ⟨-, heq, rfl⟩ := Prog.returnsS_pure.mp hend
    cases heq
    rw [hchanged]
    exact ⟨rfl, by rw [← hchanged]⟩
  · next hwaits =>
    have hchanged : d.stateChanged = true := by simpa [hready] using hwaits
    obtain ⟨_, _, _, _, rfl, hclear, hrestore⟩ := Prog.returnsS_bind.mp hgo
    obtain ⟨-, rfl⟩ := Prog.returnsS_set.mp hclear
    obtain ⟨_, _, _, _, rfl, hlower, hend⟩ := Prog.returnsS_bind.mp hrestore
    obtain ⟨-, rfl⟩ := Prog.returnsS_lift.mp hlower
    obtain ⟨-, heq, rfl⟩ := Prog.returnsS_pure.mp hend
    cases heq
    rw [hchanged]
    exact ⟨rfl, rfl⟩

private theorem slotActs_poll (report : Option (List UInt8)) :
    slotActs desk (.poll report) = ((contactOf desk (.poll report)).elim []
      fun c ↦ contactEvents desk.dev.contact [c]).map .put := rfl

/-- What one step does to the driver, the contact it remembers, and the slot. -/
private structure StepPost (desk : Desk) (act : PointerAct) (desk' : Desk) : Prop where
  ready : desk'.dev.ready = true
  contact : desk'.dev.contact = lastContact desk.dev.contact (contactOf desk act).toList
  puts : puts (slotActs desk act) = contactEvents desk.dev.contact (contactOf desk act).toList
  follows : Follows desk.dev.pending (slotActs desk act)
  content : content desk.dev.pending (slotActs desk act) = desk'.dev.pending

private theorem puts_map_put (es : List AbsolutePointerState) : puts (es.map .put) = es := by
  induction es with
  | nil => rfl
  | cons e es ih => exact congrArg (e :: ·) ih

private theorem follows_map_put (v : Option AbsolutePointerState)
    (es : List AbsolutePointerState) : Follows v (es.map .put) := by
  induction es generalizing v with
  | nil => exact trivial
  | cons e es ih => exact ih (some e)

/-- **One step** of the driver is one of the slot. -/
private theorem PointerStep.post {act : PointerAct} (h : PointerStep desk act desk')
    (hready : desk.dev.ready = true) (hreset : ∀ b, act ≠ .reset b) :
    StepPost desk act desk' := by
  cases act with
  | poll report =>
    obtain ⟨hready', ⟨hnone, hsame⟩ | ⟨c, hsome, hcontact, hpending⟩⟩ := h.poll_cases hready
    · have hacts : slotActs desk (.poll report) = [] := by rw [slotActs_poll, hnone]; rfl
      exact
        { ready := hready'
          contact := by rw [hnone]; exact hsame.contact
          puts := by rw [hacts, hnone]; rfl
          follows := by rw [hacts]; exact trivial
          content := by rw [hacts]; exact hsame.pending.symm }
    · have hacts : slotActs desk (.poll report)
          = (contactEvents desk.dev.contact [c]).map .put := by rw [slotActs_poll, hsome]; rfl
      exact
        { ready := hready'
          contact := by rw [hsome]; exact hcontact
          puts := by rw [hacts, hsome]; exact puts_map_put _
          follows := by rw [hacts]; exact follows_map_put _ _
          content := by rw [hacts]; exact hpending.symm }
  | getState hasState status state =>
    cases h with
    | @getState d d' screen t _ _ _ hret =>
      cases hasState with
      | true =>
        obtain ⟨htake, rfl⟩ := touchGetState_takes hready hret
        exact ⟨hready, rfl, rfl, ⟨htake, trivial⟩, rfl⟩
      | false =>
        rw [touchGetState, if_pos (by decide)] at hret
        obtain ⟨-, -, rfl⟩ := Prog.returnsS_pure.mp hret
        exact ⟨hready, rfl, rfl, trivial, rfl⟩
  | reset b => exact absurd rfl (hreset b)
  | setScreen screen =>
    cases h
    exact ⟨hready, rfl, rfl, trivial, rfl⟩

end

/-! ## Runs -/

private theorem lastContact_append (c : Contact) (cs cs' : List Contact) :
    lastContact c (cs ++ cs') = lastContact (lastContact c cs) cs' := by
  induction cs generalizing c with
  | nil => rfl
  | cons c₁ cs ih =>
    have hlast : ∀ cs, lastContact c (c₁ :: cs) = lastContact c₁ cs := fun _ ↦ List.getLast_cons _
    rw [List.cons_append, hlast, hlast]
    exact ih c₁

private theorem contactEvents_append_toList (c : Contact) (cs : List Contact)
    (c' : Option Contact) : contactEvents c (cs ++ c'.toList)
      = contactEvents c cs ++ contactEvents (lastContact c cs) c'.toList := by
  cases c' with
  | none => rw [Option.toList_none, List.append_nil, contactEvents, List.append_nil]
  | some c' => exact contactEvents_append_singleton c cs c'

/-- What a whole run does. -/
private structure RunPost (d₀ : TouchDev) (steps : List (Desk × PointerAct)) (d : TouchDev) :
    Prop where
  ready : d.ready = true
  contact : d.contact = lastContact d₀.contact (contacts steps)
  puts : puts (runActs steps) = contactEvents d₀.contact (contacts steps)
  follows : Follows d₀.pending (runActs steps)
  content : content d₀.pending (runActs steps) = d.pending

private theorem PointerRun.post {desk₀ desk : Desk} {steps : List (Desk × PointerAct)}
    (h : PointerRun desk₀ steps desk) (hready : desk₀.dev.ready = true)
    (hreset : ∀ step ∈ steps, ∀ b, step.2 ≠ .reset b) : RunPost desk₀.dev steps desk.dev := by
  induction h with
  | nil => exact ⟨hready, rfl, rfl, trivial, rfl⟩
  | @snoc steps desk desk' act h hstep ih =>
    have hd := ih fun step hmem ↦ hreset step (List.mem_append_left _ hmem)
    have hpost := hstep.post hd.ready fun b ↦ hreset (desk, act) (by simp) b
    have hacts : runActs (steps ++ [(desk, act)]) = runActs steps ++ slotActs desk act := by
      simp [runActs]
    have hcontacts : contacts (steps ++ [(desk, act)])
        = contacts steps ++ (contactOf desk act).toList := by
      cases hc : contactOf desk act <;> simp [contacts, hc]
    refine ⟨hpost.ready, ?_, ?_, ?_, ?_⟩
    · rw [hcontacts, lastContact_append, ← hd.contact]
      exact hpost.contact
    · rw [hcontacts, contactEvents_append_toList, ← hd.contact, hacts]
      have hputs : ∀ a b : List (Act AbsolutePointerState), puts (a ++ b) = puts a ++ puts b :=
        fun _ _ ↦ List.filterMap_append
      rw [hputs, hd.puts, hpost.puts]
    · rw [hacts]
      exact follows_append.mpr ⟨hd.follows, by rw [hd.content]; exact hpost.follows⟩
    · rw [hacts, content_append, hd.content]
      exact hpost.content

private theorem slotActs_poll_cases (desk : Desk) (report : Option (List UInt8)) :
    slotActs desk (.poll report) = [] ∨
      ∃ e, slotActs desk (.poll report) = [Act.put e] := by
  rw [slotActs_poll]
  cases contactOf desk (.poll report) with
  | none => exact .inl rfl
  | some c =>
    cases c with
    | some p => exact .inr ⟨_, rfl⟩
    | none =>
      change (contactEvents desk.dev.contact [none]).map Act.put = [] ∨ ∃ e,
        (contactEvents desk.dev.contact [none]).map Act.put = [Act.put e]
      cases desk.dev.contact with
      | some p => exact .inr ⟨_, rfl⟩
      | none => exact .inl rfl

private theorem Attentive.prompt {steps : List (Desk × PointerAct)} (h : Attentive steps) :
    Prompt (runActs steps) := by
  -- the induction follows the definition: a poll is taken with the GetState behind it
  induction steps using Attentive.induct with
  | case1 => exact trivial
  | case2 desk report desk' status state steps ih =>
    have hrest := ih h
    obtain hacts | ⟨e, hacts⟩ := slotActs_poll_cases desk report
    · have hrun : runActs ((desk, .poll report) :: (desk', .getState true status state) :: steps)
          = .take (if status.isError then none else state) :: runActs steps := by
        rw [runActs, List.flatMap_cons, hacts]
        rfl
      rw [hrun]
      exact hrest
    · have hrun : runActs ((desk, .poll report) :: (desk', .getState true status state) :: steps)
          = .put e :: .take (if status.isError then none else state) :: runActs steps := by
        rw [runActs, List.flatMap_cons, hacts]
        rfl
      rw [hrun]
      exact hrest
  | case3 desk report steps hnot =>
    cases steps with
    | nil => exact h.elim
    | cons step steps =>
      obtain ⟨desk', act⟩ := step
      cases act with
      | getState hasState status state =>
        cases hasState with
        | true => exact (hnot desk' status state steps rfl).elim
        | false => exact h.elim
      | poll report => exact h.elim
      | reset b => exact h.elim
      | setScreen screen => exact h.elim
  | case4 step steps hnot hpoll ih =>
    obtain ⟨desk, act⟩ := step
    have hrun : runActs ((desk, act) :: steps) = slotActs desk act ++ runActs steps := rfl
    rw [hrun]
    cases act with
    | poll report => exact (hpoll desk report rfl).elim
    | getState hasState status state =>
      cases hasState with
      | true => exact ih h
      | false => exact ih h
    | reset b => exact ih h
    | setScreen screen => exact ih h

/-- What a receptive driver does next on a display: a read that succeeds is the report of a poll,
and a call is answered. The driver stays receptive. -/
structure TouchDev.GoesOn (d : TouchDev) (screen : Screen) : Prop where
  poll : ∀ t status bytes bus, status.isError = false →
    ((i2cHidRawRead d.i2cBase (d.inputBuf.map (·.bytes)) d.maxInputLength).run d.bus).Returns t
      ((status, some bytes), bus) →
    ∃ d', PointerStep ⟨d, screen⟩ (.poll (some bytes)) ⟨d', screen⟩ ∧ d'.Receptive
  getState : ∀ hasState, ∃ status state d',
    PointerStep ⟨d, screen⟩ (.getState hasState status state) ⟨d', screen⟩ ∧ d'.Receptive

theorem TouchDev.Receptive.goesOn {d : TouchDev} (hd : d.Receptive) (screen : Screen) :
    d.GoesOn screen where
  poll _ _ _ _ hstatus hread := exists_pointerStep_of_read hd hstatus hread screen
  getState hasState := by
    have hwithin := touchGetState_within (d := d) (fun _ h ↦ h) hasState
    obtain ⟨⟨⟨status, state⟩, d'⟩, hsim⟩ := Prog.Within.simulate hwithin panelMachine {}
    have hret := Prog.returns_simulate hsim
    refine ⟨status, state, d', .getState hret, ?_⟩
    obtain rfl | ⟨-, rfl⟩ : d' = d ∨ d.ready = true ∧ d' = { d with stateChanged := false } :=
      Monitor.post_of_wpS hwithin hret
    · exact hd
    · exact { hd with }

/-- **The touch events of a run.** A receptive driver goes on, whatever is read and called. From
any driver that is ready, over any reports, calls and changes of the display in any order:
a report that is not a matching one changes nothing;
the events that are published are those of the strokes which the matching reports make, the touch
that was down at the start included;
a call that succeeds returns the latest event, and no other call returns this one, the state that
waited at the start being the first;
a client that calls after every poll receives all of them. -/
theorem pointerRun_events {desk₀ desk : Desk} {steps : List (Desk × PointerAct)}
    (hready : desk₀.dev.ready = true) (h : PointerRun desk₀ steps desk)
    (hreset : ∀ step ∈ steps, ∀ b, step.2 ≠ .reset b) :
    (∀ (d : TouchDev) screen, d.Receptive → d.GoesOn screen) ∧
    (∀ desk desk' bytes, PointerStep desk (.poll (some bytes)) desk' →
      reportPayload desk.dev.layout desk.dev.maxInputLength bytes = .ok none →
        SamePointer desk.dev desk'.dev) ∧
    Strokes (desk₀.dev.contact.toList.map some ++ contacts steps)
      (desk₀.dev.contact.toList.map touchAt ++ puts (runActs steps)) ∧
    (∀ pre e post,
      desk₀.dev.pending.toList.map Act.put ++ runActs steps = pre ++ .take (some e) :: post →
        ∃ pre', pre = pre' ++ [Act.put e]) ∧
    (Attentive steps → takes (runActs steps) = puts (runActs steps) ∨
      ∃ e, desk₀.dev.pending = some e ∧ takes (runActs steps) = e :: puts (runActs steps)) := by
  have hpost := h.post hready hreset
  refine ⟨fun d screen hd ↦ hd.goesOn screen, fun desk desk' bytes hstep hother ↦ ?_, ?_,
    fun pre e post heq ↦ ?_,
    fun hattentive ↦ hpost.follows.takes hattentive.prompt⟩
  · have hnone : contactOf desk (.poll (some bytes)) = none := by
      rw [contactOf, decodeReport, hother]
      rfl
    have hready' : desk.dev.ready = true := by
      cases hstep with
      | report hready' => exact hready'
    obtain ⟨-, ⟨-, hsame⟩ | ⟨c, hsome, -⟩⟩ := hstep.poll_cases hready'
    · exact hsame
    · exact absurd (hnone.symm.trans hsome) (by simp)
  · rw [hpost.puts]
    cases hcontact : desk₀.dev.contact with
    | none => exact strokes_contactEvents _
    | some p => exact strokes_contactEvents_of_down p _
  · refine @Follows.latest _ pre post e ?_
    rw [← heq]
    have hheld : content none (desk₀.dev.pending.toList.map Act.put) = desk₀.dev.pending := by
      cases desk₀.dev.pending <;> rfl
    exact follows_append.mpr ⟨follows_map_put _ _, by rw [hheld]; exact hpost.follows⟩

/-! ### A stroke on the panel of the digitizer descriptor -/

/-- A poll of the panel that finds the report `bytes`. -/
theorem pointerStep_panel {d d₂ d' : TouchDev} {g : UInt32 × UInt32} {bytes : List UInt8}
    (hready : d.ready = true) (hreinit : d.needReinit = false)
    (hreceive : ((touchReceive.run d).simulate panelMachine
      { reports := [bytes], gop := some g }).2 = some (true, d₂))
    (hbytes : d₂.inputBytes = .ok bytes)
    (hdecode : ((touchDecode.run d₂).simulate panelMachine { gop := some g }).2 = some ((), d')) :
    PointerStep ⟨d, ⟨true, some g⟩⟩ (.poll (some bytes)) ⟨d', ⟨true, some g⟩⟩ := by
  refine pointerStep_of_receive hready hreinit (Prog.returns_simulate hreceive) hbytes
    (Prog.returns_simulate hdecode) fun ev hev ↦ ?_
  obtain hev | hev := List.mem_append.mp hev
  · exact Prog.forall_simulate (fun s e hs ↦ panelMachine_answers s g hs e) rfl ev hev
  · exact Prog.forall_simulate (fun s e hs ↦ panelMachine_answers s g hs e) rfl ev hev

/-- The driver after it has received `bytes`. -/
def receivedDev (bytes : List UInt8) (d : TouchDev) : TouchDev :=
  Prog.stateAfter panelMachine touchReceive { reports := [bytes], gop := some (1280, 800) } d

/-- The driver after it has decoded what it received. -/
def decodedDev (d : TouchDev) : TouchDev :=
  Prog.stateAfter panelMachine touchDecode { gop := some (1280, 800) } d

/-- The release of that touch. -/
def releaseReport : List UInt8 := inputReport digitizerLayout (List.replicate 5 0)

/-- The driver after `TouchGetState`. -/
def takenDev (d : TouchDev) : TouchDev := { d with stateChanged := false }

private theorem getStateStep_panel {d : TouchDev} {screen : Screen} {state : AbsolutePointerState}
    (h : (((touchGetState true).run d).simulate panelMachine {}).2
      = some ((.success, some state), takenDev d)) :
    PointerStep ⟨d, screen⟩ (.getState true .success (some state)) ⟨takenDev d, screen⟩ :=
  .getState (Prog.returns_simulate h)

/-- The driver after the touch has been reported. -/
def touchSeenDev : TouchDev := decodedDev (receivedDev touchReport panelDev)

/-- The driver after the client has taken the touch, and the release has been reported. -/
def releaseSeenDev : TouchDev := decodedDev (receivedDev releaseReport (takenDev touchSeenDev))

/-- A touch, a call, its release and another call. -/
def strokeSteps : List (Desk × PointerAct) :=
  [(⟨panelDev, ⟨true, some (1280, 800)⟩⟩, .poll (some touchReport)),
   (⟨touchSeenDev, ⟨true, some (1280, 800)⟩⟩,
     .getState true .success (some (touchAt (0x123, 0x456)))),
   (⟨takenDev touchSeenDev, ⟨true, some (1280, 800)⟩⟩, .poll (some releaseReport)),
   (⟨releaseSeenDev, ⟨true, some (1280, 800)⟩⟩,
     .getState true .success (some (releaseAt (0x123, 0x456))))]

private theorem pointerRun_stroke : PointerRun ⟨panelDev, ⟨true, some (1280, 800)⟩⟩ strokeSteps
    ⟨takenDev releaseSeenDev, ⟨true, some (1280, 800)⟩⟩ := by
  have htouch : PointerStep ⟨panelDev, ⟨true, some (1280, 800)⟩⟩ (.poll (some touchReport))
      ⟨touchSeenDev, ⟨true, some (1280, 800)⟩⟩ :=
    @pointerStep_panel panelDev (receivedDev touchReport panelDev) _ _ _ (by decide +kernel)
      (by decide +kernel) (by decide +kernel) (by decide +kernel) (by decide +kernel)
  have hrelease : PointerStep ⟨takenDev touchSeenDev, ⟨true, some (1280, 800)⟩⟩
      (.poll (some releaseReport)) ⟨releaseSeenDev, ⟨true, some (1280, 800)⟩⟩ :=
    @pointerStep_panel _ (receivedDev releaseReport (takenDev touchSeenDev)) _ _ _
      (by decide +kernel) (by decide +kernel) (by decide +kernel) (by decide +kernel)
      (by decide +kernel)
  exact .snoc (.snoc (.snoc (.snoc .nil htouch) (getStateStep_panel (by decide +kernel)))
    hrelease) (getStateStep_panel (by decide +kernel))

/-- The client takes the touch and its release, one after the other. -/
theorem pointerRun_events_panel :
    PointerRun ⟨panelDev, ⟨true, some (1280, 800)⟩⟩ strokeSteps
        ⟨takenDev releaseSeenDev, ⟨true, some (1280, 800)⟩⟩ ∧
      panelDev.GoesOn ⟨true, some (1280, 800)⟩ ∧
      Strokes [some (0x123, 0x456), none] [touchAt (0x123, 0x456), releaseAt (0x123, 0x456)] ∧
      takes (runActs strokeSteps) = [touchAt (0x123, 0x456), releaseAt (0x123, 0x456)] := by
  obtain ⟨hgoes, -, hstrokes, -, htakes⟩ := @pointerRun_events
    ⟨panelDev, ⟨true, some (1280, 800)⟩⟩ _ _ rfl pointerRun_stroke (by simp [strokeSteps])
  have hcontacts : contacts strokeSteps = [some (0x123, 0x456), none] := by decide +kernel
  have hputs : puts (runActs strokeSteps)
      = [touchAt (0x123, 0x456), releaseAt (0x123, 0x456)] := by decide +kernel
  have hreceptive : panelDev.Receptive := ⟨rfl, rfl, by decide, _, rfl, by decide⟩
  refine ⟨pointerRun_stroke, hgoes panelDev _ hreceptive, ?_, ?_⟩
  · rw [hcontacts, hputs] at hstrokes
    exact hstrokes
  · rw [hputs] at htakes
    obtain heq | ⟨e, hpending, -⟩ := htakes trivial
    · exact heq
    · contradiction

end TouchI2c
