import TouchI2c.Touch.Report

/-!
# The published position and the published range

Every matching report publishes the range of the current orientation, but only a touch publishes a
position: a release keeps the last one. So the position stays inside the range exactly as long as no
release is reported, and none is waiting to be read, while the kept position is outside the range of
the orientation that the report finds.

## Displays

A `Desk` is a driver together with a `Screen`: what the firmware answers about the display, which
may change between any two calls. `PointerStep` is one poll or one call of the client on a desk; its
trace agrees with the screen wherever it asks the display. A poll gets through on any screen:
whatever its transfer brings is decoded to the end, so a run can always go on.

## One step

A poll that comes to decode nothing leaves the pointer alone. Any other publishes the range of the
orientation, and then the position: a touch one of its own, within the maxima and so within the
range of the orientation, and a release, or no touch at all, the one that was kept. So a step keeps
the position inside the range if and only if it finds it there where it needs it, and a run from a
successful bring-up, where nothing waits to be read, does so if and only if each of its polls does.
-/

namespace TouchI2c

open CMemory HidParse Interaction

/-! ## Orientations -/

/-- The range of an orientation. -/
def TouchDev.range (d : TouchDev) (rotate : Bool) : ℕ × ℕ :=
  if rotate then (d.layout.yLogicalMax, d.layout.xLogicalMax)
  else (d.layout.xLogicalMax, d.layout.yLogicalMax)

/-- Where a raw position lies on the display in an orientation. -/
def TouchDev.place (d : TouchDev) (rotate : Bool) (x y : ℕ) : ℕ × ℕ :=
  if rotate then (y, d.layout.xLogicalMax - x) else (x, y)

section

variable {d d' : TouchDev} {t : List (Event Uefi)} {screen : Screen}

private theorem touchLocateGop_shows {found : Bool}
    (hret : (touchLocateGop.run d).Returns t (found, d')) (hshow : ∀ ev ∈ t, screen.Answers ev) :
    found = (d.gop || screen.located) ∧ ∃ gop, d' = { d with gop := gop } := by
  rw [touchLocateGop, Prog.returnsS_bind] at hret
  obtain ⟨_, _, _, _, rfl, hget, hrest⟩ := hret
  obtain ⟨rfl, rfl, rfl⟩ := Prog.returnsS_get.mp hget
  split at hrest
  · next hgop =>
    obtain ⟨rfl, rfl, rfl⟩ := Prog.returnsS_pure.mp hrest
    exact ⟨by rw [hgop]; rfl, d.gop, rfl⟩
  · next hgop =>
    obtain ⟨_, _, r, _, rfl, hlocate, hnote⟩ := Prog.returnsS_bind.mp hrest
    obtain ⟨hperform, rfl⟩ := Prog.returnsS_lift.mp hlocate
    obtain rfl := Prog.returns_perform.mp hperform
    obtain ⟨_, _, _, _, rfl, hmodify, hend⟩ := Prog.returnsS_bind.mp hnote
    obtain ⟨rfl, rfl⟩ := Prog.returnsS_modify.mp hmodify
    obtain ⟨rfl, rfl, rfl⟩ := Prog.returnsS_pure.mp hend
    have hr : r = screen.located := hshow ⟨.locateGop, r⟩ (by simp)
    rw [Bool.eq_false_of_not_eq_true hgop, hr]
    exact ⟨rfl, _, rfl⟩

private theorem gopIsLandscape_shows {landscape : Bool}
    (hret : (gopIsLandscape.run d).Returns t (landscape, d'))
    (hshow : ∀ ev ∈ t, screen.Answers ev) :
    landscape = ((d.gop || screen.located) && screen.isLandscape) ∧
      ∃ gop, d' = { d with gop := gop } := by
  rw [gopIsLandscape, Prog.returnsS_bind] at hret
  obtain ⟨t₁, t₂, found, d₁, rfl, hlocate, hrest⟩ := hret
  obtain ⟨hfound, hgop⟩ := @touchLocateGop_shows _ _ _ screen _ hlocate fun ev hev ↦
    hshow ev (List.mem_append_left _ hev)
  rw [← hfound]
  cases found with
  | false =>
    obtain ⟨-, rfl, rfl⟩ := Prog.returnsS_pure.mp hrest
    exact ⟨rfl, hgop⟩
  | true =>
    obtain ⟨_, _, resolution, _, rfl, hask, hend⟩ := Prog.returnsS_bind.mp hrest
    obtain ⟨hperform, rfl⟩ := Prog.returnsS_lift.mp hask
    obtain rfl := Prog.returns_perform.mp hperform
    have hr : resolution = screen.mode := hshow ⟨.gopResolution, resolution⟩ (by simp)
    rw [Screen.isLandscape, ← hr]
    cases resolution with
    | none =>
      obtain ⟨-, rfl, rfl⟩ := Prog.returnsS_pure.mp hend
      exact ⟨rfl, hgop⟩
    | some resolution =>
      obtain ⟨-, rfl, rfl⟩ := Prog.returnsS_pure.mp hend
      exact ⟨by simp, hgop⟩

theorem touchUpdateOrientation_shows {u : Unit}
    (hret : (touchUpdateOrientation.run d).Returns t (u, d'))
    (hshow : ∀ ev ∈ t, screen.Answers ev) :
    ∃ gop, d' = TouchDev.orient (d.wantsRotation screen) { d with gop := gop } := by
  rw [touchUpdateOrientation, Prog.returnsS_bind] at hret
  obtain ⟨t₁, _, rotate, d₁, rfl, hwants, horient⟩ := hret
  obtain ⟨rfl, rfl⟩ := Prog.returnsS_modify.mp horient
  rw [List.append_nil] at hshow
  rw [touchWantsRotation, Prog.returnsS_bind] at hwants
  obtain ⟨_, _, _, _, rfl, hget, hrest⟩ := hwants
  obtain ⟨rfl, rfl, rfl⟩ := Prog.returnsS_get.mp hget
  unfold TouchDev.wantsRotation
  split at hrest
  · next hportrait =>
    obtain ⟨rfl, gop, rfl⟩ := @gopIsLandscape_shows _ _ _ screen _ hrest hshow
    rw [decide_eq_true hportrait, Bool.true_and]
    exact ⟨gop, rfl⟩
  · next hportrait =>
    obtain ⟨-, rfl, rfl⟩ := Prog.returnsS_pure.mp hrest
    rw [decide_eq_false hportrait]
    exact ⟨d.gop, rfl⟩

end

/-! ## The steps -/

/-- The position is inside the published range, if there is one to be read. -/
def TouchDev.InRange (d : TouchDev) : Prop :=
  d.stateChanged = true →
    d.state.currentX ≤ d.mode.absoluteMaxX ∧ d.state.currentY ≤ d.mode.absoluteMaxY

instance (d : TouchDev) : Decidable d.InRange := inferInstanceAs (Decidable (_ → _))

/-- What a poll with the trace `t` received: the bytes of `InputBuf` if it came to decode them. -/
def PollReceives (d : TouchDev) (t : List (Event Uefi)) (bytes : List UInt8) : Prop :=
  ∃ t₁ t₂ t₃ d₁ d₂, t = t₁ ++ t₂ ++ t₃ ∧ (touchPollReinit.run d).Returns t₁ (true, d₁) ∧
    (touchReceive.run d₁).Returns t₂ (true, d₂) ∧ d₂.inputBytes = .ok bytes

/-- What happens to the pointer: a poll with the report that it received, if any, a call of the
protocol, or a change of the display. -/
inductive PointerAct where
  | poll (report : Option (List UInt8))
  | getState (hasState : Bool) (status : EfiStatus) (state : Option AbsolutePointerState)
  | reset (extendedVerification : Bool)
  | setScreen (screen : Screen)

/-- The driver and the display. -/
structure Desk where
  dev : TouchDev
  screen : Screen

/-- One step of the driver or of the display. -/
inductive PointerStep : Desk → PointerAct → Desk → Prop
  | report {d d' : TouchDev} {screen : Screen} {t : List (Event Uefi)} {bytes : List UInt8}
      (hready : d.ready = true) (hret : (touchPoll.run d).Returns t ((), d'))
      (hshow : ∀ ev ∈ t, screen.Answers ev) (hreceives : PollReceives d t bytes) :
      PointerStep ⟨d, screen⟩ (.poll (some bytes)) ⟨d', screen⟩
  | noReport {d d' : TouchDev} {screen : Screen} {t : List (Event Uefi)}
      (hret : (touchPoll.run d).Returns t ((), d')) (hshow : ∀ ev ∈ t, screen.Answers ev)
      (hnone : d.ready = true → ∀ bytes, ¬PollReceives d t bytes) :
      PointerStep ⟨d, screen⟩ (.poll none) ⟨d', screen⟩
  | getState {d d' : TouchDev} {screen : Screen} {t : List (Event Uefi)} {hasState : Bool}
      {status : EfiStatus} {state : Option AbsolutePointerState}
      (hret : ((touchGetState hasState).run d).Returns t ((status, state), d')) :
      PointerStep ⟨d, screen⟩ (.getState hasState status state) ⟨d', screen⟩
  | reset {d d' : TouchDev} {screen : Screen} {t : List (Event Uefi)} {extendedVerification : Bool}
      {status : EfiStatus}
      (hret : ((touchReset extendedVerification).run d).Returns t (status, d')) :
      PointerStep ⟨d, screen⟩ (.reset extendedVerification) ⟨d', screen⟩
  | setScreen {d : TouchDev} {screen : Screen} (screen' : Screen) :
      PointerStep ⟨d, screen⟩ (.setScreen screen') ⟨d, screen'⟩

theorem exists_pointerStep_of_poll {d d' : TouchDev} {screen : Screen} {t : List (Event Uefi)}
    (hret : (touchPoll.run d).Returns t ((), d')) (hshow : ∀ ev ∈ t, screen.Answers ev) :
    ∃ report, PointerStep ⟨d, screen⟩ (.poll report) ⟨d', screen⟩ := by
  by_cases h : d.ready = true ∧ ∃ bytes, PollReceives d t bytes
  · obtain ⟨hready, bytes, hreceives⟩ := h
    exact ⟨some bytes, .report hready hret hshow hreceives⟩
  · exact ⟨none, .noReport hret hshow fun hready bytes hreceives ↦ h ⟨hready, bytes, hreceives⟩⟩

/-- A poll that receives and decodes a report is a step. -/
theorem pointerStep_of_receive {d d₂ d' : TouchDev} {screen : Screen} {t₂ t₃ : List (Event Uefi)}
    {bytes : List UInt8} (hready : d.ready = true) (hreinit : d.needReinit = false)
    (hreceive : (touchReceive.run d).Returns t₂ (true, d₂)) (hbytes : d₂.inputBytes = .ok bytes)
    (hdecode : (touchDecode.run d₂).Returns t₃ ((), d'))
    (hshow : ∀ ev ∈ t₂ ++ t₃, screen.Answers ev) :
    PointerStep ⟨d, screen⟩ (.poll (some bytes)) ⟨d', screen⟩ := by
  have hgo := touchPollReinit_returns hreinit
  exact .report hready ((touchPoll_reaches hready hgo hreceive).trans hdecode) hshow
    ⟨[], t₂, t₃, d, d₂, rfl, hgo, hreceive, hbytes⟩

/-- What the position needs at a step: a poll that receives a report with the tip up, while a
state waits to be read or the tip was down, finds the position that was kept inside the range of
the orientation that the display asks for. -/
def KeepsRange (desk : Desk) : PointerAct → Prop
  | .poll (some bytes) => ∀ x y, decodeReport desk.dev.layout desk.dev.maxInputLength bytes
      = .ok (some (false, x, y)) → (desk.dev.stateChanged || desk.dev.lastTip) = true →
        desk.dev.state.currentX ≤ (desk.dev.range (desk.dev.wantsRotation desk.screen)).1 ∧
        desk.dev.state.currentY ≤ (desk.dev.range (desk.dev.wantsRotation desk.screen)).2
  | _ => True

/-- What `TouchGetState` returns at a step is inside the range in force. -/
def ReturnsInRange (desk : Desk) : PointerAct → Prop
  | .getState _ .success (some state) => state.currentX ≤ desk.dev.mode.absoluteMaxX ∧
      state.currentY ≤ desk.dev.mode.absoluteMaxY
  | _ => True

section

variable {d d' : TouchDev} {t : List (Event Uefi)}

/-! ### Polls -/

/-- A poll that comes to decode nothing leaves the pointer alone. -/
theorem touchPoll_noReport (hret : (touchPoll.run d).Returns t ((), d'))
    (hnone : d.ready = true → ∀ bytes, ¬PollReceives d t bytes) :
    ∃ bus reinit buf, d' = d.transferred bus reinit buf := by
  rcases touchPoll_cases hret with hkept | ⟨t₁, t₂, t₃, d₁, d₂, hready, rfl, hreinit, hreceive,
    hdecode⟩
  · exact hkept
  · -- the bytes that are decoded next are what the poll received
    exfalso
    rw [touchDecode, Prog.returnsS_bind] at hdecode
    obtain ⟨_, _, _, _, rfl, hget, hbytes⟩ := hdecode
    obtain ⟨rfl, rfl, rfl⟩ := Prog.returnsS_get.mp hget
    obtain ⟨_, t₅, bytes, _, rfl, hread, -⟩ := Prog.returnsS_bind.mp hbytes
    obtain ⟨-, hread, -⟩ := Prog.returnsS_liftChecked.mp hread
    exact hnone hready bytes ⟨t₁, t₂, _, _, _, rfl, hreinit, hreceive, hread⟩

private theorem rotated_eq_place {rotate : Bool} {x y : ℕ} (hx : x ≤ d.layout.xLogicalMax) :
    (TouchDev.orient rotate d).rotated x y = .ok (d.place rotate x y) := by
  cases rotate with
  | false => rfl
  | true =>
    change (do return (y, ← subUnsigned d.layout.xLogicalMax x) : Checked (ℕ × ℕ)) = _
    rw [subUnsigned_ok hx]
    rfl

/-- A position within the maxima is within the range of the orientation. -/
private theorem place_le {rotate : Bool} {x y : ℕ} (hx : x ≤ d.layout.xLogicalMax)
    (hy : y ≤ d.layout.yLogicalMax) :
    (d.place rotate x y).1 ≤ (d.range rotate).1 ∧ (d.place rotate x y).2 ≤ (d.range rotate).2 := by
  cases rotate with
  | false => exact ⟨hx, hy⟩
  | true => exact ⟨hy, Nat.sub_le _ _⟩

/-- Decoding publishes the range of the orientation, and then the position. -/
private theorem touchDecode_report {screen : Screen} {bytes : List UInt8}
    (hbytes : d.inputBytes = .ok bytes) (hret : (touchDecode.run d).Returns t ((), d'))
    (hshow : ∀ ev ∈ t, screen.Answers ev) :
    decodeReport d.layout d.maxInputLength bytes = .ok none ∧ d' = d ∨
      ∃ tip x y gop, decodeReport d.layout d.maxInputLength bytes = .ok (some (tip, x, y)) ∧
        d' = TouchDev.publish tip (d.place (d.wantsRotation screen) x y).1
          (d.place (d.wantsRotation screen) x y).2
          (TouchDev.orient (d.wantsRotation screen) { d with gop := gop }) := by
  rw [touchDecode, Prog.returnsS_bind] at hret
  obtain ⟨_, _, _, _, rfl, hget, hrest⟩ := hret
  obtain ⟨rfl, rfl, rfl⟩ := Prog.returnsS_get.mp hget
  rw [hbytes] at hrest
  obtain ⟨_, _, _, _, rfl, hread, hparse⟩ := Prog.returnsS_bind.mp hrest
  obtain ⟨rfl, hok, rfl⟩ := Prog.returnsS_liftChecked.mp hread
  cases hok
  obtain ⟨_, _, r, _, rfl, hdecode, hpublish⟩ := Prog.returnsS_bind.mp hparse
  obtain ⟨rfl, hr, rfl⟩ := Prog.returnsS_liftChecked.mp hdecode
  cases r with
  | none =>
    obtain ⟨-, -, rfl⟩ := Prog.returnsS_pure.mp hpublish
    exact .inl ⟨hr, rfl⟩
  | some r =>
    obtain ⟨tip, x, y⟩ := r
    obtain ⟨hx, -⟩ := decodeReport_le hr
    obtain ⟨t₄, _, _, _, rfl, horient, hrotate⟩ := Prog.returnsS_bind.mp hpublish
    obtain ⟨gop, rfl⟩ := @touchUpdateOrientation_shows _ _ _ screen _ horient fun ev hev ↦
      hshow ev (by simp [hev])
    obtain ⟨_, _, _, _, rfl, hget', hstore⟩ := Prog.returnsS_bind.mp hrotate
    obtain ⟨rfl, rfl, rfl⟩ := Prog.returnsS_get.mp hget'
    obtain ⟨_, _, xy, _, rfl, hrotated, hend⟩ := Prog.returnsS_bind.mp hstore
    obtain ⟨rfl, hxy, rfl⟩ := Prog.returnsS_liftChecked.mp hrotated
    obtain ⟨rfl, rfl⟩ := Prog.returnsS_modify.mp hend
    rw [rotated_eq_place (d := { d with gop := gop }) hx] at hxy
    cases hxy
    exact .inr ⟨tip, x, y, gop, hr, rfl⟩

/-- What a poll does to the pointer with the bytes that it receives. -/
theorem touchPoll_report {screen : Screen} {bytes : List UInt8} (hready : d.ready = true)
    (hret : (touchPoll.run d).Returns t ((), d')) (hshow : ∀ ev ∈ t, screen.Answers ev)
    (hreceives : PollReceives d t bytes) :
    ∃ bus reinit buf,
      decodeReport d.layout d.maxInputLength bytes = .ok none ∧
        d' = d.transferred bus reinit buf ∨
      ∃ tip x y gop, decodeReport d.layout d.maxInputLength bytes = .ok (some (tip, x, y)) ∧
        d' = TouchDev.publish tip (d.place (d.wantsRotation screen) x y).1
          (d.place (d.wantsRotation screen) x y).2 (TouchDev.orient (d.wantsRotation screen)
            { d.transferred bus reinit buf with gop := gop }) := by
  obtain ⟨t₁, t₂, t₃, d₁, d₂, rfl, hreinit, hreceive, hbytes⟩ := hreceives
  have hdecode : (touchDecode.run d₂).Returns t₃ ((), d') :=
    (touchPoll_reaches hready hreinit hreceive).rest hret
  obtain ⟨bus₁, reinit₁, rfl⟩ := touchPollReinit_frame hreinit
  obtain ⟨bus, reinit, buf, rfl⟩ := touchReceive_frame hreceive
  exact ⟨bus, reinit, buf, touchDecode_report hbytes hdecode fun ev hev ↦ hshow ev (by simp [hev])⟩

/-- The driver is ready, owes the panel no recovery and has an input buffer for its reports. -/
structure TouchDev.Receptive (d : TouchDev) : Prop where
  ready : d.ready = true
  needReinit : d.needReinit = false
  lower : 3 ≤ d.maxInputLength
  inputBuf : ∃ buf, d.inputBuf = some buf ∧ buf.bytes.length = d.maxInputLength

private theorem not_displayQuery_of_busAccess {bus : I2cBus} {base : UInt64} {R : UInt64 → Prop}
    {e : UefiOp} (h : BusAccess bus base R e) : ¬DisplayQuery e := by
  unfold BusAccess at h
  cases hkind : bus.mKind <;> rw [hkind] at h <;> cases e <;> first | exact id | exact h.elim

/-- An event that asks the display nothing agrees with every display. -/
theorem Screen.answers_of_not_query (screen : Screen) {ev : Event Uefi}
    (h : ¬DisplayQuery ev.op) : screen.Answers ev := by
  obtain ⟨e, r⟩ := ev
  cases e <;> first | exact trivial | exact absurd trivial h

/-- **A poll gets through.** On any display, a read of the input report that succeeds is the read of
a poll, which takes what was read for its report and leaves the driver as receptive as before. -/
theorem exists_pointerStep_of_read {bytes : List UInt8} {status : EfiStatus} {bus : I2cBus}
    (hd : d.Receptive) (hstatus : status.isError = false)
    (hread : ((i2cHidRawRead d.i2cBase (d.inputBuf.map (·.bytes)) d.maxInputLength).run
      d.bus).Returns t ((status, some bytes), bus)) (screen : Screen) :
    ∃ d', PointerStep ⟨d, screen⟩ (.poll (some bytes)) ⟨d', screen⟩ ∧ d'.Receptive := by
  obtain ⟨buf, hbuf, hlen⟩ := hd.inputBuf
  rw [hbuf, Option.map_some] at hread
  have hwithin : (within fun e ↦ ¬DisplayQuery e).world.wpS
      (i2cHidRawRead d.i2cBase (some buf.bytes) d.maxInputLength)
      (fun r bus' _ ↦ SameTransport d.bus bus' ∧ SameSize (some buf.bytes) r.2) d.bus () :=
    i2cBusXfer_within (R := fun _ ↦ True) (fun e he ↦ not_displayQuery_of_busAccess he)
      (fun _ _ ↦ trivial) ⟨le_rfl, hlen.ge⟩
  have hquiet : ∀ ev ∈ t, screen.Answers ev := fun ev hev ↦
    screen.answers_of_not_query (Prog.Within.events hwithin hread ev hev)
  have hbytes : bytes.length = d.maxInputLength := by
    have hsize := (Monitor.post_of_wpS hwithin hread).2
    exact (Option.some.inj hsize).trans hlen
  have hreceive := touchReceive_returns hbuf hstatus hread
  obtain ⟨r, hdecode, -⟩ := @decodeReport_ok d.layout _ _ hd.lower hbytes
  obtain ⟨t', d', hret, hshow⟩ := touchDecode_returns (d := { d with
    bus := bus, inputBuf := some ⟨buf.address, bytes⟩ }) screen rfl hdecode
  have hstep : PointerStep ⟨d, screen⟩ (.poll (some bytes)) ⟨d', screen⟩ := by
    refine pointerStep_of_receive hd.ready hd.needReinit hreceive rfl hret fun ev hev ↦ ?_
    obtain hev | hev := List.mem_append.mp hev
    · exact hquiet ev hev
    · exact hshow ev hev
  refine ⟨d', hstep, ?_⟩
  have hfilled : ({ d with bus := bus, inputBuf := some ⟨buf.address, bytes⟩ } :
      TouchDev).inputBytes = .ok bytes := rfl
  obtain ⟨-, rfl⟩ | ⟨tip, x, y, gop, -, rfl⟩ := touchDecode_report hfilled hret hshow
  · exact { hd with inputBuf := ⟨_, rfl, hbytes⟩ }
  · unfold TouchDev.publish
    split <;> exact { hd with inputBuf := ⟨_, rfl, hbytes⟩ }

private theorem mode_orient (d : TouchDev) (rotate : Bool) :
    ((TouchDev.orient rotate d).mode.absoluteMaxX, (TouchDev.orient rotate d).mode.absoluteMaxY)
      = d.range rotate := by
  cases rotate <;> rfl

private theorem inRange_touch {rotate : Bool} {x y : ℕ} (hx : x ≤ (d.range rotate).1)
    (hy : y ≤ (d.range rotate).2) :
    (TouchDev.publish true x y (TouchDev.orient rotate d)).InRange := by
  rw [← mode_orient] at hx hy
  exact fun _ ↦ ⟨hx, hy⟩

/-- A release, or no touch at all, leaves the position that was kept. -/
private theorem inRange_release {rotate : Bool} {x y : ℕ} :
    (TouchDev.publish false x y (TouchDev.orient rotate d)).InRange ↔
      ((d.stateChanged || d.lastTip) = true →
        d.state.currentX ≤ (d.range rotate).1 ∧ d.state.currentY ≤ (d.range rotate).2) := by
  rw [← mode_orient]
  cases hlast : d.lastTip with
  | true =>
    have hpublish : TouchDev.publish false x y (TouchDev.orient rotate d)
        = { TouchDev.orient rotate d with
            state := { currentX := d.state.currentX, currentY := d.state.currentY }
            stateChanged := true
            lastTip := false } := by
      rw [TouchDev.publish, if_pos]
      · rfl
      · exact hlast
    rw [hpublish, Bool.or_true]
    exact Iff.rfl
  | false =>
    have hpublish : TouchDev.publish false x y (TouchDev.orient rotate d)
        = TouchDev.orient rotate d := by
      rw [TouchDev.publish, if_neg]
      rw [Bool.false_or]
      exact fun h ↦ absurd (hlast.symm.trans h) Bool.false_ne_true
    rw [hpublish, Bool.or_false]
    exact Iff.rfl

/-- A poll that receives a report keeps the position inside the range if and only if the report
finds it there. -/
private theorem touchPoll_inRange_iff {screen : Screen} {bytes : List UInt8}
    (hready : d.ready = true) (hret : (touchPoll.run d).Returns t ((), d'))
    (hshow : ∀ ev ∈ t, screen.Answers ev) (hreceives : PollReceives d t bytes)
    (hd : d.InRange) : d'.InRange ↔ KeepsRange ⟨d, screen⟩ (.poll (some bytes)) := by
  obtain ⟨bus, reinit, buf, ⟨hnone, rfl⟩ | ⟨tip, x, y, gop, hsome, rfl⟩⟩ :=
    touchPoll_report hready hret hshow hreceives
  · -- another report: nothing is published
    refine iff_of_true hd fun x y hreport ↦ ?_
    exact absurd (hnone.symm.trans hreport) (by simp)
  · obtain ⟨hx, hy⟩ := decodeReport_le hsome
    cases tip with
    | true =>
      obtain ⟨hx', hy'⟩ := @place_le _ (d.wantsRotation screen) _ _ hx hy
      refine iff_of_true (inRange_touch hx' hy') fun x₁ y₁ hreport ↦ ?_
      exact absurd (hsome.symm.trans hreport) (by simp)
    | false =>
      refine inRange_release.trans ⟨fun h x₁ y₁ _ ↦ h, fun h ↦ h x y ?_⟩
      exact hsome

/-! ### All steps -/

/-- **One step** keeps the position inside the range if and only if it finds it there where it
needs it. -/
theorem PointerStep.inRange_iff {desk desk' : Desk} {act : PointerAct}
    (h : PointerStep desk act desk') (hd : desk.dev.InRange) :
    desk'.dev.InRange ↔ KeepsRange desk act := by
  cases h with
  | report hready hret hshow hreceives => exact touchPoll_inRange_iff hready hret hshow hreceives hd
  | noReport hret hshow hnone =>
    obtain ⟨bus, reinit, buf, rfl⟩ := touchPoll_noReport hret hnone
    exact iff_of_true hd trivial
  | @getState d d' screen t hasState status state hret =>
    refine iff_of_true ?_ trivial
    obtain rfl | ⟨-, rfl⟩ : d' = d ∨ d.ready = true ∧ d' = { d with stateChanged := false } :=
      Monitor.post_of_wpS (touchGetState_within (fun _ h ↦ h) hasState) hret
    · exact hd
    · exact fun h ↦ absurd h Bool.false_ne_true
  | @reset d d' screen t extendedVerification status hret =>
    obtain rfl : d' = d.reset extendedVerification :=
      Monitor.post_of_wpS (touchReset_within (fun _ h ↦ h) extendedVerification) hret
    exact iff_of_true (fun h ↦ absurd h Bool.false_ne_true) trivial
  | setScreen screen' => exact iff_of_true hd trivial

/-- A state that `TouchGetState` returns is the one that waited. -/
theorem PointerStep.returnsInRange {desk desk' : Desk} {act : PointerAct}
    (h : PointerStep desk act desk') (hd : desk.dev.InRange) : ReturnsInRange desk act := by
  cases h with
  | @getState d d' screen t hasState status state hret =>
    rw [touchGetState] at hret
    split at hret
    · obtain ⟨-, heq, -⟩ := Prog.returnsS_pure.mp hret
      cases heq
      exact trivial
    · obtain ⟨_, _, _, _, rfl, hraise, hrest⟩ := Prog.returnsS_bind.mp hret
      obtain ⟨-, rfl⟩ := Prog.returnsS_lift.mp hraise
      obtain ⟨_, _, _, _, rfl, hget, hgo⟩ := Prog.returnsS_bind.mp hrest
      obtain ⟨rfl, rfl, rfl⟩ := Prog.returnsS_get.mp hget
      split at hgo
      · obtain ⟨_, _, _, _, rfl, -, hend⟩ := Prog.returnsS_bind.mp hgo
        obtain ⟨-, heq, -⟩ := Prog.returnsS_pure.mp hend
        cases heq
        exact trivial
      · next hwaits =>
        have hchanged : d.stateChanged = true := by
          simp only [Bool.or_eq_true, Bool.not_eq_true', not_or, Bool.not_eq_false] at hwaits
          exact hwaits.2
        obtain ⟨_, _, _, _, rfl, -, hrestore⟩ := Prog.returnsS_bind.mp hgo
        obtain ⟨_, _, _, _, rfl, -, hend⟩ := Prog.returnsS_bind.mp hrestore
        obtain ⟨-, heq, -⟩ := Prog.returnsS_pure.mp hend
        cases heq
        exact hd hchanged
  | _ => exact trivial

end

/-! ## Runs -/

/-- A run of the pointer: each step with the desk it started from. -/
inductive PointerRun (desk₀ : Desk) : List (Desk × PointerAct) → Desk → Prop
  | nil : PointerRun desk₀ [] desk₀
  | snoc {steps : List (Desk × PointerAct)} {desk desk' : Desk} {act : PointerAct}
      (h : PointerRun desk₀ steps desk) (hstep : PointerStep desk act desk') :
      PointerRun desk₀ (steps ++ [(desk, act)]) desk'

/-- The driver has just been brought up. -/
def BroughtUp (d : TouchDev) : Prop :=
  ∃ d₀ t status, d₀.ready = false ∧ (touchTryBringUp.run d₀).Returns t (status, d) ∧
    status.isError = false

theorem BroughtUp.stateChanged {d : TouchDev} (h : BroughtUp d) : d.stateChanged = false := by
  obtain ⟨d₀, t, status, hready, hret, hstatus⟩ := h
  rw [touchTryBringUp, Prog.returnsS_bind] at hret
  obtain ⟨_, _, _, _, rfl, hstart, hrest⟩ := hret
  obtain ⟨rfl, rfl⟩ := Prog.returnsS_modify.mp hstart
  obtain ⟨_, _, status', d₁, rfl, hdetect, hsetUp⟩ := Prog.returnsS_bind.mp hrest
  obtain ⟨hframe, hvalid⟩ := Monitor.post_of_wpS (touchDetect_any d₀.startAttempt) hdetect
  split at hsetUp
  · next herr =>
    obtain ⟨-, rfl, -⟩ := Prog.returnsS_pure.mp hsetUp
    exact absurd herr (by rw [hstatus]; decide)
  · next hok =>
    have hready₁ : d₁.ready = false := (congrArg TouchDev.ready hframe :).trans hready
    have hpost := Monitor.post_of_wpS (touchSetUp_within (P := AnyOp) (fun _ _ ↦ trivial)
      (hvalid (by simpa using hok)) hready₁) hsetUp
    have hchanged : d.stateChanged = d₁.stateChanged :=
      (congrArg TouchDev.stateChanged hpost.frame :)
    exact hchanged.trans (congrArg TouchDev.stateChanged hframe :)

/-- **When the published position stays inside the published range.** In every run from a
successful bring-up, over any reports, calls and changes of the display in any order: the position
is inside the range in every state reached, and so is every state that `TouchGetState` returns, if
and only if every poll with the tip up finds the position that was kept inside the range of its
orientation. -/
theorem pointerRun_inRange_iff {desk₀ desk : Desk} {steps : List (Desk × PointerAct)}
    (hstart : BroughtUp desk₀.dev) (h : PointerRun desk₀ steps desk) :
    ((∀ step ∈ steps, step.1.dev.InRange ∧ ReturnsInRange step.1 step.2) ∧ desk.dev.InRange) ↔
      ∀ step ∈ steps, KeepsRange step.1 step.2 := by
  induction h with
  | nil =>
    refine iff_of_true ⟨fun _ h ↦ absurd h List.not_mem_nil, fun h ↦ ?_⟩
      fun _ h ↦ absurd h List.not_mem_nil
    exact absurd (hstart.stateChanged.symm.trans h) Bool.false_ne_true
  | @snoc steps desk desk' act h hstep ih =>
    simp only [List.mem_append, List.mem_singleton, or_imp, forall_and, forall_eq] at ih ⊢
    constructor
    · rintro ⟨⟨⟨hrange, hd⟩, hreturns, -⟩, hd'⟩
      exact ⟨ih.mp ⟨⟨hrange, hreturns⟩, hd⟩, (hstep.inRange_iff hd).mp hd'⟩
    · rintro ⟨hkeeps, hact⟩
      obtain ⟨⟨hrange, hreturns⟩, hd⟩ := ih.mpr hkeeps
      exact ⟨⟨⟨hrange, hd⟩, hreturns, hstep.returnsInRange hd⟩, (hstep.inRange_iff hd).mpr hact⟩

/-! ### A release after a switch to a portrait mode -/

/-- The digitizer with a portrait matrix: X up to 800, Y up to 1280. -/
def portraitDescriptor : List UInt8 :=
  [0x05, 0x0D, 0x85, 0x01, 0x25, 0x01, 0x75, 0x01, 0x95, 0x01, 0x09, 0x42, 0x81, 0x02,
   0x95, 0x07, 0x81, 0x03, 0x05, 0x01, 0x75, 0x10, 0x95, 0x01, 0x26, 0x20, 0x03, 0x09, 0x30,
   0x81, 0x02, 0x26, 0x00, 0x05, 0x09, 0x31, 0x81, 0x02]

/-- The driver after bring-up, in a landscape mode. -/
def portraitDev : TouchDev :=
  Prog.stateAfter panelMachine touchTryBringUp
    { descriptor := portraitDescriptor, gop := some (1280, 800) }
    { dmi := ⟨List.replicate 32 0, asciiBytes "H7607BA" ++ List.replicate 25 0⟩ }

/-- After a touch at (100, 1200) in the landscape mode. -/
def touchedDev : TouchDev :=
  Prog.stateAfter panelMachine touchPoll
    { reports := [[8, 0, 1, 1, 100, 0, 0xB0, 0x04]], gop := some (1280, 800) } portraitDev

/-- After its release in a portrait mode. -/
def releasedDev : TouchDev :=
  Prog.stateAfter panelMachine touchPoll
    { reports := [[8, 0, 1, 0, 100, 0, 0xB0, 0x04]], gop := some (800, 1280) } touchedDev

theorem panelMachine_answers (panel : Panel) (g : UInt32 × UInt32)
    (hgop : panel.gop = some g) (e : UefiOp) :
    Screen.Answers ⟨true, some g⟩ ⟨e, (panelMachine panel e).1⟩ ∧
      (panelMachine panel e).2.gop = some g := by
  have hnext : ∀ w, (panel.next w).gop = some g := by
    intro w
    unfold Panel.next
    split <;> exact hgop
  cases e with
  | locateGop => exact ⟨by rw [panelMachine, hgop]; rfl, hgop⟩
  | gopResolution => exact ⟨hgop, hgop⟩
  | queueRequest handle slave w n => exact ⟨trivial, hnext w⟩
  | startRequest handle slave w n => exact ⟨trivial, hnext w⟩
  | _ => exact ⟨trivial, hgop⟩

private theorem exists_step_panelMachine {d d' : TouchDev} {panel : Panel} {g : UInt32 × UInt32}
    (hgop : panel.gop = some g)
    (hsim : ((touchPoll.run d).simulate panelMachine panel).2 = some ((), d')) :
    ∃ report, PointerStep ⟨d, ⟨true, some g⟩⟩ (.poll report) ⟨d', ⟨true, some g⟩⟩ :=
  exists_pointerStep_of_poll (Prog.returns_simulate hsim)
    (Prog.forall_simulate (fun s e hs ↦ panelMachine_answers s g hs e) hgop)

/-- The position is (1200, 700) when the range becomes (800, 1280). -/
private theorem portraitRun : BroughtUp portraitDev ∧ ∃ steps,
    PointerRun ⟨portraitDev, ⟨true, some (1280, 800)⟩⟩ steps
      ⟨releasedDev, ⟨true, some (800, 1280)⟩⟩ ∧ ¬releasedDev.InRange := by
  have hbringUp : ((touchTryBringUp.run
      { dmi := ⟨List.replicate 32 0, asciiBytes "H7607BA" ++ List.replicate 25 0⟩ }).simulate
        panelMachine { descriptor := portraitDescriptor, gop := some (1280, 800) }).2
          = some (.success, portraitDev) := by decide +kernel
  have htouch : ((touchPoll.run portraitDev).simulate panelMachine
      { reports := [[8, 0, 1, 1, 100, 0, 0xB0, 0x04]], gop := some (1280, 800) }).2
        = some ((), touchedDev) := by decide +kernel
  have hrelease : ((touchPoll.run touchedDev).simulate panelMachine
      { reports := [[8, 0, 1, 0, 100, 0, 0xB0, 0x04]], gop := some (800, 1280) }).2
        = some ((), releasedDev) := by decide +kernel
  obtain ⟨_, hstep₁⟩ := exists_step_panelMachine rfl htouch
  obtain ⟨_, hstep₂⟩ := exists_step_panelMachine rfl hrelease
  exact ⟨⟨_, _, _, rfl, Prog.returns_simulate hbringUp, rfl⟩, _,
    .snoc (.snoc (.snoc .nil hstep₁) (.setScreen _)) hstep₂, by decide +kernel⟩

theorem not_inRange_of_release : ¬∀ desk₀ steps desk, BroughtUp desk₀.dev →
    PointerRun desk₀ steps desk → desk.dev.InRange := by
  intro h
  obtain ⟨hup, steps, hrun, hout⟩ := portraitRun
  exact hout (h _ _ _ hup hrun)

theorem pointerRun_inRange_iff_portrait :
    ∃ desk₀ steps desk, PointerRun desk₀ steps desk ∧ ∃ step ∈ steps, ¬KeepsRange step.1 step.2 := by
  obtain ⟨hup, steps, hrun, hout⟩ := portraitRun
  refine ⟨_, steps, _, hrun, ?_⟩
  by_contra hall
  refine hout ((pointerRun_inRange_iff hup hrun).mpr fun step hstep ↦ ?_).2
  by_contra hnot
  exact hall ⟨step, hstep, hnot⟩

end TouchI2c
