import TouchI2c.Bus.Rules
import TouchI2c.HidParse.Placement
import TouchI2c.Touch.Rules

/-!
# The footprint of the handlers

Once the panel is found, the driver touches nothing but the selected transport: the registers of the
controller at `I2cBase`, or the windows of the MediaTek instance, or nothing. This is shown here for
the rest of an attempt, for the poll timer and for the exit handler, together with what each of them
keeps.

## The input path

`TouchDev.InputPath` is what a success of the rest of an attempt leaves, and what every poll keeps:
`InputBuf` is as long as the longest report, whose length has passed its check, the fields of the
layout fit in one, and no range is zero. Under it a transfer never faults and the decoding of a
report stays inside the declared length, which is at most that of the longest report; so a decoded
position is within the logical maxima, whatever the panel sends.

## For any property

The results are stated for any property of the environment that the transfers keep; a footprint is
the case in which nothing has to be kept. A poll is its three parts: the recovery, which stays due
and ends the poll if it fails; the read, after whose failure a recovery is due unless the panel had
nothing to say; and the decoding, which asks the display and nothing else.
-/

namespace TouchI2c

open CMemory HidParse Interaction

variable {d : TouchDev} {P : UefiOp → Prop} {R : UInt64 → Prop}
  {σ : Type} {W : World Uefi σ} {J : σ → Prop} {s : σ}

/-- What the driver may touch in the state `d`; of a DesignWare controller the registers in `R`. -/
def TouchAccess (d : TouchDev) (R : UInt64 → Prop) (e : UefiOp) : Prop :=
  NoAccess e ∨ BusAccess d.bus d.i2cBase R e

/-! ## Decoding -/

/-- The length that a report declares. -/
def declaredLength (buf : List UInt8) : ℕ := (buf.getD 0 0).toNat ||| (buf.getD 1 0).toNat <<< 8

theorem extractLoop_ok {buf : List UInt8} {start bufLen : ℕ} (h : start + bufLen ≤ buf.length)
    (bitOffset : ℕ) {b n val : ℕ} :
    ∃ v, extractLoop buf start bufLen bitOffset b n val = .ok v := by
  induction n generalizing b val with
  | zero => exact ⟨val, rfl⟩
  | succ n ih =>
    rw [extractLoop]
    split
    · exact ⟨val, rfl⟩
    · rw [readAt_getElem (by omega), ok_bind]
      exact ih

theorem extractLoop_take {buf : List UInt8} {start bufLen k : ℕ} (h : start + bufLen ≤ k)
    (bitOffset : ℕ) {b n val : ℕ} :
    extractLoop (buf.take k) start bufLen bitOffset b n val
      = extractLoop buf start bufLen bitOffset b n val := by
  induction n generalizing b val with
  | zero => rfl
  | succ n ih =>
    rw [extractLoop, extractLoop]
    split
    · rfl
    · next hlt =>
      have hread : readAt (buf.take k) (start + (bitOffset + b) % u32 / 8)
          = readAt buf (start + (bitOffset + b) % u32 / 8) := by
        rw [readAt, readAt, List.getElem?_take_of_lt (by omega)]
      rw [hread]
      exact congrArg _ (funext fun byte ↦ ih)

theorem readAt_take {buf : List UInt8} {i k : ℕ} (h : i < k) :
    readAt (buf.take k) i = readAt buf i := by
  rw [readAt, readAt, List.getElem?_take_of_lt h]

/-- Where a payload lies: inside the declared length, which is at most the longest report's. -/
theorem reportPayload_ok {layout : HidTouchLayout} {maxInputLength : ℕ} {buf : List UInt8}
    (hmin : 3 ≤ maxInputLength) (hbuf : buf.length = maxInputLength) :
    ∃ r, reportPayload layout maxInputLength buf = .ok r ∧ ∀ payload payloadLen,
      r = some (payload, payloadLen) → payload + payloadLen = declaredLength buf ∧
        3 ≤ declaredLength buf ∧ declaredLength buf ≤ maxInputLength := by
  have h₀ : readAt buf 0 = .ok (buf.getD 0 0) := by
    rw [readAt_getElem (by omega), List.getD_eq_getElem]
  have h₁ : readAt buf 1 = .ok (buf.getD 1 0) := by
    rw [readAt_getElem (by omega), List.getD_eq_getElem]
  unfold reportPayload
  rw [h₀, ok_bind, h₁, ok_bind]
  change ∃ r, (if declaredLength buf < 3 ∨ maxInputLength < declaredLength buf then _ else _)
    = Except.ok r ∧ _
  split
  · exact ⟨none, rfl, fun _ _ h ↦ by contradiction⟩
  · next hlen =>
    split
    · rw [readAt_getElem (by omega), ok_bind]
      split
      · exact ⟨none, rfl, fun _ _ h ↦ by contradiction⟩
      · refine ⟨_, rfl, fun payload payloadLen h ↦ ?_⟩
        cases h
        change 3 + (declaredLength buf - 3) = _ ∧ _
        omega
    · refine ⟨_, rfl, fun payload payloadLen h ↦ ?_⟩
      cases h
      change 2 + (declaredLength buf - 2) = _ ∧ _
      omega

theorem hidExtractBits_ok {buf : List UInt8} {start bufLen : ℕ} (h : start + bufLen ≤ buf.length)
    (bitOffset bitCount : ℕ) : ∃ v, hidExtractBits buf start bufLen bitOffset bitCount = .ok v :=
  extractLoop_ok h bitOffset

/-- Decoding never faults, and a decoded position is within the logical maxima. -/
theorem decodeReport_ok {layout : HidTouchLayout} {maxInputLength : ℕ} {buf : List UInt8}
    (hmin : 3 ≤ maxInputLength) (hbuf : buf.length = maxInputLength) :
    ∃ r, decodeReport layout maxInputLength buf = .ok r ∧ ∀ tip x y, r = some (tip, x, y) →
      x ≤ layout.xLogicalMax ∧ y ≤ layout.yLogicalMax := by
  obtain ⟨r, hr, hin⟩ := @reportPayload_ok layout _ _ hmin hbuf
  rw [decodeReport, hr, ok_bind]
  cases r with
  | none => exact ⟨none, rfl, fun _ _ _ h ↦ by contradiction⟩
  | some r =>
    obtain ⟨payload, payloadLen⟩ := r
    obtain ⟨hend, -, hmax⟩ := hin payload payloadLen rfl
    have hle : payload + payloadLen ≤ buf.length := by omega
    obtain ⟨tip, htip⟩ := hidExtractBits_ok hle layout.tipBitOffset 1
    obtain ⟨x, hx⟩ := hidExtractBits_ok hle layout.xBitOffset layout.xBitSize
    obtain ⟨y, hy⟩ := hidExtractBits_ok hle layout.yBitOffset layout.yBitSize
    refine ⟨_, by dsimp only; rw [htip, ok_bind, hx, ok_bind, hy, ok_bind]; rfl, ?_⟩
    rintro _ _ _ ⟨⟩
    exact ⟨Nat.min_le_right _ _, Nat.min_le_right _ _⟩

/-- **Decoding reads only below the declared length**, and the two bytes that declare it: on the
buffer cut off there it does the same, without a fault. -/
theorem decodeReport_take {layout : HidTouchLayout} {maxInputLength : ℕ} {buf : List UInt8}
    (hmin : 3 ≤ maxInputLength) (hbuf : buf.length = maxInputLength) :
    decodeReport layout maxInputLength (buf.take (max 2 (declaredLength buf)))
      = decodeReport layout maxInputLength buf := by
  have htwo : 2 ≤ max 2 (declaredLength buf) := Nat.le_max_left _ _
  have hpayload : reportPayload layout maxInputLength (buf.take (max 2 (declaredLength buf)))
      = reportPayload layout maxInputLength buf := by
    unfold reportPayload
    rw [readAt_take (by omega), readAt_take (by omega), readAt_getElem (by omega), ok_bind,
      readAt_getElem (by omega), ok_bind, ok_bind, ok_bind]
    have hdeclared : buf[0].toNat ||| buf[1].toNat <<< 8 = declaredLength buf := by
      rw [declaredLength, List.getD_eq_getElem, List.getD_eq_getElem]
    dsimp only
    rw [hdeclared]
    split
    · rfl
    · next hlen => rw [readAt_take (by omega)]
  obtain ⟨r, hr, hin⟩ := @reportPayload_ok layout _ _ hmin hbuf
  rw [decodeReport, decodeReport, hpayload, hr, ok_bind, ok_bind]
  cases r with
  | none => rfl
  | some r =>
    obtain ⟨payload, payloadLen⟩ := r
    obtain ⟨hend, -, -⟩ := hin payload payloadLen rfl
    have hle : payload + payloadLen ≤ max 2 (declaredLength buf) := by omega
    dsimp only
    rw [hidExtractBits, hidExtractBits, hidExtractBits, extractLoop_take hle,
      extractLoop_take hle, extractLoop_take hle]
    rfl

/-! ## Orientation -/

/-- Whatever the GOP answers, one of the two orientations is published. -/
theorem wpS_touchUpdateOrientation (hJ : W.Keeps DisplayQuery J) (hs : J s) :
    W.wpS touchUpdateOrientation (fun _ d' s' ↦
      (∃ gop rotate, d' = TouchDev.orient rotate { d with gop := gop }) ∧ J s') d s := by
  have hlocate : W.wpS touchLocateGop
      (fun _ d' s' ↦ (∃ gop, d' = { d with gop := gop }) ∧ J s') d s := by
    rw [touchLocateGop, World.wpS_bind, World.wpS_get]
    split
    · exact ⟨⟨d.gop, rfl⟩, hs⟩
    · rw [World.wpS_bind, World.wpS_lift]
      exact hJ.perform trivial hs fun found s' hs' ↦ ⟨⟨found, rfl⟩, hs'⟩
  have hlandscape : W.wpS gopIsLandscape
      (fun _ d' s' ↦ (∃ gop, d' = { d with gop := gop }) ∧ J s') d s := by
    rw [gopIsLandscape, World.wpS_bind]
    refine World.wpS_mono hlocate fun found d₁ s₁ h₁ ↦ ?_
    split
    · rw [World.wpS_bind, World.wpS_lift]
      refine hJ.perform trivial h₁.2 fun resolution s₂ h₂ ↦ ?_
      cases resolution <;> exact ⟨h₁.1, h₂⟩
    · exact h₁
  have hrotation : W.wpS touchWantsRotation
      (fun _ d' s' ↦ (∃ gop, d' = { d with gop := gop }) ∧ J s') d s := by
    rw [touchWantsRotation, World.wpS_bind, World.wpS_get]
    split
    · exact hlandscape
    · exact ⟨⟨d.gop, rfl⟩, hs⟩
  rw [touchUpdateOrientation, World.wpS_bind]
  refine World.wpS_mono hrotation fun rotate d₁ s₁ h₁ ↦ ?_
  obtain ⟨⟨gop, rfl⟩, hs₁⟩ := h₁
  exact ⟨⟨gop, rotate, rfl⟩, hs₁⟩

theorem touchUpdateOrientation_within (hP : ∀ e, NoAccess e → P e) :
    (within P).world.wpS touchUpdateOrientation
      (fun _ d' _ ↦ ∃ gop rotate, d' = TouchDev.orient rotate { d with gop := gop }) d () :=
  World.wpS_mono (wpS_touchUpdateOrientation ((quietKeeps_within hP).panel.mono fun _ ↦
    DisplayQuery.panel) trivial) fun _ _ _ h ↦ h.1

/-! ## The input path -/

/-- The input path is set up: the buffer is as long as the longest report, the fields of the
layout fit in one, and no range is zero. -/
structure TouchDev.InputPath (d : TouchDev) : Prop where
  lower : 3 ≤ d.maxInputLength
  upper : d.maxInputLength ≤ 1024
  buffer : ∃ buf, d.inputBuf = some buf ∧ buf.bytes.length = d.maxInputLength
  fits : d.layout.FitsIn (payloadBits d.maxInputLength d.layout.hasReportId)
  xLogicalMax : d.layout.xLogicalMax ≠ 0
  yLogicalMax : d.layout.yLogicalMax ≠ 0
  absoluteMaxX : d.mode.absoluteMaxX ≠ 0
  absoluteMaxY : d.mode.absoluteMaxY ≠ 0

/-- Either orientation publishes ranges that are not zero. -/
theorem TouchDev.InputPath.orient (h : d.InputPath) (gop rotate : Bool) :
    (TouchDev.orient rotate { d with gop := gop }).InputPath := by
  have hx : (TouchDev.orient rotate { d with gop := gop }).mode.absoluteMaxX ≠ 0 := by
    cases rotate with
    | true => exact h.yLogicalMax
    | false => exact h.xLogicalMax
  have hy : (TouchDev.orient rotate { d with gop := gop }).mode.absoluteMaxY ≠ 0 := by
    cases rotate with
    | true => exact h.xLogicalMax
    | false => exact h.yLogicalMax
  exact { h with absoluteMaxX := hx, absoluteMaxY := hy }

/-! ## The poll timer -/

/-- What a poll does not touch. -/
def TouchDev.outsidePoll (d : TouchDev) : TouchDev :=
  { d with
    bus := {}
    mode := {}
    state := {}
    stateChanged := false
    lastTip := false
    needReinit := false
    rotateActive := false
    gop := false
    inputBuf := none }

/-- The allocation stays the same; its bytes may change. -/
def SameAllocation (buf buf' : Option PoolBuffer) : Prop :=
  buf'.map (fun b ↦ (b.address, b.bytes.length)) = buf.map fun b ↦ (b.address, b.bytes.length)

theorem SameAllocation.trans {b b' b'' : Option PoolBuffer} (h : SameAllocation b b')
    (h' : SameAllocation b' b'') : SameAllocation b b'' := Eq.trans h' h

/-- What a poll keeps. -/
structure PollPost (d d' : TouchDev) : Prop where
  frame : d'.outsidePoll = d.outsidePoll
  windows : SameWindows d.bus d'.bus
  buffer : SameAllocation d.inputBuf d'.inputBuf
  path : d'.InputPath

theorem PollPost.refl (h : d.InputPath) : PollPost d d := ⟨rfl, SameWindows.refl _, rfl, h⟩

theorem PollPost.trans {d' d'' : TouchDev} (h : PollPost d d') (h' : PollPost d' d'') :
    PollPost d d'' :=
  ⟨h'.frame.trans h.frame, h.windows.trans h'.windows, h.buffer.trans h'.buffer, h'.path⟩

theorem PollPost.access {d' : TouchDev} (h : PollPost d d') (R : UInt64 → Prop) :
    BusAccess d'.bus d'.i2cBase R = BusAccess d.bus d.i2cBase R := by
  have hbase : d'.i2cBase = d.i2cBase :=
    (congrArg TouchDev.i2cBase h.frame :)
  rw [hbase, h.windows.access]

/-- What a transfer leaves in the input buffer is as long as before. -/
private theorem sameAllocation_storeInput {buf : Option (List UInt8)}
    (h : SameSize (d.inputBuf.map (·.bytes)) buf) :
    SameAllocation d.inputBuf (d.storeInput buf).inputBuf := by
  unfold SameSize at h
  unfold SameAllocation TouchDev.storeInput
  cases hinput : d.inputBuf with
  | none => rfl
  | some b =>
    rw [hinput] at h
    cases buf with
    | none => rfl
    | some bytes =>
      have hlen : bytes.length = b.bytes.length := Option.some.inj h
      simp [hlen]

private theorem InputPath.storeInput (hd : d.InputPath) {d' : TouchDev}
    (hframe : d'.outsidePoll = d.outsidePoll) (hmode : d'.mode = d.mode)
    (hbuf : SameAllocation d.inputBuf d'.inputBuf) : d'.InputPath := by
  have hdesc : d'.hidDesc = d.hidDesc := (congrArg TouchDev.hidDesc hframe :)
  have hlayout : d'.layout = d.layout := (congrArg TouchDev.layout hframe :)
  have hmax : d'.maxInputLength = d.maxInputLength := by
    rw [TouchDev.maxInputLength, hdesc, TouchDev.maxInputLength]
  obtain ⟨b, hb, hlen⟩ := hd.buffer
  unfold SameAllocation at hbuf
  rw [hb] at hbuf
  obtain ⟨b', hb', heq⟩ := Option.map_eq_some_iff.mp hbuf
  have hlen' : b'.bytes.length = b.bytes.length := congrArg Prod.snd heq
  exact
    { lower := hmax ▸ hd.lower
      upper := hmax ▸ hd.upper
      buffer := ⟨b', hb', by rw [hlen', hlen, hmax]⟩
      fits := by rw [hmax, hlayout]; exact hd.fits
      xLogicalMax := hlayout ▸ hd.xLogicalMax
      yLogicalMax := hlayout ▸ hd.yLogicalMax
      absoluteMaxX := hmode ▸ hd.absoluteMaxX
      absoluteMaxY := hmode ▸ hd.absoluteMaxY }

/-- What a poll relies on: `J` is kept by transfers, and its argument says whether a recovery is
due. -/
structure PollRules (W : World Uefi σ) (J : Bool → σ → Prop) (bus : I2cBus) (base : UInt64)
    (slaveAddr : UInt8) : Prop extends RouteRules W (J false) bus base where
  due : ∀ {s}, J false s → J true s
  reinit : ∀ {bus' s}, SameWindows bus bus' → J true s →
    W.wpS (i2cBusReinit base slaveAddr) (fun status bus'' s' ↦
      SameWindows bus' bus'' ∧ if status.isError then J true s' else J false s') bus' s

/-- What the accesses of the selected transport keep is kept by a poll. -/
theorem pollRules_of_access {J : σ → Prop} {bus : I2cBus} {base : UInt64}
    (hquiet : W.Keeps PanelService J) (haccess : W.Keeps (BusAccess bus base IsDwOffset) J)
    (slaveAddr : UInt8) : PollRules W (fun _ ↦ J) bus base slaveAddr where
  quiet := hquiet
  xfer {bus' _ _ _ _ _} hbus hbuf hs := by
    refine haccess.wpS (i2cBusXfer_within (fun e he ↦ ?_) (fun _ ↦ isDwOffset_of_mem_xfer) hbuf) hs
    rwa [hbus.access] at he
  due := id
  reinit {bus' s} hbus hs := by
    refine World.wpS_mono (haccess.wpS (i2cBusReinit_within (R := IsDwOffset) (fun e he ↦ ?_)
      (fun _ h ↦ h) slaveAddr) hs) fun status bus'' s' h' ↦ ⟨h'.1, ?_⟩
    · rwa [hbus.access] at he
    · split <;> exact h'.2

theorem wpS_touchDecode (hJ : W.Keeps DisplayQuery J) (hd : d.InputPath) (hs : J s) :
    W.wpS touchDecode (fun _ d' s' ↦
      (PollPost d d' ∧ d'.needReinit = d.needReinit) ∧ J s') d s := by
  obtain ⟨b, hb, hlen⟩ := hd.buffer
  obtain ⟨r, hr, hin⟩ := @decodeReport_ok d.layout _ _ hd.lower hlen
  have hbytes : d.inputBytes = .ok b.bytes := by rw [TouchDev.inputBytes, hb]
  rw [touchDecode, World.wpS_bind, World.wpS_get, World.wpS_bind, World.wpS_liftChecked]
  refine ⟨b.bytes, hbytes, ?_⟩
  rw [World.wpS_bind, World.wpS_liftChecked]
  refine ⟨r, hr, ?_⟩
  cases r with
  | none => exact ⟨⟨PollPost.refl hd, rfl⟩, hs⟩
  | some r =>
    obtain ⟨tip, x, y⟩ := r
    obtain ⟨hx, -⟩ := hin tip x y rfl
    dsimp only
    rw [World.wpS_bind]
    refine World.wpS_mono (wpS_touchUpdateOrientation hJ hs) fun _ d₁ s₁ h₁ ↦ ?_
    obtain ⟨⟨gop, rotate, rfl⟩, hs₁⟩ := h₁
    have hrotated : ∃ xy, (TouchDev.orient rotate { d with gop := gop }).rotated x y = .ok xy := by
      unfold TouchDev.rotated
      split
      · change ∃ xy, (do return (y, ← subUnsigned d.layout.xLogicalMax x)) = _
        rw [subUnsigned_ok hx]
        exact ⟨_, rfl⟩
      · exact ⟨_, rfl⟩
    obtain ⟨⟨x', y'⟩, hxy⟩ := hrotated
    rw [World.wpS_bind, World.wpS_get, World.wpS_bind, World.wpS_liftChecked]
    refine ⟨(x', y'), hxy, ?_⟩
    have horient := hd.orient gop rotate
    unfold TouchDev.publish
    rw [World.wpS_modify]
    split
    · exact ⟨⟨⟨rfl, SameWindows.refl _, rfl, { horient with }⟩, rfl⟩, hs₁⟩
    · exact ⟨⟨⟨rfl, SameWindows.refl _, rfl, horient⟩, rfl⟩, hs₁⟩

namespace PollRules

variable {J : Bool → σ → Prop}

theorem post (rules : PollRules W J d.bus d.i2cBase d.slaveAddr) {d' : TouchDev}
    (h : PollPost d d') : PollRules W J d'.bus d'.i2cBase d'.slaveAddr := by
  have hbase : d'.i2cBase = d.i2cBase := (congrArg TouchDev.i2cBase h.frame :)
  have hslave : d'.slaveAddr = d.slaveAddr := (congrArg TouchDev.slaveAddr h.frame :)
  rw [hbase, hslave]
  exact ⟨rules.toRouteRules.windows h.windows, rules.due,
    fun hbus ↦ rules.reinit (h.windows.trans hbus)⟩

/-- The recovery. If it fails it stays due, and the poll ends. -/
theorem wpS_touchPollReinit (rules : PollRules W J d.bus d.i2cBase d.slaveAddr)
    (hd : d.InputPath) (hs : J d.needReinit s) :
    W.wpS touchPollReinit (fun goOn d' s' ↦ PollPost d d' ∧ J d'.needReinit s' ∧
      (goOn = true → d'.needReinit = false)) d s := by
  rw [touchPollReinit, World.wpS_bind, World.wpS_get]
  split
  · next hdue =>
    rw [hdue] at hs
    rw [World.wpS_bind, wpS_onBus]
    refine World.wpS_mono (rules.reinit (SameWindows.refl _) hs) fun status bus₁ s₁ h₁ ↦ ?_
    obtain ⟨hbus₁, hs₁⟩ := h₁
    have hpost₁ : PollPost d { d with bus := bus₁ } := ⟨rfl, hbus₁, rfl, { hd with }⟩
    split
    · next herr =>
      rw [if_pos herr] at hs₁
      refine ⟨hpost₁, ?_, fun h ↦ by contradiction⟩
      change J d.needReinit s₁
      rwa [hdue]
    · next hok =>
      rw [if_neg hok] at hs₁
      rw [World.wpS_bind, wpS_onBus]
      refine World.wpS_mono ((rules.post hpost₁).wpS_command _ _ _ hs₁) fun _ bus₂ s₂ h₂ ↦ ?_
      exact ⟨⟨rfl, hbus₁.trans h₂.1.windows, rfl, { hd with }⟩, h₂.2, fun _ ↦ rfl⟩
  · next hnot => exact ⟨PollPost.refl hd, hs, fun _ ↦ by simpa using hnot⟩

/-- The read of a report. If it fails a recovery is due, unless the panel had none. -/
theorem wpS_touchReceive (rules : PollRules W J d.bus d.i2cBase d.slaveAddr)
    (hd : d.InputPath) (hnot : d.needReinit = false) (hs : J false s) :
    W.wpS touchReceive (fun received d' s' ↦ PollPost d d' ∧ J d'.needReinit s' ∧
      (received = true → d'.needReinit = false)) d s := by
  obtain ⟨b, hb, hlen⟩ := hd.buffer
  rw [touchReceive, World.wpS_bind, World.wpS_get, World.wpS_bind, wpS_onBus]
  refine World.wpS_mono (rules.wpS_rawRead (by rw [hb]; exact hlen.ge) hs) fun r bus s₁ h ↦ ?_
  obtain ⟨status, buf⟩ := r
  obtain ⟨⟨hroute, hsize⟩, hs₁⟩ := h
  dsimp only at hsize ⊢
  have hstore := sameAllocation_storeInput (d := { d with bus := bus }) hsize
  have hpost : PollPost d (TouchDev.storeInput buf { d with bus := bus }) :=
    ⟨rfl, hroute.windows, hstore, InputPath.storeInput hd rfl rfl hstore⟩
  have hkept : J (TouchDev.storeInput buf { d with bus := bus }).needReinit s₁ := by
    change J d.needReinit s₁
    rwa [hnot]
  rw [World.wpS_bind, World.wpS_modify]
  split
  · exact ⟨hpost, hkept, fun h ↦ by contradiction⟩
  split
  · exact ⟨⟨hpost.frame, hpost.windows, hpost.buffer, { hpost.path with }⟩, rules.due hs₁,
      fun h ↦ by contradiction⟩
  · exact ⟨hpost, hkept, fun _ ↦ hnot⟩

/-- **One poll.** -/
theorem wpS_touchPoll (hrules : d.ready = true → PollRules W J d.bus d.i2cBase d.slaveAddr)
    (hd : d.ready = true → d.InputPath) (hs : J d.needReinit s) :
    W.wpS touchPoll (fun _ d' s' ↦
      (d' = d ∨ d.ready = true ∧ PollPost d d') ∧ J d'.needReinit s') d s := by
  rw [touchPoll, World.wpS_bind, World.wpS_get]
  split
  · next hready =>
    have hpath := hd hready
    have rules := hrules hready
    rw [World.wpS_bind]
    refine World.wpS_mono (rules.wpS_touchPollReinit hpath hs) fun goOn d₁ s₁ h₁ ↦ ?_
    obtain ⟨hpost₁, hs₁, hgoOn⟩ := h₁
    split
    · next hgo =>
      have hnot₁ := hgoOn hgo
      rw [hnot₁] at hs₁
      rw [World.wpS_bind]
      refine World.wpS_mono ((rules.post hpost₁).wpS_touchReceive hpost₁.path hnot₁ hs₁)
        fun received d₂ s₂ h₂ ↦ ?_
      obtain ⟨hpost₂, hs₂, hreceived⟩ := h₂
      split
      · next hgot =>
        rw [hreceived hgot] at hs₂
        refine World.wpS_mono (wpS_touchDecode (rules.quiet.mono fun _ ↦ DisplayQuery.panel)
          hpost₂.path hs₂) fun _ d₃ s₃ h₃ ↦ ?_
        obtain ⟨⟨hpost₃, hsame⟩, hs₃⟩ := h₃
        refine ⟨.inr ⟨hready, (hpost₁.trans hpost₂).trans hpost₃⟩, ?_⟩
        rwa [hsame, hreceived hgot]
      · exact ⟨.inr ⟨hready, hpost₁.trans hpost₂⟩, hs₂⟩
    · exact ⟨.inr ⟨hready, hpost₁⟩, hs₁⟩
  · exact ⟨.inl rfl, hs⟩

end PollRules

section

variable (hP : ∀ e, TouchAccess d IsDwOffset e → P e)

include hP

private theorem pollRules_within :
    PollRules (within P).world (fun _ _ ↦ True) d.bus d.i2cBase d.slaveAddr where
  toRouteRules := routeRules_within (fun e he ↦ hP e (.inl he.noAccess)) (fun e he ↦ hP e (.inr he))
    fun _ h ↦ isDwOffset_of_mem_xfer h
  due := id
  reinit {bus' _} hbus _ := by
    refine World.wpS_mono (i2cBusReinit_within (fun e he ↦ hP e (.inr ?_)) (fun _ h ↦ h) _)
      fun status _ _ h ↦ ⟨h, by split <;> exact trivial⟩
    rwa [hbus.access] at he

theorem touchPollReinit_within (hd : d.InputPath) :
    (within P).world.wpS touchPollReinit (fun _ d' _ ↦ PollPost d d') d () :=
  World.wpS_mono ((pollRules_within hP).wpS_touchPollReinit hd trivial) fun _ _ _ h ↦ h.1

/-- **The footprint of a poll**: it touches the selected transport only, and keeps the input
path. -/
theorem touchPoll_within (hd : d.ready = true → d.InputPath) :
    (within P).world.wpS touchPoll
      (fun _ d' _ ↦ d' = d ∨ d.ready = true ∧ PollPost d d') d () :=
  World.wpS_mono (PollRules.wpS_touchPoll (fun _ ↦ pollRules_within hP) hd trivial)
    fun _ _ _ h ↦ h.1

end

/-! ## Setting up a panel -/

/-- What the rest of an attempt does not touch once the panel is found. -/
def TouchDev.outsideSetUp (d : TouchDev) : TouchDev :=
  { d with
    bus := {}
    mode := {}
    ready := false
    layout := .zero
    inputBuf := none
    gop := false
    rotateActive := false }

/-- What the rest of an attempt keeps on the way. -/
structure SetUpFrame (d d' : TouchDev) : Prop where
  frame : d'.outsideSetUp = d.outsideSetUp
  windows : SameWindows d.bus d'.bus
  ready : d'.ready = d.ready

theorem SetUpFrame.refl (d : TouchDev) : SetUpFrame d d := ⟨rfl, SameWindows.refl _, rfl⟩

theorem SetUpFrame.trans {d d' d'' : TouchDev} (h : SetUpFrame d d') (h' : SetUpFrame d' d'') :
    SetUpFrame d d'' :=
  ⟨h'.frame.trans h.frame, h.windows.trans h'.windows, h'.ready.trans h.ready⟩

theorem SetUpFrame.access {d d' : TouchDev} (h : SetUpFrame d d') (R : UInt64 → Prop) :
    BusAccess d'.bus d'.i2cBase R = BusAccess d.bus d.i2cBase R := by
  have hbase : d'.i2cBase = d.i2cBase := (congrArg TouchDev.i2cBase h.frame :)
  rw [hbase, h.windows.access]

theorem SetUpFrame.maxInputLength {d d' : TouchDev} (h : SetUpFrame d d') :
    d'.maxInputLength = d.maxInputLength := by
  have hdesc : d'.hidDesc = d.hidDesc := (congrArg TouchDev.hidDesc h.frame :)
  rw [TouchDev.maxInputLength, hdesc, TouchDev.maxInputLength]

/-- How an attempt ends. -/
structure SetUpPost (d : TouchDev) (status : EfiStatus) (d' : TouchDev) : Prop where
  frame : d'.outsideSetUp = d.outsideSetUp
  windows : SameWindows d.bus d'.bus
  success : status.isError = false → d'.ready = true ∧ d'.InputPath
  failure : status.isError = true → d'.ready = d.ready

theorem SetUpFrame.fail {d d' : TouchDev} (h : SetUpFrame d d') {status : EfiStatus}
    (hstatus : status.isError = true) : SetUpPost d status d' :=
  ⟨h.frame, h.windows, fun h ↦ absurd hstatus (by rw [h]; decide), fun _ ↦ h.ready⟩

/-- The lengths that the checks of the descriptor allow. -/
theorem I2cHidDescriptor.lengths_of_valid {desc : I2cHidDescriptor} (h : desc.valid = true) :
    3 ≤ desc.wMaxInputLength.toNat ∧ desc.wMaxInputLength.toNat ≤ 1024 := by
  simp only [I2cHidDescriptor.valid, Bool.and_eq_true, decide_eq_true_eq,
    UInt16.le_iff_toNat_le] at h
  exact ⟨h.1.2, h.2⟩

theorem nonzeroMax_ne_zero (logicalMax : ℕ) : nonzeroMax logicalMax ≠ 0 := by
  unfold nonzeroMax
  split
  · decide
  · assumption

theorem SetUpFrame.rules {d d' : TouchDev} (rules : RouteRules W J d.bus d.i2cBase)
    (h : SetUpFrame d d') : RouteRules W J d'.bus d'.i2cBase := by
  have hbase : d'.i2cBase = d.i2cBase := (congrArg TouchDev.i2cBase h.frame :)
  rw [hbase]
  exact rules.windows h.windows

/-- Pool memory. -/
def PoolService : UefiOp → Prop
  | .allocatePool _ | .freePool _ => True
  | _ => False

theorem PoolService.service {e : UefiOp} (h : PoolService e) : DriverService e := by
  cases e <;> first | exact h | exact trivial

theorem wp_allocateZeroPool (hJ : W.Keeps PoolService J) (size : ℕ) (hs : J s) :
    W.wp (allocateZeroPool size)
      (fun buf s' ↦ (∀ b, buf = some b → b.bytes.length = size) ∧ J s') s := by
  rw [allocateZeroPool, World.wp_bind]
  refine hJ.perform trivial hs fun address s' hs' ↦ ?_
  cases address with
  | none => exact ⟨fun b h ↦ by contradiction, hs'⟩
  | some address =>
    refine ⟨?_, hs'⟩
    rintro b ⟨⟩
    exact List.length_replicate

theorem fixGoodixDescriptor_ok {hidDesc : I2cHidDescriptor} {desc : List UInt8}
    (hlen : desc.length = hidDesc.wReportDescLength.toNat) :
    ∃ desc', fixGoodixDescriptor hidDesc desc = .ok desc' := by
  unfold fixGoodixDescriptor
  split
  · next h =>
    have hlt : 607 < desc.length := by
      rw [hlen]
      have h608 := UInt16.lt_iff_toNat_lt.mp h.2
      exact lt_trans (by decide) h608
    rw [readAt_getElem hlt, ok_bind]
    split
    · exact ⟨_, writeAt_ok _ hlt⟩
    · exact ⟨_, rfl⟩
  · exact ⟨_, rfl⟩

theorem wpS_touchReadLayout (hJ : W.Keeps PoolService J) (rules : RouteRules W J d.bus d.i2cBase)
    {reportDesc : PoolBuffer}
    (hdesc : reportDesc.bytes.length = d.hidDesc.wReportDescLength.toNat) (hs : J s) :
    W.wpS (touchReadLayout reportDesc) (fun status d' s' ↦ (SetUpFrame d d' ∧
      (status.isError = false →
        d'.layout.FitsIn (payloadBits d.maxInputLength d'.layout.hasReportId))) ∧ J s') d s := by
  have hfree : ∀ {d₁ : TouchDev} {Q : EfiStatus → TouchDev → σ → Prop} {status : EfiStatus} {s₁},
      J s₁ → (∀ s₂, J s₂ → Q status d₁ s₂) → W.wpS
        (do uefi (.freePool reportDesc.address); return status : Touch EfiStatus) Q d₁ s₁ := by
    intro d₁ Q status s₁ hs₁ h
    rw [World.wpS_bind, World.wpS_lift]
    exact hJ.perform trivial hs₁ fun _ s₂ hs₂ ↦ h s₂ hs₂
  rw [touchReadLayout, World.wpS_bind, World.wpS_get, World.wpS_bind, wpS_onBus]
  refine World.wpS_mono (rules.wpS_readRegister _ hdesc.ge hs) fun r bus s₁ h ↦ ?_
  obtain ⟨status, buf⟩ := r
  obtain ⟨⟨hroute, hsize⟩, hs₁⟩ := h
  dsimp only at hsize ⊢
  have hframe : SetUpFrame d { d with bus := bus } := ⟨rfl, hroute.windows, rfl⟩
  split
  · next herr =>
    exact hfree hs₁ fun s₂ hs₂ ↦ ⟨⟨hframe, fun h ↦ absurd herr (by rw [h]; decide)⟩, hs₂⟩
  · have hlen : (buf.getD reportDesc.bytes).length = d.hidDesc.wReportDescLength.toNat := by
      cases buf with
      | none => exact hdesc
      | some bytes => exact (Option.some.inj hsize).trans hdesc
    obtain ⟨desc, hdesc⟩ := fixGoodixDescriptor_ok hlen
    obtain ⟨status, layout, hparse⟩ := hidParseTouchLayout_ok desc d.maxInputLength d.layout
    rw [World.wpS_bind, World.wpS_liftChecked]
    refine ⟨desc, hdesc, ?_⟩
    rw [World.wpS_bind, World.wpS_liftChecked]
    refine ⟨(status, layout), hparse, ?_⟩
    rw [World.wpS_bind, World.wpS_modify]
    refine hfree hs₁ fun s₂ hs₂ ↦ ⟨⟨⟨rfl, hroute.windows, rfl⟩, fun h ↦ ?_⟩, hs₂⟩
    have hsuccess := eq_success_of_hidParseTouchLayout hparse h
    subst hsuccess
    exact (fitsIn_of_hidParseTouchLayout hparse).2

theorem wpS_touchAllocateInput (hJ : W.Keeps PoolService J) (hs : J s) :
    W.wpS touchAllocateInput (fun ok d' s' ↦
      (∃ buf, d' = { d with inputBuf := buf } ∧
        (ok = true → ∃ b, buf = some b ∧ b.bytes.length = d.maxInputLength)) ∧ J s') d s := by
  have hfree : W.wp (freeBuffer d.inputBuf) (fun _ s' ↦ J s') s := by
    unfold freeBuffer
    split
    · exact hs
    · exact hJ _ _ trivial hs
  rw [touchAllocateInput, World.wpS_bind, World.wpS_get, World.wpS_bind, World.wpS_lift]
  refine World.wp_mono hfree fun _ s₁ hs₁ ↦ ?_
  rw [World.wpS_bind, World.wpS_lift]
  refine World.wp_mono (wp_allocateZeroPool hJ _ hs₁) fun buf s₂ h₂ ↦ ?_
  obtain ⟨hbuf, hs₂⟩ := h₂
  refine ⟨⟨buf, rfl, fun hsome ↦ ?_⟩, hs₂⟩
  obtain ⟨b, rfl⟩ := Option.isSome_iff_exists.mp hsome
  exact ⟨b, rfl, hbuf b rfl⟩

private theorem wpS_awaitResetAck {base : UInt64} {n : ℕ} {ack : List UInt8}
    (hack : ack.length = 2) {bus : I2cBus} (rules : RouteRules W J bus base) (hs : J s) :
    W.wpS (awaitResetAck base n ack) (fun _ bus' s' ↦ SameWindows bus bus' ∧ J s') bus s := by
  induction n generalizing ack bus s with
  | zero => exact ⟨SameWindows.refl bus, hs⟩
  | succ n ih =>
    rw [awaitResetAck, World.wpS_bind]
    refine World.wpS_mono (rules.wpS_rawRead hack.ge hs) fun r bus₁ s₁ h₁ ↦ ?_
    obtain ⟨status, buf⟩ := r
    obtain ⟨⟨hroute, hsize⟩, hs₁⟩ := h₁
    dsimp only at hsize ⊢
    have hlen : (buf.getD ack).length = 2 := by
      cases buf with
      | none => exact hack
      | some bytes => exact (Option.some.inj hsize).trans hack
    split
    · exact ⟨hroute.windows, hs₁⟩
    · rw [World.wpS_bind, World.wpS_lift]
      refine rules.quiet.perform trivial hs₁ fun _ s₂ hs₂ ↦ ?_
      exact World.wpS_mono (ih hlen (rules.windows hroute.windows) hs₂) fun _ _ _ h ↦
        ⟨hroute.windows.trans h.1, h.2⟩

theorem wpS_touchBringUp (rules : RouteRules W J d.bus d.i2cBase) (hs : J s) :
    W.wpS touchBringUp (fun _ d' s' ↦
      (∃ bus, SameWindows d.bus bus ∧ d' = { d with bus := bus }) ∧ J s') d s := by
  rw [touchBringUp, World.wpS_bind, World.wpS_get, World.wpS_bind, wpS_onBus]
  refine World.wpS_mono (rules.wpS_command _ _ _ hs) fun _ bus₁ s₁ h₁ ↦ ?_
  obtain ⟨hroute₁, hs₁⟩ := h₁
  rw [World.wpS_bind, World.wpS_lift]
  refine rules.quiet.perform trivial hs₁ fun _ s₂ hs₂ ↦ ?_
  rw [World.wpS_bind, wpS_onBus]
  refine World.wpS_mono ((rules.windows hroute₁.windows).wpS_command _ _ _ hs₂)
    fun status bus₂ s₃ h₃ ↦ ?_
  obtain ⟨hroute₂, hs₃⟩ := h₃
  have hbus₂ := hroute₁.windows.trans hroute₂.windows
  split
  · exact ⟨⟨bus₂, hbus₂, rfl⟩, hs₃⟩
  · rw [wpS_onBus]
    exact World.wpS_mono (wpS_awaitResetAck rfl (rules.windows hbus₂) hs₃) fun _ bus₃ _ h₄ ↦
      ⟨⟨bus₃, hbus₂.trans h₄.1, rfl⟩, h₄.2⟩

private theorem wpS_touchOpenInput (hJ : W.Keeps DriverService J) {d₁ : TouchDev}
    (hframe : SetUpFrame d d₁) (hpath : d₁.InputPath) (hready : d.ready = false) (hs : J s) :
    W.wpS touchOpenInput (fun status d' s' ↦ SetUpPost d status d' ∧ J s') d₁ s := by
  rw [touchOpenInput, World.wpS_bind, World.wpS_modify, World.wpS_bind, World.wpS_get,
    World.wpS_bind, World.wpS_lift]
  refine hJ.perform trivial hs fun status s₁ hs₁ ↦ ?_
  split
  · next herr =>
    rw [World.wpS_bind, World.wpS_modify]
    exact ⟨⟨hframe.frame, hframe.windows, fun h ↦ absurd herr (by rw [h]; decide),
      fun _ ↦ hready.symm⟩, hs₁⟩
  · exact ⟨⟨hframe.frame, hframe.windows, fun _ ↦ ⟨rfl, { hpath with }⟩,
      fun h ↦ by contradiction⟩, hs₁⟩

private theorem wpS_touchStart (hJ : W.Keeps DriverService J) (rules : RouteRules W J d.bus d.i2cBase)
    {d₁ : TouchDev} (hframe : SetUpFrame d d₁) (hvalid : d.hidDesc.valid = true)
    (hready : d.ready = false)
    (hfits : d₁.layout.FitsIn (payloadBits d.maxInputLength d₁.layout.hasReportId)) (hs : J s) :
    W.wpS touchStart (fun status d' s' ↦ SetUpPost d status d' ∧ J s') d₁ s := by
  obtain ⟨hlower, hupper⟩ := I2cHidDescriptor.lengths_of_valid hvalid
  have hmax := hframe.maxInputLength
  rw [touchStart, World.wpS_bind, World.wpS_modify, World.wpS_bind]
  refine World.wpS_mono (wpS_touchAllocateInput (hJ.mono fun _ ↦ PoolService.service) hs)
    fun ok d₃ s₃ h₃ ↦ ?_
  obtain ⟨⟨buf, rfl, hbuf⟩, hs₃⟩ := h₃
  have hframe₃ : SetUpFrame d { d₁ with layout := fixMaxima d₁.layout, inputBuf := buf } :=
    ⟨hframe.frame, hframe.windows, hframe.ready⟩
  split
  · next hok =>
    obtain ⟨b, rfl, hlen⟩ := hbuf hok
    rw [World.wpS_bind]
    refine World.wpS_mono (wpS_touchBringUp (hframe₃.rules rules) hs₃) fun _ d₄ s₄ h₄ ↦ ?_
    obtain ⟨⟨bus, hbus, rfl⟩, hs₄⟩ := h₄
    rw [World.wpS_bind]
    refine World.wpS_mono (wpS_touchUpdateOrientation (rules.quiet.mono fun _ ↦
      DisplayQuery.panel) hs₄) fun _ d₅ s₅ h₅ ↦ ?_
    obtain ⟨⟨gop, rotate, rfl⟩, hs₅⟩ := h₅
    refine wpS_touchOpenInput hJ ⟨hframe.frame, hframe.windows.trans hbus, hframe.ready⟩
      ?_ hready hs₅
    -- both orientations publish the maxima of the layout
    have hx := nonzeroMax_ne_zero d₁.layout.xLogicalMax
    have hy := nonzeroMax_ne_zero d₁.layout.yLogicalMax
    exact
      { lower := hlower.trans hmax.ge
        upper := hmax.le.trans hupper
        buffer := ⟨b, rfl, hlen⟩
        fits := by
          change HidTouchLayout.FitsIn _ (payloadBits d₁.maxInputLength _)
          rw [hmax]
          exact { hfits with }
        xLogicalMax := hx
        yLogicalMax := hy
        absoluteMaxX := by cases rotate <;> assumption
        absoluteMaxY := by cases rotate <;> assumption }
  · exact ⟨hframe₃.fail rfl, hs₃⟩

/-- **The rest of an attempt.** Once the panel is found it uses the selected transport only, and a
success leaves a complete input path. -/
theorem wpS_touchSetUp (rules : PanelRules W J d.bus d.i2cBase)
    (hvalid : d.hidDesc.valid = true) (hready : d.ready = false) (hs : J s) :
    W.wpS touchSetUp (fun status d' s' ↦ SetUpPost d status d' ∧ J s') d s := by
  rw [touchSetUp, World.wpS_bind, World.wpS_get, World.wpS_bind, World.wpS_lift]
  have hpool : W.Keeps PoolService J := rules.service.mono fun _ ↦ PoolService.service
  refine World.wp_mono (wp_allocateZeroPool hpool _ hs) fun buf s₁ h₁ ↦ ?_
  obtain ⟨hbuf, hs₁⟩ := h₁
  cases buf with
  | none => exact ⟨(SetUpFrame.refl d).fail rfl, hs₁⟩
  | some reportDesc =>
    dsimp only
    rw [World.wpS_bind]
    refine World.wpS_mono (wpS_touchReadLayout hpool rules.toRouteRules (hbuf reportDesc rfl) hs₁)
      fun status d₁ s₂ h₂ ↦ ?_
    obtain ⟨⟨hframe, hfits⟩, hs₂⟩ := h₂
    split
    · next herr => exact ⟨hframe.fail herr, hs₂⟩
    · next hok =>
      exact wpS_touchStart rules.service rules.toRouteRules hframe hvalid hready
        (hfits (by simpa using hok)) hs₂

theorem touchSetUp_within (hP : ∀ e, TouchAccess d (· ∈ xferOffsets) e → P e)
    (hvalid : d.hidDesc.valid = true) (hready : d.ready = false) :
    (within P).world.wpS touchSetUp (fun status d' _ ↦ SetUpPost d status d') d () :=
  have hroute : RouteRules (within P).world (fun _ ↦ True) d.bus d.i2cBase :=
    routeRules_within (fun e he ↦ hP e (.inl he.noAccess)) (fun e he ↦ hP e (.inr he)) fun _ h ↦ h
  World.wpS_mono (wpS_touchSetUp
    ⟨hroute, (quietKeeps_within fun e he ↦ hP e (.inl he)).service⟩ hvalid hready trivial)
    fun _ _ _ h ↦ h.1

/-! ## The other handlers -/

theorem wp_cancelTimerOf (hJ : W.Keeps DriverService J) (e : TouchEvent) (present : Bool) (hs : J s) :
    W.wp (cancelTimerOf e present) (fun _ s' ↦ J s') s := by
  unfold cancelTimerOf
  split
  · rw [World.wp_bind]
    exact hJ.perform trivial hs fun _ _ hs' ↦ hs'
  · exact hs

theorem cancelTimerOf_within (hP : ∀ e, NoAccess e → P e) (e : TouchEvent) (present : Bool) :
    (cancelTimerOf e present).Within P fun _ ↦ True :=
  wp_cancelTimerOf (quietKeeps_within hP).service e present trivial

/-- The exit handler disables the controller of a live panel. -/
theorem wpS_touchExitBootServices {Q : TouchDev → σ → Prop} (hJ : W.Keeps DriverService J) (hs : J s)
    (hlive : d.ready = true → ∀ s, J s →
      W.wpS (i2cBusDisable d.i2cBase) (fun _ bus s' ↦ Q { d with bus := bus } s') d.bus s)
    (hdead : d.ready = false → ∀ s, J s → Q d s) :
    W.wpS touchExitBootServices (fun _ d' s' ↦ Q d' s') d s := by
  rw [touchExitBootServices, World.wpS_bind, World.wpS_get, World.wpS_bind, World.wpS_lift]
  refine World.wp_mono (wp_cancelTimerOf hJ _ _ hs) fun _ s₁ hs₁ ↦ ?_
  rw [World.wpS_bind, World.wpS_lift]
  refine World.wp_mono (wp_cancelTimerOf hJ _ _ hs₁) fun _ s₂ hs₂ ↦ ?_
  split
  · next hready =>
    rw [wpS_onBus]
    exact hlive hready s₂ hs₂
  · next hnot => exact hdead (by simpa using hnot) s₂ hs₂

theorem touchExitBootServices_within (hP : ∀ e, NoAccess e → P e)
    (hbus : d.ready = true → ∀ e, BusAccess d.bus d.i2cBase (· ∈ disableOffsets) e → P e) :
    (within P).world.wpS touchExitBootServices
      (fun _ d' _ ↦ ∃ bus, SameWindows d.bus bus ∧ d' = { d with bus := bus }) d () := by
  refine wpS_touchExitBootServices (Q := fun d' _ ↦ ∃ bus, SameWindows d.bus bus ∧
    d' = { d with bus := bus }) (quietKeeps_within hP).service trivial (fun hready _ _ ↦ ?_)
    fun _ _ _ ↦ ?_
  · exact World.wpS_mono (i2cBusDisable_within (hbus hready) fun _ h ↦ h)
      fun _ bus _ h ↦ ⟨bus, h, rfl⟩
  · exact ⟨d.bus, SameWindows.refl _, rfl⟩

/-- What the handlers that do not poll ask for. -/
def PointerService : UefiOp → Prop
  | .raiseTpl | .restoreTpl | .signalEvent .waitForInput => True
  | _ => False

theorem PointerService.service {e : UefiOp} (h : PointerService e) : DriverService e := by
  cases e <;> first | exact h.elim | exact trivial

private theorem pointerKeeps_within (hP : ∀ e, PointerService e → P e) :
    (within (I := Uefi) P).world.Keeps PointerService fun _ ↦ True :=
  fun e _ he _ ↦ wp_uefi.mpr ⟨hP e he, fun _ ↦ trivial⟩

theorem wpS_touchReset (hJ : W.Keeps PointerService J) (extendedVerification : Bool) (hs : J s) :
    W.wpS (touchReset extendedVerification)
      (fun _ d' s' ↦ d' = d.reset extendedVerification ∧ J s') d s := by
  rw [touchReset, World.wpS_bind, World.wpS_lift]
  refine hJ.perform trivial hs fun _ s₁ hs₁ ↦ ?_
  rw [World.wpS_bind, World.wpS_modify, World.wpS_bind, World.wpS_lift]
  exact hJ.perform trivial hs₁ fun _ s₂ hs₂ ↦ ⟨rfl, hs₂⟩

theorem touchReset_within (hP : ∀ e, PointerService e → P e) (extendedVerification : Bool) :
    (within P).world.wpS (touchReset extendedVerification)
      (fun _ d' _ ↦ d' = d.reset extendedVerification) d () :=
  World.wpS_mono (wpS_touchReset (pointerKeeps_within hP) _ trivial) fun _ _ _ h ↦ h.1

theorem wpS_touchGetState (hJ : W.Keeps PointerService J) (hasState : Bool) (hs : J s) :
    W.wpS (touchGetState hasState) (fun _ d' s' ↦ (d' = d ∨
      d.ready = true ∧ d' = { d with stateChanged := false }) ∧ J s') d s := by
  rw [touchGetState]
  split
  · exact ⟨.inl rfl, hs⟩
  · rw [World.wpS_bind, World.wpS_lift]
    refine hJ.perform trivial hs fun _ s₁ hs₁ ↦ ?_
    rw [World.wpS_bind, World.wpS_get]
    split
    · rw [World.wpS_bind, World.wpS_lift]
      exact hJ.perform trivial hs₁ fun _ s₂ hs₂ ↦ ⟨.inl rfl, hs₂⟩
    · next hready =>
      rw [World.wpS_bind, World.wpS_set, World.wpS_bind, World.wpS_lift]
      refine hJ.perform trivial hs₁ fun _ s₂ hs₂ ↦ ⟨.inr ⟨?_, rfl⟩, hs₂⟩
      simp only [Bool.or_eq_true, Bool.not_eq_true', not_or, Bool.not_eq_false] at hready
      exact hready.1

theorem touchGetState_within (hP : ∀ e, PointerService e → P e) (hasState : Bool) :
    (within P).world.wpS (touchGetState hasState) (fun _ d' _ ↦ d' = d ∨
      d.ready = true ∧ d' = { d with stateChanged := false }) d () :=
  World.wpS_mono (wpS_touchGetState (pointerKeeps_within hP) hasState trivial) fun _ _ _ h ↦ h.1

theorem wpS_touchWaitForInput (hJ : W.Keeps PointerService J) (hs : J s) :
    W.wpS touchWaitForInput (fun _ d' s' ↦ d' = d ∧ J s') d s := by
  rw [touchWaitForInput, World.wpS_bind, World.wpS_get]
  split
  · rw [World.wpS_bind, World.wpS_lift]
    exact hJ.perform trivial hs fun _ _ hs' ↦ ⟨rfl, hs'⟩
  · exact ⟨rfl, hs⟩

theorem touchWaitForInput_within (hP : ∀ e, PointerService e → P e) :
    (within P).world.wpS touchWaitForInput (fun _ d' _ ↦ d' = d) d () :=
  World.wpS_mono (wpS_touchWaitForInput (pointerKeeps_within hP) trivial) fun _ _ _ h ↦ h.1

end TouchI2c
