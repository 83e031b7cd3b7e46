import TouchI2c.Touch.Ready

/-!
# From the report to the pointer

The bitwise extraction of the code reads a bit field of the payload, so what is written to the three
fields of an input report comes back: a poll decodes the tip and the clamped position, and publishes
the position in the frame of the orientation.

## The round trip

One pass of `HidExtractBits` isolates one bit of the payload, and the loop accumulates the field bit
by bit, so extraction is `readBits` of the field if the field lies inside the payload. The payload
of a report starts behind its length bytes and its report ID. The fields of a layout that fits lie
apart, so they can be written to any payload, and each is read back: that is the frame rule of bit
fields, and all that is used of them.

## The poll

Decoding is total on a report that has been received, on any display. So the poll is not only right
if it ends: from a run of its read with the bytes of the report there is a run of the whole poll
(`touchPoll_reaches`), and in every such run a touch is published.
-/

namespace TouchI2c

open BitField CMemory HidParse Interaction

/-! ## Extraction -/

/-- The part of a buffer that is the payload. -/
def payloadBytes (buf : List UInt8) (start bufLen : ℕ) : List UInt8 := (buf.drop start).take bufLen

/-- The bit that one pass of `HidExtractBits` isolates. -/
theorem extractedBit (n i : ℕ) : (n >>> (i &&& 7)) &&& 1 = (n.testBit (i % 8)).toNat := by
  have hmod : i &&& 7 = i % 8 := Nat.and_two_pow_sub_one_eq_mod i 3
  rw [hmod, Nat.toNat_testBit, Nat.and_one_is_mod, Nat.shiftRight_eq_div_pow]

theorem getD_payloadBytes {buf : List UInt8} {start bufLen i : ℕ} (hi : i < bufLen) :
    (payloadBytes buf start bufLen).getD i 0 = buf.getD (start + i) 0 := by
  rw [payloadBytes, List.getD_eq_getElem?_getD, List.getD_eq_getElem?_getD,
    List.getElem?_take_of_lt hi, List.getElem?_drop]

theorem extractLoop_eq {buf : List UInt8} {start bufLen off b n : ℕ}
    (hbuf : start + bufLen ≤ buf.length) (hfit : off + (b + n) ≤ 8 * bufLen)
    (hword : 8 * bufLen ≤ u32) :
    extractLoop buf start bufLen off b n (readBits (payloadBytes buf start bufLen) off b)
      = .ok (readBits (payloadBytes buf start bufLen) off (b + n)) := by
  induction n generalizing b with
  | zero => rfl
  | succ n ih =>
    have hbit : (off + b) % u32 = off + b := Nat.mod_eq_of_lt (by omega)
    have hbyte : (off + b) / 8 < bufLen := by omega
    rw [extractLoop]
    simp only [hbit]
    rw [if_neg (by omega), readAt_getElem (by omega), ok_bind, extractedBit]
    have hacc : readBits (payloadBytes buf start bufLen) off b |||
        (buf[start + (off + b) / 8].toNat.testBit ((off + b) % 8)).toNat <<< b
          = readBits (payloadBytes buf start bufLen) off (b + 1) := by
      rw [readBits, bitAt, getD_payloadBytes hbyte, List.getD_eq_getElem _ _ (by omega)]
    rw [hacc, ih (by omega), Nat.add_right_comm, Nat.add_assoc]

/-- **Extraction reads a bit field** of the payload, if the field lies inside it. -/
theorem hidExtractBits_eq {buf : List UInt8} {start bufLen off n : ℕ}
    (hbuf : start + bufLen ≤ buf.length) (hfit : off + n ≤ 8 * bufLen) (hn : n ≤ 32)
    (hword : 8 * bufLen ≤ u32) :
    hidExtractBits buf start bufLen off n
      = .ok (readBits (payloadBytes buf start bufLen) off n) := by
  rw [hidExtractBits, if_neg (by omega)]
  simpa [readBits] using extractLoop_eq (b := 0) hbuf (by omega) hword

/-! ## Reports -/

/-- The three fields lie inside a payload of `n` bits, and fit in an extracted word. -/
structure Covers (l : HidTouchLayout) (n : ℕ) : Prop where
  tip : l.tipBitOffset < n
  x : l.xBitOffset + l.xBitSize ≤ n
  y : l.yBitOffset + l.yBitSize ≤ n
  xBitSize : l.xBitSize ≤ 32
  yBitSize : l.yBitSize ≤ 32

/-- The bytes before the payload. -/
def headerLength (l : HidTouchLayout) : ℕ := if l.hasReportId then 3 else 2

/-- An input report: its length, its report ID if there is one, and the payload. -/
def inputReport (l : HidTouchLayout) (payload : List UInt8) : List UInt8 :=
  [UInt8.ofNat (headerLength l + payload.length),
    UInt8.ofNat ((headerLength l + payload.length) / 256)] ++
  (if l.hasReportId then [l.reportId] else []) ++ payload

/-- A payload with the three fields written to it, one bit after the other. -/
def withFields (l : HidTouchLayout) (tip : Bool) (x y : ℕ) (payload : List UInt8) : List UInt8 :=
  writeBits (writeBits (writeBits payload l.tipBitOffset 1 tip.toNat) l.xBitOffset l.xBitSize x)
    l.yBitOffset l.yBitSize y

/-- The three fields of a payload, as the code extracts them. -/
def extractFields (l : HidTouchLayout) (payload : List UInt8) : Checked (ℕ × ℕ × ℕ) := do
  let tip ← hidExtractBits payload 0 payload.length l.tipBitOffset 1
  let x ← hidExtractBits payload 0 payload.length l.xBitOffset l.xBitSize
  let y ← hidExtractBits payload 0 payload.length l.yBitOffset l.yBitSize
  return (tip, x, y)

section

variable {l : HidTouchLayout} {payload pad : List UInt8} {maxInputLength : ℕ}

theorem extractFields_eq (h : Covers l (8 * payload.length)) (hword : 8 * payload.length ≤ u32) :
    extractFields l payload = .ok (readBits payload l.tipBitOffset 1,
      readBits payload l.xBitOffset l.xBitSize, readBits payload l.yBitOffset l.yBitSize) := by
  have hpayload : payloadBytes payload 0 payload.length = payload := by
    rw [payloadBytes, List.drop_zero, List.take_length]
  have htip := h.tip
  unfold extractFields
  rw [hidExtractBits_eq (by omega) (by omega) (by decide) hword, ok_bind,
    hidExtractBits_eq (by omega) h.x h.xBitSize hword, ok_bind,
    hidExtractBits_eq (by omega) h.y h.yBitSize hword, ok_bind, hpayload]
  rfl

theorem lengthBytes {n : ℕ} (hn : n < 65536) :
    (UInt8.ofNat n).toNat ||| (UInt8.ofNat (n / 256)).toNat <<< 8 = n := by
  rw [UInt8.toNat_ofNat', UInt8.toNat_ofNat', Nat.mod_eq_of_lt (a := n / 256) (by omega),
    Nat.or_comm, ← Nat.shiftLeft_add_eq_or_of_lt (by omega), Nat.shiftLeft_eq]
  omega

theorem reportPayload_inputReport (hpayload : 0 < payload.length)
    (hmax : headerLength l + payload.length ≤ maxInputLength) (hmax16 : maxInputLength < 65536) :
    reportPayload l maxInputLength (inputReport l payload ++ pad)
      = .ok (some (headerLength l, payload.length)) := by
  have hlen := lengthBytes (n := headerLength l + payload.length) (by omega)
  have hmin : 2 ≤ headerLength l := by unfold headerLength; split <;> decide
  unfold reportPayload
  have h₀ : readAt (inputReport l payload ++ pad) 0
      = .ok (UInt8.ofNat (headerLength l + payload.length)) := rfl
  have h₁ : readAt (inputReport l payload ++ pad) 1
      = .ok (UInt8.ofNat ((headerLength l + payload.length) / 256)) := rfl
  rw [h₀, ok_bind, h₁, ok_bind]
  dsimp only
  rw [hlen, if_neg (by omega)]
  cases hid : l.hasReportId with
  | true =>
    have h₂ : readAt (inputReport l payload ++ pad) 2 = .ok l.reportId := by
      unfold inputReport
      rw [hid]
      rfl
    have hheader : headerLength l = 3 := if_pos hid
    rw [if_pos rfl, h₂, ok_bind, if_neg (by simp), hheader, Nat.add_sub_cancel_left]
    rfl
  | false =>
    have hheader : headerLength l = 2 := if_neg (by rw [hid]; decide)
    rw [if_neg (by decide), hheader, Nat.add_sub_cancel_left]
    rfl

theorem length_inputReport :
    (inputReport l payload).length = headerLength l + payload.length := by
  unfold inputReport headerLength
  split <;> simp [Nat.add_comm, Nat.add_left_comm]

theorem payloadBytes_inputReport :
    payloadBytes (inputReport l payload ++ pad) (headerLength l) payload.length = payload := by
  unfold payloadBytes inputReport headerLength
  split <;> simp

/-- What decoding an input report gives: the fields of its payload, the position clamped. -/
theorem decodeReport_inputReport (h : Covers l (8 * payload.length))
    (hmax : headerLength l + payload.length ≤ maxInputLength) (hmax16 : maxInputLength < 65536) :
    decodeReport l maxInputLength (inputReport l payload ++ pad)
      = .ok (some (readBits payload l.tipBitOffset 1 != 0,
          min (readBits payload l.xBitOffset l.xBitSize) l.xLogicalMax,
          min (readBits payload l.yBitOffset l.yBitSize) l.yLogicalMax)) := by
  have htip := h.tip
  have hpos : 0 < payload.length := by omega
  have hin : headerLength l + payload.length ≤ (inputReport l payload ++ pad).length := by
    rw [List.length_append, length_inputReport]
    omega
  have hword : 8 * payload.length ≤ u32 := by unfold u32; omega
  rw [decodeReport, reportPayload_inputReport hpos hmax hmax16, ok_bind]
  dsimp only
  rw [hidExtractBits_eq hin (by omega) (by decide) hword, ok_bind,
    hidExtractBits_eq hin h.x h.xBitSize hword, ok_bind,
    hidExtractBits_eq hin h.y h.yBitSize hword, ok_bind, payloadBytes_inputReport]
  rfl

/-- The fields of a payload with the three fields written to it. -/
theorem readBits_withFields {n : ℕ} (hfits : l.FitsIn n) (h : Covers l (8 * payload.length))
    {tip : Bool} {x y : ℕ} (hx : x < 2 ^ l.xBitSize) (hy : y < 2 ^ l.yBitSize) :
    readBits (withFields l tip x y payload) l.tipBitOffset 1 = tip.toNat ∧
      readBits (withFields l tip x y payload) l.xBitOffset l.xBitSize = x ∧
      readBits (withFields l tip x y payload) l.yBitOffset l.yBitSize = y := by
  have htip := h.tip
  have hxin := h.x
  have hyin := h.y
  unfold withFields
  -- the position is written after the tip, and Y after X
  refine ⟨?_, ?_, ?_⟩
  · rw [readBits_writeBits_of_apart (by simpa using hyin) hfits.tip_y.symm,
      readBits_writeBits_of_apart (by simpa using hxin) hfits.tip_x.symm,
      readBits_writeBits (by omega) (by cases tip <;> decide)]
  · rw [readBits_writeBits_of_apart (by simpa using hyin) hfits.x_y.symm,
      readBits_writeBits (by simpa using hxin) hx]
  · rw [readBits_writeBits (by simpa using hyin) hy]

/-- Writing one field disturbs no other: the values of the fields after each of the writes. -/
def FieldsApart (l : HidTouchLayout) : Prop :=
  ∀ payload, Covers l (8 * payload.length) → 8 * payload.length ≤ u32 →
    ∃ tip x y, extractFields l payload = .ok (tip, x, y) ∧
      (∀ v < 2, extractFields l (writeBits payload l.tipBitOffset 1 v) = .ok (v, x, y)) ∧
      (∀ v < 2 ^ l.xBitSize, extractFields l (writeBits payload l.xBitOffset l.xBitSize v)
        = .ok (tip, v, y)) ∧
      ∀ v < 2 ^ l.yBitSize, extractFields l (writeBits payload l.yBitOffset l.yBitSize v)
        = .ok (tip, x, v)

theorem HidTouchLayout.FitsIn.fieldsApart {n : ℕ} (hfits : l.FitsIn n) : FieldsApart l := by
  intro payload h hword
  have htip : l.tipBitOffset + 1 ≤ 8 * payload.length := h.tip
  refine ⟨_, _, _, extractFields_eq h hword, fun v hv ↦ ?_, fun v hv ↦ ?_, fun v hv ↦ ?_⟩
  · rw [extractFields_eq (by simpa using h) (by simpa using hword),
      readBits_writeBits htip (by simpa using hv), readBits_writeBits_of_apart htip hfits.tip_x,
      readBits_writeBits_of_apart htip hfits.tip_y]
  · rw [extractFields_eq (by simpa using h) (by simpa using hword), readBits_writeBits h.x hv,
      readBits_writeBits_of_apart h.x hfits.tip_x.symm, readBits_writeBits_of_apart h.x hfits.x_y]
  · rw [extractFields_eq (by simpa using h) (by simpa using hword), readBits_writeBits h.y hv,
      readBits_writeBits_of_apart h.y hfits.tip_y.symm,
      readBits_writeBits_of_apart h.y hfits.x_y.symm]

end

/-! ## The display -/

/-- The display of the machine: whether there is a GOP, and the resolution of its mode. -/
structure Screen where
  located : Bool
  mode : Option (UInt32 × UInt32)

/-- The mode is landscape. -/
def Screen.isLandscape (screen : Screen) : Bool :=
  screen.mode.any fun resolution ↦ resolution.2 < resolution.1

/-- The answers of the display. -/
def Screen.Answers (screen : Screen) : Event Uefi → Prop
  | ⟨.locateGop, r⟩ => r = screen.located
  | ⟨.gopResolution, r⟩ => r = screen.mode
  | _ => True

/-- Whether reports are rotated on a display. -/
def TouchDev.wantsRotation (d : TouchDev) (screen : Screen) : Bool :=
  decide (d.layout.xLogicalMax < d.layout.yLogicalMax) && (d.gop || screen.located) &&
    screen.isLandscape

section

variable {d : TouchDev} (screen : Screen)

private theorem touchLocateGop_returns (d : TouchDev) : ∃ t found d',
    (touchLocateGop.run d).Returns t (found, d') ∧ ∀ ev ∈ t, screen.Answers ev := by
  unfold touchLocateGop
  cases hgop : d.gop with
  | true =>
    refine ⟨[], true, d, Prog.returnsS_bind.mpr ⟨[], [], d, d, rfl,
      Prog.returnsS_get.mpr ⟨rfl, rfl, rfl⟩, ?_⟩, by simp⟩
    rw [if_pos hgop]
    exact Prog.returnsS_pure.mpr ⟨rfl, rfl, rfl⟩
  | false =>
    refine ⟨[⟨.locateGop, screen.located⟩], screen.located, { d with gop := screen.located },
      Prog.returnsS_bind.mpr ⟨[], _, d, d, rfl, Prog.returnsS_get.mpr ⟨rfl, rfl, rfl⟩, ?_⟩,
      by rintro ev (_ | ⟨_, ⟨⟩⟩); exact rfl⟩
    rw [if_neg (by rw [hgop]; decide)]
    exact Prog.returnsS_bind.mpr ⟨_, [], screen.located, d, rfl,
      Prog.returnsS_lift.mpr ⟨Prog.returns_perform.mpr rfl, rfl⟩,
      Prog.returnsS_bind.mpr ⟨[], [], ⟨⟩, _, rfl, Prog.returnsS_modify.mpr ⟨rfl, rfl⟩,
        Prog.returnsS_pure.mpr ⟨rfl, rfl, rfl⟩⟩⟩

private theorem gopIsLandscape_returns (d : TouchDev) : ∃ t landscape d',
    (gopIsLandscape.run d).Returns t (landscape, d') ∧ ∀ ev ∈ t, screen.Answers ev := by
  obtain ⟨t, found, d', hlocate, hshow⟩ := touchLocateGop_returns screen d
  unfold gopIsLandscape
  cases found with
  | false => exact ⟨t, false, d', Prog.returnsS_bind.mpr ⟨t, [], false, d',
      (List.append_nil t).symm, hlocate, Prog.returnsS_pure.mpr ⟨rfl, rfl, rfl⟩⟩, hshow⟩
  | true =>
    have hask : ((uefi .gopResolution : Touch _).run d').Returns [⟨.gopResolution, screen.mode⟩]
        (screen.mode, d') := Prog.returnsS_lift.mpr ⟨Prog.returns_perform.mpr rfl, rfl⟩
    refine ⟨t ++ [⟨.gopResolution, screen.mode⟩], screen.isLandscape, d',
      Prog.returnsS_bind.mpr ⟨t, _, true, d', rfl, hlocate, Prog.returnsS_bind.mpr
        ⟨_, [], screen.mode, d', rfl, hask, ?_⟩⟩, fun ev hev ↦ ?_⟩
    · unfold Screen.isLandscape
      cases screen.mode with
      | none => exact Prog.returnsS_pure.mpr ⟨rfl, rfl, rfl⟩
      | some resolution => exact Prog.returnsS_pure.mpr ⟨rfl, rfl, rfl⟩
    · obtain hev | hev := List.mem_append.mp hev
      · exact hshow ev hev
      · obtain rfl := List.mem_singleton.mp hev
        exact rfl

private theorem touchUpdateOrientation_returns (d : TouchDev) : ∃ t d',
    (touchUpdateOrientation.run d).Returns t ((), d') ∧ ∀ ev ∈ t, screen.Answers ev := by
  obtain ⟨t, rotate, d', hwants, hshow⟩ : ∃ t rotate d',
      (touchWantsRotation.run d).Returns t (rotate, d') ∧ ∀ ev ∈ t, screen.Answers ev := by
    by_cases hportrait : d.layout.xLogicalMax < d.layout.yLogicalMax
    · obtain ⟨t, landscape, d', hret, hshow⟩ := gopIsLandscape_returns screen d
      refine ⟨t, landscape, d', Prog.returnsS_bind.mpr ⟨[], t, d, d, rfl,
        Prog.returnsS_get.mpr ⟨rfl, rfl, rfl⟩, ?_⟩, hshow⟩
      rw [if_pos hportrait]
      exact hret
    · refine ⟨[], false, d, Prog.returnsS_bind.mpr ⟨[], [], d, d, rfl,
        Prog.returnsS_get.mpr ⟨rfl, rfl, rfl⟩, ?_⟩, by simp⟩
      rw [if_neg hportrait]
      exact Prog.returnsS_pure.mpr ⟨rfl, rfl, rfl⟩
  exact ⟨t, _, Prog.returnsS_bind.mpr ⟨t, [], rotate, d', (List.append_nil t).symm, hwants,
    Prog.returnsS_modify.mpr ⟨rfl, rfl⟩⟩, hshow⟩

/-- A decoded position is within the logical maxima. -/
theorem decodeReport_le {layout : HidTouchLayout} {maxInputLength : ℕ} {buf : List UInt8}
    {tip : Bool} {x y : ℕ} (h : decodeReport layout maxInputLength buf = .ok (some (tip, x, y))) :
    x ≤ layout.xLogicalMax ∧ y ≤ layout.yLogicalMax := by
  rw [decodeReport] at h
  cases hpayload : reportPayload layout maxInputLength buf with
  | error f => rw [hpayload] at h; contradiction
  | ok payload =>
    rw [hpayload, ok_bind] at h
    cases payload with
    | none => exact absurd (Except.ok.inj h) (by simp)
    | some payload =>
      dsimp only at h
      cases htip : hidExtractBits buf payload.1 payload.2 layout.tipBitOffset 1 with
      | error f => rw [htip] at h; contradiction
      | ok tip' =>
        rw [htip, ok_bind] at h
        cases hx : hidExtractBits buf payload.1 payload.2 layout.xBitOffset layout.xBitSize with
        | error f => rw [hx] at h; contradiction
        | ok x' =>
          rw [hx, ok_bind] at h
          cases hy : hidExtractBits buf payload.1 payload.2 layout.yBitOffset layout.yBitSize with
          | error f => rw [hy] at h; contradiction
          | ok y' =>
            rw [hy, ok_bind] at h
            cases h
            exact ⟨Nat.min_le_right _ _, Nat.min_le_right _ _⟩

/-- On any display a report that is received is decoded to the end. -/
theorem touchDecode_returns {bytes : List UInt8} {r : Option (Bool × ℕ × ℕ)}
    (hbytes : d.inputBytes = .ok bytes)
    (hdecode : decodeReport d.layout d.maxInputLength bytes = .ok r) :
    ∃ t d', (touchDecode.run d).Returns t ((), d') ∧ ∀ ev ∈ t, screen.Answers ev := by
  -- the report is read, and the rest of the function publishes what it says
  have hrest : ∀ {f : Option (Bool × ℕ × ℕ) → Touch Unit} {t : List (Event Uefi)} {d' : TouchDev},
      touchDecode = (do
        let d ← get
        f (← decodeReport d.layout d.maxInputLength (← d.inputBytes))) →
      ((f r).run d).Returns t ((), d') → (touchDecode.run d).Returns t ((), d') := by
    intro f t d' heq h
    rw [heq]
    refine Prog.returnsS_bind.mpr ⟨[], t, d, d, rfl, Prog.returnsS_get.mpr ⟨rfl, rfl, rfl⟩, ?_⟩
    refine Prog.returnsS_bind.mpr ⟨[], t, bytes, d, rfl,
      Prog.returnsS_liftChecked.mpr ⟨rfl, hbytes, rfl⟩, ?_⟩
    exact Prog.returnsS_bind.mpr ⟨[], t, r, d, rfl,
      Prog.returnsS_liftChecked.mpr ⟨rfl, hdecode, rfl⟩, h⟩
  cases r with
  | none => exact ⟨[], d, hrest rfl (Prog.returnsS_pure.mpr ⟨rfl, rfl, rfl⟩), by simp⟩
  | some r =>
    obtain ⟨tip, x, y⟩ := r
    obtain ⟨hx, -⟩ := decodeReport_le hdecode
    obtain ⟨t, d', horient, hshow⟩ := touchUpdateOrientation_returns screen d
    obtain ⟨gop, rotate, rfl⟩ : ∃ gop rotate, d' = TouchDev.orient rotate { d with gop := gop } :=
      Monitor.post_of_wpS (touchUpdateOrientation_within fun _ h ↦ h) horient
    obtain ⟨x', y', hrotated⟩ : ∃ x' y',
        (TouchDev.orient rotate { d with gop := gop }).rotated x y = .ok (x', y') := by
      cases rotate with
      | false => exact ⟨x, y, rfl⟩
      | true =>
        refine ⟨y, d.layout.xLogicalMax - x, ?_⟩
        change (do return (y, ← subUnsigned d.layout.xLogicalMax x)) = _
        rw [subUnsigned_ok hx]
        rfl
    refine ⟨t, TouchDev.publish tip x' y' (TouchDev.orient rotate { d with gop := gop }),
      hrest rfl ?_, hshow⟩
    exact Prog.returnsS_bind.mpr ⟨t, [], (), _, (List.append_nil t).symm, horient,
      Prog.returnsS_bind.mpr ⟨[], [], _, _, rfl, Prog.returnsS_get.mpr ⟨rfl, rfl, rfl⟩,
        Prog.returnsS_bind.mpr ⟨[], [], (x', y'), _, rfl, Prog.returnsS_liftChecked.mpr
          ⟨rfl, hrotated, rfl⟩, Prog.returnsS_modify.mpr ⟨rfl, rfl⟩⟩⟩⟩

end

/-! ## A poll -/

/-- The state reports the touch `(x, y)` in the frame of the orientation; the rotation does not
wrap. -/
def TouchDev.Publishes (d : TouchDev) (x y : ℕ) : Prop :=
  d.stateChanged = true ∧ d.lastTip = true ∧ d.state.activeButtons = efiAbspTouchActive ∧
    if d.rotateActive then d.state.currentX = y ∧ d.state.currentY + x = d.layout.xLogicalMax
    else d.state.currentX = x ∧ d.state.currentY = y

section

variable {d : TouchDev}

/-- A report leaves its tip behind, published or not. -/
theorem TouchDev.lastTip_publish (d : TouchDev) (tip : Bool) (x y : ℕ) :
    (d.publish tip x y).lastTip = tip := by
  unfold TouchDev.publish
  split
  · rfl
  · next hnone =>
    obtain ⟨rfl, hlast⟩ : tip = false ∧ d.lastTip = false := by simpa using hnone
    exact hlast

theorem touchDecode_publishes {bytes : List UInt8} {address : UInt64} {tip : Bool}
    {x y : ℕ} (hbuf : d.inputBuf = some ⟨address, bytes⟩)
    (hdecode : decodeReport d.layout d.maxInputLength bytes = .ok (some (tip, x, y)))
    (hx : x ≤ d.layout.xLogicalMax) :
    (within NoAccess).world.wpS touchDecode
      (fun _ d' _ ↦ d'.lastTip = tip ∧
        (tip = true → d'.layout = d.layout ∧ d'.Publishes x y)) d () := by
  have hbytes : d.inputBytes = .ok bytes := by rw [TouchDev.inputBytes, hbuf]
  rw [touchDecode, World.wpS_bind, World.wpS_get, World.wpS_bind, World.wpS_liftChecked]
  refine ⟨bytes, hbytes, ?_⟩
  rw [World.wpS_bind, World.wpS_liftChecked]
  refine ⟨_, hdecode, ?_⟩
  dsimp only
  rw [World.wpS_bind]
  refine World.wpS_mono (touchUpdateOrientation_within fun _ h ↦ h) fun _ d₁ _ h₁ ↦ ?_
  obtain ⟨gop, rotate, rfl⟩ := h₁
  rw [World.wpS_bind, World.wpS_get, World.wpS_bind, World.wpS_liftChecked]
  cases rotate with
  | true =>
    refine ⟨(y, d.layout.xLogicalMax - x), ?_, ?_⟩
    · change (do return (y, ← subUnsigned d.layout.xLogicalMax x)) = _
      rw [subUnsigned_ok hx]
      rfl
    · rw [World.wpS_modify]
      refine ⟨TouchDev.lastTip_publish _ _ _ _, ?_⟩
      rintro rfl
      exact ⟨rfl, rfl, rfl, rfl, rfl, Nat.sub_add_cancel hx⟩
  | false =>
    refine ⟨(x, y), rfl, ?_⟩
    rw [World.wpS_modify]
    refine ⟨TouchDev.lastTip_publish _ _ _ _, ?_⟩
    rintro rfl
    exact ⟨rfl, rfl, rfl, rfl, rfl, rfl⟩

/-- A poll that has received comes to decode. -/
theorem touchPoll_reaches {t₁ t₂ : List (Event Uefi)} {d₁ d₂ : TouchDev} (hready : d.ready = true)
    (hreinit : (touchPollReinit.run d).Returns t₁ (true, d₁))
    (hreceive : (touchReceive.run d₁).Returns t₂ (true, d₂)) :
    (touchPoll.run d).Reaches (t₁ ++ t₂) (touchDecode.run d₂) := by
  have hgo : (touchPoll.run d).Reaches [] ((do
      if ← touchPollReinit then
        if ← touchReceive then touchDecode
        else return ()
      else return () : Touch Unit).run d) := by
    have h := Prog.reachesS_bind (p := (get : Touch TouchDev)) (f := fun d' ↦ if d'.ready then do
        if ← touchPollReinit then
          if ← touchReceive then touchDecode
          else return ()
        else return () else return ()) (Prog.returnsS_get.mpr ⟨rfl, rfl, rfl⟩ :
          ((get : Touch TouchDev).run d).Returns [] (d, d))
    rw [hready] at h
    exact h
  exact hgo.trans ((Prog.reachesS_bind hreinit).trans (Prog.reachesS_bind hreceive))

theorem touchPollReinit_returns (hreinit : d.needReinit = false) :
    (touchPollReinit.run d).Returns [] (true, d) := by
  refine Prog.returnsS_bind.mpr ⟨[], [], d, d, rfl, Prog.returnsS_get.mpr ⟨rfl, rfl, rfl⟩, ?_⟩
  rw [hreinit]
  exact Prog.returnsS_pure.mpr ⟨rfl, rfl, rfl⟩

theorem touchReceive_returns {t : List (Event Uefi)} {status : EfiStatus} {bytes : List UInt8}
    {buf : PoolBuffer} {bus : I2cBus} (hbuf : d.inputBuf = some buf)
    (hstatus : status.isError = false)
    (hread : ((i2cHidRawRead d.i2cBase (some buf.bytes) d.maxInputLength).run d.bus).Returns t
      ((status, some bytes), bus)) :
    (touchReceive.run d).Returns t
      (true, { d with bus := bus, inputBuf := some ⟨buf.address, bytes⟩ }) := by
  have hnot : (status == .noResponse) = false := by
    cases status <;> first | rfl | contradiction
  refine Prog.returnsS_bind.mpr ⟨[], t, d, d, rfl, Prog.returnsS_get.mpr ⟨rfl, rfl, rfl⟩, ?_⟩
  refine Prog.returnsS_bind.mpr ⟨t, [], (status, some bytes), { d with bus := bus },
    (List.append_nil t).symm, returns_onBus.mpr ⟨bus, ?_, rfl⟩, ?_⟩
  · rw [hbuf]
    exact hread
  refine Prog.returnsS_bind.mpr ⟨[], [], ⟨⟩, _, rfl, Prog.returnsS_modify.mpr ⟨rfl, rfl⟩, ?_⟩
  rw [hnot, hstatus]
  refine Prog.returnsS_pure.mpr ⟨rfl, rfl, ?_⟩
  rw [TouchDev.storeInput, hbuf]
  rfl

end

/-- The layout of a driver that has accepted `l`: its maxima may have been replaced. -/
def SameFields (l l' : HidTouchLayout) : Prop :=
  l' = { l with xLogicalMax := l'.xLogicalMax, yLogicalMax := l'.yLogicalMax }

/-- **Round trip from the descriptor to the pointer.** The parser accepts a descriptor with the
layout `l`. A report of any length that covers the fields, with any tip and position written to
them and anything in its other bits, is decoded to that tip and the clamped position. The poll that
reads it ends on every display, and never in a fault, and a touch is published in the frame of the
orientation. Writing one field disturbs no other. -/
theorem touchPoll_roundTrip {desc : List UInt8} {l₀ l : HidTouchLayout} {d : TouchDev}
    (hparse : hidParseTouchLayout desc d.maxInputLength l₀ = .ok (.success, l))
    (hlayout : SameFields l d.layout) (hready : d.ready = true) (hreinit : d.needReinit = false)
    {tip : Bool} {x y : ℕ} (hx : x < 2 ^ l.xBitSize) (hy : y < 2 ^ l.yBitSize)
    {payload : List UInt8} (hcovers : Covers l (8 * payload.length))
    (hlength : headerLength l + payload.length ≤ d.maxInputLength)
    {buf : PoolBuffer} (hbuf : d.inputBuf = some buf) {t : List (Event Uefi)} {status : EfiStatus}
    (hstatus : status.isError = false) {pad : List UInt8} {bus : I2cBus}
    (hread : ((i2cHidRawRead d.i2cBase (some buf.bytes) d.maxInputLength).run d.bus).Returns t
      ((status, some (inputReport l (withFields l tip x y payload) ++ pad)), bus)) :
    decodeReport d.layout d.maxInputLength (inputReport l (withFields l tip x y payload) ++ pad)
      = .ok (some (tip, min x d.layout.xLogicalMax, min y d.layout.yLogicalMax)) ∧
    (∀ screen : Screen, ∃ t' d', (touchPoll.run d).Returns (t ++ t') ((), d') ∧
      ∀ ev ∈ t', screen.Answers ev) ∧
    (∀ t' q, (touchPoll.run d).Reaches (t ++ t') q → (∀ f, q ≠ .fault f) ∧
      ∀ d', q = .pure ((), d') → d'.lastTip = tip ∧ (tip = true → d'.layout = d.layout ∧
        d'.Publishes (min x d.layout.xLogicalMax) (min y d.layout.yLogicalMax))) ∧
    FieldsApart l := by
  obtain ⟨-, hfits⟩ := fitsIn_of_hidParseTouchLayout hparse
  obtain ⟨htip, hxbits, hybits⟩ := @readBits_withFields _ _ _ hfits hcovers tip _ _ hx hy
  have hmax16 : d.maxInputLength < 65536 := d.hidDesc.wMaxInputLength.toNat_lt
  have hlen : (withFields l tip x y payload).length = payload.length := by
    rw [withFields, length_writeBits, length_writeBits, length_writeBits]
  have hdecode : decodeReport d.layout d.maxInputLength
      (inputReport l (withFields l tip x y payload) ++ pad)
        = .ok (some (tip, min x d.layout.xLogicalMax, min y d.layout.yLogicalMax)) := by
    have hreport : inputReport l (withFields l tip x y payload)
        = inputReport d.layout (withFields l tip x y payload) := by rw [hlayout]; rfl
    have hcovers' : Covers d.layout (8 * (withFields l tip x y payload).length) := by
      rw [hlen, hlayout]
      exact { hcovers with }
    have hlength' : headerLength d.layout + (withFields l tip x y payload).length
        ≤ d.maxInputLength := by
      rw [hlen, hlayout]
      exact hlength
    have htip' : readBits (withFields l tip x y payload) d.layout.tipBitOffset 1 = tip.toNat := by
      rw [hlayout]
      exact htip
    have hx' : readBits (withFields l tip x y payload) d.layout.xBitOffset d.layout.xBitSize
        = x := by
      rw [hlayout]
      exact hxbits
    have hy' : readBits (withFields l tip x y payload) d.layout.yBitOffset d.layout.yBitSize
        = y := by
      rw [hlayout]
      exact hybits
    rw [hreport, decodeReport_inputReport hcovers' hlength' hmax16, htip', hx', hy']
    cases tip <;> rfl
  -- the read is the whole of the poll up to the decoding
  have hpoll : (touchPoll.run d).Reaches t (touchDecode.run { d with
      bus := bus
      inputBuf := some ⟨buf.address, inputReport l (withFields l tip x y payload) ++ pad⟩ }) :=
    touchPoll_reaches hready (touchPollReinit_returns hreinit)
      (touchReceive_returns hbuf hstatus hread)
  refine ⟨hdecode, fun screen ↦ ?_, fun t' q hreach ↦ ?_, hfits.fieldsApart⟩
  · obtain ⟨t', d', hret, hshow⟩ := touchDecode_returns (d := { d with
      bus := bus
      inputBuf := some ⟨buf.address, inputReport l (withFields l tip x y payload) ++ pad⟩ })
      screen rfl hdecode
    exact ⟨t', d', hpoll.trans hret, hshow⟩
  have hrest := hpoll.rest hreach
  have hwp := touchDecode_publishes (d := { d with
    bus := bus, inputBuf := some ⟨buf.address, inputReport l (withFields l tip x y payload) ++ pad⟩ })
    rfl hdecode (Nat.min_le_right _ _)
  have hend := World.wp_sound hwp hrest (Monitor.path_after () t')
  constructor
  · rintro f rfl
    exact hend
  · rintro d' rfl
    exact hend

/-! ### A touch on the panel of the digitizer descriptor -/

/-- The layout of the digitizer descriptor. -/
def digitizerLayout : HidTouchLayout := ⟨true, 1, 0, 8, 16, 0xFFF, 24, 16, 0xFFF⟩

/-- A driver that is ready for the reports of that panel. -/
def panelDev : TouchDev where
  ready := true
  bus := { mKind := .firmware, mFw := { host := true } }
  hidDesc := ⟨panelHidDesc 33 ++ List.replicate 18 0, rfl⟩
  layout := digitizerLayout
  inputBuf := some ⟨0x1000, List.replicate 8 0⟩

/-- A touch at (0x123, 0x456); the bits that belong to no field are set. -/
def touchReport : List UInt8 :=
  inputReport digitizerLayout (withFields digitizerLayout true 0x123 0x456 (List.replicate 5 0xFF))

/-- A poll of the panel decodes the touch and publishes it. -/
theorem touchPoll_roundTrip_panel :
    decodeReport digitizerLayout 8 touchReport = .ok (some (true, 0x123, 0x456)) ∧
      ∃ t d', (touchPoll.run panelDev).Returns t ((), d') ∧ t ≠ [] ∧ d'.lastTip = true ∧
        d'.Publishes 0x123 0x456 := by
  have hparse : hidParseTouchLayout digitizerDescriptor panelDev.maxInputLength .zero
      = .ok (.success, digitizerLayout) := by decide +kernel
  have hread : (((i2cHidRawRead panelDev.i2cBase (some (List.replicate 8 0))
      panelDev.maxInputLength).run panelDev.bus).simulate panelMachine
        { reports := [touchReport] }).2 = some ((.success, some (touchReport ++ [])), panelDev.bus) := by
    decide +kernel
  have hasks : (((i2cHidRawRead panelDev.i2cBase (some (List.replicate 8 0))
      panelDev.maxInputLength).run panelDev.bus).simulate panelMachine
        { reports := [touchReport] }).1.length = 1 := by decide +kernel
  have hread := Prog.returns_simulate hread
  generalize (((i2cHidRawRead panelDev.i2cBase (some (List.replicate 8 0))
      panelDev.maxInputLength).run panelDev.bus).simulate panelMachine
        { reports := [touchReport] }).1 = t at hread hasks
  obtain ⟨hdecode, hends, hpost, -⟩ := touchPoll_roundTrip hparse rfl rfl rfl (by decide)
    (by decide) ⟨by decide, by decide, by decide, by decide, by decide⟩ (by decide +kernel) rfl rfl
    hread
  obtain ⟨t', d', hret, -⟩ := hends ⟨true, some (1280, 800)⟩
  obtain ⟨htip, hpublishes⟩ := (hpost t' _ hret).2 d' rfl
  refine ⟨hdecode, t ++ t', d', hret, ?_, htip, (hpublishes rfl).2⟩
  rintro heq
  rw [(List.append_eq_nil_iff.mp heq).1] at hasks
  contradiction

end TouchI2c
