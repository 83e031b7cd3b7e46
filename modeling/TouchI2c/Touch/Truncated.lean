import TouchI2c.Touch.Events

/-!
# Truncated reports

The length check of a poll does not know the layout, and the extraction fills the bits past the
declared payload with zeros. So a matching report that is too short for the fields is decoded like a
complete one: it leaves the pointer alone exactly if its zero-filled tip is up and the finger was
up, or if it repeats the touch that waits to be read.

`zeroFilled` is the field of a payload with zeros behind it; the loop that extracts a field breaks
off where the payload ends, so that is what it computes, for complete reports and truncated ones
alike. What a report then changes is a comparison of states: a release with the tip up before
changes nothing, and a touch changes nothing only if it is the very one that is already there and
unread.
-/

namespace TouchI2c

open BitField CMemory HidParse Interaction

/-! ## The declared payload -/

/-- A received buffer holds a report that a poll decodes: its declared length is admitted, and its
report ID is that of the layout if there is one. -/
structure Matches (l : HidTouchLayout) (maxInputLength : ℕ) (buf : List UInt8) : Prop where
  lower : 3 ≤ declaredLength buf
  upper : declaredLength buf ≤ maxInputLength
  reportId : l.hasReportId = true → buf[2]? = some l.reportId

/-- The length of the payload that a report declares. -/
def declaredPayload (l : HidTouchLayout) (buf : List UInt8) : ℕ :=
  declaredLength buf - headerLength l

/-- A payload of `n` bytes contains the whole tip bit, X field and Y field. -/
structure Contains (l : HidTouchLayout) (n : ℕ) : Prop where
  tip : l.tipBitOffset + 1 ≤ 8 * n
  x : l.xBitOffset + l.xBitSize ≤ 8 * n
  y : l.yBitOffset + l.yBitSize ≤ 8 * n

/-- A field of the declared payload; the bits past its end are zero. -/
def zeroFilled (l : HidTouchLayout) (buf : List UInt8) (off n : ℕ) : ℕ :=
  readBits (payloadBytes buf (headerLength l) (declaredPayload l buf)) off (min n 32)

/-- The tip of a report. -/
def zeroFilledTip (l : HidTouchLayout) (buf : List UInt8) : Bool :=
  zeroFilled l buf l.tipBitOffset 1 != 0

/-- The clamped position of a report. -/
def zeroFilledPosition (l : HidTouchLayout) (buf : List UInt8) : ℕ × ℕ :=
  (min (zeroFilled l buf l.xBitOffset l.xBitSize) l.xLogicalMax,
    min (zeroFilled l buf l.yBitOffset l.yBitSize) l.yLogicalMax)

section

variable {l : HidTouchLayout} {buf : List UInt8}

/-- The loop that extracts a field breaks off where the payload ends. -/
private theorem eq_readBits_of_extractLoop {start bufLen off b n v : ℕ} (hword : off + (b + n) ≤ u32)
    (h : extractLoop buf start bufLen off b n (readBits (payloadBytes buf start bufLen) off b)
      = .ok v) : v = readBits (payloadBytes buf start bufLen) off (b + n) := by
  induction n generalizing b with
  | zero => exact (Except.ok.inj h).symm
  | succ n ih =>
    have hbit : (off + b) % u32 = off + b := Nat.mod_eq_of_lt (by omega)
    rw [extractLoop] at h
    simp only [hbit] at h
    split at h
    · next hend =>
      have hlength : (payloadBytes buf start bufLen).length ≤ bufLen := List.length_take_le _ _
      rw [readBits_of_length_le (by omega)]
      exact (Except.ok.inj h).symm
    · next hinside =>
      cases hread : readAt buf (start + (off + b) / 8) with
      | error f =>
        rw [hread] at h
        contradiction
      | ok byte =>
        have hbyte : (payloadBytes buf start bufLen).getD ((off + b) / 8) 0 = byte := by
          rw [getD_payloadBytes (Nat.not_le.mp hinside), List.getD_eq_getElem?_getD,
            readAt_eq_ok_iff.mp hread, Option.getD_some]
        have hacc : readBits (payloadBytes buf start bufLen) off b |||
            (byte.toNat.testBit ((off + b) % 8)).toNat <<< b
              = readBits (payloadBytes buf start bufLen) off (b + 1) := by
          rw [readBits, bitAt, hbyte]
        rw [hread, ok_bind, extractedBit, hacc] at h
        rw [ih (by omega) h, Nat.add_right_comm, Nat.add_assoc]

private theorem eq_zeroFilled_of_hidExtractBits {off n v : ℕ} (hword : off + n ≤ u32)
    (h : hidExtractBits buf (headerLength l) (declaredPayload l buf) off n = .ok v) :
    v = zeroFilled l buf off n := by
  have hcount : (if n > 32 then 32 else n) = min n 32 := by
    split <;> omega
  rw [hidExtractBits, hcount] at h
  have hv := @eq_readBits_of_extractLoop _ _ _ _ 0 _ _ (by omega) h
  rw [Nat.zero_add] at hv
  exact hv

private theorem reportPayload_of_matches {maxInputLength : ℕ} {r : Option (ℕ × ℕ)}
    (hmatch : Matches l maxInputLength buf) (h : reportPayload l maxInputLength buf = .ok r) :
    r = some (headerLength l, declaredPayload l buf) := by
  rw [reportPayload] at h
  cases hlo : readAt buf 0 with
  | error f => rw [hlo] at h; contradiction
  | ok lo =>
    cases hhi : readAt buf 1 with
    | error f => rw [hlo, hhi] at h; contradiction
    | ok hi =>
      have hlen : lo.toNat ||| hi.toNat <<< 8 = declaredLength buf := by
        rw [declaredLength, List.getD_eq_getElem?_getD, List.getD_eq_getElem?_getD,
          readAt_eq_ok_iff.mp hlo, readAt_eq_ok_iff.mp hhi]
        rfl
      have hadmitted : ¬(declaredLength buf < 3 ∨ maxInputLength < declaredLength buf) :=
        not_or.mpr ⟨Nat.not_lt.mpr hmatch.lower, Nat.not_lt.mpr hmatch.upper⟩
      rw [hlo, hhi, ok_bind, ok_bind] at h
      dsimp only at h
      rw [hlen, if_neg hadmitted] at h
      unfold declaredPayload headerLength
      cases hid : l.hasReportId with
      | true =>
        rw [hid, if_pos rfl, readAt_eq_ok_iff.mpr (hmatch.reportId hid), ok_bind,
          if_neg (not_not_intro rfl)] at h
        exact (Except.ok.inj h).symm
      | false =>
        rw [hid, if_neg Bool.false_ne_true] at h
        exact (Except.ok.inj h).symm

private theorem decodeReport_of_matches {maxInputLength n : ℕ} {r : Option (Bool × ℕ × ℕ)}
    (hmatch : Matches l maxInputLength buf) (hfits : l.FitsIn n) (hn : n ≤ u32)
    (h : decodeReport l maxInputLength buf = .ok r) :
    r = some (zeroFilledTip l buf, zeroFilledPosition l buf) := by
  have htipfits := hfits.tip
  have hxfits := hfits.x
  have hyfits := hfits.y
  rw [decodeReport] at h
  cases hpayload : reportPayload l maxInputLength buf with
  | error f => rw [hpayload] at h; contradiction
  | ok payload =>
    obtain rfl := reportPayload_of_matches hmatch hpayload
    rw [hpayload, ok_bind] at h
    dsimp only at h
    cases htip : hidExtractBits buf (headerLength l) (declaredPayload l buf) l.tipBitOffset 1 with
    | error f => rw [htip] at h; contradiction
    | ok tip =>
      rw [htip, ok_bind] at h
      cases hx : hidExtractBits buf (headerLength l) (declaredPayload l buf) l.xBitOffset
          l.xBitSize with
      | error f => rw [hx] at h; contradiction
      | ok x =>
        rw [hx, ok_bind] at h
        cases hy : hidExtractBits buf (headerLength l) (declaredPayload l buf) l.yBitOffset
            l.yBitSize with
        | error f => rw [hy] at h; contradiction
        | ok y =>
          rw [hy, ok_bind] at h
          rw [← Except.ok.inj h, eq_zeroFilled_of_hidExtractBits (by omega) htip,
            eq_zeroFilled_of_hidExtractBits (by omega) hx,
            eq_zeroFilled_of_hidExtractBits (by omega) hy]
          rfl

end

/-! ## What a truncated report does -/

/-- The state that waits, whether one waits, and the last tip are the same. -/
structure KeepsPointer (d d' : TouchDev) : Prop where
  state : d'.state = d.state
  stateChanged : d'.stateChanged = d.stateChanged
  lastTip : d'.lastTip = d.lastTip

/-- When a report changes nothing: the tip is up and was up, or it repeats the touch that waits to
be read. -/
private theorem keepsPointer_publish_iff {d d₁ : TouchDev} (h : KeepsPointer d d₁) (tip : Bool)
    (x y : ℕ) : KeepsPointer d (d₁.publish tip x y) ↔
      tip = false ∧ d.lastTip = false ∨
      tip = true ∧ d.lastTip = true ∧ d.stateChanged = true ∧ d.state = touchAt (x, y) := by
  cases tip with
  | true =>
    have hpublish : d₁.publish true x y
        = { d₁ with state := touchAt (x, y), stateChanged := true, lastTip := true } := rfl
    rw [hpublish]
    constructor
    · intro h'
      exact .inr ⟨rfl, h'.lastTip.symm, h'.stateChanged.symm, h'.state.symm⟩
    · rintro (⟨htip, -⟩ | ⟨-, hlast, hchanged, hstate⟩)
      · contradiction
      · exact ⟨hstate.symm, hchanged.symm, hlast.symm⟩
  | false =>
    constructor
    · intro h'
      have hlast := h'.lastTip
      rw [TouchDev.lastTip_publish] at hlast
      exact .inl ⟨rfl, hlast.symm⟩
    · rintro (⟨-, hlast⟩ | ⟨htip, -⟩)
      · have hpublish : d₁.publish false x y = d₁ := by
          rw [TouchDev.publish, h.lastTip, hlast]
          rfl
        rw [hpublish]
        exact h
      · contradiction

/-- **When a truncated report leaves the pointer alone.** A driver that has accepted a layout, in
any state, receives a matching report. "If the declared payload does not contain the three fields
then nothing changes" holds if and only if the payload contains them, or the tip reads as up and
was up, or it reads as down and the touch that the fields give is the very one that waits to be
read. -/
theorem touchPoll_truncated_iff {desc : List UInt8} {l₀ l : HidTouchLayout} {d d' : TouchDev}
    {screen : Screen} {bytes : List UInt8}
    (hparse : hidParseTouchLayout desc d.maxInputLength l₀ = .ok (.success, l))
    (hlayout : SameFields l d.layout)
    (hstep : PointerStep ⟨d, screen⟩ (.poll (some bytes)) ⟨d', screen⟩)
    (hmatch : Matches d.layout d.maxInputLength bytes) :
    (¬Contains d.layout (declaredPayload d.layout bytes) → KeepsPointer d d') ↔
      Contains d.layout (declaredPayload d.layout bytes) ∨
      zeroFilledTip d.layout bytes = false ∧ d.lastTip = false ∨
      zeroFilledTip d.layout bytes = true ∧ d.lastTip = true ∧ d.stateChanged = true ∧
        d.state = touchAt (d.place (d.wantsRotation screen)
          (zeroFilledPosition d.layout bytes).1 (zeroFilledPosition d.layout bytes).2) := by
  obtain ⟨-, hfits⟩ := fitsIn_of_hidParseTouchLayout hparse
  have hfits' : d.layout.FitsIn (payloadBits d.maxInputLength l.hasReportId) := by
    rw [hlayout]
    exact { hfits with }
  have hword : payloadBits d.maxInputLength l.hasReportId ≤ u32 := by
    have hmax : d.maxInputLength < 65536 := d.hidDesc.wMaxInputLength.toNat_lt
    have hu32 : u32 = 4294967296 := rfl
    unfold payloadBits
    omega
  have hkeeps : KeepsPointer d d' ↔
      zeroFilledTip d.layout bytes = false ∧ d.lastTip = false ∨
      zeroFilledTip d.layout bytes = true ∧ d.lastTip = true ∧ d.stateChanged = true ∧
        d.state = touchAt (d.place (d.wantsRotation screen)
          (zeroFilledPosition d.layout bytes).1 (zeroFilledPosition d.layout bytes).2) := by
    cases hstep with
    | report hready hret hshow hreceives =>
      obtain ⟨bus, reinit, buf, ⟨hnone, -⟩ | ⟨tip, x, y, gop, hsome, rfl⟩⟩ :=
        touchPoll_report hready hret hshow hreceives
      · exact absurd (decodeReport_of_matches hmatch hfits' hword hnone) (by simp)
      · cases decodeReport_of_matches hmatch hfits' hword hsome
        refine keepsPointer_publish_iff ?_ _ _ _
        exact ⟨rfl, rfl, rfl⟩
  rw [hkeeps]
  constructor
  · intro h
    by_cases hcontains : Contains d.layout (declaredPayload d.layout bytes)
    · exact .inl hcontains
    · exact .inr (h hcontains)
  · intro h hcontains
    exact h.resolve_left hcontains

/-! ### A touch out of nothing -/

/-- A report of the digitizer whose length ends after the tip: the tip is set. -/
def truncatedReport : List UInt8 := [4, 0, 1, 1, 0, 0, 0, 0]

private theorem pointerStep_truncated : PointerStep ⟨panelDev, ⟨true, some (1280, 800)⟩⟩
    (.poll (some truncatedReport))
    ⟨decodedDev (receivedDev truncatedReport panelDev), ⟨true, some (1280, 800)⟩⟩ :=
  @pointerStep_panel panelDev (receivedDev truncatedReport panelDev) _ _ _ (by decide +kernel)
    (by decide +kernel) (by decide +kernel) (by decide +kernel) (by decide +kernel)

private theorem matches_truncated : Matches digitizerLayout 8 truncatedReport :=
  ⟨by decide, by decide, by decide⟩

private theorem not_contains_truncated :
    ¬Contains digitizerLayout (declaredPayload digitizerLayout truncatedReport) :=
  fun h ↦ absurd h.x (by decide)

/-- The driver publishes a touch at the origin. -/
theorem not_keepsPointer_of_truncated :
    ¬∀ (desc : List UInt8) (l₀ l : HidTouchLayout) (d d' : TouchDev) (screen : Screen)
      (bytes : List UInt8), hidParseTouchLayout desc d.maxInputLength l₀ = .ok (.success, l) →
      SameFields l d.layout → PointerStep ⟨d, screen⟩ (.poll (some bytes)) ⟨d', screen⟩ →
      Matches d.layout d.maxInputLength bytes →
      ¬Contains d.layout (declaredPayload d.layout bytes) → KeepsPointer d d' := by
  intro h
  have hkeeps := h digitizerDescriptor .zero digitizerLayout panelDev _ ⟨true, some (1280, 800)⟩
    truncatedReport (by decide +kernel) rfl pointerStep_truncated matches_truncated
    not_contains_truncated
  exact absurd hkeeps.stateChanged (by decide +kernel)

theorem touchPoll_truncated_iff_panel :
    ¬KeepsPointer panelDev (decodedDev (receivedDev truncatedReport panelDev)) := by
  intro hkeeps
  have h := (touchPoll_truncated_iff (by decide +kernel :
    hidParseTouchLayout digitizerDescriptor panelDev.maxInputLength .zero
      = .ok (.success, digitizerLayout)) rfl pointerStep_truncated matches_truncated).mp
        fun _ ↦ hkeeps
  rcases h with h | ⟨hup, -⟩ | ⟨-, hdown, -⟩
  · exact not_contains_truncated h
  · exact absurd hup (by decide +kernel)
  · exact absurd hdown (by decide)

end TouchI2c
