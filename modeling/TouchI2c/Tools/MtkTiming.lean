import Mathlib.Data.Int.Bitwise
import Mathlib.Tactic.Linarith
import TouchI2c.Bus.MtkI2c

/-!
# The timing calculator

`tools/mtk-i2c-timing.py`, which computes the timing registers of the MediaTek controller for a
parent clock and a bus speed. Python's integers are unbounded and its `//` rounds down and fails on
a zero divisor, so a run either raises or returns.

## What a result keeps

One check refuses its counts and leaves the registers, or programs counts that keep the
specification of the speed (`checkAcTiming_cases`). The search over sample counts keeps the best
product so far together with the registers of its check, and the clock divider correction of the
check that was made last. That the correction belongs to the counts that are kept is the delicate
point: the correction of two sample counts is the same unless one of them is 1, and the count 1
makes the product the divider itself, so a success there ends the search.

## That it returns

The largest set-up count of the check is never reached, because no row of the specification has a
set-up time between 255 and 256 equal periods of whole nanoseconds, and no divisor is zero. So for
the clocks and speeds of the controller every run returns.
-/

namespace TouchI2c

namespace MtkTiming

/-! ## Python's integers -/

/-- What an arithmetic operation raises. -/
inductive PyError where
  | zeroDivision
  deriving DecidableEq

/-- `a // b`. -/
def floorDiv (a b : ℤ) : Except PyError ℤ :=
  if b = 0 then .error .zeroDivision else .ok (a.fdiv b)

/-- `a << n`. -/
def shl (a : ℤ) (n : ℕ) : ℤ := a <<< n

/-! ## The calculator -/

def hzPerGhz : ℤ := 1000000000
def maxSampleCntDiv : ℕ := 8
def maxStepCntDiv : ℤ := 64
def maxHsStepCntDiv : ℤ := 8
def maxClockDiv5Bits : ℕ := 32
def i2cTimeDefaultValue : ℤ := 0x0003
def i2cTimeClrValue : ℤ := 0x0000
def i2cMaxStandardModeFreq : ℤ := 100000
def i2cMaxFastModeFreq : ℤ := 400000
def i2cMaxFastModePlusFreq : ℤ := 1000000
def i2cMaxHighSpeedModeFreq : ℤ := 3400000
def i2cStandardModeBuffer : ℤ := 1000 / 3
def i2cFastModeBuffer : ℤ := 300 / 3
def i2cFastModePlusBuffer : ℤ := 20 / 3

/-- A row of `SPECS`. -/
structure Spec where
  minLowNs : ℤ
  minSuStaNs : ℤ
  maxHdDatNs : ℤ
  minSuDatNs : ℤ

def specStandard : Spec :=
  ⟨4700 + i2cStandardModeBuffer, 4700 + i2cStandardModeBuffer, 3450 - i2cStandardModeBuffer,
    250 + i2cStandardModeBuffer⟩

def specFast : Spec :=
  ⟨1300 + i2cFastModeBuffer, 600 + i2cFastModeBuffer, 900 - i2cFastModeBuffer,
    100 + i2cFastModeBuffer⟩

def specFastPlus : Spec :=
  ⟨500 + i2cFastModePlusBuffer, 260 + i2cFastModePlusBuffer, 400 - i2cFastModePlusBuffer,
    50 + i2cFastModePlusBuffer⟩

/-- `div_round_up`. -/
def divRoundUp (a b : ℤ) : Except PyError ℤ := floorDiv (a + b - 1) b

/-- `get_spec`. -/
def getSpec (speed : ℤ) : Spec :=
  if speed ≤ i2cMaxStandardModeFreq then specStandard
  else if speed ≤ i2cMaxFastModeFreq then specFast
  else specFastPlus

/-- `max_step_cnt`. -/
def maxStepCnt (speed : ℤ) : ℤ :=
  if speed > i2cMaxFastModePlusFreq then maxHsStepCntDiv else maxStepCntDiv

/-- The registers. -/
structure AcTiming where
  htiming : ℤ := 0
  ltiming : ℤ := 0
  hs : ℤ := 0
  ext : ℤ := 0
  interClkDiv : ℤ := 0
  sdaTiming : ℤ := 0
  deriving DecidableEq

/-- `clk_div_restri`. -/
def clkDivRestri (ac : AcTiming) (sampleCnt : ℤ) : ℤ :=
  if sampleCnt = 1 then
    if ac.interClkDiv = 0 then 0 else 1
  else if ac.interClkDiv = 0 then -1
  else if ac.interClkDiv = 1 then 0
  else 1

/-- The registers of a speed up to fast mode plus. -/
def AcTiming.program (ac : AcTiming) (sampleCnt highCnt lowCnt suStaCnt sda : ℤ) : AcTiming :=
  { ac with
    htiming := (shl sampleCnt 8).lor highCnt
    ltiming := (shl sampleCnt 6).lor lowCnt
    ext := (shl suStaCnt 8).lor 1
    sdaTiming := (shl 1 12).lor sda }

/-- The registers of a high speed, in the fields that the slower speed leaves. -/
def AcTiming.programHs (ac : AcTiming) (sampleCnt highCnt lowCnt suStaCnt sda : ℤ) : AcTiming :=
  { ac with
    hs := (i2cTimeDefaultValue.lor (shl sampleCnt 12)).lor (shl highCnt 8)
    ltiming := (ac.ltiming.land (~~~0xFE00)).lor ((shl sampleCnt 12).lor (shl lowCnt 9))
    ext := (ac.ext.land (~~~0x00FE)).lor ((shl suStaCnt 1).lor 1)
    sdaTiming := (ac.sdaTiming.land (~~~0x0FC0)).lor ((shl 1 12).lor (shl sda 6)) }

/-- `check_ac_timing`: the status, and the registers. -/
def checkAcTiming (ac : AcTiming) (clkSrc checkSpeed stepCnt sampleCnt sclIntDelayNs : ℤ) :
    Except PyError (ℤ × AcTiming) := do
  let spec := getSpec checkSpeed
  let maxStaCnt := 0x100
  let sampleNs ← floorDiv (hzPerGhz * (sampleCnt + 1)) clkSrc
  let clkNs ← floorDiv hzPerGhz clkSrc
  let suStaCnt ← divRoundUp (spec.minSuStaNs + sclIntDelayNs) clkNs
  if suStaCnt > maxStaCnt then
    return (-1, ac)
  let lowNs ← divRoundUp spec.minLowNs sampleNs
  if ¬(2 * stepCnt > lowNs ∧ lowNs < maxStepCnt checkSpeed) then
    return (-2, ac)
  let highCnt := if lowNs > stepCnt then 2 * stepCnt - lowNs else stepCnt
  let lowCnt := if lowNs > stepCnt then lowNs else stepCnt
  let hold ← floorDiv spec.maxHdDatNs sampleNs
  let sdaMax := if hold > lowCnt then 0 else hold
  let setUp ← divRoundUp spec.minSuDatNs sampleNs
  let sdaMin := if setUp < lowCnt then 0 else setUp
  if sdaMin > sdaMax then
    return (-3, ac)
  let sda := (sdaMax + sdaMin).fdiv 2
  if checkSpeed > i2cMaxFastModePlusFreq then
    return (0, ac.programHs sampleCnt highCnt lowCnt suStaCnt sda)
  else
    return (0, ac.program sampleCnt highCnt lowCnt suStaCnt sda)

/-- What the search of `calculate_speed` keeps. -/
structure Search where
  ac : AcTiming
  bestMul : ℤ
  baseStepCnt : ℤ
  baseSampleCnt : ℤ
  ret : ℤ
  restri : ℤ

/-- One sample count, and whether the search ends with it. -/
def Search.step (clkSrc targetSpeed optDiv : ℤ) (s : Search) (sampleCnt : ℤ) :
    Except PyError (Search × Bool) := do
  let s := { s with restri := clkDivRestri s.ac sampleCnt }
  let stepCnt ← divRoundUp (optDiv + s.restri) sampleCnt
  let cntMul := stepCnt * sampleCnt
  if stepCnt > maxStepCnt targetSpeed then
    return (s, false)
  if ¬cntMul < s.bestMul then
    return (s, false)
  let (ret, ac) ← checkAcTiming s.ac clkSrc targetSpeed (stepCnt - 1) (sampleCnt - 1) 0
  let s := { s with ret, ac }
  if ret ≠ 0 then
    return (s, false)
  return ({ s with bestMul := cntMul, baseSampleCnt := sampleCnt, baseStepCnt := stepCnt },
    cntMul == optDiv + s.restri)

/-- The sample counts one after the other. -/
def Search.run (clkSrc targetSpeed optDiv : ℤ) (s : Search) : List ℤ → Except PyError Search
  | [] => return s
  | sampleCnt :: sampleCnts => do
    let (s, done) ← s.step clkSrc targetSpeed optDiv sampleCnt
    if done then return s else s.run clkSrc targetSpeed optDiv sampleCnts

/-- `range(1, n + 1)`. -/
def countUpTo (n : ℕ) : List ℤ := (List.range' 1 n).map Int.ofNat

/-- `calculate_speed`: the step and the sample count less one each, and the registers. -/
def calculateSpeed (ac : AcTiming) (clkSrc targetSpeed : ℤ) :
    Except PyError (Option (ℤ × ℤ) × AcTiming) := do
  let targetSpeed :=
    if targetSpeed > i2cMaxHighSpeedModeFreq then i2cMaxHighSpeedModeFreq else targetSpeed
  let msc := maxStepCnt targetSpeed
  let optDiv ← divRoundUp (clkSrc >>> 1) targetSpeed
  let s : Search := ⟨ac, maxSampleCntDiv * msc, msc, maxSampleCntDiv, -1, 0⟩
  let s ← s.run clkSrc targetSpeed optDiv (countUpTo maxSampleCntDiv)
  if s.ret ≠ 0 then
    return (none, s.ac)
  let busHz ← floorDiv clkSrc (2 * (s.baseSampleCnt * s.baseStepCnt - s.restri))
  if busHz > targetSpeed then
    return (none, s.ac)
  return (some (s.baseStepCnt - 1, s.baseSampleCnt - 1), s.ac)

/-- What `set_speed` returns. -/
structure SpeedTiming where
  clkDiv : ℤ
  clkSrc : ℤ
  timingReg : ℤ
  hsReg : ℤ
  ltimingReg : ℤ
  ac : AcTiming
  busHz : ℤ
  deriving DecidableEq

/-- `bus_hz`. -/
def busHz (ac : AcTiming) (clkSrc lStep lSample : ℤ) : Except PyError ℤ :=
  floorDiv clkSrc (2 * ((lSample + 1) * (lStep + 1) - clkDivRestri ac (lSample + 1)))

/-- One clock divider of `set_speed`. -/
def trySpeed (parentClk targetSpeed clkDiv : ℤ) : Except PyError (Option SpeedTiming) := do
  let ac : AcTiming := { interClkDiv := clkDiv - 1 }
  let clkSrc ← floorDiv parentClk clkDiv
  if targetSpeed > i2cMaxFastModePlusFreq then
    let (some (lStep, lSample), ac) ← calculateSpeed ac clkSrc i2cMaxFastModeFreq | return none
    let timingReg := (shl lSample 8).lor lStep
    let (some (step, sample), ac) ← calculateSpeed ac clkSrc targetSpeed | return none
    let hsReg := (i2cTimeDefaultValue.lor (shl sample 12)).lor (shl step 8)
    let ltimingReg :=
      (((shl lSample 6).lor lStep).lor (shl sample 12)).lor (shl step 9)
    return some ⟨clkDiv, clkSrc, timingReg, hsReg, ltimingReg, ac,
      ← busHz ac clkSrc lStep lSample⟩
  else
    let (some (lStep, lSample), ac) ← calculateSpeed ac clkSrc targetSpeed | return none
    let timingReg := (shl lSample 8).lor lStep
    let ltimingReg := (shl lSample 6).lor lStep
    return some ⟨clkDiv, clkSrc, timingReg, i2cTimeClrValue, ltimingReg, ac,
      ← busHz ac clkSrc lStep lSample⟩

/-- The clock dividers one after the other, up to one with a timing. -/
def firstSpeed (parentClk targetSpeed : ℤ) : List ℤ → Except PyError (Option SpeedTiming)
  | [] => return none
  | clkDiv :: clkDivs => do
    match ← trySpeed parentClk targetSpeed clkDiv with
    | some t => return some t
    | none => firstSpeed parentClk targetSpeed clkDivs

/-- `set_speed`. -/
def setSpeed (parentClk targetSpeed clkSrcDiv : ℤ) : Except PyError (Option SpeedTiming) := do
  let parentClk ← floorDiv parentClk clkSrcDiv
  firstSpeed parentClk targetSpeed (countUpTo maxClockDiv5Bits)

/-! ## Rounding -/

theorem floorDiv_of_pos (a : ℤ) {b : ℤ} (h : 0 < b) : floorDiv a b = .ok (a / b) := by
  rw [floorDiv, if_neg h.ne', Int.fdiv_eq_ediv_of_nonneg a h.le]

theorem divRoundUp_of_pos (a : ℤ) {b : ℤ} (h : 0 < b) :
    divRoundUp a b = .ok ((a + b - 1) / b) :=
  floorDiv_of_pos _ h

theorem le_roundUp_mul (a : ℤ) {b : ℤ} (h : 0 < b) : a ≤ (a + b - 1) / b * b := by
  have hlt : a + b - 1 < ((a + b - 1) / b + 1) * b := Int.lt_ediv_add_one_mul_self _ h
  linarith

theorem roundUp_pos {a b : ℤ} (ha : 0 < a) (hb : 0 < b) : 0 < (a + b - 1) / b :=
  (Int.le_ediv_iff_mul_le hb).mpr (by omega)

theorem shl_lor {a b : ℤ} {n : ℕ} (ha : 0 ≤ a) (hb : 0 ≤ b) (h : b < 2 ^ n) :
    (shl a n).lor b = a * 2 ^ n + b := by
  lift a to ℕ using ha
  lift b to ℕ using hb
  have hlt : b < 2 ^ n := by exact_mod_cast h
  have hnat : a <<< n ||| b = a * 2 ^ n + b := by
    rw [← Nat.shiftLeft_add_eq_or_of_lt hlt, Nat.shiftLeft_eq]
  exact_mod_cast congrArg Int.ofNat hnat

/-! ## One check -/

/-- The counts keep the specification of the speed, and fit their fields. -/
structure Counts (clkSrc speed stepCnt sampleCnt highCnt lowCnt suStaCnt sda : ℤ) : Prop where
  sum : highCnt + lowCnt = 2 * stepCnt
  low_ns : (getSpec speed).minLowNs * clkSrc ≤ (lowCnt + 1) * (sampleCnt + 1) * hzPerGhz
  su_sta_ns : (getSpec speed).minSuStaNs * clkSrc ≤ suStaCnt * hzPerGhz
  high : 0 ≤ highCnt ∧ highCnt < 64
  low : 0 ≤ lowCnt ∧ lowCnt < 64
  su_sta : 0 ≤ suStaCnt ∧ suStaCnt < 256
  sda : 0 ≤ sda ∧ sda < 64
  step : 1 ≤ stepCnt

theorem AcTiming.program_congr {ac ac' : AcTiming} (hhs : ac.hs = ac'.hs)
    (hdiv : ac.interClkDiv = ac'.interClkDiv) (sampleCnt highCnt lowCnt suStaCnt sda : ℤ) :
    ac.program sampleCnt highCnt lowCnt suStaCnt sda
      = ac'.program sampleCnt highCnt lowCnt suStaCnt sda := by
  rw [AcTiming.program, AcTiming.program, hhs, hdiv]

section

variable {clkSrc speed : ℤ}

theorem getSpec_pos (speed : ℤ) :
    0 < (getSpec speed).minLowNs ∧ 0 < (getSpec speed).minSuStaNs ∧
      0 < (getSpec speed).maxHdDatNs ∧ 0 < (getSpec speed).minSuDatNs := by
  unfold getSpec
  split_ifs <;> decide

/-- A time that is rounded up to periods that are rounded down lasts long enough. -/
theorem roundUp_periods {ns : ℤ} (hns : 0 ≤ ns) {hz c : ℤ} (hc : 0 < c) (hpos : 0 < hz / c) :
    ns * c ≤ (ns + hz / c - 1) / (hz / c) * hz := by
  set q := (ns + hz / c - 1) / (hz / c)
  have hq : ns ≤ q * (hz / c) := le_roundUp_mul ns hpos
  have hq0 : 0 ≤ q := Int.ediv_nonneg (by omega) hpos.le
  calc ns * c ≤ q * (hz / c) * c := by gcongr
    _ = q * (hz / c * c) := mul_assoc _ _ _
    _ ≤ q * hz := by
      have := Int.ediv_mul_le hz hc.ne'
      gcongr

/-- The largest set-up count of the check is never reached: no row of the table has a set-up time
of between 255 and 256 equal periods of whole nanoseconds. -/
theorem suStaCnt_lt (speed : ℤ) {clkNs : ℤ} (h : 0 < clkNs)
    (hle : ((getSpec speed).minSuStaNs + 0 + clkNs - 1) / clkNs ≤ 256) :
    ((getSpec speed).minSuStaNs + 0 + clkNs - 1) / clkNs < 256 := by
  apply lt_of_le_of_ne hle
  intro heq
  have hlow := Int.ediv_mul_le ((getSpec speed).minSuStaNs + 0 + clkNs - 1) h.ne'
  have hhigh := Int.lt_ediv_add_one_mul_self ((getSpec speed).minSuStaNs + 0 + clkNs - 1) h
  rw [heq] at hlow hhigh
  revert hlow hhigh
  unfold getSpec
  split_ifs
  · have hns : specStandard.minSuStaNs = 5033 := by decide
    omega
  · have hns : specFast.minSuStaNs = 700 := by decide
    omega
  · have hns : specFastPlus.minSuStaNs = 266 := by decide
    omega

/-- **What one check does.** It refuses the counts and leaves the registers, or it programs counts
that keep the specification. -/
theorem checkAcTiming_cases (hclk : 0 < clkSrc) (hclk' : clkSrc ≤ hzPerGhz)
    (hspeed : speed ≤ i2cMaxFastModePlusFreq) {stepCnt sampleCnt : ℤ} (hstep : stepCnt < 64)
    (hsample : 0 ≤ sampleCnt) :
    (∃ e, e ≠ 0 ∧ ∀ ac, checkAcTiming ac clkSrc speed stepCnt sampleCnt 0 = .ok (e, ac)) ∨
    ∃ highCnt lowCnt suStaCnt sda,
      Counts clkSrc speed stepCnt sampleCnt highCnt lowCnt suStaCnt sda ∧
      ∀ ac, checkAcTiming ac clkSrc speed stepCnt sampleCnt 0
        = .ok (0, ac.program sampleCnt highCnt lowCnt suStaCnt sda) := by
  obtain ⟨hlowNs, hsuNs, hholdNs, hsetUpNs⟩ := getSpec_pos speed
  have hhz : hzPerGhz ≤ hzPerGhz * (sampleCnt + 1) := by
    unfold hzPerGhz
    omega
  have hclkNs : 0 < hzPerGhz / clkSrc := (Int.le_ediv_iff_mul_le hclk).mpr (by linarith)
  have hsampleNs : 0 < hzPerGhz * (sampleCnt + 1) / clkSrc :=
    (Int.le_ediv_iff_mul_le hclk).mpr (by linarith)
  have hlow0 := roundUp_pos hlowNs hsampleNs
  have hlowPeriods := roundUp_periods hlowNs.le hclk hsampleNs
  have hsu0 := roundUp_pos hsuNs hclkNs
  have hsuPeriods := roundUp_periods hsuNs.le hclk hclkNs
  have hsuLt := suStaCnt_lt speed hclkNs
  have hhold0 : 0 ≤ (getSpec speed).maxHdDatNs / (hzPerGhz * (sampleCnt + 1) / clkSrc) :=
    Int.ediv_nonneg hholdNs.le hsampleNs.le
  have hsetUp0 := roundUp_pos hsetUpNs hsampleNs
  have hmsc : maxStepCnt speed = 64 := if_neg (not_lt.mpr hspeed)
  simp only [checkAcTiming, floorDiv_of_pos _ hclk, divRoundUp_of_pos _ hclkNs,
    divRoundUp_of_pos _ hsampleNs, floorDiv_of_pos _ hsampleNs, bind, Except.bind, pure,
    Except.pure, hmsc, if_neg (not_lt.mpr hspeed), add_zero] at hsuLt ⊢
  -- from here on the counts are any numbers with these bounds
  generalize ((getSpec speed).minSuStaNs + hzPerGhz / clkSrc - 1) / (hzPerGhz / clkSrc) = suStaCnt
    at *
  generalize ((getSpec speed).minLowNs + hzPerGhz * (sampleCnt + 1) / clkSrc - 1) /
    (hzPerGhz * (sampleCnt + 1) / clkSrc) = lowNs at *
  generalize (getSpec speed).maxHdDatNs / (hzPerGhz * (sampleCnt + 1) / clkSrc) = hold at *
  generalize ((getSpec speed).minSuDatNs + hzPerGhz * (sampleCnt + 1) / clkSrc - 1) /
    (hzPerGhz * (sampleCnt + 1) / clkSrc) = setUp at *
  by_cases hsta : suStaCnt > 256
  · exact .inl ⟨-1, by decide, fun ac ↦ if_pos hsta⟩
  by_cases hfit : 2 * stepCnt > lowNs ∧ lowNs < 64
  swap
  · exact .inl ⟨-2, by decide, fun ac ↦ (if_neg hsta).trans (if_pos hfit)⟩
  have hlowCnt : lowNs ≤ (if lowNs > stepCnt then lowNs else stepCnt) ∧
      (if lowNs > stepCnt then lowNs else stepCnt) < 64 := by
    split_ifs <;> omega
  have hhighCnt : 0 ≤ (if lowNs > stepCnt then 2 * stepCnt - lowNs else stepCnt) ∧
      (if lowNs > stepCnt then 2 * stepCnt - lowNs else stepCnt) < 64 := by
    split_ifs <;> omega
  have hsum : (if lowNs > stepCnt then 2 * stepCnt - lowNs else stepCnt) +
      (if lowNs > stepCnt then lowNs else stepCnt) = 2 * stepCnt := by
    split_ifs <;> omega
  generalize (if lowNs > stepCnt then 2 * stepCnt - lowNs else stepCnt) = highCnt at *
  generalize (if lowNs > stepCnt then lowNs else stepCnt) = lowCnt at *
  have hsdaMax : 0 ≤ (if hold > lowCnt then 0 else hold) ∧
      (if hold > lowCnt then 0 else hold) < 64 := by
    split_ifs <;> omega
  have hsdaMin : 0 ≤ (if setUp < lowCnt then 0 else setUp) := by
    split_ifs <;> omega
  generalize (if hold > lowCnt then 0 else hold) = sdaMax at *
  generalize (if setUp < lowCnt then 0 else setUp) = sdaMin at *
  by_cases hsda : sdaMin > sdaMax
  · exact .inl ⟨-3, by decide,
      fun ac ↦ (if_neg hsta).trans ((if_neg (not_not.mpr hfit)).trans (if_pos hsda))⟩
  refine .inr ⟨highCnt, lowCnt, suStaCnt, (sdaMax + sdaMin).fdiv 2, ?_,
    fun ac ↦ (if_neg hsta).trans ((if_neg (not_not.mpr hfit)).trans (if_neg hsda))⟩
  have hperiods : lowNs * (hzPerGhz * (sampleCnt + 1))
      ≤ (lowCnt + 1) * (sampleCnt + 1) * hzPerGhz := by
    have hle : lowNs ≤ lowCnt + 1 := by omega
    have hhz0 : 0 ≤ hzPerGhz * (sampleCnt + 1) := le_trans (by decide) hhz
    calc lowNs * (hzPerGhz * (sampleCnt + 1))
        ≤ (lowCnt + 1) * (hzPerGhz * (sampleCnt + 1)) := by gcongr
      _ = (lowCnt + 1) * (sampleCnt + 1) * hzPerGhz := by rw [mul_comm hzPerGhz, mul_assoc]
  refine ⟨hsum, hlowPeriods.trans hperiods, hsuPeriods, hhighCnt, ⟨by omega, hlowCnt.2⟩,
    ⟨by omega, by omega⟩, ?_, by omega⟩
  rw [Int.fdiv_eq_ediv_of_nonneg _ (by decide)]
  omega

/-! ## The search -/

theorem clkDivRestri_congr {ac ac' : AcTiming} (h : ac.interClkDiv = ac'.interClkDiv)
    {sampleCnt sampleCnt' : ℤ} (hs : sampleCnt = 1 ↔ sampleCnt' = 1) :
    clkDivRestri ac sampleCnt = clkDivRestri ac' sampleCnt' := by
  unfold clkDivRestri
  rw [h]
  simp only [hs]

theorem clkDivRestri_le (ac : AcTiming) (sampleCnt : ℤ) : clkDivRestri ac sampleCnt ≤ 1 := by
  unfold clkDivRestri
  split_ifs <;> decide

/-- The base counts of a search passed the check, and the registers and the correction are
theirs. -/
structure Search.Found (ac : AcTiming) (clkSrc speed : ℤ) (s : Search) : Prop where
  sample : 1 ≤ s.baseSampleCnt ∧ s.baseSampleCnt ≤ 8
  step : s.baseStepCnt ≤ 64
  restri : s.restri = clkDivRestri ac s.baseSampleCnt
  check : checkAcTiming ac clkSrc speed (s.baseStepCnt - 1) (s.baseSampleCnt - 1) 0 = .ok (0, s.ac)
  counts : ∃ highCnt lowCnt suStaCnt sda,
    Counts clkSrc speed (s.baseStepCnt - 1) (s.baseSampleCnt - 1) highCnt lowCnt suStaCnt sda ∧
      s.ac = ac.program (s.baseSampleCnt - 1) highCnt lowCnt suStaCnt sda

/-- What a search keeps. -/
structure Search.Sound (ac : AcTiming) (clkSrc speed : ℤ) (s : Search) : Prop where
  hs : s.ac.hs = ac.hs
  interClkDiv : s.ac.interClkDiv = ac.interClkDiv
  found : s.ret = 0 → s.Found ac clkSrc speed

/-- The correction of another sample count is the one of the base count, if neither count is 1. -/
theorem Search.Sound.restri {ac : AcTiming} {s : Search} (h : s.Sound ac clkSrc speed)
    {sampleCnt : ℤ} (hopen : s.ret = 0 → s.baseSampleCnt ≠ 1 ∧ sampleCnt ≠ 1) :
    Search.Sound ac clkSrc speed { s with restri := clkDivRestri s.ac sampleCnt } := by
  refine ⟨h.hs, h.interClkDiv, fun hret ↦ ?_⟩
  obtain ⟨hbase, hsample⟩ := hopen hret
  have hfound := h.found hret
  exact ⟨hfound.sample, hfound.step, clkDivRestri_congr h.interClkDiv (by simp [hbase, hsample]),
    hfound.check, hfound.counts⟩

/-- One sample count of the search. With the count 1 the product is the divider itself, so a
success ends the search, and its correction is not replaced by another count's. -/
theorem Search.step_spec (hclk : 0 < clkSrc) (hclk' : clkSrc ≤ hzPerGhz)
    (hspeed : speed ≤ i2cMaxFastModePlusFreq) (optDiv : ℤ) {ac : AcTiming} {s : Search}
    (h : s.Sound ac clkSrc speed) {sampleCnt : ℤ} (hsample : 1 ≤ sampleCnt ∧ sampleCnt ≤ 8)
    (hopen : s.ret = 0 → s.baseSampleCnt ≠ 1 ∧ sampleCnt ≠ 1) :
    ∃ s' done, s.step clkSrc speed optDiv sampleCnt = .ok (s', done) ∧
      s'.Sound ac clkSrc speed ∧ (done = false → s'.ret = 0 → s'.baseSampleCnt ≠ 1) := by
  have hkept := h.restri hopen
  have hmsc : maxStepCnt speed = 64 := if_neg (not_lt.mpr hspeed)
  simp only [Search.step, divRoundUp_of_pos _ (show 0 < sampleCnt by omega), bind, Except.bind,
    pure, Except.pure, hmsc]
  set s₁ : Search := { s with restri := clkDivRestri s.ac sampleCnt } with hs₁
  by_cases hstep : (optDiv + s₁.restri + sampleCnt - 1) / sampleCnt > 64
  · exact ⟨s₁, false, if_pos hstep, hkept, fun _ hret ↦ (hopen hret).1⟩
  rw [if_neg hstep]
  by_cases hmul : (optDiv + s₁.restri + sampleCnt - 1) / sampleCnt * sampleCnt < s₁.bestMul
  swap
  · exact ⟨s₁, false, if_pos hmul, hkept, fun _ hret ↦ (hopen hret).1⟩
  rw [if_neg (not_not.mpr hmul)]
  rcases checkAcTiming_cases hclk hclk' hspeed
    (show (optDiv + s₁.restri + sampleCnt - 1) / sampleCnt - 1 < 64 by omega)
    (show 0 ≤ sampleCnt - 1 by omega) with ⟨e, he, hcheck⟩ | ⟨high, low, su, sda, hcounts, hcheck⟩
  · -- a failed check only leaves its status
    rw [hcheck]
    exact ⟨_, false, if_pos he, ⟨h.hs, h.interClkDiv, fun hret ↦ absurd hret he⟩,
      fun _ hret ↦ absurd hret he⟩
  · rw [hcheck]
    refine ⟨_, _, if_neg (by simp), ⟨h.hs, h.interClkDiv, fun _ ↦ ?_⟩, ?_⟩
    · have hac := AcTiming.program_congr h.hs h.interClkDiv (sampleCnt - 1) high low su sda
      exact ⟨hsample, not_lt.mp hstep, clkDivRestri_congr h.interClkDiv Iff.rfl, (hcheck ac).trans
        (by rw [hac]), high, low, su, sda, hcounts, hac⟩
    · intro hdone _ hone
      subst hone
      simp at hdone

theorem Search.run_spec (hclk : 0 < clkSrc) (hclk' : clkSrc ≤ hzPerGhz)
    (hspeed : speed ≤ i2cMaxFastModePlusFreq) (optDiv : ℤ) {ac : AcTiming} {s : Search}
    (h : s.Sound ac clkSrc speed) (hopen : s.ret = 0 → s.baseSampleCnt ≠ 1) {l : List ℤ}
    (hl : ∀ sampleCnt ∈ l, 2 ≤ sampleCnt ∧ sampleCnt ≤ 8) :
    ∃ s', s.run clkSrc speed optDiv l = .ok s' ∧ s'.Sound ac clkSrc speed := by
  induction l generalizing s with
  | nil => exact ⟨s, rfl, h⟩
  | cons sampleCnt l ih =>
    obtain ⟨hsample, hl⟩ := List.forall_mem_cons.mp hl
    obtain ⟨s', done, hstep, hsound, hdone⟩ := Search.step_spec hclk hclk' hspeed optDiv h
      (show 1 ≤ sampleCnt ∧ sampleCnt ≤ 8 by omega) fun hret ↦ ⟨hopen hret, by omega⟩
    rw [Search.run, hstep]
    cases done with
    | true => exact ⟨s', rfl, hsound⟩
    | false => exact ih hsound (hdone rfl) hl

/-- **One clock.** `calculate_speed` returns, and the counts that it returns passed the check, with
a bus clock of at most the target. -/
theorem calculateSpeed_spec (hclk : 0 < clkSrc) (hclk' : clkSrc ≤ hzPerGhz) (hpos : 0 < speed)
    (hspeed : speed ≤ i2cMaxFastModePlusFreq) (ac : AcTiming) :
    ∃ r ac', calculateSpeed ac clkSrc speed = .ok (r, ac') ∧
      ∀ stepCnt sampleCnt, r = some (stepCnt, sampleCnt) →
        (0 ≤ sampleCnt ∧ sampleCnt < 8) ∧ stepCnt < 64 ∧
        checkAcTiming ac clkSrc speed stepCnt sampleCnt 0 = .ok (0, ac') ∧
        (∃ highCnt lowCnt suStaCnt sda,
          Counts clkSrc speed stepCnt sampleCnt highCnt lowCnt suStaCnt sda ∧
            ac' = ac.program sampleCnt highCnt lowCnt suStaCnt sda) ∧
        ∃ hz ≤ speed, busHz ac' clkSrc stepCnt sampleCnt = .ok hz := by
  have hhigh : ¬speed > i2cMaxHighSpeedModeFreq := by
    unfold i2cMaxHighSpeedModeFreq
    unfold i2cMaxFastModePlusFreq at hspeed
    omega
  simp only [calculateSpeed, if_neg hhigh, divRoundUp_of_pos _ hpos, bind, Except.bind, pure,
    Except.pure]
  generalize (clkSrc >>> 1 + speed - 1) / speed = optDiv
  set s₀ : Search := ⟨ac, maxSampleCntDiv * maxStepCnt speed, maxStepCnt speed, maxSampleCntDiv,
    -1, 0⟩ with hs₀
  have hret₀ : s₀.ret ≠ 0 := show (-1 : ℤ) ≠ 0 by decide
  have hsound₀ : s₀.Sound ac clkSrc speed := ⟨rfl, rfl, fun hret ↦ absurd hret hret₀⟩
  have hrun : ∃ s, s₀.run clkSrc speed optDiv (countUpTo maxSampleCntDiv) = .ok s ∧
      s.Sound ac clkSrc speed := by
    obtain ⟨s₁, done, hstep, hsound, hdone⟩ := Search.step_spec hclk hclk' hspeed optDiv hsound₀
      (show 1 ≤ (1 : ℤ) ∧ (1 : ℤ) ≤ 8 by decide) fun hret ↦ absurd hret hret₀
    rw [show countUpTo maxSampleCntDiv = 1 :: [2, 3, 4, 5, 6, 7, 8] from rfl, Search.run, hstep]
    cases done with
    | true => exact ⟨s₁, rfl, hsound⟩
    | false => exact Search.run_spec hclk hclk' hspeed optDiv hsound (hdone rfl) (by simp)
  obtain ⟨s, hs, hsound⟩ := hrun
  rw [hs]
  by_cases hret : s.ret = 0
  swap
  · exact ⟨none, s.ac, if_pos hret, fun _ _ heq ↦ absurd heq (by simp)⟩
  obtain ⟨⟨hsample, hsample'⟩, hstep, hrestri, hcheck, high, low, su, sda, hcounts, hac⟩ :=
    hsound.found hret
  have hdiv : 0 < 2 * (s.baseSampleCnt * s.baseStepCnt - s.restri) := by
    have hle := clkDivRestri_le ac s.baseSampleCnt
    have htwo : 2 ≤ s.baseStepCnt := by
      have := hcounts.step
      omega
    have hmul : s.baseStepCnt ≤ s.baseSampleCnt * s.baseStepCnt :=
      le_mul_of_one_le_left (by omega) hsample
    omega
  simp only [if_neg (not_not.mpr hret), floorDiv_of_pos _ hdiv]
  by_cases hbus : clkSrc / (2 * (s.baseSampleCnt * s.baseStepCnt - s.restri)) > speed
  · exact ⟨none, s.ac, if_pos hbus, fun _ _ heq ↦ absurd heq (by simp)⟩
  refine ⟨_, _, if_neg hbus, ?_⟩
  rintro _ _ ⟨rfl, rfl⟩
  refine ⟨by omega, by omega, hcheck, ⟨high, low, su, sda, hcounts, hac⟩, _, not_lt.mp hbus, ?_⟩
  -- the correction that the search ended with is the one of the base count
  rw [busHz, sub_add_cancel, sub_add_cancel, clkDivRestri_congr hsound.interClkDiv Iff.rfl,
    ← hrestri, floorDiv_of_pos _ hdiv]

end

/-! ## Every parent clock -/

/-- A result is sound: its registers are those that its own step count, sample count and divider
compute, and the counts in them keep the specification of the target speed. -/
structure SpeedTiming.Sound (parentClk targetSpeed : ℤ) (t : SpeedTiming)
    (stepCnt sampleCnt highCnt lowCnt suStaCnt : ℤ) : Prop where
  clkDiv : 1 ≤ t.clkDiv ∧ t.clkDiv ≤ maxClockDiv5Bits
  clkSrc : t.clkSrc = parentClk / t.clkDiv
  timingReg : t.timingReg = sampleCnt * 2 ^ 8 + stepCnt
  computed : checkAcTiming { interClkDiv := t.clkDiv - 1 } t.clkSrc targetSpeed stepCnt sampleCnt 0
    = .ok (0, t.ac)
  htiming : t.ac.htiming = sampleCnt * 2 ^ 8 + highCnt
  ltiming : t.ac.ltiming = sampleCnt * 2 ^ 6 + lowCnt
  ext : t.ac.ext = suStaCnt * 2 ^ 8 + 1
  sum : highCnt + lowCnt = 2 * stepCnt
  busHz_le : t.busHz ≤ targetSpeed
  low_ns : (getSpec targetSpeed).minLowNs * t.clkSrc ≤ (lowCnt + 1) * (sampleCnt + 1) * hzPerGhz
  su_sta_ns : (getSpec targetSpeed).minSuStaNs * t.clkSrc ≤ suStaCnt * hzPerGhz
  fits : ∀ reg ∈ [t.ac.htiming, t.ac.ltiming, t.ac.ext, t.ac.sdaTiming], 0 ≤ reg ∧ reg < 2 ^ 16
  step : 0 ≤ stepCnt ∧ stepCnt < 64
  high : 0 ≤ highCnt ∧ highCnt < 64
  low : 0 ≤ lowCnt ∧ lowCnt < 64
  sample : 0 ≤ sampleCnt ∧ sampleCnt < 8
  su_sta : 0 ≤ suStaCnt ∧ suStaCnt < 256

section

variable {parentClk targetSpeed : ℤ}

theorem trySpeed_spec (hparent : 32 ≤ parentClk ∧ parentClk ≤ 10 ^ 9)
    (htarget : 1 ≤ targetSpeed ∧ targetSpeed ≤ 10 ^ 6) {clkDiv : ℤ}
    (hdiv : 1 ≤ clkDiv ∧ clkDiv ≤ 32) :
    ∃ r, trySpeed parentClk targetSpeed clkDiv = .ok r ∧ ∀ t, r = some t →
      ∃ stepCnt sampleCnt highCnt lowCnt suStaCnt,
        t.Sound parentClk targetSpeed stepCnt sampleCnt highCnt lowCnt suStaCnt := by
  have hdiv0 : 0 < clkDiv := by omega
  have hclk : 0 < parentClk / clkDiv := (Int.le_ediv_iff_mul_le hdiv0).mpr (by omega)
  have hclk' : parentClk / clkDiv ≤ hzPerGhz :=
    (Int.ediv_le_self _ (by omega)).trans hparent.2
  have hspeed : targetSpeed ≤ i2cMaxFastModePlusFreq := htarget.2
  obtain ⟨r, ac', hcalc, hr⟩ := calculateSpeed_spec hclk hclk' (by omega) hspeed
    { interClkDiv := clkDiv - 1 }
  simp only [trySpeed, floorDiv_of_pos _ hdiv0, if_neg (not_lt.mpr hspeed), bind, Except.bind, pure,
    Except.pure, hcalc]
  cases r with
  | none => exact ⟨none, rfl, fun _ heq ↦ absurd heq (by simp)⟩
  | some counts =>
    obtain ⟨stepCnt, sampleCnt⟩ := counts
    obtain ⟨hsample, hstep, hcheck, ⟨high, low, su, sda, hcounts, hac⟩, hz, hle, hbus⟩ :=
      hr _ _ rfl
    dsimp only
    rw [hbus]
    refine ⟨_, rfl, ?_⟩
    rintro _ ⟨rfl⟩
    -- each register is a shift and an or of counts that do not overlap
    have hstep0 : 0 ≤ stepCnt := by
      have := hcounts.step
      omega
    have hh : ac'.htiming = sampleCnt * 2 ^ 8 + high := by
      rw [hac]
      exact shl_lor (n := 8) hsample.1 hcounts.high.1 (by have := hcounts.high; omega)
    have hl : ac'.ltiming = sampleCnt * 2 ^ 6 + low := by
      rw [hac]
      exact shl_lor (n := 6) hsample.1 hcounts.low.1 hcounts.low.2
    have he : ac'.ext = su * 2 ^ 8 + 1 := by
      rw [hac]
      exact shl_lor (b := 1) (n := 8) hcounts.su_sta.1 (by decide) (by decide)
    have hs : ac'.sdaTiming = 1 * 2 ^ 12 + sda := by
      rw [hac]
      exact shl_lor (a := 1) (n := 12) (by decide) hcounts.sda.1
        (by have := hcounts.sda; omega)
    refine ⟨stepCnt, sampleCnt, high, low, su, hdiv, rfl,
      shl_lor (n := 8) hsample.1 hstep0 (by omega), hcheck, hh, hl, he, hcounts.sum, hle,
      hcounts.low_ns, hcounts.su_sta_ns, ?_, ⟨hstep0, hstep⟩, hcounts.high, hcounts.low, hsample,
      hcounts.su_sta⟩
    obtain ⟨-, -, -, hhigh, hlow, hsu, hsda, -⟩ := hcounts
    intro reg hreg
    simp only [List.mem_cons, List.not_mem_nil, or_false] at hreg
    rcases hreg with rfl | rfl | rfl | rfl <;> omega

theorem firstSpeed_spec (hparent : 32 ≤ parentClk ∧ parentClk ≤ 10 ^ 9)
    (htarget : 1 ≤ targetSpeed ∧ targetSpeed ≤ 10 ^ 6) {clkDivs : List ℤ}
    (hdivs : ∀ clkDiv ∈ clkDivs, 1 ≤ clkDiv ∧ clkDiv ≤ 32) :
    ∃ r, firstSpeed parentClk targetSpeed clkDivs = .ok r ∧ ∀ t, r = some t →
      ∃ stepCnt sampleCnt highCnt lowCnt suStaCnt,
        t.Sound parentClk targetSpeed stepCnt sampleCnt highCnt lowCnt suStaCnt := by
  induction clkDivs with
  | nil => exact ⟨none, rfl, fun _ heq ↦ absurd heq (by simp)⟩
  | cons clkDiv clkDivs ih =>
    obtain ⟨hdiv, hdivs⟩ := List.forall_mem_cons.mp hdivs
    obtain ⟨r, htry, hr⟩ := trySpeed_spec hparent htarget hdiv
    rw [firstSpeed, htry]
    cases r with
    | none => exact ih hdivs
    | some t => exact ⟨some t, rfl, hr⟩

theorem mem_countUpTo {n : ℕ} {a : ℤ} (h : a ∈ countUpTo n) : 1 ≤ a ∧ a ≤ n := by
  obtain ⟨i, hi, rfl⟩ := List.mem_map.mp h
  have := List.mem_range'_1.mp hi
  constructor <;> simp only [Int.ofNat_eq_natCast] <;> omega

/-- **The timing calculator is sound.** For every parent clock and every target speed of the
controller it returns, and a result that it returns is sound. -/
theorem setSpeed_sound (hparent : 32 ≤ parentClk ∧ parentClk ≤ 10 ^ 9)
    (htarget : 1 ≤ targetSpeed ∧ targetSpeed ≤ 10 ^ 6) :
    ∃ r, setSpeed parentClk targetSpeed 1 = .ok r ∧ ∀ t, r = some t →
      ∃ stepCnt sampleCnt highCnt lowCnt suStaCnt,
        t.Sound parentClk targetSpeed stepCnt sampleCnt highCnt lowCnt suStaCnt := by
  have hone : floorDiv parentClk 1 = .ok parentClk := by
    rw [floorDiv_of_pos _ one_pos, Int.ediv_one]
  rw [setSpeed, hone]
  exact firstSpeed_spec hparent htarget fun clkDiv hmem ↦ mem_countUpTo hmem

end

/-! ## The fast mode of a 124.8 MHz clock -/

/-- The registers of a table of the driver. -/
def AcTiming.ofTable (t : MtkI2cTiming) : AcTiming :=
  ⟨t.timing.toNat, t.ltiming.toNat, t.hs.toNat, t.extConf.toNat, t.clockDiv.toNat,
    t.sdaTiming.toNat⟩

/-- The driver's table is what the calculator prints. -/
theorem setSpeed_fast : setSpeed 124800000 400000 1
    = .ok (some ⟨1, 124800000, 0x041E, 0x0000, 0x011E, .ofTable gMtkTiming124M8Fast,
      400000⟩) := by
  decide +kernel

theorem setSpeed_sound_fast : ∃ t, setSpeed 124800000 400000 1 = .ok (some t) ∧
    ∃ stepCnt sampleCnt highCnt lowCnt suStaCnt,
      t.Sound 124800000 400000 stepCnt sampleCnt highCnt lowCnt suStaCnt := by
  obtain ⟨r, hr, hsound⟩ := setSpeed_sound
    (show 32 ≤ (124800000 : ℤ) ∧ (124800000 : ℤ) ≤ 10 ^ 9 by decide)
    (show 1 ≤ (400000 : ℤ) ∧ (400000 : ℤ) ≤ 10 ^ 6 by decide)
  rw [setSpeed_fast] at hr
  cases hr
  exact ⟨_, setSpeed_fast, hsound _ rfl⟩

end MtkTiming

end TouchI2c
