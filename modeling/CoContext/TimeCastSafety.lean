import CoContext.TimeCastSplit

/-!
# When a timeout is valid

A duration and the bias are added in ticks, of which a nanosecond has a whole
number.  The split into seconds and nanoseconds is right if the sum is not
below zero: both casts truncate towards zero, so a sum of a nanosecond or more
below zero gives negative nanoseconds, and in an unsigned type such a sum
wraps around.
-/

namespace CoContext.TimeCast

open Duration

/-- A duration that is not negative and whose nanoseconds fit 64 bits, with
ratios that the compiler can represent. -/
structure Timeout where
  duration : Duration
  period_pos : 0 < duration.period
  fits : duration.rep.Fits duration.count
  nonneg : 0 ≤ duration.count
  representable : duration.toNanoseconds < 2 ^ 63
  second_lt : ticksPerSecond duration.period < 2 ^ 63
  factor_lt : ticksPerPeriod duration.period < 2 ^ 63

namespace Timeout

variable (t : Timeout)

/-- The type in which the sum is computed. -/
def common : IntType :=
  IntType.common t.duration.rep .int64

/-- The count of the duration in ticks. -/
def ticks : Int :=
  t.duration.count * ticksPerPeriod t.duration.period

/-- The same with the bias. -/
def sum : Int :=
  t.ticks + timeoutBiasNanosecond * ticksPerNanosecond t.duration.period

/-- The ticks fit a signed common type, and the sum is above minus one
nanosecond; an unsigned common type must hold the sum. -/
def Admissible : Prop :=
  if t.common.signed then
    t.common.Fits t.ticks ∧
      -1 < t.duration.toNanoseconds + timeoutBiasNanosecond
  else
    t.common.Fits t.sum

theorem isCommon : Common t.common :=
  common_of_rep t.duration.rep

theorem nanosecond_bounds :
    (0 : Int) < ticksPerNanosecond t.duration.period ∧
      1000000000 * (ticksPerNanosecond t.duration.period : Int) < 2 ^ 63 := by
  have positive := ticksPerNanosecond_pos t.duration.period
  have secondEq := ticksPerSecond_eq t.duration.period
  have secondLt := t.second_lt
  omega

theorem ticks_nonneg : 0 ≤ t.ticks :=
  Int.mul_nonneg t.nonneg (Int.natCast_nonneg _)

theorem sum_eq :
    t.sum = t.ticks - 30000 * ticksPerNanosecond t.duration.period := by
  rw [sum, timeoutBiasNanosecond]
  omega

/-- Ticks in nanoseconds. -/
theorem toNanoseconds_eq :
    t.duration.toNanoseconds =
      (t.ticks : Rat) / (ticksPerNanosecond t.duration.period : Rat) := by
  have nanosecondNe : (ticksPerNanosecond t.duration.period : Rat) ≠ 0 := by
    exact_mod_cast (ticksPerNanosecond_pos t.duration.period).ne'
  have periodEq := period_mul t.period_pos
  rw [ticksPerSecond_eq] at periodEq
  push_cast at periodEq
  rw [eq_div_iff nanosecondNe, toNanoseconds, ticks]
  push_cast
  rw [← periodEq]
  ring

theorem biased_eq :
    t.duration.toNanoseconds + timeoutBiasNanosecond =
      (t.sum : Rat) / (ticksPerNanosecond t.duration.period : Rat) := by
  have nanosecondNe : (ticksPerNanosecond t.duration.period : Rat) ≠ 0 := by
    exact_mod_cast (ticksPerNanosecond_pos t.duration.period).ne'
  rw [toNanoseconds_eq, sum]
  push_cast
  field_simp

/-- The nanoseconds that are expected. -/
theorem floor_eq :
    ⌊max 0 (t.duration.toNanoseconds + timeoutBiasNanosecond)⌋ =
      max 0 (t.sum / ticksPerNanosecond t.duration.period) := by
  rw [biased_eq, Int.floor_mono.map_max, Int.floor_zero,
    Rat.floor_intCast_div_natCast]

theorem biased_gt_iff :
    -1 < t.duration.toNanoseconds + timeoutBiasNanosecond ↔
      -(ticksPerNanosecond t.duration.period : Int) < t.sum := by
  have nanosecondPos : (0 : Rat) < ticksPerNanosecond t.duration.period := by
    exact_mod_cast ticksPerNanosecond_pos t.duration.period
  rw [biased_eq, lt_div_iff₀ nanosecondPos, neg_one_mul]
  exact_mod_cast Iff.rfl

theorem ticks_lt :
    t.ticks < 2 ^ 63 * ticksPerNanosecond t.duration.period := by
  have nanosecondPos : (0 : Rat) < ticksPerNanosecond t.duration.period := by
    exact_mod_cast ticksPerNanosecond_pos t.duration.period
  have representable := t.representable
  rw [toNanoseconds_eq, div_lt_iff₀ nanosecondPos] at representable
  exact_mod_cast representable

/-- The cast of the duration to ticks. -/
theorem durationCast_duration :
    t.duration.durationCast t.common
        (ticksPerSecond t.duration.period : Rat)⁻¹ =
      (t.common.mul t.duration.count
        (ticksPerPeriod t.duration.period)).map
          (ofTicks t.common t.duration.period) := by
  have countFits : t.common.Fits t.duration.count := by
    rcases IntType.common_int64 t.duration.rep with ⟨isInt64, fits⟩ |
      ⟨isRep, -⟩
    · rw [common, isInt64]
      exact fits _ t.nonneg t.fits
    · rw [common, isRep]
      exact t.fits
  have wideEq : IntType.common
      (IntType.common t.common t.duration.rep) .int64 = t.common := by
    rw [common, common_rep, ← common, t.isCommon.withInt64]
  have factorEq : t.duration.period /
      (ticksPerSecond t.duration.period : Rat)⁻¹ =
        ticksPerPeriod t.duration.period := by
    rw [div_inv_eq_mul, period_mul t.period_pos]
  rw [durationCast_mul wideEq t.isCommon.isWide factorEq t.factor_lt,
    IntType.convert_of_fits countFits]
  rfl

/-- The cast of the bias to ticks. -/
theorem durationCast_bias :
    (nanoseconds timeoutBiasNanosecond).durationCast t.common
        (ticksPerSecond t.duration.period : Rat)⁻¹ =
      (t.common.mul (t.common.convert timeoutBiasNanosecond)
        (ticksPerNanosecond t.duration.period)).map
          (ofTicks t.common t.duration.period) := by
  have nanosecondLt : ticksPerNanosecond t.duration.period < 2 ^ 63 := by
    have bounds := t.nanosecond_bounds
    omega
  have wideEq : IntType.common (IntType.common t.common
      (nanoseconds timeoutBiasNanosecond).rep) .int64 = t.common := by
    rw [nanoseconds, t.isCommon.withInt64, t.isCommon.withInt64]
  have factorEq : (nanoseconds timeoutBiasNanosecond).period /
      (ticksPerSecond t.duration.period : Rat)⁻¹ =
        ticksPerNanosecond t.duration.period := by
    rw [nanoseconds, div_inv_eq_mul, ticksPerSecond_eq]
    push_cast
    field_simp
  rw [durationCast_mul wideEq t.isCommon.isWide factorEq nanosecondLt,
    nanoseconds]
  rfl

/-- The sum in the common type. -/
theorem add_bias :
    t.duration.add (nanoseconds timeoutBiasNanosecond) =
      (t.common.mul t.duration.count
        (ticksPerPeriod t.duration.period)).bind fun ticks =>
          (t.common.mul (t.common.convert timeoutBiasNanosecond)
            (ticksPerNanosecond t.duration.period)).bind fun bias =>
              (t.common.add ticks bias).map
                (ofTicks t.common t.duration.period) := by
  have repEq : IntType.common t.duration.rep
      (nanoseconds timeoutBiasNanosecond).rep = t.common := rfl
  have periodEq : commonPeriod t.duration.period
      (nanoseconds timeoutBiasNanosecond).period =
        (ticksPerSecond t.duration.period : Rat)⁻¹ :=
    commonPeriod_nanosecond t.duration.period
  rw [Duration.add, arithmetic]
  simp only [repEq, periodEq]
  rw [t.durationCast_duration, t.durationCast_bias, t.isCommon.promoted_eq]
  cases t.common.mul t.duration.count (ticksPerPeriod t.duration.period) with
  | none => rfl
  | some ticks =>
      rw [Option.map_some, Option.bind_some, Option.bind_some]
      cases t.common.mul (t.common.convert timeoutBiasNanosecond)
          (ticksPerNanosecond t.duration.period) with
      | none => rfl
      | some bias =>
          rw [Option.map_some, Option.bind_some, Option.bind_some]
          simp only [ofTicks]
          cases sumEq : t.common.add ticks bias with
          | none => rfl
          | some sum =>
              rw [Option.map_some, Option.map_some,
                IntType.convert_of_fits (IntType.fits_of_result sumEq)]
              rfl

theorem toKernelTimespecBiased_eq :
    toKernelTimespecBiased t.duration =
      (t.duration.add (nanoseconds timeoutBiasNanosecond)).bind
        toKernelTimespec :=
  if_neg (by decide)

/-- The seconds of the sum fit 64 bits. -/
theorem sec_fits : IntType.int64.Fits
    (t.sum.tdiv (ticksPerSecond t.duration.period)) := by
  have bounds := t.nanosecond_bounds
  have nonneg := t.ticks_nonneg
  have ticksLt := t.ticks_lt
  have sumEq := t.sum_eq
  have secondEq := ticksPerSecond_cast t.duration.period
  rw [IntType.fits_signed rfl]
  simp only [IntType.int64]
  by_cases sumNonneg : 0 ≤ t.sum
  · have quotientNonneg := Int.tdiv_nonneg sumNonneg
      (by omega : (0 : Int) ≤ ticksPerSecond t.duration.period)
    have quotientLt : t.sum.tdiv (ticksPerSecond t.duration.period) <
        2 ^ 63 := by
      rw [Int.tdiv_eq_ediv_of_nonneg sumNonneg]
      apply Int.ediv_lt_of_lt_mul (by omega)
      omega
    omega
  · have between := IntType.tdiv_between t.sum
      (ticksPerSecond t.duration.period)
    omega

/-- The split of the sum is valid if it is above minus one nanosecond. -/
theorem valid_of_sum (fits : t.common.Fits t.sum) :
    Valid t.duration
        (toKernelTimespec (ofTicks t.common t.duration.period t.sum)) ↔
      -(ticksPerNanosecond t.duration.period : Int) < t.sum := by
  have bounds := t.nanosecond_bounds
  have nonneg := t.ticks_nonneg
  have sumEq := t.sum_eq
  have secondEq := ticksPerSecond_cast t.duration.period
  rw [toKernelTimespec_exact t.isCommon t.second_lt fits t.sec_fits]
  by_cases sumNonneg : 0 ≤ t.sum
  · refine iff_of_true ?_ (by omega)
    obtain ⟨-, restLower, restUpper⟩ :=
      tmod_between t.sum (ticksPerSecond_pos t.duration.period)
    have nsecBounds := tdiv_bounds restLower restUpper
    have restNonneg := Int.tmod_nonneg
      (ticksPerSecond t.duration.period : Int) sumNonneg
    have expected : max 0 (t.sum / ticksPerNanosecond t.duration.period) =
        t.sum / ticksPerNanosecond t.duration.period :=
      max_eq_right (Int.ediv_nonneg sumNonneg bounds.1.le)
    refine ⟨_, rfl, Int.tdiv_nonneg sumNonneg (by omega),
      Int.tdiv_nonneg restNonneg bounds.1.le, nsecBounds.2, ?_⟩
    rw [split_nonneg sumNonneg, floor_eq, expected]
  · have oppositeNonneg : 0 ≤ -t.sum := by omega
    have secEq : t.sum.tdiv (ticksPerSecond t.duration.period) = 0 := by
      have isZero := Int.tdiv_eq_zero_of_lt oppositeNonneg
        (by omega : -t.sum < ticksPerSecond t.duration.period)
      rw [Int.neg_tdiv] at isZero
      omega
    have restEq : t.sum.tmod (ticksPerSecond t.duration.period) = t.sum := by
      have split := Int.tdiv_mul_add_tmod t.sum
        (ticksPerSecond t.duration.period)
      rw [secEq] at split
      omega
    have expected : max 0 (t.sum / ticksPerNanosecond t.duration.period) =
        0 :=
      max_eq_left (Int.ediv_neg_of_neg_of_pos (by omega) bounds.1).le
    rw [secEq, restEq]
    constructor
    · rintro ⟨spec, specEq, -, nsecNonneg, -⟩
      rw [Option.some.injEq] at specEq
      subst specEq
      by_contra atMost
      have atLeast : 1 ≤ (-t.sum).tdiv
          (ticksPerNanosecond t.duration.period) := by
        rw [Int.tdiv_eq_ediv_of_nonneg oppositeNonneg]
        apply Int.le_ediv_of_mul_le bounds.1
        omega
      rw [Int.neg_tdiv] at atLeast
      change 0 ≤ t.sum.tdiv (ticksPerNanosecond t.duration.period) at nsecNonneg
      omega
    · intro above
      have nsecEq : t.sum.tdiv (ticksPerNanosecond t.duration.period) = 0 := by
        have isZero := Int.tdiv_eq_zero_of_lt oppositeNonneg
          (by omega : -t.sum < ticksPerNanosecond t.duration.period)
        rw [Int.neg_tdiv] at isZero
        omega
      rw [nsecEq]
      exact ⟨_, rfl, by decide, by decide, by decide, by
        rw [floor_eq, expected]
        rfl⟩

/-- A sum that fits a signed common type. -/
theorem sum_fits {t : Timeout} (isSigned : t.common.signed = true)
    (ticksFit : t.common.Fits t.ticks) : t.common.Fits t.sum := by
  have bounds := t.nanosecond_bounds
  have nonneg := t.ticks_nonneg
  have sumEq := t.sum_eq
  have powLe := IntType.pow_le t.isCommon.isWide
  rw [IntType.fits_signed isSigned] at ticksFit ⊢
  omega

section Signed

variable {t : Timeout} (isSigned : t.common.signed = true)

include isSigned

/-- A signed common type must hold the ticks. -/
theorem add_signed :
    t.duration.add (nanoseconds timeoutBiasNanosecond) =
      if t.common.Fits t.ticks then
        some (ofTicks t.common t.duration.period t.sum)
      else
        none := by
  have bounds := t.nanosecond_bounds
  have powLe := IntType.pow_le t.isCommon.isWide
  have lowFits {value : Int} (lower : -2 ^ 62 ≤ value) (upper : value ≤ 0) :
      t.common.Fits value := by
    rw [IntType.fits_signed isSigned]
    omega
  have biasFits : t.common.Fits (timeoutBiasNanosecond *
      ticksPerNanosecond t.duration.period) :=
    lowFits (by rw [timeoutBiasNanosecond]; omega)
      (by rw [timeoutBiasNanosecond]; omega)
  rw [add_bias, IntType.convert_of_fits (lowFits (by decide) (by decide)),
    IntType.mul, ← ticks, IntType.mul, IntType.result_of_fits biasFits,
    IntType.result_signed isSigned]
  split
  · next ticksFit =>
      rw [Option.bind_some, Option.bind_some, IntType.add, ← sum,
        IntType.result_of_fits (sum_fits isSigned ticksFit), Option.map_some]
  · rfl

theorem valid_signed :
    Valid t.duration (toKernelTimespecBiased t.duration) ↔
      t.common.Fits t.ticks ∧
        -(ticksPerNanosecond t.duration.period : Int) < t.sum := by
  have addEq := add_signed isSigned
  by_cases ticksFit : t.common.Fits t.ticks
  · rw [if_pos ticksFit] at addEq
    rw [and_iff_right ticksFit, toKernelTimespecBiased_eq, addEq,
      Option.bind_some]
    exact t.valid_of_sum (sum_fits isSigned ticksFit)
  · rw [if_neg ticksFit] at addEq
    refine iff_of_false ?_ fun both => ticksFit both.1
    rintro ⟨spec, specEq, -⟩
    rw [toKernelTimespecBiased_eq, addEq] at specEq
    cases specEq

end Signed

section Unsigned

variable {t : Timeout} (isUnsigned : t.common.signed = false)

include isUnsigned

/-- In an unsigned common type the sum is reduced. -/
theorem add_unsigned :
    t.duration.add (nanoseconds timeoutBiasNanosecond) =
      some (ofTicks t.common t.duration.period
        (t.sum % 2 ^ t.common.bits)) := by
  have convertEq : t.common.convert timeoutBiasNanosecond =
      timeoutBiasNanosecond % 2 ^ t.common.bits := by
    rw [IntType.convert, if_neg (by simp [isUnsigned])]
  have productEq (factor : Int) :
      timeoutBiasNanosecond % 2 ^ t.common.bits * factor %
          2 ^ t.common.bits =
        timeoutBiasNanosecond * factor % 2 ^ t.common.bits := by
    rw [Int.mul_emod, Int.emod_emod_of_dvd _ (dvd_refl _), ← Int.mul_emod]
  rw [add_bias, IntType.mul, ← ticks, IntType.result_unsigned isUnsigned,
    Option.bind_some, IntType.mul, IntType.result_unsigned isUnsigned,
    Option.bind_some, IntType.add, IntType.result_unsigned isUnsigned,
    Option.map_some, convertEq, productEq, Int.emod_add_emod,
    Int.add_emod_emod, sum]

omit isUnsigned in
/-- A conversion to 64 bits that is not negative is the remainder. -/
theorem convert_nonneg {value : Int}
    (nonneg : 0 ≤ IntType.int64.convert value) :
    IntType.int64.convert value = value % 2 ^ 64 := by
  have convertEq : IntType.int64.convert value = value.bmod (2 ^ 64) := rfl
  rw [convertEq, Int.bmod_def] at nonneg ⊢
  split at nonneg <;> omega

omit isUnsigned in
theorem convert_add_turns {value turns : Int} (nonneg : 0 ≤ value)
    (valueLt : value < 1000000000) :
    IntType.int64.convert (value + 2 ^ 64 * turns) = value := by
  have convertEq : IntType.int64.convert (value + 2 ^ 64 * turns) =
      (value + 2 ^ 64 * turns).bmod (2 ^ 64) := rfl
  rw [convertEq, Int.bmod_def]
  split <;> omega

omit isUnsigned in
/-- Seconds in ticks, of which those that 64 bits do not hold are whole turns
of nanoseconds. -/
theorem mul_ticksPerSecond (period : Rat) (quotient : Int) :
    quotient * ticksPerSecond period =
      quotient % 2 ^ 64 * ticksPerSecond period +
        ticksPerNanosecond period *
          (2 ^ 64 * (1000000000 * (quotient / 2 ^ 64))) := by
  have turnsEq := Int.emod_add_mul_ediv quotient (2 ^ 64)
  conv_lhs => rw [← turnsEq]
  rw [ticksPerSecond_cast]
  ring

omit isUnsigned in
theorem add_mul_tdiv {rest divisor quotient : Int} (restNonneg : 0 ≤ rest)
    (quotientNonneg : 0 ≤ quotient) (divisorPos : 0 < divisor) :
    (rest + divisor * quotient).tdiv divisor =
      rest.tdiv divisor + quotient := by
  have productNonneg := Int.mul_nonneg divisorPos.le quotientNonneg
  rw [Int.tdiv_eq_ediv_of_nonneg (by omega),
    Int.tdiv_eq_ediv_of_nonneg restNonneg,
    Int.add_mul_ediv_left _ _ divisorPos.ne']

/-- If the seconds are not negative, what is missing of the sum is a multiple
of what 64 bits of seconds hold. -/
theorem split_unsigned {sum : Int} (nonneg : 0 ≤ sum)
    (sumLt : sum < 2 ^ t.common.bits) {spec : KernelTimespec}
    (specEq : toKernelTimespec
      (ofTicks t.common t.duration.period sum) = some spec)
    (secNonneg : 0 ≤ spec.tvSec) :
    ∃ turns : Int, 0 ≤ turns ∧
      spec.tvSec * 1000000000 + spec.tvNsec =
        sum / ticksPerNanosecond t.duration.period -
          2 ^ 64 * 1000000000 * turns := by
  have fits : t.common.Fits sum := by
    rw [IntType.fits_unsigned isUnsigned]
    exact ⟨nonneg, sumLt⟩
  have bounds := t.nanosecond_bounds
  have secondEq := ticksPerSecond_cast t.duration.period
  have whole : sum.tdiv (ticksPerSecond t.duration.period) * 1000000000 +
      (sum.tmod (ticksPerSecond t.duration.period)).tdiv
        (ticksPerNanosecond t.duration.period) =
          sum / ticksPerNanosecond t.duration.period := split_nonneg nonneg
  obtain ⟨-, restLower, restUpper⟩ :=
    tmod_between sum (ticksPerSecond_pos t.duration.period)
  have restNonneg := Int.tmod_nonneg
    (ticksPerSecond t.duration.period : Int) nonneg
  have nsecBounds := tdiv_bounds restLower restUpper
  have nsecNonneg := Int.tdiv_nonneg restNonneg bounds.1.le
  have splitSum := Int.tdiv_mul_add_tmod sum (ticksPerSecond t.duration.period)
  have quotientNonneg := Int.tdiv_nonneg nonneg
    (by omega : (0 : Int) ≤ ticksPerSecond t.duration.period)
  rw [toKernelTimespec_eq t.isCommon t.second_lt fits] at specEq
  generalize sum.tdiv (ticksPerSecond t.duration.period) = quotient
    at specEq whole splitSum quotientNonneg
  generalize sum.tmod (ticksPerSecond t.duration.period) = rest
    at whole restNonneg nsecBounds nsecNonneg splitSum
  obtain ⟨product, productEq, mapEq⟩ := Option.bind_eq_some_iff.mp specEq
  obtain ⟨left, leftEq, rfl⟩ := Option.map_eq_some_iff.mp mapEq
  have secEq := convert_nonneg secNonneg
  refine ⟨quotient / 2 ^ 64, Int.ediv_nonneg quotientNonneg (by decide), ?_⟩
  have remainderNonneg := Int.emod_nonneg quotient
    (by decide : (2 : Int) ^ 64 ≠ 0)
  have turnsNonneg := Int.ediv_nonneg quotientNonneg
    (by decide : (0 : Int) ≤ 2 ^ 64)
  have secondNonneg : (0 : Int) ≤ ticksPerSecond t.duration.period := by
    omega
  have quotientLe : quotient ≤ quotient * ticksPerSecond t.duration.period :=
    le_mul_of_one_le_right quotientNonneg (by omega)
  have turnsMul := mul_ticksPerSecond t.duration.period quotient
  have productNonneg : 0 ≤
      quotient % 2 ^ 64 * ticksPerSecond t.duration.period :=
    Int.mul_nonneg remainderNonneg secondNonneg
  have missingNonneg : 0 ≤ (ticksPerNanosecond t.duration.period : Int) *
      (2 ^ 64 * (1000000000 * (quotient / 2 ^ 64))) :=
    Int.mul_nonneg bounds.1.le (by omega)
  have secFits : t.common.Fits (quotient % 2 ^ 64) :=
    fits.between (by omega)
  have productFits : t.common.Fits
      (quotient % 2 ^ 64 * ticksPerSecond t.duration.period) :=
    fits.between (by omega)
  rw [secEq, IntType.convert_of_fits secFits, IntType.mul,
    IntType.result_of_fits productFits, Option.some.injEq] at productEq
  subst productEq
  -- What the difference leaves is the rest and whole turns.
  have leftIs : sum - quotient % 2 ^ 64 * ticksPerSecond t.duration.period =
      rest + ticksPerNanosecond t.duration.period *
        (2 ^ 64 * (1000000000 * (quotient / 2 ^ 64))) := by
    omega
  have leftFits : t.common.Fits (rest + ticksPerNanosecond t.duration.period *
      (2 ^ 64 * (1000000000 * (quotient / 2 ^ 64)))) :=
    fits.between (by omega)
  rw [IntType.sub, leftIs, IntType.result_of_fits leftFits,
    Option.some.injEq] at leftEq
  subst leftEq
  rw [add_mul_tdiv restNonneg (by omega) bounds.1,
    convert_add_turns nsecNonneg nsecBounds.2, secEq]
  dsimp only
  omega

/-- The sum is valid if it did not have to be reduced. -/
theorem valid_unsigned :
    Valid t.duration (toKernelTimespecBiased t.duration) ↔
      t.common.Fits t.sum := by
  have bounds := t.nanosecond_bounds
  have ticksNonneg := t.ticks_nonneg
  have sumEq := t.sum_eq
  have powLe := IntType.pow_le t.isCommon.isWide
  have modulusPos : (0 : Int) < 2 ^ t.common.bits := Int.pow_pos (by decide)
  rw [toKernelTimespecBiased_eq, add_unsigned isUnsigned, Option.bind_some]
  constructor
  · rintro ⟨spec, specEq, secNonneg, -, -, totalEq⟩
    obtain ⟨turns, turnsNonneg, splitEq⟩ := split_unsigned isUnsigned
      (Int.emod_nonneg t.sum modulusPos.ne')
      (Int.emod_lt_of_pos t.sum modulusPos) specEq secNonneg
    rw [floor_eq, splitEq] at totalEq
    rw [IntType.fits_unsigned isUnsigned]
    by_contra outside
    by_cases sumNonneg : 0 ≤ t.sum
    · -- The reduced sum is more than a nanosecond too small.
      have turnPos : 1 ≤ t.sum / 2 ^ t.common.bits :=
        Int.le_ediv_of_mul_le modulusPos (by omega)
      have modulusLe : (2 : Int) ^ t.common.bits ≤
          2 ^ t.common.bits * (t.sum / 2 ^ t.common.bits) :=
        le_mul_of_one_le_right modulusPos.le turnPos
      have reduced := Int.emod_add_mul_ediv t.sum (2 ^ t.common.bits)
      have smaller : (t.sum % 2 ^ t.common.bits +
          ticksPerNanosecond t.duration.period * 1) /
            ticksPerNanosecond t.duration.period ≤
              t.sum / ticksPerNanosecond t.duration.period :=
        Int.ediv_le_ediv bounds.1 (by omega)
      rw [Int.add_mul_ediv_left _ _ bounds.1.ne'] at smaller
      omega
    · -- The reduced sum is less than 64 bits below a multiple of 64 bits.
      have expected : t.sum / ticksPerNanosecond t.duration.period < 0 :=
        Int.ediv_neg_of_neg_of_pos (by omega) bounds.1
      have reduced : t.sum % 2 ^ t.common.bits =
          t.sum + 2 ^ t.common.bits := by
        rw [← Int.add_emod_right]
        exact Int.emod_eq_of_lt (by omega) (by omega)
      have modulusEq : (2 : Int) ^ t.common.bits =
          2 ^ 64 * 2 ^ (t.common.bits - 64) := by
        rw [← pow_add, Nat.add_sub_cancel' t.isCommon.isWide]
      have quotientEq : (t.sum + 2 ^ t.common.bits) /
          ticksPerNanosecond t.duration.period =
            2 ^ 64 * 1000000000 * turns := by
        rw [← reduced]
        omega
      have lower := Int.mul_ediv_self_le (x := t.sum + 2 ^ t.common.bits)
        bounds.1.ne'
      have upper := Int.lt_mul_ediv_self_add (x := t.sum + 2 ^ t.common.bits)
        bounds.1
      have multipleEq : (ticksPerNanosecond t.duration.period : Int) *
          (2 ^ 64 * 1000000000 * turns) =
            2 ^ 64 * (ticksPerNanosecond t.duration.period *
              (1000000000 * turns)) := by
        ring
      rw [quotientEq, multipleEq] at lower upper
      generalize (ticksPerNanosecond t.duration.period : Int) *
        (1000000000 * turns) = multiple at lower upper
      generalize (2 : Int) ^ (t.common.bits - 64) = high at modulusEq
      omega
  · intro fits
    rw [Int.emod_eq_of_lt ((IntType.fits_unsigned isUnsigned).mp fits).1
      ((IntType.fits_unsigned isUnsigned).mp fits).2]
    rw [t.valid_of_sum fits]
    have lower := ((IntType.fits_unsigned isUnsigned).mp fits).1
    omega

end Unsigned

theorem valid_iff :
    Valid t.duration (toKernelTimespecBiased t.duration) ↔ t.Admissible := by
  cases isSigned : t.common.signed with
  | true =>
      rw [valid_signed isSigned, Admissible, if_pos isSigned, biased_gt_iff]
  | false =>
      rw [valid_unsigned isSigned, Admissible, if_neg (by simp [isSigned])]

/-- A time point is converted as the time since its epoch. -/
theorem ofTimePoint_eq (duration : Duration) :
    toKernelTimespecBiasedOfTimePoint ⟨duration⟩ =
      toKernelTimespecBiased duration := by
  rw [toKernelTimespecBiasedOfTimePoint, toKernelTimespecBiased, TimePoint.add]
  cases duration.add (nanoseconds timeoutBiasNanosecond) <;> rfl

/-- The kernel is given a valid timeout exactly if the sum with the bias does
not leave its type and is not a nanosecond or more below zero. -/
theorem toKernelTimespecBiased_valid_iff (t : Timeout) :
    (Valid t.duration (toKernelTimespecBiased t.duration) ↔ t.Admissible) ∧
      (Valid t.duration (toKernelTimespecBiasedOfTimePoint ⟨t.duration⟩) ↔
        t.Admissible) := by
  rw [ofTimePoint_eq]
  exact ⟨t.valid_iff, t.valid_iff⟩

end Timeout

/-- A timeout of zero nanoseconds. -/
def zeroTimeout : Timeout where
  duration := nanoseconds 0
  period_pos := by
    rw [nanoseconds]
    positivity
  fits := by decide
  nonneg := Int.le_refl 0
  representable := by
    rw [toNanoseconds, nanoseconds]
    norm_num
  second_lt := by
    rw [nanoseconds, ticksPerSecond, nanosecond_eq,
      Rat.inv_natCast_den_of_pos (by decide)]
    decide
  factor_lt := by
    rw [nanoseconds, ticksPerPeriod, ticksPerSecond, nanosecond_eq,
      Rat.inv_natCast_num_of_pos (by decide),
      Rat.inv_natCast_den_of_pos (by decide)]
    decide

theorem toKernelTimespecBiased_valid_fails :
    ¬ ∀ t : Timeout, Valid t.duration (toKernelTimespecBiased t.duration) := by
  intro valid
  have admissible := zeroTimeout.valid_iff.mp (valid zeroTimeout)
  rw [Timeout.Admissible, if_pos (by decide)] at admissible
  have above := admissible.2
  have countEq : zeroTimeout.duration.count = 0 := rfl
  rw [toNanoseconds, countEq, timeoutBiasNanosecond] at above
  norm_num at above

end CoContext.TimeCast
