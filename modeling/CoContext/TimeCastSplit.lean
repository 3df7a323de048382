import CoContext.ChronoTicks
import CoContext.TimeCast

/-!
# The split into seconds and nanoseconds

The casts of `to_kernel_timespec` for a count of ticks that fits the common
type: the seconds are the quotient and the nanoseconds are what the rest of
the division holds of them, both truncated towards zero.
-/

namespace CoContext.TimeCast

open Duration

/-- The common type of the count of a duration and that of the bias. -/
structure Common (common : IntType) : Prop where
  isWide : 64 ≤ common.bits
  withInt64 : IntType.common common .int64 = common

theorem common_of_rep (rep : IntType) : Common (IntType.common rep .int64) := by
  rcases IntType.common_int64 rep with ⟨isInt64, -⟩ | ⟨isRep, isWide⟩
  · rw [isInt64]
    exact ⟨by decide, by decide⟩
  · rw [isRep]
    exact ⟨isWide, isRep⟩

theorem common_rep (rep : IntType) :
    IntType.common (IntType.common rep .int64) rep =
      IntType.common rep .int64 := by
  rcases IntType.common_int64 rep with ⟨isInt64, -⟩ | ⟨isRep, isWide⟩
  · rw [isInt64, IntType.common_comm, isInt64]
  · rw [isRep]
    exact IntType.common_self (by omega)

section Split

variable {common : IntType} {period : Rat} {sum : Int}

/-- A sum of ticks. -/
def ofTicks (common : IntType) (period : Rat) (sum : Int) : Duration :=
  ⟨common, (ticksPerSecond period : Rat)⁻¹, sum⟩

theorem Common.int64With (isCommon : Common common) :
    IntType.common .int64 common = common := by
  rw [IntType.common_comm, isCommon.withInt64]

theorem Common.promoted_eq (isCommon : Common common) :
    common.promoted = common := by
  have isWide := isCommon.isWide
  refine if_neg ?_
  change ¬ common.bits < 32
  omega

theorem ticks_ne_zero (period : Rat) : (ticksPerSecond period : Rat) ≠ 0 := by
  exact_mod_cast (ticksPerSecond_pos period).ne'

/-- `duration_cast<seconds>(duration)` -/
theorem durationCast_seconds (isCommon : Common common)
    (secondLt : ticksPerSecond period < 2 ^ 63) (fits : common.Fits sum) :
    (ofTicks common period sum).durationCast .int64 1 =
      some (seconds
        (IntType.int64.convert (sum.tdiv (ticksPerSecond period)))) := by
  have factorEq : (ofTicks common period sum).period / 1 =
      (ticksPerSecond period : Rat)⁻¹ := by
    rw [ofTicks, div_one]
  have wideEq : IntType.common
      (IntType.common .int64 (ofTicks common period sum).rep) .int64 =
        common := by
    rw [ofTicks, isCommon.int64With, isCommon.withInt64]
  rw [durationCast_div wideEq isCommon.isWide fits factorEq
    (ticksPerSecond_pos period) secondLt, seconds, ofTicks]

/-- The conversions of both operands of `duration - sec`. -/
theorem durationCast_ticks (isCommon : Common common)
    (fits : common.Fits sum) :
    (ofTicks common period sum).durationCast common
      (ticksPerSecond period : Rat)⁻¹ = some (ofTicks common period sum) := by
  have isWide := isCommon.isWide
  have factorEq : (ofTicks common period sum).period /
      (ticksPerSecond period : Rat)⁻¹ = ((1 : Nat) : Rat) := by
    rw [ofTicks, div_self (inv_ne_zero (ticks_ne_zero period)), Nat.cast_one]
  have wideEq : IntType.common
      (IntType.common common (ofTicks common period sum).rep) .int64 =
        common := by
    rw [ofTicks, IntType.common_self (by omega), isCommon.withInt64]
  rw [durationCast_mul wideEq isWide factorEq (by omega), ofTicks,
    IntType.convert_of_fits fits, IntType.mul, Nat.cast_one, Int.mul_one,
    IntType.result_of_fits fits, Option.map_some]

theorem seconds_durationCast (isCommon : Common common)
    (secondLt : ticksPerSecond period < 2 ^ 63) (sec : Int) :
    (seconds sec).durationCast common (ticksPerSecond period : Rat)⁻¹ =
      (common.mul (common.convert sec) (ticksPerSecond period)).map
        (ofTicks common period) := by
  have factorEq : (seconds sec).period / (ticksPerSecond period : Rat)⁻¹ =
      ticksPerSecond period := by
    rw [seconds, one_div, inv_inv]
  have wideEq : IntType.common
      (IntType.common common (seconds sec).rep) .int64 = common := by
    rw [seconds, isCommon.withInt64, isCommon.withInt64]
  rw [durationCast_mul wideEq isCommon.isWide factorEq secondLt, seconds]
  rfl

/-- `duration_cast<nanoseconds>(duration - sec)` -/
theorem durationCast_nanoseconds (isCommon : Common common)
    (secondLt : ticksPerSecond period < 2 ^ 63) (fits : common.Fits sum) :
    (ofTicks common period sum).durationCast .int64 (1000000000 : Rat)⁻¹ =
      some (nanoseconds
        (IntType.int64.convert (sum.tdiv (ticksPerNanosecond period)))) := by
  have secondEq := ticksPerSecond_eq period
  have factorEq : (ofTicks common period sum).period /
      (1000000000 : Rat)⁻¹ = (ticksPerNanosecond period : Rat)⁻¹ := by
    rw [ofTicks, secondEq]
    push_cast
    field_simp
  have wideEq : IntType.common
      (IntType.common .int64 (ofTicks common period sum).rep) .int64 =
        common := by
    rw [ofTicks, isCommon.int64With, isCommon.withInt64]
  rw [durationCast_div wideEq isCommon.isWide fits factorEq
    (ticksPerNanosecond_pos period) (by omega), nanoseconds, ofTicks]

/-- `duration - sec` -/
theorem sub_seconds (isCommon : Common common)
    (secondLt : ticksPerSecond period < 2 ^ 63) (fits : common.Fits sum)
    (sec : Int) :
    (ofTicks common period sum).sub (seconds sec) =
      (common.mul (common.convert sec) (ticksPerSecond period)).bind
        fun product => (common.sub sum product).map (ofTicks common period) := by
  have repEq : IntType.common (ofTicks common period sum).rep
      (seconds sec).rep = common := isCommon.withInt64
  have periodEq : commonPeriod (ofTicks common period sum).period
      (seconds sec).period = (ticksPerSecond period : Rat)⁻¹ :=
    commonPeriod_second period
  rw [Duration.sub, arithmetic]
  simp only [repEq, periodEq]
  rw [durationCast_ticks isCommon fits, Option.bind_some,
    seconds_durationCast isCommon secondLt, isCommon.promoted_eq]
  cases common.mul (common.convert sec) (ticksPerSecond period) with
  | none => rfl
  | some product =>
      rw [Option.map_some, Option.bind_some, Option.bind_some]
      simp only [ofTicks]
      cases restEq : common.sub sum product with
      | none => rfl
      | some rest =>
          rw [Option.map_some, Option.map_some,
            IntType.convert_of_fits (IntType.fits_of_result restEq)]
          rfl

/-- The split of a sum of ticks into seconds and nanoseconds. -/
theorem toKernelTimespec_eq (isCommon : Common common)
    (secondLt : ticksPerSecond period < 2 ^ 63) (fits : common.Fits sum) :
    toKernelTimespec (ofTicks common period sum) =
      (common.mul (common.convert (IntType.int64.convert
        (sum.tdiv (ticksPerSecond period)))) (ticksPerSecond period)).bind
          fun product => (common.sub sum product).map fun rest =>
            ⟨IntType.int64.convert (sum.tdiv (ticksPerSecond period)),
              IntType.int64.convert
                (rest.tdiv (ticksPerNanosecond period))⟩ := by
  rw [toKernelTimespec, durationCast_seconds isCommon secondLt fits,
    Option.bind_some, sub_seconds isCommon secondLt fits]
  generalize IntType.int64.convert (sum.tdiv (ticksPerSecond period)) = sec
  cases common.mul (common.convert sec) (ticksPerSecond period) with
  | none => rfl
  | some product =>
      rw [Option.bind_some, Option.bind_some]
      cases restEq : common.sub sum product with
      | none => rfl
      | some rest =>
          rw [Option.map_some, Option.bind_some, Option.map_some,
            durationCast_nanoseconds isCommon secondLt
              (IntType.fits_of_result restEq), Option.map_some, seconds,
            nanoseconds]

/-- A remainder is nearer to zero, too, and less than the divisor. -/
theorem tmod_between (sum : Int) {divisor : Nat} (divisorPos : 0 < divisor) :
    (0 ≤ sum.tmod divisor ∧ sum.tmod divisor ≤ sum ∨
      sum ≤ sum.tmod divisor ∧ sum.tmod divisor ≤ 0) ∧
    -(divisor : Int) < sum.tmod divisor ∧ sum.tmod divisor < divisor := by
  have positive : (0 : Int) < divisor := by exact_mod_cast divisorPos
  by_cases nonneg : 0 ≤ sum
  · have lower := Int.tmod_nonneg divisor nonneg
    have upper := Int.tmod_lt_of_pos sum positive
    have quotientNonneg : 0 ≤ sum.tdiv divisor * divisor :=
      Int.mul_nonneg (Int.tdiv_nonneg nonneg positive.le) positive.le
    have split := Int.tdiv_mul_add_tmod sum divisor
    omega
  · have lower := Int.tmod_nonneg (a := -sum) divisor (by omega)
    have upper := Int.tmod_lt_of_pos (-sum) positive
    have quotientNonneg : 0 ≤ (-sum).tdiv divisor * divisor :=
      Int.mul_nonneg (Int.tdiv_nonneg (by omega) positive.le) positive.le
    have split := Int.tdiv_mul_add_tmod (-sum) divisor
    rw [Int.neg_tmod] at lower upper split
    omega

/-- The nanoseconds of less than a second. -/
theorem tdiv_bounds {rest : Int}
    (lower : -(ticksPerSecond period : Int) < rest)
    (upper : rest < ticksPerSecond period) :
    -1000000000 < rest.tdiv (ticksPerNanosecond period) ∧
      rest.tdiv (ticksPerNanosecond period) < 1000000000 := by
  have secondEq := ticksPerSecond_eq period
  have positive : (0 : Int) < ticksPerNanosecond period := by
    exact_mod_cast ticksPerNanosecond_pos period
  have below {part : Int} (nonneg : 0 ≤ part)
      (partLt : part < ticksPerSecond period) :
      0 ≤ part.tdiv (ticksPerNanosecond period) ∧
        part.tdiv (ticksPerNanosecond period) < 1000000000 := by
    refine ⟨Int.tdiv_nonneg nonneg positive.le, ?_⟩
    rw [Int.tdiv_eq_ediv_of_nonneg nonneg]
    apply Int.ediv_lt_of_lt_mul positive
    rw [secondEq] at partLt
    exact_mod_cast partLt
  by_cases nonneg : 0 ≤ rest
  · have bounds := below nonneg upper
    omega
  · have bounds := below (by omega : 0 ≤ -rest) (by omega)
    rw [Int.neg_tdiv] at bounds
    omega

/-- The split is exact if the seconds fit 64 bits. -/
theorem toKernelTimespec_exact (isCommon : Common common)
    (secondLt : ticksPerSecond period < 2 ^ 63) (fits : common.Fits sum)
    (secFits : IntType.int64.Fits (sum.tdiv (ticksPerSecond period))) :
    toKernelTimespec (ofTicks common period sum) =
      some ⟨sum.tdiv (ticksPerSecond period),
        (sum.tmod (ticksPerSecond period)).tdiv
          (ticksPerNanosecond period)⟩ := by
  obtain ⟨restBetween, restLower, restUpper⟩ :=
    tmod_between sum (ticksPerSecond_pos period)
  have split := Int.tdiv_mul_add_tmod sum (ticksPerSecond period)
  have productFits : common.Fits
      (sum.tdiv (ticksPerSecond period) * ticksPerSecond period) :=
    fits.between (by omega)
  have restEq : sum -
      sum.tdiv (ticksPerSecond period) * ticksPerSecond period =
        sum.tmod (ticksPerSecond period) := by
    omega
  have nsec := tdiv_bounds restLower restUpper
  have nsecFits : IntType.int64.Fits
      ((sum.tmod (ticksPerSecond period)).tdiv
        (ticksPerNanosecond period)) := by
    rw [IntType.fits_signed rfl]
    simp only [IntType.int64]
    omega
  rw [toKernelTimespec_eq isCommon secondLt fits,
    IntType.convert_of_fits secFits, IntType.convert_of_fits (fits.tdiv _),
    IntType.mul, IntType.result_of_fits productFits, Option.bind_some,
    IntType.sub, restEq, IntType.result_of_fits (fits.between restBetween),
    Option.map_some, IntType.convert_of_fits nsecFits]

/-- The two parts of a sum that is not negative. -/
theorem split_nonneg (nonneg : 0 ≤ sum) :
    sum.tdiv (ticksPerSecond period) * 1000000000 +
      (sum.tmod (ticksPerSecond period)).tdiv (ticksPerNanosecond period) =
        sum / ticksPerNanosecond period := by
  have positive : (0 : Int) < ticksPerNanosecond period := by
    exact_mod_cast ticksPerNanosecond_pos period
  have secondEq := ticksPerSecond_cast period
  have restNonneg := Int.emod_nonneg sum
    (by omega : (ticksPerSecond period : Int) ≠ 0)
  have sumEq : sum = sum % ticksPerSecond period +
      ticksPerNanosecond period *
        (sum / ticksPerSecond period * 1000000000) := by
    have split := Int.emod_add_mul_ediv sum (ticksPerSecond period)
    calc sum = sum % ticksPerSecond period +
          ticksPerSecond period * (sum / ticksPerSecond period) := split.symm
      _ = _ := by rw [secondEq]; ring
  rw [Int.tdiv_eq_ediv_of_nonneg nonneg, Int.tmod_eq_emod_of_nonneg nonneg,
    Int.tdiv_eq_ediv_of_nonneg restNonneg]
  conv_rhs => rw [sumEq, Int.add_mul_ediv_left _ _ positive.ne']
  exact Int.add_comm _ _

end Split

end CoContext.TimeCast
