import CoContext.Chrono

/-!
# Ticks of durations

A tick is the period of the common type of a duration and
`std::chrono::nanoseconds`, so that a nanosecond and a period of the duration
are a whole number of ticks.  A cast to ticks multiplies and one from ticks
divides, which truncates towards zero.
-/

namespace CoContext

namespace Duration

/-- The ticks of the common type of a duration and `std::chrono::nanoseconds`:
how many there are in a second, in a nanosecond and in a period. -/
def ticksPerSecond (period : Rat) : Nat :=
  Nat.lcm period.den 1000000000

def ticksPerNanosecond (period : Rat) : Nat :=
  ticksPerSecond period / 1000000000

def ticksPerPeriod (period : Rat) : Nat :=
  period.num.natAbs * (ticksPerSecond period / period.den)

section Ticks

variable {period : Rat}

theorem ticksPerSecond_pos (period : Rat) : 0 < ticksPerSecond period :=
  Nat.lcm_pos period.den_pos (by decide)

theorem ticksPerSecond_eq (period : Rat) :
    ticksPerSecond period = 1000000000 * ticksPerNanosecond period :=
  (Nat.mul_div_cancel' (Nat.dvd_lcm_right _ _)).symm

theorem ticksPerSecond_cast (period : Rat) :
    (ticksPerSecond period : Int) =
      1000000000 * ticksPerNanosecond period := by
  exact_mod_cast ticksPerSecond_eq period

theorem ticksPerNanosecond_pos (period : Rat) :
    0 < ticksPerNanosecond period := by
  have positive := ticksPerSecond_pos period
  rw [ticksPerSecond_eq] at positive
  omega

/-- A period has a whole number of ticks. -/
theorem period_mul (periodPos : 0 < period) :
    period * ticksPerSecond period = ticksPerPeriod period := by
  have numPos := Rat.num_pos.mpr periodPos
  have denNe : (period.den : Rat) ≠ 0 := by
    exact_mod_cast period.den_ne_zero
  have secondEq : ticksPerSecond period =
      period.den * (ticksPerSecond period / period.den) :=
    (Nat.mul_div_cancel' (Nat.dvd_lcm_left _ _)).symm
  have numEq : (period.num.natAbs : Rat) = period.num := by
    rw [← Int.cast_natCast, Int.natAbs_of_nonneg numPos.le]
  have periodEq : period = period.num / period.den :=
    (Rat.num_div_den period).symm
  rw [ticksPerPeriod, Nat.cast_mul, numEq]
  calc period * (ticksPerSecond period : Rat)
      = period.num / period.den * (period.den *
          (ticksPerSecond period / period.den : Nat) : Rat) := by
        rw [← Nat.cast_mul, ← secondEq, ← periodEq]
    _ = period.num * (ticksPerSecond period / period.den : Nat) := by
        field_simp

theorem nanosecond_eq :
    (1000000000 : Rat)⁻¹ = ((1000000000 : Nat) : Rat)⁻¹ := by
  norm_num

/-- The sum of a duration and the bias is counted in ticks. -/
theorem commonPeriod_nanosecond (period : Rat) :
    commonPeriod period (1000000000 : Rat)⁻¹ =
      (ticksPerSecond period : Rat)⁻¹ := by
  rw [commonPeriod, nanosecond_eq, Rat.inv_natCast_num_of_pos (by decide),
    Rat.inv_natCast_den_of_pos (by decide), Int.natAbs_one, Nat.gcd_one_right,
    Nat.cast_one, one_div, ticksPerSecond]

theorem commonPeriod_second (period : Rat) :
    commonPeriod (ticksPerSecond period : Rat)⁻¹ 1 =
      (ticksPerSecond period : Rat)⁻¹ := by
  have positive := ticksPerSecond_pos period
  rw [commonPeriod, Rat.inv_natCast_num_of_pos positive,
    Rat.inv_natCast_den_of_pos positive]
  simp

end Ticks

section Casts

variable {common : IntType} {period : Rat} {d : Duration} {factor : Nat}

/-- A cast to finer periods multiplies. -/
theorem durationCast_mul
    (wideEq : IntType.common (IntType.common common d.rep) .int64 = common)
    (isWide : 64 ≤ common.bits) (factorEq : d.period / period = factor)
    (factorLt : factor < 2 ^ 63) :
    d.durationCast common period =
      (common.mul (common.convert d.count) factor).map fun count =>
        ⟨common, period, count⟩ := by
  have factorFits : common.Fits factor :=
    IntType.fits_natCast factorLt isWide
  rw [durationCast]
  simp only [factorEq, wideEq, Rat.num_natCast, Rat.den_natCast, and_true]
  by_cases isOne : factor = 1
  · subst isOne
    have fits := IntType.fits_convert d.count
      (by omega : 0 < common.bits)
    rw [Nat.cast_one, if_pos rfl, IntType.mul, Int.mul_one,
      IntType.result_of_fits fits]
    rfl
  · rw [if_neg (by exact_mod_cast isOne), if_pos trivial,
      IntType.convert_of_fits factorFits, IntType.mul]
    cases resultEq : common.result (common.convert d.count * factor) with
    | none => rfl
    | some count =>
        rw [Option.map_some, Option.map_some,
          IntType.convert_of_fits (IntType.fits_of_result resultEq)]

/-- A cast to coarser periods divides. -/
theorem durationCast_div {rep : IntType} {divisor : Nat}
    (wideEq : IntType.common (IntType.common rep d.rep) .int64 = common)
    (isWide : 64 ≤ common.bits) (fits : common.Fits d.count)
    (factorEq : d.period / period = (divisor : Rat)⁻¹)
    (divisorPos : 0 < divisor) (divisorLt : divisor < 2 ^ 63) :
    d.durationCast rep period =
      some ⟨rep, period, rep.convert (d.count.tdiv divisor)⟩ := by
  have divisorFits : common.Fits divisor :=
    IntType.fits_natCast divisorLt isWide
  rw [durationCast]
  simp only [factorEq, wideEq, Rat.inv_natCast_num_of_pos divisorPos,
    Rat.inv_natCast_den_of_pos divisorPos, true_and]
  by_cases isOne : divisor = 1
  · subst isOne
    rw [if_pos rfl, Nat.cast_one, Int.tdiv_one]
    rfl
  · have divisorNe : (divisor : Int) ≠ 0 := by omega
    rw [if_neg isOne, if_neg isOne, if_pos trivial,
      IntType.convert_of_fits fits, IntType.convert_of_fits divisorFits,
      IntType.div, if_neg divisorNe,
      IntType.result_of_fits (fits.tdiv divisor)]
    rfl

end Casts

end Duration

end CoContext
