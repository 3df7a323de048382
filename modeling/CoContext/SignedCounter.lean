import Mathlib.Algebra.Order.Ring.Int

/-!
# Counters of 64 signed bits

An atomic counter wraps around at the ends of its range.  Its value is the sum
of what was added to it as long as that sum is in the range.
-/

namespace CoContext.SignedCounter

variable {counter update : Int64}

theorem toInt_add (lower : -2 ^ 63 ≤ counter.toInt + update.toInt)
    (upper : counter.toInt + update.toInt < 2 ^ 63) :
    (counter + update).toInt = counter.toInt + update.toInt := by
  rw [Int64.toInt_add]
  exact Int.bmod_eq_of_le (by omega) (by omega)

/-- Below the greatest value, one more is one more. -/
theorem toInt_add_one (below : counter ≠ .maxValue) :
    (counter + 1).toInt = counter.toInt + 1 := by
  have lower := counter.le_toInt
  have upper := counter.toInt_lt
  have notMax : counter.toInt ≠ 2 ^ 63 - 1 := by
    rw [← Int64.toInt_maxValue]
    exact mt Int64.toInt_inj.mp below
  have oneEq : (1 : Int64).toInt = 1 := rfl
  rw [toInt_add (by omega) (by omega), oneEq]

theorem toInt_sub_one (above : counter ≠ .minValue) :
    (counter - 1).toInt = counter.toInt - 1 := by
  have lower := counter.le_toInt
  have upper := counter.toInt_lt
  have notMin : counter.toInt ≠ -2 ^ 63 := by
    rw [← Int64.toInt_minValue]
    exact mt Int64.toInt_inj.mp above
  have oneEq : (1 : Int64).toInt = 1 := rfl
  rw [Int64.toInt_sub, oneEq]
  exact Int.bmod_eq_of_le (by omega) (by omega)

theorem pos_iff : 0 < counter ↔ 0 < counter.toInt := by
  rw [Int64.lt_iff_toInt_lt, Int64.toInt_zero]

theorem nonneg_iff : 0 ≤ counter ↔ 0 ≤ counter.toInt := by
  rw [Int64.le_iff_toInt_le, Int64.toInt_zero]

/-- The opposite of a value that is not negative is in the range. -/
theorem toInt_neg (nonneg : 0 ≤ counter) : (-counter).toInt = -counter.toInt := by
  have lower := nonneg_iff.mp nonneg
  have upper := counter.toInt_lt
  rw [Int64.toInt_neg]
  exact Int.bmod_eq_of_le (by omega) (by omega)

theorem toInt_max :
    (max counter update).toInt = max counter.toInt update.toInt := by
  have maxEq : max counter update =
      if counter ≤ update then update else counter := rfl
  rw [maxEq]
  split
  · next isLe => exact (Int.max_eq_right (Int64.le_iff_toInt_le.mp isLe)).symm
  · next isGreater =>
      have notLe := mt Int64.le_iff_toInt_le.mpr isGreater
      exact (Int.max_eq_left (by omega)).symm

/-- A value that is not negative, counted as a number. -/
theorem ofNat_toNat (nonneg : 0 ≤ counter) :
    Int64.ofNat counter.toInt.toNat = counter := by
  have lower := nonneg_iff.mp nonneg
  have upper := counter.toInt_lt
  rw [← Int64.toInt_inj, Int64.toInt_ofNat_of_lt (by omega)]
  omega

theorem add_ofNat_succ (counter : Int64) (count : Nat) :
    counter + 1 + Int64.ofNat count = counter + Int64.ofNat (count + 1) := by
  rw [Int64.ofNat_add, Int64.add_comm (Int64.ofNat count), Int64.add_assoc]
  rfl

theorem ne_maxValue_of_lt (below : counter.toInt < 2 ^ 63 - 1) :
    counter ≠ .maxValue := by
  rintro rfl
  rw [Int64.toInt_maxValue] at below
  omega

theorem ne_minValue_of_pos (positive : 0 < counter) : counter ≠ .minValue := by
  rintro rfl
  exact absurd positive (by decide)

end CoContext.SignedCounter
