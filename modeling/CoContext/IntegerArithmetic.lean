import Mathlib.Algebra.Order.Ring.Int
import Mathlib.Data.Int.Basic

/-!
# Integer arithmetic of C++

The values of an integral type are the integers in its range.  Operands that
are narrower than `int` are promoted to it and two operands are brought to a
common type; then the exact result is reduced modulo the range of an unsigned
type, and must fit a signed one.  An operation whose behaviour is undefined
has no result.
-/

namespace CoContext

structure IntType where
  signed : Bool
  bits : Nat
  deriving DecidableEq

namespace IntType

/-- `int` and the 64-bit types of the platform. -/
def int : IntType := ⟨true, 32⟩

def int64 : IntType := ⟨true, 64⟩

/-- The value is in the range of the type. -/
def Fits (type : IntType) (value : Int) : Prop :=
  if type.signed then
    -2 ^ type.bits ≤ 2 * value ∧ 2 * value < 2 ^ type.bits
  else
    0 ≤ value ∧ value < 2 ^ type.bits

instance (type : IntType) (value : Int) : Decidable (type.Fits value) :=
  inferInstanceAs (Decidable (ite _ _ _))

/-- `static_cast` of an integer. -/
def convert (type : IntType) (value : Int) : Int :=
  if type.signed then
    value.bmod (2 ^ type.bits)
  else
    value % 2 ^ type.bits

/-- The result of an operation in the type. -/
def result (type : IntType) (value : Int) : Option Int :=
  if type.signed then
    if type.Fits value then some value else none
  else
    some (type.convert value)

def add (type : IntType) (left right : Int) : Option Int :=
  type.result (left + right)

def sub (type : IntType) (left right : Int) : Option Int :=
  type.result (left - right)

def mul (type : IntType) (left right : Int) : Option Int :=
  type.result (left * right)

def div (type : IntType) (left right : Int) : Option Int :=
  if right = 0 then none else type.result (left.tdiv right)

/-- Integral promotion: `int` represents all values of a narrower type. -/
def promoted (type : IntType) : IntType :=
  if type.bits < int.bits then int else type

/-- The common type of two promoted operands. -/
def usual (left right : IntType) : IntType :=
  if left.signed = right.signed then
    if left.bits < right.bits then right else left
  else if left.signed then
    if left.bits ≤ right.bits then right else left
  else
    if right.bits ≤ left.bits then left else right

/-- `std::common_type` of two integral types. -/
def common (left right : IntType) : IntType :=
  usual left.promoted right.promoted

variable {type : IntType} {value left right : Int}

theorem fits_signed (isSigned : type.signed = true) :
    type.Fits value ↔
      -2 ^ type.bits ≤ 2 * value ∧ 2 * value < 2 ^ type.bits := by
  rw [Fits, if_pos isSigned]

theorem fits_unsigned (isUnsigned : type.signed = false) :
    type.Fits value ↔ 0 ≤ value ∧ value < 2 ^ type.bits := by
  rw [Fits, if_neg (by simp [isUnsigned])]

/-- A value of the type is converted to itself. -/
theorem convert_of_fits (fits : type.Fits value) : type.convert value = value := by
  cases isSigned : type.signed with
  | true =>
      obtain ⟨lower, upper⟩ := (fits_signed isSigned).mp fits
      rw [convert, if_pos isSigned]
      apply Int.bmod_eq_of_le_mul_two
      · push_cast
        omega
      · push_cast
        omega
  | false =>
      obtain ⟨lower, upper⟩ := (fits_unsigned isSigned).mp fits
      rw [convert, if_neg (by simp [isSigned])]
      exact Int.emod_eq_of_lt lower upper

/-- An exact result that fits is the result. -/
theorem result_of_fits (fits : type.Fits value) :
    type.result value = some value := by
  rw [result, if_pos fits, convert_of_fits fits, ite_self]

theorem result_signed (isSigned : type.signed = true) :
    type.result value = if type.Fits value then some value else none := by
  rw [result, if_pos isSigned]

theorem result_unsigned (isUnsigned : type.signed = false) :
    type.result value = some (value % 2 ^ type.bits) := by
  rw [result, if_neg (by simp [isUnsigned]), convert,
    if_neg (by simp [isUnsigned])]

/-- A result is a value of the type. -/
theorem fits_of_result {outcome : Int}
    (resultEq : type.result value = some outcome) : type.Fits outcome := by
  cases isSigned : type.signed with
  | true =>
      rw [result_signed isSigned, Option.ite_none_right_eq_some,
        Option.some.injEq] at resultEq
      obtain ⟨fits, rfl⟩ := resultEq
      exact fits
  | false =>
      have modulusPos : (0 : Int) < 2 ^ type.bits := Int.pow_pos (by decide)
      rw [result_unsigned isSigned, Option.some.injEq] at resultEq
      subst resultEq
      rw [fits_unsigned isSigned]
      exact ⟨Int.emod_nonneg _ (Int.ne_of_gt modulusPos),
        Int.emod_lt_of_pos _ modulusPos⟩

/-- What is nearer to zero fits, too. -/
theorem Fits.between {other : Int} (fits : type.Fits value)
    (nearer : 0 ≤ other ∧ other ≤ value ∨ value ≤ other ∧ other ≤ 0) :
    type.Fits other := by
  have modulusPos : (0 : Int) < 2 ^ type.bits := Int.pow_pos (by decide)
  cases isSigned : type.signed with
  | true =>
      rw [fits_signed isSigned] at fits ⊢
      omega
  | false =>
      rw [fits_unsigned isSigned] at fits ⊢
      omega

/-- A quotient is nearer to zero. -/
theorem tdiv_between (value : Int) (divisor : Nat) :
    0 ≤ value.tdiv divisor ∧ value.tdiv divisor ≤ value ∨
      value ≤ value.tdiv divisor ∧ value.tdiv divisor ≤ 0 := by
  by_cases nonneg : 0 ≤ value
  · exact Or.inl ⟨Int.tdiv_nonneg nonneg (Int.natCast_nonneg divisor),
      Int.tdiv_le_self divisor nonneg⟩
  · have oppositeNonneg : 0 ≤ (-value).tdiv divisor :=
      Int.tdiv_nonneg (by omega) (Int.natCast_nonneg divisor)
    have oppositeLe : (-value).tdiv divisor ≤ -value :=
      Int.tdiv_le_self divisor (by omega)
    rw [Int.neg_tdiv] at oppositeNonneg oppositeLe
    omega

theorem Fits.tdiv (fits : type.Fits value) (divisor : Nat) :
    type.Fits (value.tdiv divisor) :=
  fits.between (tdiv_between value divisor)

theorem pow_le {bits limit : Nat} (bitsLe : bits ≤ limit) :
    (2 : Int) ^ bits ≤ 2 ^ limit := by
  exact_mod_cast Nat.pow_le_pow_right (by decide : 0 < 2) bitsLe

/-- Natural numbers of 63 bits fit every type of 64 bits or more. -/
theorem fits_natCast {number : Nat} (numberLt : number < 2 ^ 63)
    (isWide : 64 ≤ type.bits) : type.Fits number := by
  have powLe := pow_le isWide
  cases isSigned : type.signed with
  | true =>
      rw [fits_signed isSigned]
      omega
  | false =>
      rw [fits_unsigned isSigned]
      omega

theorem fits_convert (value : Int) (bitsPos : 0 < type.bits) :
    type.Fits (type.convert value) := by
  have modulusPos : (0 : Int) < 2 ^ type.bits := Int.pow_pos (by decide)
  cases isSigned : type.signed with
  | true =>
      have isEven : 2 ^ type.bits = 2 * 2 ^ (type.bits - 1) := by
        rw [← Nat.pow_succ', Nat.sub_one, Nat.succ_pred_eq_of_pos bitsPos]
      have positive : 0 < 2 ^ type.bits := Nat.two_pow_pos _
      have lower := Int.le_bmod (x := value) positive
      have upper := Int.bmod_lt (x := value) positive
      rw [fits_signed isSigned, convert, if_pos isSigned]
      push_cast at lower upper
      have isEvenCast : (2 : Int) ^ type.bits = 2 * 2 ^ (type.bits - 1) := by
        exact_mod_cast isEven
      omega
  | false =>
      rw [fits_unsigned isSigned, convert, if_neg (by simp [isSigned])]
      exact ⟨Int.emod_nonneg _ (Int.ne_of_gt modulusPos),
        Int.emod_lt_of_pos _ modulusPos⟩

theorem usual_comm (left right : IntType) :
    usual left right = usual right left := by
  rcases left with ⟨leftSigned, leftBits⟩
  rcases right with ⟨rightSigned, rightBits⟩
  cases leftSigned <;> cases rightSigned <;> simp only [usual] <;>
    split_ifs <;> simp_all <;> omega

theorem common_comm (left right : IntType) :
    common left right = common right left :=
  usual_comm _ _

theorem common_self (isWide : 32 ≤ type.bits) : common type type = type := by
  have samePromoted : type.promoted = type :=
    if_neg (Nat.not_lt.mpr isWide)
  rw [common, samePromoted, usual, if_pos rfl, ite_self]

/-- The common type with a 64-bit type is that type or one that is at least as
wide, and it has the natural numbers of the operand. -/
theorem common_int64 (type : IntType) :
    (common type .int64 = .int64 ∧
      ∀ value, 0 ≤ value → type.Fits value → int64.Fits value) ∨
      common type .int64 = type ∧ 64 ≤ type.bits := by
  have fitsInt64 {value : Int} (nonneg : 0 ≤ value) (valueLt : value < 2 ^ 63) :
      int64.Fits value := by
    rw [fits_signed rfl]
    simp only [int64]
    omega
  by_cases isNarrow : type.bits < 32
  · have isInt : type.promoted = int := if_pos isNarrow
    have powLe : (2 : Int) ^ type.bits ≤ 2 ^ 32 := pow_le (by omega)
    left
    refine ⟨by rw [common, isInt]; rfl, ?_⟩
    intro value nonneg fits
    refine fitsInt64 nonneg ?_
    cases isSigned : type.signed with
    | true =>
        rw [fits_signed isSigned] at fits
        omega
    | false =>
        rw [fits_unsigned isSigned] at fits
        omega
  · have samePromoted : type.promoted = type := if_neg isNarrow
    have int64Promoted : int64.promoted = int64 := rfl
    rw [common, samePromoted, int64Promoted, usual]
    cases isSigned : type.signed with
    | true =>
        by_cases isShort : type.bits < 64
        · refine Or.inl ⟨if_pos isShort, fun value nonneg fits => ?_⟩
          have powLe : (2 : Int) ^ type.bits ≤ 2 ^ 64 := pow_le (by omega)
          rw [fits_signed isSigned] at fits
          exact fitsInt64 nonneg (by omega)
        · exact Or.inr ⟨if_neg isShort, by omega⟩
    | false =>
        by_cases isLong : 64 ≤ type.bits
        · exact Or.inr ⟨if_pos isLong, isLong⟩
        · refine Or.inl ⟨if_neg isLong, fun value nonneg fits => ?_⟩
          have powLe : (2 : Int) ^ type.bits ≤ 2 ^ 63 := pow_le (by omega)
          rw [fits_unsigned isSigned] at fits
          exact fitsInt64 nonneg (by omega)

end IntType

end CoContext
