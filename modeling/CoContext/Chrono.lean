import CoContext.IntegerArithmetic
import Mathlib.Data.Rat.Floor
import Mathlib.Data.Rat.Lemmas

/-!
# Durations

A `std::chrono::duration` is a count of periods in an integral type.  A sum
and a difference are computed in the common type of the operands, and
`duration_cast` computes in the common type of both counts and `intmax_t`.
The types of an expression are found when it is compiled; here they are
values, computed in the same way.
-/

namespace CoContext

/-- A duration with its `rep` and its `period` in seconds. -/
structure Duration where
  rep : IntType
  period : Rat
  count : Int

namespace Duration

/-- The period of the common type of two durations. -/
def commonPeriod (left right : Rat) : Rat :=
  (Nat.gcd left.num.natAbs right.num.natAbs : Rat) /
    (Nat.lcm left.den right.den : Rat)

/-- `std::chrono::duration_cast`; `CR` is the type that it computes in. -/
def durationCast (rep : IntType) (period : Rat) (d : Duration) :
    Option Duration :=
  let factor := d.period / period
  let wide := IntType.common (IntType.common rep d.rep) .int64
  let count :=
    if factor.num = 1 ∧ factor.den = 1 then
      some d.count
    else if factor.den = 1 then
      wide.mul (wide.convert d.count) (wide.convert factor.num)
    else if factor.num = 1 then
      wide.div (wide.convert d.count) (wide.convert factor.den)
    else
      (wide.mul (wide.convert d.count) (wide.convert factor.num)).bind
        fun product => wide.div product (wide.convert factor.den)
  count.map fun count => ⟨rep, period, rep.convert count⟩

/-- Convert both operands to their common type and compute there. -/
def arithmetic (operation : IntType → Int → Int → Option Int)
    (left right : Duration) : Option Duration :=
  let rep := IntType.common left.rep right.rep
  let period := commonPeriod left.period right.period
  (durationCast rep period left).bind fun left =>
    (durationCast rep period right).bind fun right =>
      (operation rep.promoted left.count right.count).map fun count =>
        ⟨rep, period, rep.convert count⟩

def add : Duration → Duration → Option Duration :=
  arithmetic IntType.add

def sub : Duration → Duration → Option Duration :=
  arithmetic IntType.sub

/-- `std::chrono::seconds` and `std::chrono::nanoseconds`. -/
def seconds (count : Int) : Duration :=
  ⟨.int64, 1, count⟩

def nanoseconds (count : Int) : Duration :=
  ⟨.int64, (1000000000 : Rat)⁻¹, count⟩

/-- The exact number of nanoseconds. -/
def toNanoseconds (d : Duration) : Rat :=
  d.count * d.period * 1000000000

end Duration

/-- A time point of some clock. -/
structure TimePoint where
  timeSinceEpoch : Duration

/-- A time point plus a duration. -/
def TimePoint.add (t : TimePoint) (d : Duration) : Option TimePoint :=
  (t.timeSinceEpoch.add d).map TimePoint.mk

end CoContext
