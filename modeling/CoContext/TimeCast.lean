import CoContext.Chrono

/-!
# The timeouts that are given to the kernel

A duration or a time point is corrected by a bias and split into seconds and
nanoseconds, both by casts that truncate.
-/

namespace CoContext.TimeCast

/-- `__kernel_timespec` -/
structure KernelTimespec where
  tvSec : Int
  tvNsec : Int
  deriving DecidableEq

/-- `config::timeout_bias_nanosecond` -/
def timeoutBiasNanosecond : Int :=
  -30000

def toKernelTimespec (duration : Duration) : Option KernelTimespec :=
  (duration.durationCast .int64 1).bind fun sec =>
    (duration.sub sec).bind fun rest =>
      (rest.durationCast .int64 (1000000000 : Rat)⁻¹).map fun nano =>
        ⟨sec.count, nano.count⟩

def toKernelTimespecOfTimePoint (timePoint : TimePoint) :
    Option KernelTimespec :=
  toKernelTimespec timePoint.timeSinceEpoch

def toKernelTimespecBiased (timespec : Duration) : Option KernelTimespec :=
  if timeoutBiasNanosecond = 0 then
    toKernelTimespec timespec
  else
    (timespec.add (.nanoseconds timeoutBiasNanosecond)).bind toKernelTimespec

def toKernelTimespecBiasedOfTimePoint (timespec : TimePoint) :
    Option KernelTimespec :=
  if timeoutBiasNanosecond = 0 then
    toKernelTimespecOfTimePoint timespec
  else
    (timespec.add (.nanoseconds timeoutBiasNanosecond)).bind
      toKernelTimespecOfTimePoint

/-- What the kernel is to be given for a duration: a normalized pair that is
the duration with the bias, in whole nanoseconds and not before zero. -/
def Valid (duration : Duration) (ts : Option KernelTimespec) : Prop :=
  ∃ spec, ts = some spec ∧ 0 ≤ spec.tvSec ∧
    0 ≤ spec.tvNsec ∧ spec.tvNsec < 1000000000 ∧
    spec.tvSec * 1000000000 + spec.tvNsec =
      ⌊max 0 (duration.toNanoseconds + timeoutBiasNanosecond)⌋

end CoContext.TimeCast
