/-!
# How an operation can fail

* `Failure`             the causes;
* `Failure.retryable`   the two causes that another random draw may avoid;
* `Failure.hard`        the cause as a caller sees it: a retryable one is a plain failure.
-/

namespace CurveEngine

/-- why an operation gave no result -/
inductive Failure where
  /-- a check failed -/
  | failed
  | zeroResult
  | infinity
  | wrongSize
  | notEnabled
  | unsupportedCurve
  | randomSource
  /-- too many random draws were rejected -/
  | retryLimit
  deriving DecidableEq

namespace Failure

def all : List Failure :=
  [failed, zeroResult, infinity, wrongSize, notEnabled, unsupportedCurve, randomSource, retryLimit]

def name : Failure → String
  | failed => "Failure"
  | zeroResult => "ResultIsZero"
  | infinity => "PointAtInfinity"
  | wrongSize => "SizeMismatchCurve"
  | notEnabled => "NotEnabled"
  | unsupportedCurve => "UnsupportedCurve"
  | randomSource => "RandomSource"
  | retryLimit => "RetryLimit"

def message : Failure → String
  | failed => "operation failed"
  | zeroResult => "intermediate result is zero"
  | infinity => "result is the point at infinity"
  | wrongSize => "buffer size does not match the curve"
  | notEnabled => "no curve enabled"
  | unsupportedCurve => "unsupported curve"
  | randomSource => "random source failed"
  | retryLimit => "retry limit reached"

/-- another random draw may avoid it -/
def retryable : Failure → Bool
  | zeroResult | infinity => true
  | _ => false

/-- the cause with nothing left to retry -/
def hard (e : Failure) : Failure := if e.retryable then failed else e

theorem retryable_hard (e : Failure) : e.hard.retryable = false := by
  cases e <;> rfl

end Failure
end CurveEngine
