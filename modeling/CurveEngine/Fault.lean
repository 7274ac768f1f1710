import CurveEngine.Words

/-!
# Misuse of the engine

A fault is the caller's mistake, not an outcome: whatever ran is over.
-/

namespace CurveEngine

/-- how the engine can be misused -/
inductive Fault where
  | poweredDown
  | busy
  /-- a word was written that asks for no known function -/
  | unsupported (value : Word)
  | zeroModulus
  /-- an access that leaves the memory, or a write that does not fit its output buffer -/
  | outOfBounds
  deriving DecidableEq

namespace Fault

/-- a number with sixteen digits, marked as such -/
def hexadecimal (n : Nat) : String := "0x" ++ String.ofList (Nat.toDigits 16 n)

/-- what there is to say about a fault besides its kind -/
def detail? : Fault → Option String
  | unsupported value => some ("unsupported PKA function " ++ hexadecimal value.toNat)
  | _ => none

end Fault
end CurveEngine
