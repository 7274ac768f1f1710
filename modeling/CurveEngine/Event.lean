import CurveEngine.Curve
import CurveEngine.Failure
import CurveEngine.Opcode
import CurveEngine.Register

/-!
# What an operation leaves in the log

* `Level`        how much an event matters;
* `Rejection`    why a random draw was rejected;
* `Event`        the events, with `level` and `text`, and `Event.line` for both in one line;
* `Invocation`   a started function with its operands, and its `text`.
-/

namespace CurveEngine

/-- levels of the log, the most urgent first -/
inductive Level where
  | error
  | warn
  | info
  | debug
  | trace
  deriving DecidableEq

namespace Level

/-- the place of a level, 0 is the most urgent -/
def rank : Level → Nat
  | error => 0
  | warn => 1
  | info => 2
  | debug => 3
  | trace => 4

/-- what a line of the log starts with -/
def name : Level → String
  | error => "ERROR"
  | warn => "WARN"
  | info => "INFO"
  | debug => "DEBUG"
  | trace => "TRACE"

def keeps (threshold level : Level) : Bool := level.rank ≤ threshold.rank

end Level

/-- why a random draw was rejected -/
inductive Rejection where
  | nonceRange
  | nonceInfinity
  | rZero
  /-- the private key times the first half is zero -/
  | productZero
  /-- the private key times the first half is the hash -/
  | productIsHash
  /-- the hash plus that product is zero -/
  | sumZero
  | inverseZero
  | sZero
  | keyRange
  | keyInfinity
  deriving DecidableEq

namespace Rejection

def text : Rejection → String
  | nonceRange => "k was not in [1, n - 1]"
  | nonceInfinity => "k x G is at infinity"
  | rZero => "r is zero"
  | productZero => "rd mod n was zero"
  | productIsHash => "rd and e coincide"
  | sumZero => "e + rd mod n was zero"
  | inverseZero => "inverse of k was zero"
  | sZero => "s is zero"
  | keyRange => "private key was not in [1, n - 1]"
  | keyInfinity => "public key at infinity"

end Rejection

inductive Event where
  | started (f : Opcode)
  | enabling (c : NamedCurve)
  | disabling
  | noCurve
  | wrongLength (actual expected : Nat)
  | emptyHash
  /-- a point operation had an operand that is no point -/
  | pointFailed (shift : Word)
  | sourceFailed
  | retryLimit
  | rejected (reason : Rejection)
  | signatureRejected (cause : Failure)
  | agreementFailed (cause : Failure)
  deriving DecidableEq

namespace Event

def level : Event → Level
  | started _ => .trace
  | enabling _ | disabling | signatureRejected _ => .debug
  | rejected _ => .warn
  | noCurve | wrongLength _ _ | emptyHash | pointFailed _ | sourceFailed | retryLimit
  | agreementFailed _ => .error

def text : Event → String
  | started f => "PKA function " ++ f.name
  | enabling c => "enabling ECC for " ++ c.data.title
  | disabling => "disabling ECC"
  | noCurve => "no curve enabled"
  | wrongLength actual expected =>
    "buffer of " ++ toString actual ++ " bytes, expected " ++ toString expected
  | emptyHash => "empty message hash"
  | pointFailed shift => "point operation failed, shift " ++ toString shift.toNat
  | sourceFailed => "random source failed"
  | retryLimit => "retry limit reached"
  | rejected reason => reason.text
  | signatureRejected cause => "signature rejected: " ++ cause.name
  | agreementFailed cause => "ECDH failed: " ++ cause.name

def line (e : Event) : String := e.level.name ++ " " ++ e.text

end Event

/-- a started function and the operands it was started with -/
structure Invocation where
  opcode : Opcode
  operands : Operands
  deriving DecidableEq

namespace Invocation

/-- an operand that is a vector: where it starts and how long it is -/
def vector (name : String) (offset length : Nat) : String :=
  " " ++ name ++ "=" ++ toString offset ++ "/" ++ toString length

/-- an operand that is only a place -/
def place (name : String) (offset : Nat) : String := " " ++ name ++ "=" ++ toString offset

/-- the function's name and the operands it uses -/
def text (i : Invocation) : String :=
  let o := i.operands
  i.opcode.name ++
    match i.opcode with
    | .multiply | .add | .subtract | .modulo =>
      vector "a" o.a o.aLength ++ vector "b" o.b o.bLength ++ place "c" o.c
    | .compare => vector "a" o.a o.aLength ++ place "b" o.b
    | .copy => vector "a" o.a o.aLength ++ place "c" o.c
    | .invert => vector "a" o.a o.aLength ++ vector "b" o.b o.bLength ++ place "d" o.d
    | .pointAdd | .pointMul =>
      vector "a" o.a o.aLength ++ vector "b" o.b o.bLength ++ place "c" o.c ++ place "d" o.d

end Invocation
end CurveEngine
