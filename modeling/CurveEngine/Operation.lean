import CurveEngine.KeyAgreement
import CurveEngine.PublicKey
import CurveEngine.Signature

/-!
# The operations a caller can ask for

* `Operation`             an operation with its input strings and its output buffers;
* `Operation.buffers`     the output buffers, in order;
* `Operation.Settings`    what an operation finds: the curve, the retry limit and the random source;
* `Operation.program`     the checks and then the work, which writes its result to the output buffers.

The checks come first and in a fixed order, and every failed check is logged.  Output buffers are
given by what they hold before, but only their lengths matter to the program.
-/

namespace CurveEngine

/-- an operation with its inputs and output buffers -/
inductive Operation where
  /-- is the public key a point of the curve -/
  | validate (publicKey : Bytes)
  | compress (publicKey out : Bytes)
  | decompress (compressed out : Bytes)
  | sign (hash privateKey out : Bytes)
  /-- does the signature fit hash and public key -/
  | verify (signature hash publicKey : Bytes)
  | generate (privateKey publicKey : Bytes)
  | agree (privateKey publicKey out : Bytes)
  deriving DecidableEq

namespace Operation

open Program

/-- the output buffers, in order -/
def buffers : Operation → List Bytes
  | validate _ => []
  | compress _ out => [out]
  | decompress _ out => [out]
  | sign _ _ out => [out]
  | verify _ _ _ => []
  | generate privateKey publicKey => [privateKey, publicKey]
  | agree _ _ out => [out]

/-- what an operation finds -/
structure Settings where
  curve : Option NamedCurve
  /-- how many random draws may be rejected, `none` for any number -/
  retryLimit : Option Nat
  source : List Entry
  deriving DecidableEq

/-! ## Checks -/

def enabled : Option NamedCurve → Program NamedCurve
  | some c => done c
  | none => refuse .noCurve .notEnabled

def checkLength (bs : Bytes) (expected : Nat) : Program Unit :=
  if bs.length = expected then done ()
  else refuse (.wrongLength bs.length expected) .wrongSize

/-- there is something to sign -/
def checkHash (hash : Bytes) : Program Unit :=
  if hash = [] then refuse .emptyHash .wrongSize else done ()

/-! ## Programs -/

/-- the checks of an operation and then its work.  Compression never waits: that it can be polled, or
dropped before its first poll, like the other operations is for uniformity only. -/
def program (s : Settings) (op : Operation) : Program Unit := do
  let c ← enabled s.curve
  let n := c.elementBytes
  match op with
  | validate publicKey =>
    checkLength publicKey (2 * n)
    PublicKey.validate c.words publicKey
  | compress publicKey out =>
    checkLength publicKey (2 * n)
    checkLength out (n + 1)
    PublicKey.compress publicKey
  | decompress compressed out =>
    checkLength compressed (n + 1)
    checkLength out (2 * n)
    PublicKey.decompress c compressed
  | sign hash privateKey out =>
    checkHash hash
    checkLength privateKey n
    checkLength out (2 * n)
    Signature.sign c.words hash privateKey s.source s.retryLimit
  | verify signature hash publicKey =>
    checkLength signature (2 * n)
    checkHash hash
    checkLength publicKey (2 * n)
    Signature.verify c.words signature hash publicKey
  | generate privateKey publicKey =>
    checkLength privateKey n
    checkLength publicKey (2 * n)
    KeyAgreement.generate c.words s.source s.retryLimit
  | agree privateKey publicKey out =>
    checkLength privateKey n
    checkLength publicKey (2 * n)
    checkLength out n
    KeyAgreement.derive c.words privateKey publicKey

end Operation
end CurveEngine
