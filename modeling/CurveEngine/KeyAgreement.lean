import CurveEngine.Arithmetic
import CurveEngine.Sampling

/-!
# Key pairs and shared secrets

* `KeyAgreement.generate`   a random private key and its multiple of the generator;
* `KeyAgreement.derive`     the abscissa of a private key times a public key.

Both sides of an agreement derive the same secret from their own private key and the other side's
public key.
-/

namespace CurveEngine.KeyAgreement

open Program Arithmetic Sampling

/-- one attempt with a random block as private key -/
def attemptWith (w : Nat) (block : Bytes) : Program (Except Rejection Bytes) := do
  load w block Layout.KeyPair.privateKey
  let check ← (checkBetween w Layout.KeyPair.privateKey Layout.null Layout.order).attempt
  if check.isOk then
    if ← degenerate
        (point .pointMul w Layout.KeyPair.privateKey Layout.generator Layout.KeyPair.publicKey) then
      return .error .keyInfinity
    return .ok block
  else
    return .error .keyRange

/-- the private key to the first output buffer, the public key to the second -/
def generate (w : Nat) (source : List Entry) (budget : Option Nat) : Program Unit := do
  let privateKey ← sample (4 * w) (attemptWith w) source budget
  output ⟨0, 0, 4 * w⟩ (.bytes privateKey)
  fetchPoint w Layout.KeyPair.publicKey 1

/-- the product of a private key and a public key, in its place in memory -/
def product (w : Nat) (privateKey publicKey : Bytes) : Program Unit := do
  load w privateKey Layout.Agreement.privateKey
  loadPoint w publicKey Layout.Agreement.publicKey
  let result ← (point .pointMul w Layout.Agreement.privateKey Layout.Agreement.publicKey
    Layout.Agreement.product).attempt
  match result with
  | .ok () => return
  | .error e => refuse (.agreementFailed e) e.hard

/-- the shared secret of a private key and the other side's public key -/
def derive (w : Nat) (privateKey publicKey : Bytes) : Program Unit := do
  product w privateKey publicKey
  fetch w Layout.Agreement.product 0 0

end CurveEngine.KeyAgreement
