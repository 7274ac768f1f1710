import CurveEngine.Arithmetic
import CurveEngine.Sampling

/-!
# Signatures

A signature is a pair of numbers below the generator's order, `r` and then `s`.

* `Signature.round`    one attempt to sign with a given nonce, accepted or rejected;
* `Signature.sign`     attempts with random nonces until one is accepted;
* `Signature.verify`   the check of a signature against a public key.

With a nonce `k`, the abscissa `r` of `k` times the generator and the private key `d`, the second
half is `s = (e + r d) / k`.  The check recovers `k` times the generator from `s`, `r`, the hash and
the public key, and compares abscissas.
-/

namespace CurveEngine.Signature

open Program Arithmetic Sampling

/-- one attempt with the nonce in memory, or why it was rejected -/
def round (w : Nat) : Program (Except Rejection Unit) := do
  let check ← (checkBetween w Layout.Signing.nonce Layout.null Layout.order).attempt
  if check.isOk then
    -- r is the abscissa of k times the generator
    if ← degenerate
        (point .pointMul w Layout.Signing.nonce Layout.generator Layout.Signing.r) then
      return .error .nonceInfinity
    if (← compare w Layout.null Layout.Signing.r) = .eq then
      return .error .rZero
    -- s = r d
    if ← degenerate
        (modular .multiply w Layout.Signing.key Layout.Signing.r Layout.order Layout.Signing.s) then
      return .error .productZero
    if (← compare w Layout.Signing.hash Layout.Signing.s) = .eq then
      return .error .productIsHash
    -- s = e + r d
    if ← degenerate
        (modular .add w Layout.Signing.hash Layout.Signing.s Layout.order Layout.Signing.s) then
      return .error .sumZero
    -- k = 1 / k
    if ← degenerate
        (invert w Layout.Signing.nonce Layout.order Layout.Signing.nonce) then
      return .error .inverseZero
    -- s = (e + r d) / k
    if ← degenerate
        (modular .multiply w Layout.Signing.nonce Layout.Signing.s Layout.order
          Layout.Signing.s) then
      return .error .sZero
    if (← compare w Layout.null Layout.Signing.s) = .eq then
      return .error .sZero
    return .ok ()
  else
    return .error .nonceRange

/-- one attempt with a random block as nonce -/
def attemptWith (w : Nat) (block : Bytes) : Program (Except Rejection Unit) := do
  load w block Layout.Signing.nonce
  round w

/-- the signature of a hash, both halves in their places in memory -/
def draft (w : Nat) (hash privateKey : Bytes) (source : List Entry) (budget : Option Nat) :
    Program Unit := do
  load w (Bytes.fit (4 * w) hash) Layout.Signing.hash
  load w privateKey Layout.Signing.key
  sample (4 * w) (attemptWith w) source budget

/-- the signature of a hash -/
def sign (w : Nat) (hash privateKey : Bytes) (source : List Entry) (budget : Option Nat) :
    Program Unit := do
  draft w hash privateKey source budget
  fetch w Layout.Signing.r 0 0
  fetch w Layout.Signing.s 0 (4 * w)

/-- fails unless `signature` signs `hash` under `publicKey` -/
def check (w : Nat) (signature hash publicKey : Bytes) : Program Unit := do
  loadPoint w publicKey Layout.Verification.key
  load w (signature.take (4 * w)) Layout.Verification.r
  load w (signature.drop (4 * w)) Layout.Verification.s
  load w (Bytes.fit (4 * w) hash) Layout.Verification.hash
  checkBetween w Layout.Verification.r Layout.null Layout.order
  checkBetween w Layout.Verification.s Layout.null Layout.order
  -- s = 1 / s
  invert w Layout.Verification.s Layout.order Layout.Verification.s
  -- p₁ = e / s times the generator
  modular .multiply w Layout.Verification.s Layout.Verification.hash Layout.order
    Layout.Verification.u₁
  point .pointMul w Layout.Verification.u₁ Layout.generator Layout.Verification.p₁
  -- p₂ = r / s times the public key
  modular .multiply w Layout.Verification.s Layout.Verification.r Layout.order
    Layout.Verification.u₂
  point .pointMul w Layout.Verification.u₂ Layout.Verification.key Layout.Verification.p₂
  -- p₁ = p₁ + p₂
  point .pointAdd w Layout.Verification.p₁ Layout.Verification.p₂ Layout.Verification.p₁
  if (← compare w Layout.Verification.p₁ Layout.Verification.r) ≠ .eq then fail .failed

/-- the check with every cause of failure made a plain one -/
def verify (w : Nat) (signature hash publicKey : Bytes) : Program Unit := do
  match ← (check w signature hash publicKey).attempt with
  | .ok () => return
  | .error e => refuse (.signatureRejected e) e.hard

end CurveEngine.Signature
