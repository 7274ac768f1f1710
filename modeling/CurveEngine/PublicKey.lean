import CurveEngine.Arithmetic
import CurveEngine.Curve

/-!
# Public keys

A public key is a point, written as `x` and then `y`, or compressed to the parity of `y` and `x`.

* `PublicKey.validate`     the point lies on the curve, and neither coordinate is zero;
* `PublicKey.compress`     the parity of the ordinate, and the abscissa;
* `PublicKey.decompress`   the point with a given abscissa and parity of the ordinate.

The square root is a power with exponent `(p + 1) / 4`, taken along the binary digits of `p + 1`
down to digit 2, which a table of its words gives.
-/

namespace CurveEngine.PublicKey

open Program Arithmetic

/-- `result = x ^ 3 + a x + b`, as `(x ^ 2 + a) x + b` -/
def rightHandSide (w x result : Nat) : Program Unit := do
  field .multiply w x x result
  field .add w result Layout.coefficientA result
  field .multiply w result x result
  field .add w result Layout.coefficientB result

/-- fails unless `0 < x < p`, `0 < y < p` and `y ^ 2 = x ^ 3 + a x + b` modulo `p` -/
def validate (w : Nat) (key : Bytes) : Program Unit := do
  load w (key.take (4 * w)) Layout.Validation.x
  load w (key.drop (4 * w)) Layout.Validation.y
  checkBetween w Layout.Validation.x Layout.null Layout.field
  checkBetween w Layout.Validation.y Layout.null Layout.field
  field .multiply w Layout.Validation.y Layout.Validation.y Layout.Validation.left
  rightHandSide w Layout.Validation.x Layout.Validation.right
  if (← compare w Layout.Validation.left Layout.Validation.right) ≠ .eq then fail .failed

/-- the abscissa and the parity of the ordinate, which are written in this order -/
def compress (key : Bytes) : Program Unit := do
  let n := key.length / 2
  output ⟨0, 1, n⟩ (.bytes (key.take n))
  output ⟨0, 0, 1⟩ (.bytes [key.getD (2 * n - 1) 0 &&& 1])

/-- the digits of `p + 1` from the highest one down to digit 2 -/
def exponentDigits (c : NamedCurve) : List Bool :=
  (List.range (c.data.bits - 2)).reverse.map fun i => c.data.digit (i + 2)

/-- `root = root ^ 2`, times the square for digit 1 -/
def rootStep (w : Nat) (digit : Bool) : Program Unit := do
  field .multiply w Layout.Decompression.root Layout.Decompression.root Layout.Decompression.root
  if digit then
    field .multiply w Layout.Decompression.root Layout.Decompression.square
      Layout.Decompression.root

def rootSteps (w : Nat) : List Bool → Program Unit
  | [] => return
  | d :: ds => do
    rootStep w d
    rootSteps w ds

/-- the abscissa `compressed.drop 1` and an ordinate of the parity in the first byte, in their places in
memory -/
def expand (c : NamedCurve) (compressed : Bytes) : Program Unit := do
  let w := c.words
  let parity := (compressed.headD 0 &&& 1).toNat
  load w (compressed.drop 1) Layout.Decompression.x
  rightHandSide w Layout.Decompression.x Layout.Decompression.square
  copy Layout.one Layout.Decompression.root w
  rootSteps w (exponentDigits c)
  let low ← lowWord Layout.Decompression.root
  if low.toNat % 2 ≠ parity then
    subtract w Layout.field Layout.Decompression.root Layout.Decompression.root

/-- the point with this abscissa and parity -/
def decompress (c : NamedCurve) (compressed : Bytes) : Program Unit := do
  expand c compressed
  fetch c.words Layout.Decompression.x 0 0
  fetch c.words Layout.Decompression.root 0 (4 * c.words)

end CurveEngine.PublicKey
