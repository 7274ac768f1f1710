/-!
# Where everything lies in the engine's memory

The engine works on vectors in its own memory of 512 words.  Every constant, the scratchpad and
every variable of an algorithm has a fixed region, wide enough for the widest element and starting
on an even word; a curve with narrower elements uses the leading words of each region.

* `Layout.coordinateSpace` … `Layout.inverseSpace`   how many words an operand or a result takes;
* `Layout.nextOffset`      the first even word behind a region;
* `Layout.null` … `Layout.variables`                 the regions all algorithms share;
* `Layout.Validation` … `Layout.Agreement`           the variables of each algorithm, chained behind
                           `Layout.variables`; only one algorithm runs at a time.
-/

namespace CurveEngine.Layout

/-- words of the engine's memory -/
def memoryWords : Nat := 512

/-- words of the widest element -/
def elementWords : Nat := 8

def elementBytes : Nat := 4 * elementWords

/-! ## Spaces -/

/-- a coordinate of `w` words with the two spare words behind it, made even -/
def coordinateSpace (w : Nat) : Nat := w + 2 + w % 2

/-- an affine point: `x` and then `y` -/
def pointSpace (w : Nat) : Nat := 2 * coordinateSpace w

/-- a remainder takes one word more than its modulus -/
def remainderSpace (w : Nat) : Nat := w + 1

def multiplySpace (v w : Nat) : Nat := v + w + 6

def addSpace (v w : Nat) : Nat := max v w + 1

def subtractSpace (v w : Nat) : Nat := max v w

def pointAddSpace (w : Nat) : Nat := 3 * coordinateSpace w

def pointMulSpace (w : Nat) : Nat := 6 * coordinateSpace w

def inverseSpace (v w : Nat) : Nat := max v w + 1

/-- the first even word behind `space` words that start at `offset` -/
def nextOffset (offset space : Nat) : Nat := offset + space + (offset + space) % 2

theorem le_coordinateSpace (w : Nat) : w ≤ coordinateSpace w := by
  unfold coordinateSpace
  omega

theorem even_coordinateSpace (w : Nat) : coordinateSpace w % 2 = 0 := by
  unfold coordinateSpace
  omega

theorem even_nextOffset (offset space : Nat) : nextOffset offset space % 2 = 0 := by
  unfold nextOffset
  omega

/-- a region ends before the next one starts, with at most one word between them -/
theorem nextOffset_bounds (offset space : Nat) :
    offset + space ≤ nextOffset offset space ∧ nextOffset offset space ≤ offset + space + 1 := by
  unfold nextOffset
  omega

/-! ## Constants -/

/-- the element 0 -/
def null : Nat := 0

def one : Nat := nextOffset null elementWords

def generator : Nat := nextOffset one elementWords

/-- the prime of the field, then `a` and `b`, each in a coordinate's space -/
def field : Nat := nextOffset generator (pointSpace elementWords)

def order : Nat := nextOffset field (3 * coordinateSpace elementWords)

/-- the coefficient `a` once more, without spare words -/
def coefficientA : Nat := nextOffset order elementWords

/-- the coefficient `b` once more, without spare words -/
def coefficientB : Nat := nextOffset coefficientA elementWords

/-- working space of every single function -/
def scratchpad : Nat := nextOffset coefficientB elementWords

/-- the widest working space of any function -/
def scratchpadSpace : Nat :=
  max (multiplySpace elementWords elementWords)
    (max (addSpace elementWords elementWords)
      (max (subtractSpace elementWords elementWords)
        (max (pointAddSpace elementWords)
          (max (pointMulSpace elementWords) (inverseSpace elementWords elementWords)))))

/-- the variables of the running algorithm -/
def «variables» : Nat := nextOffset scratchpad scratchpadSpace

/-! ## Variables of each algorithm -/

def elementSlot : Nat := elementWords

/-- space of a remainder of the widest modulus -/
def remainderSlot : Nat := remainderSpace elementWords

/-- space of a point with the widest coordinates -/
def pointSlot : Nat := pointSpace elementWords

/-- space of a scalar with a coordinate's spare words -/
def scalarSlot : Nat := coordinateSpace elementWords

namespace Validation

def x : Nat := Layout.variables

def y : Nat := nextOffset x elementSlot

/-- `y ^ 2` -/
def left : Nat := nextOffset y elementSlot

/-- `x ^ 3 + a x + b` -/
def right : Nat := nextOffset left remainderSlot

def stop : Nat := nextOffset right remainderSlot

end Validation

namespace Decompression

def x : Nat := Layout.variables

/-- `x ^ 3 + a x + b` -/
def square : Nat := nextOffset x elementSlot

def root : Nat := nextOffset square remainderSlot

def stop : Nat := nextOffset root remainderSlot

end Decompression

namespace Signing

/-- the fitted hash -/
def hash : Nat := Layout.variables

def key : Nat := nextOffset hash elementSlot

/-- the nonce, later its inverse -/
def nonce : Nat := nextOffset key elementSlot

/-- the nonce's multiple of the generator, its abscissa is the first half of the signature -/
def r : Nat := nextOffset nonce scalarSlot

/-- the second half of the signature -/
def s : Nat := nextOffset r pointSlot

def stop : Nat := nextOffset s remainderSlot

end Signing

namespace Verification

/-- the fitted hash -/
def hash : Nat := Layout.variables

def r : Nat := nextOffset hash elementSlot

/-- the second half of the signature, later its inverse -/
def s : Nat := nextOffset r elementSlot

def key : Nat := nextOffset s elementSlot

/-- the multiplier of the generator -/
def u₁ : Nat := nextOffset key pointSlot

/-- the multiplier of the public key -/
def u₂ : Nat := nextOffset u₁ scalarSlot

/-- the multiple of the generator, later the sum -/
def p₁ : Nat := nextOffset u₂ scalarSlot

/-- the multiple of the public key -/
def p₂ : Nat := nextOffset p₁ pointSlot

def stop : Nat := nextOffset p₂ pointSlot

end Verification

namespace KeyPair

def privateKey : Nat := Layout.variables

def publicKey : Nat := nextOffset privateKey scalarSlot

def stop : Nat := nextOffset publicKey pointSlot

end KeyPair

namespace Agreement

def privateKey : Nat := Layout.variables

/-- the other side's public key -/
def publicKey : Nat := nextOffset privateKey scalarSlot

/-- their product -/
def product : Nat := nextOffset publicKey pointSlot

def stop : Nat := nextOffset product pointSlot

end Agreement

theorem stop_le_memoryWords :
    Validation.stop ≤ memoryWords ∧ Decompression.stop ≤ memoryWords ∧
      Signing.stop ≤ memoryWords ∧ Verification.stop ≤ memoryWords ∧
      KeyPair.stop ≤ memoryWords ∧ Agreement.stop ≤ memoryWords := by
  decide

end CurveEngine.Layout
