import CurveEngine.Bytes
import CurveEngine.Layout
import CurveEngine.Program

/-!
# Arithmetic by the engine

Each program here sets the operand registers, starts one function, waits for it, and reads what the
status registers say.  Numbers are elements of `w` words, named by their offsets.

* `Arithmetic.load`, `Arithmetic.fetch`, and the same for points   byte strings to memory, and elements
  from there to the output buffers;
* `Arithmetic.compare`, `Arithmetic.checkBetween`    the order of two elements;
* `Arithmetic.copy`, `Arithmetic.subtract`           without reduction;
* `Arithmetic.invert`, `Arithmetic.modular`          modulo a number, refusing zero;
* `Arithmetic.field`                                 modulo the field's prime, zero included;
* `Arithmetic.point`                                 sums and multiples of points.

Raw results go to the scratchpad and from there to their place.
-/

namespace CurveEngine.Arithmetic

open Program

/-! ## Byte strings in memory -/

/-- an element from a byte string of `4 * w` bytes -/
def load (w : Nat) (bs : Bytes) (offset : Nat) : Program Unit :=
  writeMemory offset (Bytes.overWords (bs.take (4 * w)) (List.replicate w 0))

/-- an element to an output buffer, from the byte `start` on -/
def fetch (w offset buffer start : Nat) : Program Unit := do
  output ⟨buffer, start, 4 * w⟩ (.words (← readMemory offset w))

/-- a point from a byte string, `x` and then `y` -/
def loadPoint (w : Nat) (bs : Bytes) (offset : Nat) : Program Unit := do
  load w (bs.take (4 * w)) offset
  load w (bs.drop (4 * w)) (offset + Layout.coordinateSpace w)

/-- a point to an output buffer, `x` and then `y` -/
def fetchPoint (w offset buffer : Nat) : Program Unit := do
  fetch w offset buffer 0
  fetch w (offset + Layout.coordinateSpace w) buffer (4 * w)

/-- the lowest word of an element -/
def lowWord (offset : Nat) : Program Word := do
  return (← readMemory offset 1).headD 0

/-! ## Without reduction -/

def operand (r : Register) (n : Nat) : Program Unit := writeRegister r (UInt32.ofNat n)

def compare (w a b : Nat) : Program Ordering := do
  operand .aPtr a
  operand .aLength w
  operand .bPtr b
  run .compare
  return Status.ordering (← readRegister .compare)

/-- fails unless `low < x < high` -/
def checkBetween (w x low high : Nat) : Program Unit := do
  if (← compare w x low) ≠ .gt then fail .failed
  if (← compare w x high) ≠ .lt then fail .failed

def copy (source target n : Nat) : Program Unit := do
  operand .aPtr source
  operand .aLength n
  operand .cPtr target
  run .copy

/-- `result = a - b` -/
def subtract (w a b result : Nat) : Program Unit := do
  operand .aPtr a
  operand .aLength w
  operand .bPtr b
  operand .bLength w
  operand .cPtr Layout.scratchpad
  run .subtract
  copy Layout.scratchpad result w

/-! ## Modulo a number -/

/-- `result = 1 / number` modulo `modulus`; there may be none -/
def invert (w number modulus result : Nat) : Program Unit := do
  operand .aPtr number
  operand .aLength w
  operand .bPtr modulus
  operand .bLength w
  operand .dPtr Layout.scratchpad
  run .invert
  if Status.isZero (← readRegister .msw) then fail .zeroResult
  copy Layout.scratchpad result w

/-- words of a raw result in the scratchpad whose highest non-zero word is at `address`, at least
those of an element -/
def rawLength (w address : Nat) : Nat := max w (address + 1 - Layout.scratchpad)

/-- `result = a + b` or `result = a * b` modulo `modulus`, refusing a raw result that is zero -/
def modular (f : Opcode) (w a b modulus result : Nat) : Program Unit := do
  operand .aPtr a
  operand .aLength w
  operand .bPtr b
  operand .bLength w
  operand .cPtr Layout.scratchpad
  run f
  let status ← readRegister .msw
  if Status.isZero status then fail .zeroResult
  operand .aPtr Layout.scratchpad
  operand .aLength (rawLength w (Status.address status))
  operand .bPtr modulus
  operand .cPtr result
  run .modulo

/-- the same modulo the field's prime, where zero is a result like any other -/
def field (f : Opcode) (w a b result : Nat) : Program Unit := do
  match ← (modular f w a b Layout.field result).attempt with
  | .ok () => return
  | .error _ => copy Layout.null result w

/-! ## Points -/

/-- `result = a + c` for points, or `result = a * c` for a scalar `a` -/
def point (f : Opcode) (w a c result : Nat) : Program Unit := do
  operand .aPtr a
  operand .aLength w
  operand .bPtr Layout.field
  operand .bLength w
  operand .cPtr c
  operand .dPtr Layout.scratchpad
  run f
  let shift ← readRegister .shift
  if shift = Status.pointInfinity then fail .infinity
  if shift ≠ Status.pointDone then refuse (.pointFailed shift) .failed
  copy Layout.scratchpad result (Layout.pointSpace w)

end CurveEngine.Arithmetic
