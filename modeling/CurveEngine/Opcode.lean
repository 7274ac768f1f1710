import CurveEngine.Words

/-!
# Functions of the engine and their status words

* `Opcode`              the nine functions, with `code` and `decode?`;
* `Opcode.run`          the flag that starts the function written along with it;
* `Status.ofOrdering`, `Status.ordering`   the outcome of a comparison;
* `Status.msw`, `Status.isZero`, `Status.address`   where the highest non-zero word of a result lies;
* `Status.pointDone`, `Status.pointInfinity`, `Status.pointFailed`   how a point operation ended.

The functions on points and the inversion take a three-bit field of the function word, which goes
before the single bits of the basic functions.
-/

namespace CurveEngine

inductive Opcode where
  /-- `C = A * B` -/
  | multiply
  /-- `C = A + B` -/
  | add
  /-- `C = A - B` -/
  | subtract
  /-- `C = A mod B` -/
  | modulo
  | compare
  /-- `C = A` -/
  | copy
  /-- `D = 1 / A mod B` -/
  | invert
  /-- `D = A + C` on the curve at B -/
  | pointAdd
  /-- `D = A * C` with a scalar A, on the curve at B -/
  | pointMul
  deriving DecidableEq

namespace Opcode

def all : List Opcode :=
  [multiply, add, subtract, modulo, compare, copy, invert, pointAdd, pointMul]

def name : Opcode → String
  | multiply => "Multiply"
  | add => "Add"
  | subtract => "Subtract"
  | modulo => "Modulo"
  | compare => "Compare"
  | copy => "Copy"
  | invert => "ModInv"
  | pointAdd => "EccAdd"
  | pointMul => "EccMul"

/-- the function word, without the flag that starts it -/
def code : Opcode → Word
  | multiply => 0x0001
  | add => 0x0010
  | subtract => 0x0020
  | modulo => 0x0200
  | compare => 0x0400
  | copy => 0x0800
  | pointAdd => 0x3000
  | pointMul => 0x5000
  | invert => 0x7000

/-- the flag that starts a function -/
def run : Word := 0x8000

/-- the field of the functions that are sequences of others -/
def sequencer : Word := 0x7000

/-- functions with a bit of their own, the first one that is set counts -/
def basic : List Opcode := [multiply, add, subtract, modulo, compare, copy]

def decode? (v : Word) : Option Opcode :=
  if v &&& sequencer = pointAdd.code then some pointAdd
  else if v &&& sequencer = pointMul.code then some pointMul
  else if v &&& sequencer = invert.code then some invert
  else if v &&& sequencer ≠ 0 then none
  else basic.find? fun f => v &&& f.code ≠ 0

def starts (v : Word) : Bool := v &&& run ≠ 0

theorem mem_all (f : Opcode) : f ∈ all := by
  cases f <;> decide

theorem decode?_code (f : Opcode) : decode? f.code = some f := by
  cases f <;> rfl

theorem decode?_code_run (f : Opcode) : decode? (f.code ||| run) = some f := by
  cases f <;> rfl

theorem starts_code_run (f : Opcode) : starts (f.code ||| run) = true := by
  cases f <;> rfl

theorem starts_code (f : Opcode) : starts f.code = false := by
  cases f <;> rfl

theorem starts_or_run (v : Word) : starts (v ||| run) = true := by
  have h : (v ||| run) &&& run = run := by
    apply UInt32.toBitVec_inj.mp
    ext i hi
    rw [UInt32.toBitVec_and, UInt32.toBitVec_or, BitVec.getElem_and, BitVec.getElem_or]
    cases v.toBitVec[i] <;> simp
  rw [starts, h]
  rfl

theorem starts_clear_run (v : Word) : starts (v &&& ~~~run) = false := by
  have h : (v &&& ~~~run) &&& run = 0 := by
    rw [UInt32.and_assoc]
    simp [run]
  rw [starts, h]
  rfl

end Opcode

namespace Status

/-! ## Comparison -/

def ofOrdering : Ordering → Word
  | .eq => 1
  | .lt => 2
  | .gt => 4

def ordering (v : Word) : Ordering :=
  if v = 4 then .gt else if v = 2 then .lt else .eq

@[simp] theorem ordering_ofOrdering (o : Ordering) : ordering (ofOrdering o) = o := by
  cases o <;> rfl

/-! ## The highest non-zero word of a result -/

def zeroFlag : Word := 0x8000

/-- the status word of a result stored at `offset` -/
def msw (offset : Nat) (ws : List Word) : Word :=
  match Words.top? ws with
  | some i => UInt32.ofNat (offset + i)
  | none => zeroFlag ||| UInt32.ofNat offset

def isZero (v : Word) : Bool := v &&& zeroFlag ≠ 0

/-- where the highest non-zero word of the result lies -/
def address (v : Word) : Nat := (v &&& 0x7ff).toNat

/-! ## Point operations -/

/-- the result is a regular point -/
def pointDone : Word := 0

def pointInfinity : Word := 7

/-- an operand was no point -/
def pointFailed : Word := 0x1f

end Status
end CurveEngine
