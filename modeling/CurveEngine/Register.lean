import CurveEngine.Words

/-!
# The engine's registers

* `Register`        the eleven registers;
* `RegisterFile`    a word in each of them, with `get` and `set`;
* `Operands`        the operand registers as offsets and lengths, `RegisterFile.operands`.

The status registers `compare`, `msw` and `divMsw` can only be read (`Register.isStatus`).
`get_set` is the law of the register file.
-/

namespace CurveEngine

/-- the registers: four operand pointers, two operand lengths, and what a function is started by
and answers in -/
inductive Register where
  | aPtr
  | bPtr
  | cPtr
  | dPtr
  | aLength
  | bLength
  | shift
  | function
  | compare
  | msw
  | divMsw
  deriving DecidableEq

namespace Register

/-- writes to a status register are ignored -/
def isStatus : Register → Bool
  | compare | msw | divMsw => true
  | _ => false

end Register

/-- the operand registers as offsets and lengths -/
structure Operands where
  a : Nat
  b : Nat
  c : Nat
  d : Nat
  aLength : Nat
  bLength : Nat
  deriving DecidableEq

structure RegisterFile where
  aPtr : Word
  bPtr : Word
  cPtr : Word
  dPtr : Word
  aLength : Word
  bLength : Word
  shift : Word
  function : Word
  compare : Word
  msw : Word
  divMsw : Word
  deriving DecidableEq

namespace RegisterFile

def zero : RegisterFile := ⟨0, 0, 0, 0, 0, 0, 0, 0, 0, 0, 0⟩

def get (f : RegisterFile) : Register → Word
  | .aPtr => f.aPtr
  | .bPtr => f.bPtr
  | .cPtr => f.cPtr
  | .dPtr => f.dPtr
  | .aLength => f.aLength
  | .bLength => f.bLength
  | .shift => f.shift
  | .function => f.function
  | .compare => f.compare
  | .msw => f.msw
  | .divMsw => f.divMsw

def set (f : RegisterFile) (r : Register) (v : Word) : RegisterFile :=
  match r with
  | .aPtr => { f with aPtr := v }
  | .bPtr => { f with bPtr := v }
  | .cPtr => { f with cPtr := v }
  | .dPtr => { f with dPtr := v }
  | .aLength => { f with aLength := v }
  | .bLength => { f with bLength := v }
  | .shift => { f with shift := v }
  | .function => { f with function := v }
  | .compare => { f with compare := v }
  | .msw => { f with msw := v }
  | .divMsw => { f with divMsw := v }

/-- the operands a function started now would use -/
def operands (f : RegisterFile) : Operands where
  a := f.aPtr.toNat
  b := f.bPtr.toNat
  c := f.cPtr.toNat
  d := f.dPtr.toNat
  aLength := f.aLength.toNat
  bLength := f.bLength.toNat

@[simp] theorem get_zero (r : Register) : zero.get r = 0 := by
  cases r <;> rfl

theorem get_set (f : RegisterFile) (r s : Register) (v : Word) :
    (f.set r v).get s = if r = s then v else f.get s := by
  cases r <;> cases s <;> rfl

@[simp] theorem get_set_self (f : RegisterFile) (r : Register) (v : Word) :
    (f.set r v).get r = v := by
  rw [get_set, if_pos rfl]

theorem get_set_of_ne (f : RegisterFile) {r s : Register} (h : r ≠ s) (v : Word) :
    (f.set r v).get s = f.get s := by
  rw [get_set, if_neg h]

theorem ext_get {f g : RegisterFile} (h : ∀ r, f.get r = g.get r) : f = g := by
  cases f
  cases g
  have h₀ := h .aPtr
  have h₁ := h .bPtr
  have h₂ := h .cPtr
  have h₃ := h .dPtr
  have h₄ := h .aLength
  have h₅ := h .bLength
  have h₆ := h .shift
  have h₇ := h .function
  have h₈ := h .compare
  have h₉ := h .msw
  have h₁₀ := h .divMsw
  simp only [get] at h₀ h₁ h₂ h₃ h₄ h₅ h₆ h₇ h₈ h₉ h₁₀
  subst h₀ h₁ h₂ h₃ h₄ h₅ h₆ h₇ h₈ h₉ h₁₀
  rfl

end RegisterFile
end CurveEngine
