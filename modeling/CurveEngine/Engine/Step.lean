import CurveEngine.Bus
import CurveEngine.Engine
import CurveEngine.Transcript

/-!
# The engine on its own

* `Engine.Step`, `Engine.Answer`   the steps a test bench takes with an engine, and their answers;
* `Engine.step`                    one step.

A `run` step sets the operand registers it names and then starts a function.  No step leaves the run
flag in the function register, so it is shown only while a function is running: `isBusy_eq`.
-/

namespace CurveEngine

instance : Bus Engine where
  readRegister := Engine.readRegister
  writeRegister := Engine.writeRegister
  readMemory e offset n := e.memory.read offset n
  writeMemory e offset ws := (fun m => { e with memory := m }) <$> e.memory.write offset ws

namespace Engine

/-- the accepted function word has lost the run flag -/
theorem starts_accept (e : Engine) (v : Word) :
    Opcode.starts (e.accept v).registers.function = false := by
  rw [show (e.accept v).registers.function = v &&& ~~~Opcode.run from rfl]
  exact Opcode.starts_clear_run v

/-- with a function word that does not hold the run flag, the flag is that of a running function -/
theorem isBusy_eq {e : Engine} (h : Opcode.starts e.registers.function = false) :
    Bus.isBusy e = (decide (e.busy ≠ 0), e.tick) := by
  show (Opcode.starts (e.readRegister .function).1, e.tick) = _
  rw [readRegister.eq_def]
  by_cases hb : e.busy = 0
  · simp [hb, h]
  · simp [hb, Opcode.starts_or_run]

/-- words are written whole or not at all -/
theorem of_writeMemory {e e' : Engine} {offset : Nat} {ws : List Word}
    (h : Bus.writeMemory e offset ws = .ok e') :
    Memory.Fits offset ws.length ∧ e' = { e with memory := e.memory.overwrite offset ws } := by
  have he : Bus.writeMemory e offset ws =
      (e.memory.write offset ws).map fun m => { e with memory := m } := rfl
  rw [he, Memory.write] at h
  split at h
  · next hf =>
    cases h
    exact ⟨hf, rfl⟩
  · cases h

/-- the operand registers a `run` step sets first, in this order -/
structure Setup where
  a : Option (Word × Option Word)
  b : Option (Word × Option Word)
  c : Option Word
  d : Option Word
  deriving DecidableEq

inductive Step where
  | access (a : Bus.Access)
  | init
  | disable
  | run (f : Opcode) (setup : Setup)
  deriving DecidableEq

inductive Answer where
  | access (a : Bus.Answer)
  | power (powered : Bool) (started : Nat)
  | outcome (compare msw shift : Word) (started : Nat)
  deriving DecidableEq

/-- a pointer and perhaps a length, where given -/
def setOperand (e : Engine) (pointer length : Register) :
    Option (Word × Option Word) → Engine
  | none => e
  | some (v, none) => e.setRegister pointer v
  | some (v, some n) => (e.setRegister pointer v).setRegister length n

def setPointer (e : Engine) (pointer : Register) : Option Word → Engine
  | none => e
  | some v => e.setRegister pointer v

def setUp (e : Engine) (s : Setup) : Engine :=
  let e := e.setOperand .aPtr .aLength s.a
  let e := e.setOperand .bPtr .bLength s.b
  let e := e.setPointer .cPtr s.c
  e.setPointer .dPtr s.d

def power (e : Engine) : Answer := .power e.powered e.started

def outcome (e : Engine) : Answer :=
  .outcome e.registers.compare e.registers.msw e.registers.shift e.started

def step (e : Engine) : Step → Engine × Except Fault Answer
  | .access a =>
    let (e, r) := Bus.access e a
    (e, .access <$> r)
  | .init => (e.init, .ok e.init.power)
  | .disable => (e.disable, .ok e.disable.power)
  | .run f setup =>
    let (e, r) := (e.setUp setup).writeRegister .function (f.code ||| Opcode.run)
    (e, (fun _ => e.outcome) <$> r)

def bench (latency : Nat) (steps : List Step) : Transcript Engine Answer :=
  Transcript.of step (new latency) steps

end Engine
end CurveEngine
