import CurveEngine.Memory
import CurveEngine.Opcode
import CurveEngine.Register

/-!
# Access to registers and memory

The program that drives the engine sees registers and memory only.

* `Bus`           something with registers and a memory;
* `Bus.Access`, `Bus.Answer`   one access and its answer;
* `Bus.access`    the access carried out.

Reading a register may change the state, so a read returns the state as well.  Whether a function is
running shows in the function register, but an implementation may look at it its own way.
-/

namespace CurveEngine

/-- registers and memory as a program sees them -/
class Bus (σ : Type) where
  readRegister : σ → Register → Word × σ
  /-- writes a register; a fault too may leave another state -/
  writeRegister : σ → Register → Word → σ × Except Fault Unit
  /-- so many words from an offset on -/
  readMemory : σ → Nat → Nat → Except Fault (List Word)
  writeMemory : σ → Nat → List Word → Except Fault σ
  /-- some function is still running -/
  isBusy : σ → Bool × σ := fun s =>
    let (v, s) := readRegister s .function
    (Opcode.starts v, s)

namespace Bus

inductive Access where
  | readRegister (r : Register)
  | writeRegister (r : Register) (v : Word)
  | readMemory (offset n : Nat)
  | writeMemory (offset : Nat) (ws : List Word)
  | isBusy
  deriving DecidableEq

inductive Answer where
  | word (v : Word)
  | words (ws : List Word)
  | busy (b : Bool)
  | done
  deriving DecidableEq

variable {σ : Type} [Bus σ]

def access (s : σ) : Access → σ × Except Fault Answer
  | .readRegister r =>
    let (v, s) := readRegister s r
    (s, .ok (.word v))
  | .writeRegister r v =>
    let (s, w) := writeRegister s r v
    (s, (fun _ => .done) <$> w)
  | .readMemory offset n => (s, .words <$> readMemory s offset n)
  | .writeMemory offset ws =>
    match writeMemory s offset ws with
    | .ok s => (s, .ok .done)
    | .error f => (s, .error f)
  | .isBusy =>
    let (b, s) := isBusy s
    (s, .ok (.busy b))

end Bus
end CurveEngine
