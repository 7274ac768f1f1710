import CurveEngine.Memory
import CurveEngine.Opcode
import CurveEngine.Point
import CurveEngine.Register

/-!
# The engine

An asynchronous big-number engine: operands lie in its memory, the operand registers point at them,
and writing the function register with the run flag starts a function.  The result is there at once,
but the engine reports itself running for `latency` reads of the function register, and raises an
interrupt with the last of them (with the start if the latency is 0).

* `Engine`              memory, registers, power, and the reads it will still report itself running;
* `Engine.execute`      what each function computes and where it stores it;
* `Engine.start`        a function word with the run flag: the checks and then `Engine.launch`;
* `Engine.readRegister`, `Engine.writeRegister`   the registers as seen from outside;
* `Engine.init`, `Engine.disable`                 reset with power on, and power off.
-/

namespace CurveEngine

structure Engine where
  memory : Memory
  registers : RegisterFile
  /-- reads of the function register that report a started function as running -/
  latency : Nat
  /-- such reads still to come -/
  busy : Nat
  /-- functions can be started -/
  powered : Bool
  started : Nat
  interrupts : Nat
  deriving DecidableEq

namespace Engine

/-- an engine without power, all words zero -/
def new (latency : Nat) : Engine where
  memory := .zero
  registers := .zero
  latency := latency
  busy := 0
  powered := false
  started := 0
  interrupts := 0

def init (e : Engine) : Engine :=
  { e with memory := .zero, registers := .zero, busy := 0, started := 0, powered := true }

def disable (e : Engine) : Engine := { e with powered := false }

/-! ## Operands and results -/

def vector (e : Engine) (offset n : Nat) : Except Fault Nat := do
  return Words.value (← e.memory.read offset n)

def setRegister (e : Engine) (r : Register) (v : Word) : Engine :=
  { e with registers := e.registers.set r v }

/-- `value` stored in `n` words from `offset` on, dropping what does not fit, and its status -/
def store (e : Engine) (offset n value : Nat) : Except Fault Engine :=
  if Memory.Fits offset n then
    let ws := Words.ofNat n value
    .ok { e with
      memory := e.memory.overwrite offset ws
      registers := e.registers.set .msw (Status.msw offset ws) }
  else .error .outOfBounds

/-! ## Point operations

The curve lies at B, its prime and its coefficient `a` each in a coordinate's space.  Coordinates
and curve have as many words as B is long. -/

def curve (e : Engine) (o : Operands) : Except Fault Weierstrass := do
  let p ← e.vector o.b o.bLength
  let a ← e.vector (o.b + Layout.coordinateSpace o.bLength) o.bLength
  return ⟨p, a⟩

/-- the point at `offset`, with coordinates of `w` words -/
def point (e : Engine) (offset w : Nat) : Except Fault Point := do
  let x ← e.vector offset w
  let y ← e.vector (offset + Layout.coordinateSpace w) w
  return .affine x y

/-- the sum of the points at A and C, `none` if a coordinate is not reduced -/
def pointSum? (e : Engine) (o : Operands) : Except Fault (Option Point) := do
  let C ← e.curve o
  let Q ← e.point o.c o.bLength
  let P ← e.point o.a o.bLength
  return if C.Reduced P ∧ C.Reduced Q then some (C.add P Q) else none

/-- the point at C times the scalar at A, `none` if a coordinate is not reduced -/
def pointMultiple? (e : Engine) (o : Operands) : Except Fault (Option Point) := do
  let C ← e.curve o
  let Q ← e.point o.c o.bLength
  let k ← e.vector o.a o.aLength
  return if C.Reduced Q then some (C.smul k Q) else none

/-- a regular point is stored at D; every outcome has its status -/
def storePoint (e : Engine) (o : Operands) : Option Point → Except Fault Engine
  | none => .ok (e.setRegister .shift Status.pointFailed)
  | some .infinity => .ok (e.setRegister .shift Status.pointInfinity)
  | some (.affine x y) => do
    let space := Layout.coordinateSpace o.bLength
    let e ← e.store o.d space x
    let e ← e.store (o.d + space) space y
    return e.setRegister .shift Status.pointDone

/-! ## Functions -/

/-- one function, on the operands the registers point at -/
def execute (e : Engine) (f : Opcode) : Except Fault Engine :=
  let o := e.registers.operands
  match f with
  | .multiply => do
    let a ← e.vector o.a o.aLength
    let b ← e.vector o.b o.bLength
    e.store o.c (o.aLength + o.bLength) (a * b)
  | .add => do
    let a ← e.vector o.a o.aLength
    let b ← e.vector o.b o.bLength
    e.store o.c (max o.aLength o.bLength + 1) (a + b)
  | .subtract => do
    let a ← e.vector o.a o.aLength
    let b ← e.vector o.b o.bLength
    let n := max o.aLength o.bLength
    e.store o.c n (1 <<< (32 * n) + a - b)
  | .modulo => do
    let m ← e.vector o.b o.bLength
    let r ← if m = 0 then pure 0 else (· % m) <$> e.vector o.a o.aLength
    e.store o.c (o.bLength + 1) r
  | .compare => do
    let a ← e.vector o.a o.aLength
    let b ← e.vector o.b o.aLength
    return e.setRegister .compare (Status.ofOrdering (compare a b))
  | .copy => do
    let ws ← e.memory.read o.a o.aLength
    let m ← e.memory.write o.c ws
    return { e with memory := m }
  | .invert => do
    let m ← e.vector o.b o.bLength
    let a ← e.vector o.a o.aLength
    if m = 0 then throw .zeroModulus
    e.store o.d o.bLength ((Residue.inverse? a m).getD 0)
  | .pointAdd => do e.storePoint o (← e.pointSum? o)
  | .pointMul => do e.storePoint o (← e.pointMultiple? o)

/-- the engine right after `f` was accepted, before it runs -/
def accept (e : Engine) (v : Word) : Engine :=
  { e with registers := e.registers.set .function (v &&& ~~~Opcode.run), started := e.started + 1 }

/-- the engine reports itself running for its latency -/
def hold (e : Engine) : Engine :=
  { e with busy := e.latency, interrupts := e.interrupts + if e.latency = 0 then 1 else 0 }

/-- the function `f` of an accepted word; it counts as started even if its operands turn out to be
unusable -/
def launch (e : Engine) (v : Word) (f : Opcode) : Engine × Except Fault Unit :=
  match (e.accept v).execute f with
  | .ok e => (e.hold, .ok ())
  | .error fault => (e.accept v, .error fault)

/-- a function word with the run flag is written -/
def start (e : Engine) (v : Word) : Engine × Except Fault Unit :=
  if !e.powered then (e, .error .poweredDown)
  else if e.busy ≠ 0 then (e, .error .busy)
  else
    match Opcode.decode? v with
    | none => (e, .error (.unsupported v))
    | some f => e.launch v f

/-! ## Registers from outside -/

def tick (e : Engine) : Engine :=
  if e.busy = 0 then e
  else { e with busy := e.busy - 1, interrupts := e.interrupts + if e.busy = 1 then 1 else 0 }

/-- reading the function register shows the run flag while a function is running -/
def readRegister (e : Engine) (r : Register) : Word × Engine :=
  match r with
  | .function =>
    (if e.busy = 0 then e.registers.function else e.registers.function ||| Opcode.run, e.tick)
  | r => (e.registers.get r, e)

/-- status registers ignore writes, the run flag in the function register starts a function -/
def writeRegister (e : Engine) (r : Register) (v : Word) : Engine × Except Fault Unit :=
  if r.isStatus then (e, .ok ())
  else if r = .function ∧ Opcode.starts v then e.start v
  else (e.setRegister r v, .ok ())

/-! ## Small laws -/

theorem store_of_fits {e : Engine} {offset n : Nat} (h : Memory.Fits offset n) (value : Nat) :
    e.store offset n value =
      .ok { e with
        memory := e.memory.overwrite offset (Words.ofNat n value)
        registers := e.registers.set .msw (Status.msw offset (Words.ofNat n value)) } :=
  if_pos h

theorem vector_of_fits {e : Engine} {offset n : Nat} (h : Memory.Fits offset n) :
    e.vector offset n = .ok (Words.value (e.memory.window offset n)) := by
  rw [vector, Memory.read_of_fits h]
  rfl

@[simp] theorem tick_of_idle {e : Engine} (h : e.busy = 0) : e.tick = e := if_pos h

/-- every read of the function register brings a running function one read closer to its end -/
theorem busy_tick (e : Engine) : e.tick.busy = e.busy - 1 := by
  unfold tick
  split <;> simp_all

/-- reads leave memory, registers, power and the count of functions alone -/
theorem tick_frame (e : Engine) :
    e.tick.memory = e.memory ∧ e.tick.registers = e.registers ∧ e.tick.latency = e.latency ∧
      e.tick.powered = e.powered ∧ e.tick.started = e.started := by
  unfold tick
  split <;> exact ⟨rfl, rfl, rfl, rfl, rfl⟩

theorem start_of_off {e : Engine} (h : e.powered = false) (v : Word) :
    e.start v = (e, .error .poweredDown) := by
  rw [start, h]
  rfl

theorem start_of_running {e : Engine} (hp : e.powered = true) (hb : e.busy ≠ 0) (v : Word) :
    e.start v = (e, .error .busy) := by
  rw [start, hp, if_neg (by decide), if_pos hb]

theorem start_of_unsupported {e : Engine} (hp : e.powered = true) (hb : e.busy = 0) {v : Word}
    (hv : Opcode.decode? v = none) : e.start v = (e, .error (.unsupported v)) := by
  rw [start, hp, if_neg (by decide), if_neg (not_not_intro hb), hv]

theorem start_of_accepted {e : Engine} (hp : e.powered = true) (hb : e.busy = 0) {v : Word}
    {f : Opcode} (hv : Opcode.decode? v = some f) : e.start v = e.launch v f := by
  rw [start, hp, if_neg (by decide), if_neg (not_not_intro hb), hv]

theorem launch_of_ok {e e' : Engine} {v : Word} {f : Opcode}
    (h : (e.accept v).execute f = .ok e') : e.launch v f = (e'.hold, .ok ()) := by
  rw [launch, h]

theorem launch_of_error {e : Engine} {v : Word} {f : Opcode} {fault : Fault}
    (h : (e.accept v).execute f = .error fault) : e.launch v f = (e.accept v, .error fault) := by
  rw [launch, h]

theorem readRegister_of_ne {e : Engine} {r : Register} (h : r ≠ .function) :
    e.readRegister r = (e.registers.get r, e) := by
  unfold readRegister
  split
  · exact absurd rfl h
  · rfl

end Engine
end CurveEngine
