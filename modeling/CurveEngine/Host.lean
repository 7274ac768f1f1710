import CurveEngine.Engine.Step
import CurveEngine.Program

/-!
# The host of a running operation

* `Host`            the engine, the output buffers, and what an operation leaves behind while it runs;
* `Host.answer`     one request answered;
* `Host.listen`, `Host.wakes`   registering for the engine's interrupt, and how often it came since;
* `Host.enter`, `Host.tick`, `Host.await`   being polled, one look at the running engine, and both
  by turns.

An operation registers before it looks at the engine for the first time, and it stays registered.
-/

namespace CurveEngine

/-- the engine, the output buffers, and what a running operation leaves behind -/
structure Host where
  engine : Engine
  /-- entries of the random source used up so far -/
  drawn : Nat
  log : Array Event
  /-- the functions this operation started, in order; the last one may have been a fault -/
  trace : Array Invocation
  /-- the engine's interrupts when the operation first registered to be woken -/
  listening : Option Nat
  polls : Nat
  /-- what the output buffers hold -/
  outputs : List Bytes
  deriving DecidableEq

namespace Host

/-- the host of an operation that has not begun; a waker that an earlier operation left registered is
not modelled -/
def new (e : Engine) (drawn : Nat) (outputs : List Bytes) : Host where
  engine := e
  drawn := drawn
  log := #[]
  trace := #[]
  listening := none
  polls := 0
  outputs := outputs

/-- wake-ups since the operation first registered -/
def wakes (h : Host) : Nat :=
  match h.listening with
  | none => 0
  | some n => h.engine.interrupts - n

/-- the operation registers to be woken, once: a later registration replaces a waker by one that wakes
the same task, and every interrupt from then on wakes it -/
def listen (h : Host) : Host :=
  { h with listening := some (h.listening.getD h.engine.interrupts) }

def answer (h : Host) : (q : Request) → Host × Except Fault q.Reply
  | .writeRegister r v =>
    let (e, w) := h.engine.writeRegister r v
    ({ h with engine := e }, w)
  | .readRegister r =>
    let (v, e) := h.engine.readRegister r
    ({ h with engine := e }, .ok v)
  | .writeMemory offset ws =>
    match h.engine.memory.write offset ws with
    | .ok m => ({ h with engine := { h.engine with memory := m } }, .ok ())
    | .error f => (h, .error f)
  | .readMemory offset n => (h, h.engine.memory.read offset n)
  | .start f =>
    let i : Invocation := ⟨f, h.engine.registers.operands⟩
    let (e, w) := h.engine.writeRegister .function (f.code ||| Opcode.run)
    ({ h with engine := e, log := h.log.push (.started f), trace := h.trace.push i }, w)
  | .log e => ({ h with log := h.log.push e }, .ok ())
  | .draw => ({ h with drawn := h.drawn + 1 }, .ok ())
  | .output t c =>
    match t.write c h.outputs with
    | .ok bufs => ({ h with outputs := bufs }, .ok ())
    | .error f => (h, .error f)

def enter (h : Host) : Host := { h with polls := h.polls + 1 }

/-- one read of the function register by a waiting operation -/
def tick (h : Host) : Host := { h with engine := h.engine.tick }

/-- `n` polls that find the engine running, each followed by the next poll -/
def await (h : Host) : Nat → Host
  | 0 => h
  | n + 1 => h.tick.enter.await n

/-! ## Small laws -/

theorem answer_writeMemory (h : Host) (offset : Nat) (ws : List Word) :
    ∃ m, (h.answer (.writeMemory offset ws)).1 =
      { h with engine := { h.engine with memory := m } } := by
  rw [answer]
  cases h.engine.memory.write offset ws with
  | error f => exact ⟨h.engine.memory, rfl⟩
  | ok m => exact ⟨m, rfl⟩

theorem answer_output (h : Host) (t : Slice) (c : Content) :
    ∃ bufs, (h.answer (.output t c)).1 = { h with outputs := bufs } := by
  rw [answer]
  cases t.write c h.outputs with
  | error f => exact ⟨h.outputs, rfl⟩
  | ok bufs => exact ⟨bufs, rfl⟩

@[simp] theorem await_zero (h : Host) : h.await 0 = h := rfl

@[simp] theorem await_succ (h : Host) (n : Nat) : h.await (n + 1) = h.tick.enter.await n := rfl

theorem listen_listen (h : Host) : h.listen.listen = h.listen := rfl

/-- who is registered is not registered again by a later poll -/
theorem listen_enter_tick_listen (h : Host) :
    h.listen.tick.enter.listen = h.listen.tick.enter := rfl

theorem busy_listen (h : Host) : h.listen.engine.busy = h.engine.busy := rfl

theorem busy_enter_tick (h : Host) : h.tick.enter.engine.busy = h.engine.busy - 1 :=
  Engine.busy_tick h.engine

theorem busy_await (h : Host) (n : Nat) : (h.await n).engine.busy = h.engine.busy - n := by
  induction n generalizing h with
  | zero => rfl
  | succ n ih =>
    rw [await_succ, ih, busy_enter_tick]
    omega

theorem trace_await (h : Host) (n : Nat) : (h.await n).trace = h.trace := by
  induction n generalizing h with
  | zero => rfl
  | succ n ih => exact ih h.tick.enter

theorem polls_await (h : Host) (n : Nat) : (h.await n).polls = h.polls + n := by
  induction n generalizing h with
  | zero => rfl
  | succ n ih =>
    rw [await_succ, ih]
    have : h.tick.enter.polls = h.polls + 1 := rfl
    omega

end Host
end CurveEngine
