import CurveEngine.Event
import CurveEngine.Output

/-!
# Programs that drive the engine

An operation is a program: it asks for accesses one after the other, each answer deciding how it
goes on, and it waits after every function it starts.

* `Request`, `Request.Reply`   what a program asks for, and the type of the reply;
* `Program`                    a result, a failure, a request with its continuation, or a wait;
* `Program.bind`               one program after the other, a lawful monad;
* `Program.attempt`            the program with its failure as a result.

Nothing is said here about how a request is answered or how long a wait takes.
-/

namespace CurveEngine

/-- what a program asks for -/
inductive Request where
  | writeRegister (r : Register) (v : Word)
  | readRegister (r : Register)
  | writeMemory (offset : Nat) (ws : List Word)
  | readMemory (offset n : Nat)
  | start (f : Opcode)
  | log (e : Event)
  | draw
  /-- a write to a part of an output buffer -/
  | output (t : Slice) (c : Content)
  deriving DecidableEq

@[reducible] def Request.Reply : Request → Type
  | readRegister _ => Word
  | readMemory _ _ => List Word
  | _ => Unit

/-- a program with a result in `α` -/
inductive Program (α : Type) : Type where
  | done (a : α)
  | fail (e : Failure)
  /-- a request, and how to go on with its reply -/
  | ask (q : Request) (next : q.Reply → Program α)
  /-- a pause until the engine is idle -/
  | wait (next : Program α)

namespace Program

variable {α β γ : Type}

/-- one program after the other; a failure ends both -/
def bind : Program α → (α → Program β) → Program β
  | done a, f => f a
  | fail e, _ => fail e
  | ask q next, f => ask q fun r => (next r).bind f
  | wait next, f => wait (next.bind f)

instance : Monad Program where
  pure := done
  bind := bind

/-- the program with its failure as a result -/
def attempt : Program α → Program (Except Failure α)
  | done a => done (.ok a)
  | fail e => done (.error e)
  | ask q next => ask q fun r => (next r).attempt
  | wait next => wait next.attempt

@[simp] theorem done_bind (a : α) (f : α → Program β) : (done a).bind f = f a := rfl

@[simp] theorem fail_bind (e : Failure) (f : α → Program β) : (fail e).bind f = fail e := rfl

@[simp] theorem ask_bind (q : Request) (next : q.Reply → Program α) (f : α → Program β) :
    (ask q next).bind f = ask q fun r => (next r).bind f := rfl

@[simp] theorem wait_bind (next : Program α) (f : α → Program β) :
    (wait next).bind f = wait (next.bind f) := rfl

@[simp] theorem pure_eq (a : α) : (pure a : Program α) = done a := rfl

@[simp] theorem bind_eq (p : Program α) (f : α → Program β) : p >>= f = p.bind f := rfl

@[simp] theorem attempt_done (a : α) : (done a).attempt = done (.ok a) := rfl

@[simp] theorem attempt_fail (e : Failure) : (fail e : Program α).attempt = done (.error e) := rfl

@[simp] theorem attempt_ask (q : Request) (next : q.Reply → Program α) :
    (ask q next).attempt = ask q fun r => (next r).attempt := rfl

@[simp] theorem attempt_wait (next : Program α) : (wait next).attempt = wait next.attempt := rfl

theorem bind_done (p : Program α) : p.bind done = p := by
  induction p with
  | done a => rfl
  | fail e => rfl
  | ask q next ih => exact congrArg (ask q) (funext ih)
  | wait next ih => exact congrArg wait ih

theorem bind_assoc (p : Program α) (f : α → Program β) (g : β → Program γ) :
    (p.bind f).bind g = p.bind fun a => (f a).bind g := by
  induction p with
  | done a => rfl
  | fail e => rfl
  | ask q next ih => exact congrArg (ask q) (funext ih)
  | wait next ih => exact congrArg wait ih

instance : LawfulMonad Program :=
  LawfulMonad.mk' Program bind_done (fun _ _ => rfl) bind_assoc

/-- what is tried and then goes on -/
theorem attempt_bind (p : Program α) (f : α → Program β) :
    (p.bind f).attempt =
      p.attempt.bind fun r =>
        match r with
        | .ok a => (f a).attempt
        | .error e => done (.error e) := by
  induction p with
  | done a => rfl
  | fail e => rfl
  | ask q next ih => exact congrArg (ask q) (funext ih)
  | wait next ih => exact congrArg wait ih

/-! ## Single requests -/

def writeRegister (r : Register) (v : Word) : Program Unit := ask (.writeRegister r v) done

def readRegister (r : Register) : Program Word := ask (.readRegister r) done

def writeMemory (offset : Nat) (ws : List Word) : Program Unit := ask (.writeMemory offset ws) done

def readMemory (offset n : Nat) : Program (List Word) := ask (.readMemory offset n) done

def log (e : Event) : Program Unit := ask (.log e) done

def draw : Program Unit := ask .draw done

def output (t : Slice) (c : Content) : Program Unit := ask (.output t c) done

/-- a function started and waited for -/
def run (f : Opcode) : Program Unit := ask (.start f) fun _ => wait (done ())

/-- a failure, with an event for the log -/
def refuse (e : Event) (cause : Failure) : Program α := ask (.log e) fun _ => fail cause

end Program
end CurveEngine
