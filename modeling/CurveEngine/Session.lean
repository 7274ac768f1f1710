import CurveEngine.Config
import CurveEngine.Drive
import CurveEngine.Operation

/-!
# Sessions

A session owns an engine and a random source, enables a curve and runs operations, one at a time.

* `Session`              engine, enabled curve, configuration and random source;
* `Session.enable`, `Session.disable`   the engine reset and loaded with a curve, and powered down;
* `Session.operate`      an operation run in one of the ways of `Drive`;
* `Session.Step`, `Session.Answer`, `Session.step`   the steps of a session;
* `Session.summary`      what is left at the end.

Output buffers are lent to an operation, which writes to them while it runs.  An operation that is
still pending when it is given up is dropped: the engine stays as it is, perhaps running.  Between
operations the owner of the session may access the engine directly.
-/

namespace CurveEngine

namespace CurveData

/-- the constants of a curve with their places in memory -/
def constants (d : CurveData) : List (Nat × Nat) :=
  let space := Layout.coordinateSpace d.words
  [(Layout.null, 0), (Layout.one, 1),
    (Layout.generator, d.gx), (Layout.generator + space, d.gy),
    (Layout.field, d.p), (Layout.field + space, d.a), (Layout.field + 2 * space, d.b),
    (Layout.order, d.n), (Layout.coefficientA, d.a), (Layout.coefficientB, d.b)]

/-- a memory with the constants of a curve in their places -/
def load (d : CurveData) (m : Memory) : Memory :=
  d.constants.foldl (fun m c => m.overwrite c.1 (Words.ofNat d.words c.2)) m

end CurveData

structure Session where
  engine : Engine
  curve : Option NamedCurve
  config : Config
  source : List Entry
  /-- entries of it used up so far -/
  drawn : Nat
  deriving DecidableEq

namespace Session

def new (latency : Nat) (config : Config) (source : List Entry) : Session :=
  ⟨.new latency, none, config, source, 0⟩

/-- the engine reset and loaded with a curve -/
def enable (s : Session) (c : NamedCurve) : Session :=
  let e := s.engine.init
  { s with engine := { e with memory := c.data.load e.memory }, curve := some c }

def disable (s : Session) : Session :=
  match s.curve with
  | none => s
  | some _ => { s with engine := s.engine.disable, curve := none }

/-- bytes of an element of the enabled curve, or of the widest one -/
def elementBytes (s : Session) : Nat :=
  match s.curve with
  | none => Layout.elementBytes
  | some c => c.elementBytes

/-! ## Operations -/

def settings (s : Session) : Operation.Settings where
  curve := s.curve
  retryLimit := s.config.retryLimit
  source := s.source.drop s.drawn

def run (s : Session) (op : Operation) (d : Drive) : Progress Unit × Host :=
  (op.program s.settings).drive d (.new s.engine s.drawn op.buffers)

def after (s : Session) (h : Host) : Session := { s with engine := h.engine, drawn := h.drawn }

/-! ## Steps -/

/-- an operation as a step asks for it: output buffers are given by their lengths, by default the
right ones -/
inductive Call where
  | validate (publicKey : Bytes)
  | compress (publicKey : Bytes) (out : Option Nat)
  | decompress (compressed : Bytes) (out : Option Nat)
  | sign (hash privateKey : Bytes) (out : Option Nat)
  | verify (signature hash publicKey : Bytes)
  | generate (privateKey publicKey : Option Nat)
  | agree (privateKey publicKey : Bytes) (out : Option Nat)
  deriving DecidableEq

/-- a buffer before an operation writes to it -/
def blank (length : Option Nat) (right : Nat) : Bytes := List.replicate (length.getD right) 0xa5

/-- the operation of a call, where elements have `n` bytes -/
def Call.operation (n : Nat) : Call → Operation
  | validate publicKey => .validate publicKey
  | compress publicKey out => .compress publicKey (blank out (n + 1))
  | decompress compressed out => .decompress compressed (blank out (2 * n))
  | sign hash privateKey out => .sign hash privateKey (blank out (2 * n))
  | verify signature hash publicKey => .verify signature hash publicKey
  | generate privateKey publicKey => .generate (blank privateKey n) (blank publicKey (2 * n))
  | agree privateKey publicKey out => .agree privateKey publicKey (blank out n)

inductive Step where
  | enable (id : Nat)
  | disable
  | operate (call : Call) (drive : Drive)
  | curve
  | peek (offset n : Nat)
  | poke (offset : Nat) (ws : List Word)
  | access (a : Bus.Access)
  deriving DecidableEq

inductive Outcome where
  | ok
  | failed (e : Failure)
  | pending
  | access (a : Bus.Answer)
  | curve (c : Option NamedCurve) (powered : Bool)
  | words (ws : List Word)
  deriving DecidableEq

/-- functions started since the last reset, and random entries used up -/
structure Account where
  started : Nat
  drawn : Nat
  deriving DecidableEq

structure Answer where
  outcome : Outcome
  buffers : List Bytes := []
  effort : Option Effort := none
  account : Option Account := none
  log : List Event := []
  trace : List Invocation := []
  deriving DecidableEq

namespace Answer

/-- the lines of the log that a threshold keeps -/
def lines (a : Answer) (threshold : Level) : List String :=
  (a.log.filter fun e => threshold.keeps e.level).map Event.line

end Answer

def account (s : Session) : Account := ⟨s.engine.started, s.drawn⟩

/-- how far a program got, as an outcome or a fault -/
def outcome : Progress Unit → Except Fault Outcome
  | .ready (.ok ()) => .ok .ok
  | .ready (.error e) => .ok (.failed e)
  | .pending _ => .ok .pending
  | .fault f => .error f

def operate (s : Session) (op : Operation) (d : Drive) : Session × Except Fault Answer :=
  let (progress, h) := s.run op d
  let s := s.after h
  (s, outcome progress |>.map fun o =>
    { outcome := o
      buffers := h.outputs
      effort := d.effort h
      account := some s.account
      log := h.log.toList
      trace := h.trace.toList })

def step (s : Session) : Step → Session × Except Fault Answer
  | .enable id =>
    match NamedCurve.ofId? id with
    | none =>
      (s, .ok { outcome := .failed .unsupportedCurve, account := some s.account })
    | some c =>
      let s := s.enable c
      (s, .ok { outcome := .ok, account := some s.account, log := [.enabling c] })
  | .disable =>
    let log := if s.curve.isSome then [Event.disabling] else []
    let s := s.disable
    (s, .ok { outcome := .ok, account := some s.account, log := log })
  | .operate call d => s.operate (call.operation s.elementBytes) d
  | .curve => (s, .ok { outcome := .curve s.curve s.engine.powered })
  | .peek offset n =>
    (s, (Bus.readMemory s.engine offset n).map fun ws => { outcome := .words ws })
  | .poke offset ws =>
    match Bus.writeMemory s.engine offset ws with
    | .ok e => ({ s with engine := e }, .ok { outcome := .ok })
    | .error f => (s, .error f)
  | .access a =>
    let (e, r) := Bus.access s.engine a
    let s := { s with engine := e }
    (s, r.map fun a => { outcome := .access a, account := some s.account })

structure Summary where
  powered : Bool
  account : Account
  retryLimit : Option Nat
  deriving DecidableEq

def summary (s : Session) : Summary := ⟨s.engine.powered, s.account, s.config.retryLimit⟩

/-- a run of steps from the beginning -/
def script (latency : Nat) (config : Config) (source : List Entry) (steps : List Step) :
    Transcript Session Answer :=
  Transcript.of step (new latency config source) steps

end Session
end CurveEngine
