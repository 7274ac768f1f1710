import CurveEngine.Bus
import CurveEngine.Transcript

/-!
# The memory-mapped peripheral

The same registers and memory as plain words of a chip, beside the four words of the chip's clock
and reset control.  Bit 0 of these four words belongs to the engine, the other bits to other
peripherals.

* `Clock`, `ClockControl`    the four control words;
* `Peripheral`               registers, memory and control words;
* `Peripheral.init`, `Peripheral.disable`     clocks on and reset pulsed, clocks off;
* `Peripheral.step`          one step of a program or of whoever else writes the words.

The words are inert: no function ever runs.
-/

namespace CurveEngine

/-- the words of clock and reset control -/
inductive Clock where
  | active
  | sleep
  | deepSleep
  | reset
  deriving DecidableEq

structure ClockControl where
  active : Word
  sleep : Word
  deepSleep : Word
  reset : Word
  deriving DecidableEq

namespace ClockControl

def get (c : ClockControl) : Clock → Word
  | .active => c.active
  | .sleep => c.sleep
  | .deepSleep => c.deepSleep
  | .reset => c.reset

def set (c : ClockControl) (k : Clock) (v : Word) : ClockControl :=
  match k with
  | .active => { c with active := v }
  | .sleep => { c with sleep := v }
  | .deepSleep => { c with deepSleep := v }
  | .reset => { c with reset := v }

def engineBit : Word := 1

def raise (v : Word) : Word := v ||| engineBit

def lower (v : Word) : Word := v &&& ~~~engineBit

/-- one word read, changed and written back -/
def modify (c : ClockControl) (k : Clock) (f : Word → Word) : ClockControl := c.set k (f (c.get k))

/-- the same change to the three clock words -/
def gate (c : ClockControl) (f : Word → Word) : ClockControl :=
  ((c.modify .active f).modify .sleep f).modify .deepSleep f

def pulseReset (c : ClockControl) : ClockControl := (c.modify .reset raise).modify .reset lower

theorem get_set (c : ClockControl) (k l : Clock) (v : Word) :
    (c.set k v).get l = if k = l then v else c.get l := by
  cases k <;> cases l <;> rfl

end ClockControl

structure Peripheral where
  registers : RegisterFile
  memory : Memory
  clocks : ClockControl
  deriving DecidableEq

namespace Peripheral

def zero : Peripheral := ⟨.zero, .zero, ⟨0, 0, 0, 0⟩⟩

/-- clocks on, then a reset -/
def init (p : Peripheral) : Peripheral :=
  { p with clocks := (p.clocks.gate ClockControl.raise).pulseReset }

def disable (p : Peripheral) : Peripheral :=
  { p with clocks := p.clocks.gate ClockControl.lower }

/-- every register has its own word in the block; the chip's register definitions are taken to read and
write that word as it is, with the status registers read-only -/
def readRegister (p : Peripheral) : Register → Word
  | .aPtr => p.registers.aPtr
  | .bPtr => p.registers.bPtr
  | .cPtr => p.registers.cPtr
  | .dPtr => p.registers.dPtr
  | .aLength => p.registers.aLength
  | .bLength => p.registers.bLength
  | .shift => p.registers.shift
  | .function => p.registers.function
  | .compare => p.registers.compare
  | .msw => p.registers.msw
  | .divMsw => p.registers.divMsw

def writeRegister (p : Peripheral) (r : Register) (v : Word) : Peripheral :=
  match r with
  | .aPtr => { p with registers.aPtr := v }
  | .bPtr => { p with registers.bPtr := v }
  | .cPtr => { p with registers.cPtr := v }
  | .dPtr => { p with registers.dPtr := v }
  | .aLength => { p with registers.aLength := v }
  | .bLength => { p with registers.bLength := v }
  | .shift => { p with registers.shift := v }
  | .function => { p with registers.function := v }
  | .compare | .msw | .divMsw => p

/-- the bounds are checked first, then word after word is read; machine words are taken wide enough for
`offset + n` -/
def readMemory (p : Peripheral) (offset n : Nat) : Except Fault (List Word) :=
  if offset + n ≤ Layout.memoryWords then
    .ok ((List.range n).map fun i => p.memory.word (offset + i))
  else .error .outOfBounds

/-- the same for writing, where `offset + ws.length` is taken to be no wider than a machine word -/
def writeMemory (p : Peripheral) (offset : Nat) (ws : List Word) : Except Fault Peripheral :=
  if offset + ws.length ≤ Layout.memoryWords then
    .ok (ws.zipIdx.foldl (fun p (w, i) => { p with memory := p.memory.put (offset + i) w }) p)
  else .error .outOfBounds

/-- the bit of the function register that shows a running function, number 15 by the chip's register
definitions -/
def runBit : Word := 15

def isBusy (p : Peripheral) : Bool := p.registers.function >>> runBit &&& 1 ≠ 0

/-- the short description, which shows no words -/
def description : String := "Pka \x7b .. \x7d"

/-- a word that can be reached without the engine's own rules -/
inductive Cell where
  | register (r : Register)
  | clock (k : Clock)
  deriving DecidableEq

def peek (p : Peripheral) : Cell → Word
  | .register r => p.registers.get r
  | .clock k => p.clocks.get k

def poke (p : Peripheral) (c : Cell) (v : Word) : Peripheral :=
  match c with
  | .register r => { p with registers := p.registers.set r v }
  | .clock k => { p with clocks := p.clocks.set k v }

end Peripheral

instance : Bus Peripheral where
  readRegister p r := (p.readRegister r, p)
  writeRegister p r v := (p.writeRegister r v, .ok ())
  readMemory := Peripheral.readMemory
  writeMemory := Peripheral.writeMemory
  isBusy p := (p.isBusy, p)

namespace Peripheral

inductive Step where
  | access (a : Bus.Access)
  | init
  | disable
  /-- given up and taken again -/
  | reclaim
  | set (c : Cell) (v : Word)
  | get (c : Cell)
  | describe
  deriving DecidableEq

inductive Answer where
  | access (a : Bus.Answer)
  | clocks (c : ClockControl)
  | word (v : Word)
  | done
  | text (s : String)
  deriving DecidableEq

def step (p : Peripheral) : Step → Peripheral × Except Fault Answer
  | .access a =>
    let (p, r) := Bus.access p a
    (p, .access <$> r)
  | .init => (p.init, .ok (.clocks p.init.clocks))
  | .disable => (p.disable, .ok (.clocks p.disable.clocks))
  | .reclaim => (p, .ok (.clocks p.clocks))
  | .set c v => (p.poke c v, .ok .done)
  | .get c => (p, .ok (.word (p.peek c)))
  | .describe => (p, .ok (.text description))

/-- a run of steps on a peripheral with all words zero -/
def bench (steps : List Step) : Transcript Peripheral Answer := Transcript.of step zero steps

end Peripheral
end CurveEngine
