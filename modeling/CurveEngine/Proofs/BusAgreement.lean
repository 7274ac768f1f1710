import CurveEngine.Peripheral
import CurveEngine.Proofs.Effects

/-!
# The engine and the peripheral behave alike on the bus

The engine computes, the peripheral is a block of inert words, and each has its own way to the
registers and the memory.  A program that starts no function cannot tell them apart.

* `Peripheral.readRegister_eq` .. `Peripheral.isBusy_eq`   the peripheral's accesses in the terms of
                         the engine's;
* `Engine.Mirrors`       both show the same words, and no function is running; `Mirrors.access` is one
                         access, `Mirrors.attempts` a run of them;
* `Bus.attempts`         a run of accesses that goes on behind a fault;
* `attempts_agree`       the same answer to every access.

Only a function word with the run flag tells them apart: the engine starts to compute, the peripheral
keeps the flag.
-/

namespace CurveEngine

namespace Bus

/-- the access starts a function -/
def Access.Starts : Access → Prop
  | .writeRegister r v => r = .function ∧ Opcode.starts v = true
  | _ => False

/-- the access leaves the memory -/
def Access.Leaves : Access → Prop
  | .readMemory offset n => Layout.memoryWords < offset + n
  | .writeMemory offset ws => Layout.memoryWords < offset + ws.length
  | _ => False

section
variable {σ : Type} [Bus σ]

/-- a run of accesses in which a fault is an answer like any other -/
def attempts (s : σ) (as : List Access) : Transcript σ (Except Fault Answer) :=
  Transcript.of (fun s a => ((access s a).1, .ok (access s a).2)) s as

theorem attempts_cons (s : σ) (a : Access) (as : List Access) :
    attempts s (a :: as) = { attempts (access s a).1 as with
      answers := (access s a).2 :: (attempts (access s a).1 as).answers } := rfl

variable {s s' : σ}

theorem access_readRegister {r : Register} {v : Word} (h : readRegister s r = (v, s')) :
    access s (.readRegister r) = (s', .ok (.word v)) := by
  rw [access, h]

theorem access_writeRegister {r : Register} {v : Word} (h : writeRegister s r v = (s', .ok ())) :
    access s (.writeRegister r v) = (s', .ok .done) := by
  rw [access, h]
  rfl

theorem access_isBusy {b : Bool} (h : isBusy s = (b, s')) :
    access s .isBusy = (s', .ok (.busy b)) := by
  rw [access, h]

end
end Bus

/-! ## The peripheral's accesses -/

/-- the run flag is bit 15 of the function word -/
theorem Opcode.starts_eq_testBit (v : Word) : Opcode.starts v = v.toNat.testBit 15 := by
  have h : (v &&& Opcode.run).toNat = (v.toNat.testBit 15).toNat * 2 ^ 15 := by
    rw [UInt32.toNat_and]
    exact Nat.and_two_pow v.toNat 15
  simp only [starts, ne_eq, ← UInt32.toNat_inj, h]
  cases v.toNat.testBit 15 <;> rfl

namespace Memory

theorem window_eq_map (m : Memory) (offset n : Nat) :
    m.window offset n = (List.range n).map fun i => m.word (offset + i) := by
  apply List.ext_getElem
  · simp
  · intro i hi _
    have hn : i < n := by simpa using hi
    have := m.getD_window offset n i hn
    simpa [List.getD_eq_getElem?_getD, hn] using this

end Memory

namespace Peripheral

variable (p : Peripheral)

theorem readRegister_eq (r : Register) : p.readRegister r = p.registers.get r := by
  cases r <;> rfl

theorem writeRegister_eq (r : Register) (v : Word) :
    p.writeRegister r v =
      if r.isStatus then p else { p with registers := p.registers.set r v } := by
  cases r <;> rfl

theorem readMemory_eq (offset n : Nat) : p.readMemory offset n = p.memory.read offset n := by
  rw [readMemory, ← Memory.window_eq_map]
  rfl

/-- words put one after another, the first of them with the number `k` -/
theorem foldl_put (offset k : Nat) (ws : List Word) :
    (ws.zipIdx k).foldl (fun p (w, i) => { p with memory := p.memory.put (offset + i) w }) p =
      { p with memory := p.memory.overwrite (offset + k) ws } := by
  induction ws generalizing p k with
  | nil => rfl
  | cons w ws ih =>
    rw [List.zipIdx_cons, List.foldl_cons, ih]
    rfl

theorem writeMemory_eq (offset : Nat) (ws : List Word) :
    p.writeMemory offset ws =
      (p.memory.write offset ws).map fun m => { p with memory := m } := by
  rw [writeMemory, foldl_put, Memory.write]
  by_cases h : Memory.Fits offset ws.length
  · rw [if_pos h]
    exact if_pos h
  · rw [if_neg h]
    exact if_neg h

theorem isBusy_eq : p.isBusy = Opcode.starts p.registers.function := by
  have h : (p.registers.function >>> runBit &&& 1).toNat =
      (p.registers.function.toNat.testBit 15).toNat := by
    rw [UInt32.toNat_and, UInt32.toNat_shiftRight, Nat.testBit_eq_decide_div_mod_eq]
    show p.registers.function.toNat >>> 15 &&& 1 = _
    rw [Nat.and_one_is_mod, Nat.shiftRight_eq_div_pow]
    rcases Nat.mod_two_eq_zero_or_one (p.registers.function.toNat / 2 ^ 15) with h | h <;>
      rw [h] <;> rfl
  rw [Opcode.starts_eq_testBit]
  simp only [isBusy, ne_eq, ← UInt32.toNat_inj, h]
  cases p.registers.function.toNat.testBit 15 <;> rfl

/-- all words are zero -/
structure Blank : Prop where
  memory : p.memory = .zero
  registers : p.registers = .zero

end Peripheral

/-! ## One access on both -/

namespace Engine

/-- all words are zero and no function is running -/
structure Blank (e : Engine) : Prop where
  memory : e.memory = .zero
  registers : e.registers = .zero
  busy : e.busy = 0

theorem blank_new (latency : Nat) : (new latency).Blank := ⟨rfl, rfl, rfl⟩

/-- both show the same words, and no function is running -/
structure Mirrors (e : Engine) (p : Peripheral) : Prop where
  memory : e.memory = p.memory
  registers : e.registers = p.registers
  busy : e.busy = 0
  /-- a run flag in the words would look like a running function -/
  stopped : Opcode.starts e.registers.function = false

theorem Blank.mirrors {e : Engine} {p : Peripheral} (he : e.Blank) (hp : p.Blank) :
    e.Mirrors p where
  memory := he.memory.trans hp.memory.symm
  registers := he.registers.trans hp.registers.symm
  busy := he.busy
  stopped := by
    rw [he.registers]
    rfl

namespace Mirrors

variable {e : Engine} {p : Peripheral} (h : e.Mirrors p)

include h

theorem readRegister (r : Register) : e.readRegister r = (p.readRegister r, e) := by
  rw [p.readRegister_eq, ← h.registers]
  cases r with
  | function =>
    show (if e.busy = 0 then _ else _, e.tick) = _
    rw [if_pos h.busy, tick_of_idle h.busy]
    rfl
  | _ => rfl

theorem isBusy : Bus.isBusy e = (p.isBusy, e) := by
  rw [isBusy_eq h.stopped, p.isBusy_eq, ← h.registers, h.stopped, h.busy, tick_of_idle h.busy]
  rfl

/-- a register written on both, unless that starts a function -/
theorem writeRegister {r : Register} {v : Word} (hv : ¬ (Bus.Access.writeRegister r v).Starts) :
    ∃ e', e.writeRegister r v = (e', .ok ()) ∧ e'.Mirrors (p.writeRegister r v) := by
  refine ⟨_, writeRegister_of_not_starts hv e, ?_⟩
  rw [p.writeRegister_eq]
  by_cases hr : r.isStatus
  · rw [if_pos hr, if_pos hr]
    exact h
  · rw [if_neg hr, if_neg hr]
    refine ⟨h.memory, congrArg (·.set r v) h.registers, h.busy, ?_⟩
    show Opcode.starts ((e.registers.set r v).get .function) = false
    rw [RegisterFile.get_set]
    by_cases hf : r = .function
    · rw [if_pos hf]
      exact Bool.eq_false_iff.mpr fun hs => hv ⟨hf, hs⟩
    · rw [if_neg hf]
      exact h.stopped

/-- **the same answer to one access**, and both show the same words again -/
theorem access {a : Bus.Access} (ha : ¬ a.Starts) :
    (Bus.access e a).2 = (Bus.access p a).2 ∧ (Bus.access e a).1.Mirrors (Bus.access p a).1 := by
  cases a with
  | readRegister r =>
    rw [Bus.access_readRegister (h.readRegister r)]
    exact ⟨rfl, h⟩
  | writeRegister r v =>
    obtain ⟨e', hw, hm⟩ := h.writeRegister ha
    rw [Bus.access_writeRegister hw]
    exact ⟨rfl, hm⟩
  | readMemory offset n =>
    have hr : Bus.readMemory p offset n = Bus.readMemory e offset n := by
      show p.readMemory offset n = e.memory.read offset n
      rw [p.readMemory_eq, h.memory]
    exact ⟨congrArg (Bus.Answer.words <$> ·) hr.symm, h⟩
  | writeMemory offset ws =>
    have he : Bus.writeMemory e offset ws =
        (e.memory.write offset ws).map fun m => { e with memory := m } := rfl
    have hp : Bus.writeMemory p offset ws =
        (p.memory.write offset ws).map fun m => { p with memory := m } := p.writeMemory_eq offset ws
    rw [Bus.access, Bus.access, he, hp, h.memory]
    cases p.memory.write offset ws with
    | error f => exact ⟨rfl, h⟩
    | ok m => exact ⟨rfl, rfl, h.registers, h.busy, h.stopped⟩
  | isBusy =>
    rw [Bus.access_isBusy h.isBusy]
    exact ⟨rfl, h⟩

/-- **an access is a fault exactly if it leaves the memory** -/
theorem access_eq_error_iff {a : Bus.Access} (ha : ¬ a.Starts) (f : Fault) :
    (Bus.access e a).2 = .error f ↔ f = .outOfBounds ∧ a.Leaves := by
  have fits (offset n : Nat) : ¬ Memory.Fits offset n ↔ Layout.memoryWords < offset + n := Nat.not_le
  cases a with
  | readRegister r | isBusy =>
    refine iff_of_false ?_ fun he => he.2
    rintro ⟨⟩
  | writeRegister r v =>
    obtain ⟨e', hw, -⟩ := h.writeRegister ha
    rw [Bus.access_writeRegister hw]
    refine iff_of_false ?_ fun he => he.2
    rintro ⟨⟩
  | readMemory offset n =>
    show (e.memory.read offset n).map Bus.Answer.words = .error f ↔ f = .outOfBounds ∧ _ < _
    rw [← fits, Memory.read]
    by_cases hf : Memory.Fits offset n
    · rw [if_pos hf]
      refine iff_of_false ?_ fun he => he.2 hf
      rintro ⟨⟩
    · rw [if_neg hf]
      refine ⟨fun he => ?_, fun he => he.1 ▸ rfl⟩
      cases he
      exact ⟨rfl, hf⟩
  | writeMemory offset ws =>
    have he : Bus.writeMemory e offset ws =
        (e.memory.write offset ws).map fun m => { e with memory := m } := rfl
    show _ ↔ f = .outOfBounds ∧ _ < _
    rw [← fits, Bus.access, he, Memory.write]
    by_cases hf : Memory.Fits offset ws.length
    · rw [if_pos hf]
      refine iff_of_false ?_ fun he => he.2 hf
      rintro ⟨⟩
    · rw [if_neg hf]
      refine ⟨fun he => ?_, fun he => he.1 ▸ rfl⟩
      cases he
      exact ⟨rfl, hf⟩

/-! ## A run of accesses -/

theorem attempts {as : List Bus.Access} (ha : ∀ a ∈ as, ¬ a.Starts) :
    (Bus.attempts e as).answers = (Bus.attempts p as).answers ∧
      (Bus.attempts e as).final.Mirrors (Bus.attempts p as).final := by
  induction as generalizing e p with
  | nil => exact ⟨rfl, h⟩
  | cons a as ih =>
    obtain ⟨ha, has⟩ := List.forall_mem_cons.mp ha
    obtain ⟨hx, hm⟩ := h.access ha
    obtain ⟨hs, hf⟩ := ih hm has
    rw [Bus.attempts_cons, Bus.attempts_cons]
    exact ⟨congrArg₂ List.cons hx hs, hf⟩

theorem attempts_eq_error_iff {as : List Bus.Access} (ha : ∀ a ∈ as, ¬ a.Starts) (i : Nat)
    (f : Fault) : (Bus.attempts e as).answers[i]? = some (.error f) ↔
      f = .outOfBounds ∧ ∃ a, as[i]? = some a ∧ a.Leaves := by
  induction as generalizing e p i with
  | nil => exact ⟨nofun, fun ⟨_, _, he, _⟩ => nomatch he⟩
  | cons a as ih =>
    obtain ⟨ha, has⟩ := List.forall_mem_cons.mp ha
    rw [Bus.attempts_cons]
    cases i with
    | zero =>
      simp only [List.getElem?_cons_zero, Option.some.injEq, exists_eq_left']
      exact h.access_eq_error_iff ha f
    | succ i =>
      simp only [List.getElem?_cons_succ]
      exact ih (h.access ha).2 has i

end Mirrors
end Engine

/-- writes to a status register are answered and change nothing -/
theorem Peripheral.access_status (p : Peripheral) {r : Register} (hr : r.isStatus = true)
    (v : Word) : Bus.access p (.writeRegister r v) = (p, .ok .done) := by
  have hw : p.writeRegister r v = p := by rw [p.writeRegister_eq, if_pos hr]
  exact Bus.access_writeRegister (Prod.ext hw rfl)

theorem Engine.access_status (e : Engine) {r : Register} (hr : r.isStatus = true) (v : Word) :
    Bus.access e (.writeRegister r v) = (e, .ok .done) := by
  exact Bus.access_writeRegister (if_pos hr)

/-- **the engine and the peripheral give the same answer to every access**, from words that are all
zero and as long as no function is started: an access is a fault on both exactly if it leaves the
memory, and a write to a status register changes neither of them, whatever went before -/
theorem attempts_agree {e : Engine} {p : Peripheral} (he : e.Blank) (hp : p.Blank)
    {as : List Bus.Access} (ha : ∀ a ∈ as, ¬ a.Starts) :
    (Bus.attempts e as).answers = (Bus.attempts p as).answers ∧
      (∀ (i : Nat) (f : Fault), (Bus.attempts e as).answers[i]? = some (.error f) ↔
        f = .outOfBounds ∧ ∃ a, as[i]? = some a ∧ a.Leaves) ∧
      ∀ (r : Register) (v : Word), r.isStatus = true →
        Bus.access (Bus.attempts e as).final (.writeRegister r v) =
            ((Bus.attempts e as).final, .ok .done) ∧
          Bus.access (Bus.attempts p as).final (.writeRegister r v) =
            ((Bus.attempts p as).final, .ok .done) := by
  have hm := he.mirrors hp
  exact ⟨(hm.attempts ha).1, hm.attempts_eq_error_iff ha, fun r v hr =>
    ⟨Engine.access_status _ hr v, Peripheral.access_status _ hr v⟩⟩

/-- accesses at the end of the memory and behind it, and to registers of all kinds -/
def bounds : List Bus.Access :=
  [.writeRegister .function 0x7fff, .isBusy, .writeMemory 510 [1, 2], .readMemory 509 3,
    .readMemory 512 0, .readMemory 513 0, .writeMemory 511 [3, 4], .writeRegister .msw 5,
    .readRegister .msw, .readRegister .function]

theorem attempts_agree_bounds :
    (Engine.new 2).Blank ∧ Peripheral.zero.Blank ∧ (∀ a ∈ bounds, ¬ a.Starts) ∧
      (Bus.attempts (Engine.new 2) bounds).answers =
        (Bus.attempts Peripheral.zero bounds).answers ∧
      (Bus.attempts (Engine.new 2) bounds).answers[5]? = some (.error .outOfBounds) ∧
      (Bus.attempts (Engine.new 2) bounds).answers[6]? = some (.error .outOfBounds) := by
  have hp : Peripheral.zero.Blank := ⟨rfl, rfl⟩
  have ha : ∀ a ∈ bounds, ¬ a.Starts := by
    simp [bounds, Bus.Access.Starts, show Opcode.starts 0x7fff = false from rfl]
  obtain ⟨h, hf, -⟩ := attempts_agree (Engine.blank_new 2) hp ha
  refine ⟨Engine.blank_new 2, hp, ha, h, (hf 5 _).mpr ⟨rfl, _, rfl, ?_⟩,
    (hf 6 _).mpr ⟨rfl, _, rfl, ?_⟩⟩
  · show Layout.memoryWords < 513 + 0
    decide
  · show Layout.memoryWords < 511 + 2
    decide

end CurveEngine
