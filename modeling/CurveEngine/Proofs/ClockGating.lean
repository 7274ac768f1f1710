import CurveEngine.Proofs.BusAgreement

/-!
# Gating the clocks

The words of clock and reset control hold bits of other peripherals too, and anyone may write them.
What `init` and `disable` do to them is told bit by bit.

* `testBit_raise`, `testBit_lower`   setting and clearing the engine's bit of a word;
* `Peripheral.Gated`                 what one gating leaves behind;
* `Step.gate?`, `Step.sets`          the steps that gate, and those that write a word from outside;
* `lastGate`                         the last gating among some steps, unless the word was set since;
* `Follows`                          a run and what it made of the bits, kept by every step;
* `run_gated`                        the clock words after any run of steps.
-/

namespace CurveEngine

namespace ClockControl

/-! ## Bits of a word -/

theorem testBit_toNat (v : Word) (i : Nat) : v.toNat.testBit i = v.toBitVec.getLsbD i :=
  BitVec.testBit_toNat _

theorem testBit_engineBit (i : Nat) : engineBit.toNat.testBit i = decide (i = 0) := by
  rw [Bool.eq_iff_iff, decide_eq_true_iff]
  exact Nat.testBit_one_eq_true_iff_self_eq_zero

theorem testBit_raise (v : Word) (i : Nat) :
    (raise v).toNat.testBit i = (v.toNat.testBit i || decide (i = 0)) := by
  unfold raise
  rw [UInt32.toNat_or, Nat.testBit_or, testBit_engineBit]

theorem testBit_lower (v : Word) (i : Nat) :
    (lower v).toNat.testBit i = (v.toNat.testBit i && decide (i ≠ 0)) := by
  unfold lower
  rw [UInt32.toNat_and, Nat.testBit_and]
  by_cases hi : i < 32
  · rw [testBit_toNat (~~~engineBit), UInt32.toBitVec_not, BitVec.getLsbD_not, ← testBit_toNat,
      testBit_engineBit, decide_eq_true hi, Bool.true_and, ← decide_not]
  · rw [testBit_toNat v, BitVec.getLsbD_of_ge _ _ (Nat.le_of_not_lt hi), Bool.false_and,
      Bool.false_and]

/-- a word is given by its bits -/
theorem word_ext {v w : Word} (h : ∀ i, v.toNat.testBit i = w.toNat.testBit i) : v = w :=
  UInt32.toNat_inj.mp (Nat.eq_of_testBit_eq h)

/-! ## Words -/

variable (c : ClockControl) (k : Clock)

theorem get_gate (f : Word → Word) :
    (c.gate f).get k = if k = .reset then c.get k else f (c.get k) := by
  cases k <;> rfl

theorem get_pulseReset :
    c.pulseReset.get k = if k = .reset then lower (raise (c.get k)) else c.get k := by
  cases k <;> rfl

theorem ext_get {c c' : ClockControl} (h : ∀ k, c.get k = c'.get k) : c = c' := by
  obtain ⟨a, s, d, r⟩ := c
  obtain ⟨a', s', d', r'⟩ := c'
  obtain rfl : a = a' := h .active
  obtain rfl : s = s' := h .sleep
  obtain rfl : d = d' := h .deepSleep
  obtain rfl : r = r' := h .reset
  rfl

end ClockControl

namespace Peripheral

open ClockControl

/-! ## One gating -/

/-- what is left of `p` when its clocks were switched on or off -/
structure Gated (p q : Peripheral) (on : Bool) : Prop where
  clocks : ∀ k, k ≠ .reset → (q.clocks.get k).toNat.testBit 0 = on
  /-- switching on ends a reset, switching off leaves it alone -/
  reset : if on then q.clocks.reset.toNat.testBit 0 = false else q.clocks.reset = p.clocks.reset
  others : ∀ k i, i ≠ 0 → (q.clocks.get k).toNat.testBit i = (p.clocks.get k).toNat.testBit i
  registers : q.registers = p.registers
  memory : q.memory = p.memory

variable (p : Peripheral)

theorem testBit_init (k : Clock) (i : Nat) :
    (p.init.clocks.get k).toNat.testBit i =
      if i = 0 then decide (k ≠ .reset) else (p.clocks.get k).toNat.testBit i := by
  show ((p.clocks.gate raise).pulseReset.get k).toNat.testBit i = _
  rw [get_pulseReset, get_gate]
  by_cases hk : k = .reset
  · rw [if_pos hk, if_pos hk, testBit_lower, testBit_raise]
    by_cases hi : i = 0
    · simp [hi, hk]
    · simp [hi]
  · rw [if_neg hk, if_neg hk, testBit_raise]
    by_cases hi : i = 0
    · simp [hi, hk]
    · simp [hi]

theorem testBit_disable (k : Clock) (i : Nat) :
    (p.disable.clocks.get k).toNat.testBit i =
      if i = 0 ∧ k ≠ .reset then false else (p.clocks.get k).toNat.testBit i := by
  show ((p.clocks.gate lower).get k).toNat.testBit i = _
  rw [get_gate]
  by_cases hk : k = .reset
  · rw [if_pos hk, if_neg fun h => h.2 hk]
  · rw [if_neg hk, testBit_lower]
    by_cases hi : i = 0
    · simp [hi, hk]
    · simp [hi]

theorem gated_init : Gated p p.init true where
  clocks k hk := by
    rw [testBit_init, if_pos rfl]
    exact decide_eq_true hk
  reset := p.testBit_init .reset 0
  others k i hi := by rw [testBit_init, if_neg hi]
  registers := rfl
  memory := rfl

theorem gated_disable : Gated p p.disable false where
  clocks k hk := by rw [testBit_disable, if_pos ⟨rfl, hk⟩]
  reset := rfl
  others k i hi := by rw [testBit_disable, if_neg fun h => hi h.1]
  registers := rfl
  memory := rfl

/-- switching on twice is switching on once -/
theorem init_init : p.init.init = p.init := by
  have h : p.init.init.clocks = p.init.clocks := by
    apply ext_get
    intro k
    apply word_ext
    intro i
    rw [testBit_init, testBit_init]
    split
    · rfl
    · rfl
  exact congrArg (fun c => { p with clocks := c }) h

theorem disable_disable : p.disable.disable = p.disable := by
  have h : p.disable.disable.clocks = p.disable.clocks := by
    apply ext_get
    intro k
    apply word_ext
    intro i
    rw [testBit_disable, testBit_disable]
    split
    · rfl
    · rfl
  exact congrArg (fun c => { p with clocks := c }) h

/-! ## Runs -/

/-- clocks switched on or off -/
def Step.gate (on : Bool) : Step := if on then .init else .disable

/-- which way a step switches the clocks, if it does -/
def Step.gate? : Step → Option Bool
  | .init => some true
  | .disable => some false
  | _ => none

/-- the step writes a clock word from outside -/
def Step.sets (k : Clock) : Step → Bool
  | .set (.clock l) _ => decide (l = k)
  | _ => false

/-- the last way the clocks were switched, if the word has not been set since -/
def lastGate (k : Clock) (steps : List Step) : Option Bool :=
  steps.foldl (fun g s => if s.sets k then none else s.gate?.or g) none

theorem lastGate_append_singleton (k : Clock) (steps : List Step) (s : Step) :
    lastGate k (steps ++ [s]) = if s.sets k then none else s.gate?.or (lastGate k steps) :=
  List.foldl_append ..

theorem gated_step (on : Bool) : Gated p (p.step (.gate on)).1 on := by
  cases on with
  | true => exact p.gated_init
  | false => exact p.gated_disable

theorem step_step (on : Bool) :
    ((p.step (.gate on)).1.step (.gate on)).1 = (p.step (.gate on)).1 := by
  cases on with
  | true => exact p.init_init
  | false => exact p.disable_disable

/-- an access leaves the clock words alone, one that is refused too -/
theorem access_clocks (a : Bus.Access) : (Bus.access p a).1.clocks = p.clocks := by
  cases a with
  | readRegister r => rfl
  | writeRegister r v => cases r <;> rfl
  | readMemory o n => rfl
  | writeMemory o ws =>
    have hw : Bus.writeMemory p o ws = (p.memory.write o ws).map fun m => { p with memory := m } :=
      p.writeMemory_eq o ws
    rw [Bus.access, hw]
    cases p.memory.write o ws with
    | error f => rfl
    | ok m => rfl
  | isBusy => rfl

/-- only the clocks' own steps, and words set from outside, change a clock word -/
theorem step_clock {s : Step} {k : Clock} (hg : s.gate? = none) (hs : s.sets k = false) :
    (p.step s).1.clocks.get k = p.clocks.get k := by
  cases s with
  | access a => exact congrArg (fun c => c.get k) (p.access_clocks a)
  | init => cases hg
  | disable => cases hg
  | reclaim => rfl
  | set c v =>
    cases c with
    | register r => rfl
    | clock l =>
      show (p.clocks.set l v).get k = _
      rw [get_set, if_neg (of_decide_eq_false hs)]
  | get c => rfl
  | describe => rfl

variable {p}

/-- the engine's bit of a clock word -/
theorem testBit_step {s : Step} {k : Clock} (hk : k ≠ .reset) (hs : s.sets k = false) :
    ((p.step s).1.clocks.get k).toNat.testBit 0 =
      s.gate?.getD ((p.clocks.get k).toNat.testBit 0) := by
  cases hg : s.gate? with
  | none => rw [p.step_clock hg hs]; rfl
  | some on =>
    obtain rfl : s = .gate on := by
      cases s <;> cases hg <;> rfl
    exact (p.gated_step on).clocks k hk

/-- the other bits -/
theorem testBit_step_of_ne {s : Step} {k : Clock} (hs : s.sets k = false) {i : Nat} (hi : i ≠ 0) :
    ((p.step s).1.clocks.get k).toNat.testBit i = (p.clocks.get k).toNat.testBit i := by
  cases hg : s.gate? with
  | none => rw [p.step_clock hg hs]
  | some on =>
    obtain rfl : s = .gate on := by
      cases s <;> cases hg <;> rfl
    exact (p.gated_step on).others k i hi

/-- a run and the steps `l` it took: the last gating shows in the engine's bits, and the other bits
are those of `p` -/
structure Follows (p : Peripheral) (l : List Step) (q : Peripheral) : Prop where
  gates : ∀ k, k ≠ .reset → ∀ on, lastGate k l = some on →
    (q.clocks.get k).toNat.testBit 0 = on
  others : ∀ k, (∀ s ∈ l, s.sets k = false) → ∀ i, i ≠ 0 →
    (q.clocks.get k).toNat.testBit i = (p.clocks.get k).toNat.testBit i

theorem Follows.step {l : List Step} {q : Peripheral} (h : Follows p l q) (s : Step) :
    Follows p (l ++ [s]) (q.step s).1 where
  gates k hk on hl := by
    rw [lastGate_append_singleton] at hl
    by_cases hs : s.sets k = true
    · rw [if_pos hs] at hl
      cases hl
    · rw [if_neg hs] at hl
      rw [testBit_step hk (Bool.eq_false_iff.mpr hs)]
      cases hg : s.gate? with
      | none =>
        rw [hg] at hl
        exact h.gates k hk on hl
      | some on' =>
        rw [hg] at hl
        exact Option.some_inj.mp hl
  others k hl i hi := by
    rw [List.forall_mem_append, List.forall_mem_singleton] at hl
    rw [testBit_step_of_ne hl.2 hi]
    exact h.others k hl.1 i hi

/-- a step that is refused changes nothing -/
theorem step_error {s : Step} {p' : Peripheral} {f : Fault} (h : p.step s = (p', .error f)) :
    p'.clocks = p.clocks := by
  cases s with
  | access a =>
    obtain rfl : (Bus.access p a).1 = p' := congrArg Prod.fst h
    exact p.access_clocks a
  | init | disable | reclaim | get c | describe => cases h
  | set c v => cases h

theorem follows_nil (p : Peripheral) : Follows p [] p where
  gates _ _ _ hl := nomatch hl
  others _ _ _ _ := rfl

theorem follows_of (p : Peripheral) (steps : List Step) :
    Follows p ((Transcript.of step p steps).taken steps) (Transcript.of step p steps).final := by
  apply Transcript.of_taken (M := Follows p)
  · intro l q s q' r h hs
    have := h.step s
    rwa [hs] at this
  · intro l q s q' f h hs
    have hc : q'.clocks = q.clocks := step_error hs
    exact ⟨by rw [hc]; exact h.gates, by rw [hc]; exact h.others⟩
  · exact follows_nil p

/-- **the clocks are gated bit by bit**: after any run of steps the engine's bit of a clock word is
that of the last `init` or `disable` if the word has not been set from outside since, and its other
bits have not changed if it never was; one more gating leaves the other bits, the registers and the
memory as they are, doing it again changes nothing, and no other step changes a clock word -/
theorem run_gated (p : Peripheral) (steps : List Step) :
    let t := Transcript.of step p steps
    Follows p (t.taken steps) t.final ∧
      (∀ on, Gated t.final (t.final.step (.gate on)).1 on ∧
        ((t.final.step (.gate on)).1.step (.gate on)).1 = (t.final.step (.gate on)).1) ∧
      ∀ s k, s.gate? = none → s.sets k = false →
        (t.final.step s).1.clocks.get k = t.final.clocks.get k := by
  intro t
  exact ⟨follows_of p steps, fun on => ⟨t.final.gated_step on, t.final.step_step on⟩,
    fun s k hg hs => t.final.step_clock hg hs⟩

end Peripheral
end CurveEngine
