import CurveEngine.Proofs.CheckedArithmetic
import CurveEngine.Proofs.Isolation
import Mathlib.Data.List.Induction

/-!
# What can go wrong in a session

* `Transcript.exists_of_fault`   the step that ended a run;
* `Session.Misuse`       the steps that are a misuse: an access that leaves the memory, and an
                         operation that starts a function while another one is running;
* `Session.Drops`        an operation given up while a function it started is running;
* `Session.Dropped`      a run with such an operation, and no reset since;
* `script_faults`        no run of steps goes wrong in any other way.

Nothing is asked of the words in memory, so the constants of the curve may be overwritten with any
others at any time.
-/

namespace CurveEngine

namespace Transcript

variable {σ ι ρ : Type} {step : σ → ι → σ × Except Fault ρ} {s : σ}

/-- what came before the step that ended a run went well -/
theorem exists_of_fault {is : List ι} {f : Fault} (h : (of step s is).fault = some f) :
    ∃ before i after, is = before ++ i :: after ∧ (of step s before).fault = none ∧
      (step (of step s before).final i).2 = .error f := by
  induction is generalizing s with
  | nil => cases h
  | cons i is ih =>
    rcases hi : step s i with ⟨s', g | r⟩
    · rw [of_fault hi] at h
      cases h
      exact ⟨[], i, is, rfl, rfl, congrArg Prod.snd hi⟩
    · rw [of_answer hi] at h
      obtain ⟨before, j, after, rfl, hb, hj⟩ := ih h
      refine ⟨i :: before, j, after, rfl, ?_, ?_⟩
      · rw [of_answer hi]
        exact hb
      · rw [of_answer hi]
        exact hj

theorem of_append_singleton {is : List ι} {i : ι} (h : (of step s (is ++ [i])).fault = none) :
    (of step s is).fault = none ∧ ∃ r, step (of step s is).final i =
      ((of step s (is ++ [i])).final, .ok r) := by
  induction is generalizing s with
  | nil =>
    rcases hi : step s i with ⟨s', f | r⟩
    · rw [List.nil_append, of_fault hi] at h
      cases h
    · refine ⟨rfl, r, ?_⟩
      rw [List.nil_append, of_answer hi]
      exact hi
  | cons j is ih =>
    rcases hj : step s j with ⟨s', f | r⟩
    · rw [List.cons_append, of_fault hj] at h
      cases h
    · rw [List.cons_append, of_answer hj] at h ⊢
      rw [of_answer hj]
      exact ih h

end Transcript

/-! ## Memory -/

theorem eq_error_of_map {ε α β : Type} {x : Except ε α} {g : α → β} {e : ε}
    (h : x.map g = .error e) : x = .error e := by
  cases x with
  | error e' => exact congrArg Except.error (Except.error.inj h)
  | ok a => cases h

namespace Memory

theorem read_error {m : Memory} {offset n : Nat} {f : Fault} (h : m.read offset n = .error f) :
    f = .outOfBounds ∧ ¬ Fits offset n := by
  unfold read at h
  split at h
  · cases h
  · cases h
    exact ⟨rfl, ‹_›⟩

theorem write_error {m : Memory} {offset : Nat} {ws : List Word} {f : Fault}
    (h : m.write offset ws = .error f) : f = .outOfBounds ∧ ¬ Fits offset ws.length := by
  unfold write at h
  split at h
  · cases h
  · cases h
    exact ⟨rfl, ‹_›⟩

end Memory

namespace Session

open Host (Abreast Refused)

variable {s s' : Session} {i : Step}

/-! ## Steps -/

/-- the step starts a function itself, past all operations -/
def Step.Direct : Step → Prop
  | .access (.writeRegister r v) => r = .function ∧ Opcode.starts v = true
  | _ => False

/-- how a step can misuse the engine -/
inductive Misuse (s : Session) : Step → Fault → Prop
  | peek {offset n : Nat} (h : ¬ Memory.Fits offset n) : Misuse s (.peek offset n) .outOfBounds
  | poke {offset : Nat} {ws : List Word} (h : ¬ Memory.Fits offset ws.length) :
    Misuse s (.poke offset ws) .outOfBounds
  | read {offset n : Nat} (h : ¬ Memory.Fits offset n) :
    Misuse s (.access (.readMemory offset n)) .outOfBounds
  | write {offset : Nat} {ws : List Word} (h : ¬ Memory.Fits offset ws.length) :
    Misuse s (.access (.writeMemory offset ws)) .outOfBounds
  /-- the first function the operation starts finds another one running -/
  | operate {call : Call} {d : Drive} (hb : s.engine.busy ≠ 0)
    (ht : (s.run (call.operation s.elementBytes) d).2.trace.size = 1) :
    Misuse s (.operate call d) .busy

/-- the operation is given up while a function it started is running -/
def Drops (s : Session) : Step → Prop
  | .operate call d =>
    (s.run (call.operation s.elementBytes) d).1.settled = false ∧ s.engine.busy = 0 ∧
      (s.run (call.operation s.elementBytes) d).2.engine.busy ≠ 0
  | _ => False

/-- the step resets the engine -/
def Step.Resets : Step → Prop
  | .enable id => (NamedCurve.ofId? id).isSome = true
  | _ => False

/-- one of the steps gave up an operation like this, and none reset the engine since -/
def Dropped (s : Session) (steps : List Step) : Prop :=
  ∃ before i after, steps = before ++ i :: after ∧ (Transcript.of step s before).final.Drops i ∧
    ∀ j ∈ after, ¬ j.Resets

theorem writeMemory_error {e : Engine} {offset : Nat} {ws : List Word} {f : Fault}
    (h : Bus.writeMemory e offset ws = .error f) :
    f = .outOfBounds ∧ ¬ Memory.Fits offset ws.length :=
  Memory.write_error (eq_error_of_map h)

theorem busy_writeMemory {e e' : Engine} {offset : Nat} {ws : List Word}
    (h : Bus.writeMemory e offset ws = .ok e') : e'.busy = e.busy := by
  obtain ⟨-, rfl⟩ := Engine.of_writeMemory h
  rfl

/-- an access that starts nothing does not make the engine busy -/
theorem busy_access {e : Engine} {a : Bus.Access} (ha : ¬ (Step.access a).Direct) :
    (Bus.access e a).1.busy ≤ e.busy := by
  have ht : e.tick.busy ≤ e.busy := by
    rw [Engine.busy_tick]
    omega
  cases a with
  | readRegister r =>
    cases r with
    | function => exact ht
    | _ => exact Nat.le_refl _
  | writeRegister r v =>
    show (e.writeRegister r v).1.busy ≤ e.busy
    rw [Engine.writeRegister_of_not_starts ha]
    split
    · exact Nat.le_refl _
    · exact Nat.le_refl _
  | readMemory offset n => exact Nat.le_refl _
  | writeMemory offset ws =>
    cases h : Bus.writeMemory e offset ws with
    | error f =>
      rw [Bus.access, h]
    | ok e' =>
      rw [Bus.access, h]
      exact (busy_writeMemory h).le
  | isBusy => exact ht

/-- how an operation runs: it goes wrong only with its first function, and one that ends leaves the
engine as busy as it was -/
theorem run_cases (hs : s.Coherent) (op : Operation) (d : Drive) :
    match s.run op d with
    | (.ready _, h) => h.engine.busy = s.engine.busy
    | (.pending _, _) => True
    | (.fault f, h) => f = .busy ∧ s.engine.busy ≠ 0 ∧ h.trace.size = 1 := by
  have hm := run_meets hs hs (.refl s) rfl op d
  generalize s.run op d = x at hm ⊢
  obtain ⟨p, h⟩ := x
  obtain ⟨-, hm⟩ := hm
  cases p with
  | ready r => exact hm.2
  | pending rest => trivial
  | fault f => exact hm

/-- **a step of a session goes wrong only by one of the misuses** -/
theorem misuse_of_step (hs : s.Coherent) (hi : ¬ i.Direct) {f : Fault}
    (h : (s.step i).2 = .error f) : s.Misuse i f := by
  cases i with
  | enable id =>
    unfold step at h
    cases hc : NamedCurve.ofId? id <;> simp only [hc] at h <;> cases h
  | disable | curve => cases h
  | operate call d =>
    have hr := run_cases hs (call.operation s.elementBytes) d
    have he : (s.operate (call.operation s.elementBytes) d).2 = .error f := h
    unfold operate at he
    rcases hx : s.run (call.operation s.elementBytes) d with ⟨r | rest | g, k⟩
    · rw [hx] at he
      cases r <;> cases he
    · rw [hx] at he
      cases he
    · rw [hx] at he hr
      cases he
      obtain ⟨rfl, hb, ht⟩ := hr
      exact .operate hb (by rw [hx]; exact ht)
  | peek offset n =>
    obtain ⟨rfl, hf⟩ := Memory.read_error (eq_error_of_map h)
    exact .peek hf
  | poke offset ws =>
    unfold step at h
    cases hw : Bus.writeMemory s.engine offset ws with
    | ok e =>
      simp only [hw] at h
      cases h
    | error g =>
      simp only [hw] at h
      cases h
      obtain ⟨rfl, hf⟩ := writeMemory_error hw
      exact .poke hf
  | access a =>
    have he : (Bus.access s.engine a).2 = .error f := eq_error_of_map h
    cases a with
    | readRegister r | isBusy => cases he
    | writeRegister r v =>
      have hw : (s.engine.writeRegister r v).2 = .error f := eq_error_of_map he
      rw [Engine.writeRegister_of_not_starts hi] at hw
      cases hw
    | readMemory offset n =>
      obtain ⟨rfl, hf⟩ := Memory.read_error (eq_error_of_map he)
      exact .read hf
    | writeMemory offset ws =>
      unfold Bus.access at he
      cases hw : Bus.writeMemory s.engine offset ws with
      | ok e =>
        simp only [hw] at he
        cases he
      | error g =>
        simp only [hw] at he
        cases he
        obtain ⟨rfl, hf⟩ := writeMemory_error hw
        exact .write hf

/-- when the engine is busy after a step, it was so before, or the step gave up an operation -/
theorem busy_of_step (hs : s.Coherent) (hi : ¬ i.Direct) {x : Answer}
    (h : s.step i = (s', .ok x)) (hb : s'.engine.busy ≠ 0) :
    (s.engine.busy ≠ 0 ∧ ¬ i.Resets) ∨ s.Drops i := by
  cases i with
  | enable id =>
    unfold step at h
    cases hc : NamedCurve.ofId? id with
    | none =>
      simp only [hc] at h
      cases h
      exact .inl ⟨hb, by simp [Step.Resets, hc]⟩
    | some c =>
      simp only [hc] at h
      cases h
      exact absurd rfl hb
  | disable =>
    cases h
    refine .inl ⟨fun h₀ => hb ?_, id⟩
    unfold disable
    cases s.curve with
    | none => exact h₀
    | some c => exact h₀
  | operate call d =>
    have hr := run_cases hs (call.operation s.elementBytes) d
    have he : s' = s.after (s.run (call.operation s.elementBytes) d).2 :=
      (congrArg Prod.fst h).symm
    subst he
    by_cases h₀ : s.engine.busy = 0
    · right
      rcases hx : s.run (call.operation s.elementBytes) d with ⟨r | rest | g, k⟩ <;> rw [hx] at hr hb
      · exact absurd (hr.trans h₀) hb
      · refine ⟨?_, h₀, ?_⟩ <;> rw [hx]
        · rfl
        · exact hb
      · exact absurd h₀ hr.2.1
    · exact .inl ⟨h₀, id⟩
  | curve | peek offset n =>
    obtain ⟨rfl, -⟩ := Prod.mk.inj h
    exact .inl ⟨hb, id⟩
  | poke offset ws =>
    unfold step at h
    cases hw : Bus.writeMemory s.engine offset ws with
    | error f =>
      simp only [hw] at h
      cases h
    | ok e =>
      simp only [hw] at h
      cases h
      rw [busy_writeMemory hw] at hb
      exact .inl ⟨hb, id⟩
  | access a =>
    obtain ⟨rfl, -⟩ := Prod.mk.inj h
    have := busy_access (e := s.engine) hi
    exact .inl ⟨fun h₀ => hb (Nat.eq_zero_of_le_zero (h₀ ▸ this)), id⟩

/-! ## Runs of steps -/

theorem coherent_of {steps : List Step} (hs : s.Coherent) :
    (Transcript.of step s steps).final.Coherent := by
  induction steps generalizing s with
  | nil => exact hs
  | cons i is ih =>
    have hc := coherent_step hs i
    rcases hi : s.step i with ⟨s', f | a⟩ <;> rw [hi] at hc
    · rw [Transcript.of_fault hi]
      exact hc
    · rw [Transcript.of_answer hi]
      exact ih hc

/-- an engine that is busy after some steps is so because of an operation that was given up -/
theorem dropped_of_busy (hs : s.Idle) {steps : List Step} (hi : ∀ i ∈ steps, ¬ i.Direct)
    (hf : (Transcript.of step s steps).fault = none)
    (hb : (Transcript.of step s steps).final.engine.busy ≠ 0) : s.Dropped steps := by
  -- on the last step: either it gave the operation up, or the engine was busy before it already
  induction steps using List.reverseRecOn with
  | nil => exact absurd hs.idle hb
  | append_singleton is i ih =>
    rw [List.forall_mem_append] at hi
    obtain ⟨hf', x, hx⟩ := Transcript.of_append_singleton hf
    have hc : (Transcript.of step s is).final.Coherent := coherent_of hs.coherent
    rcases busy_of_step hc (hi.2 i List.mem_cons_self) hx hb with ⟨hb', hr⟩ | hd
    · obtain ⟨before, j, after, rfl, hj, ha⟩ := ih hi.1 hf' hb'
      refine ⟨before, j, after ++ [i], by simp, hj, ?_⟩
      rw [List.forall_mem_append]
      exact ⟨ha, List.forall_mem_singleton.mpr hr⟩
    · exact ⟨is, i, [], rfl, hd, fun j hj => absurd hj List.not_mem_nil⟩

/-- **what can go wrong in a session**: the engine has power exactly while a curve is enabled, and a
run of steps that start no functions themselves ends early only with an access that leaves the
memory, or with an operation whose first function finds one running that an operation given up
before has started; functions on points and numbers never take a difference below 0 or a remainder
modulo 0, the constants of a curve fit in the memory, and an operation with buffers of the wrong
lengths is over before it reads them -/
theorem script_faults (latency : Nat) (config : Config) (source : List Entry) (steps : List Step)
    (hi : ∀ i ∈ steps, ¬ i.Direct) :
    (script latency config source steps).final.Coherent ∧
      (∀ f, (script latency config source steps).fault = some f →
        ∃ before i after, steps = before ++ i :: after ∧
          (script latency config source before).fault = none ∧
          ((script latency config source before).final.step i).2 = .error f ∧
          (script latency config source before).final.Misuse i f ∧
          (f = .busy → (new latency config source).Dropped before)) ∧
      (∀ (e : Engine) (f : Opcode), e.checked f = Engine.misuse (e.execute f)) ∧
      (∀ c : NamedCurve, ∀ x ∈ c.data.constants, Memory.Fits x.1 c.data.words) ∧
      ∀ (s : Operation.Settings) (c : NamedCurve) (op : Operation), s.curve = some c →
        ¬ op.Sized c.elementBytes → ∃ e, op.program s = Program.refuse e .wrongSize := by
  refine ⟨coherent_script latency config source steps, fun f hf => ?_, Engine.checked_eq, ?_,
    fun s c op hc h => Operation.program_of_not_sized hc h⟩
  · obtain ⟨before, i, after, rfl, hb, hj⟩ := Transcript.exists_of_fault hf
    rw [List.forall_mem_append, List.forall_mem_cons] at hi
    have hc : (script latency config source before).final.Coherent :=
      coherent_script latency config source before
    have hm := misuse_of_step hc hi.2.1 hj
    refine ⟨before, i, after, rfl, hb, hj, hm, ?_⟩
    rintro rfl
    cases hm with
    | operate hbusy _ =>
      exact dropped_of_busy ⟨coherent_new latency config source, rfl⟩ hi.1 hb hbusy
  · intro c
    cases c <;> decide

/-- an operation given up and the next one started too early -/
def hasty : List Step :=
  [.enable 1, .poke Layout.order [0], .operate (.validate (List.replicate 48 1)) (.resume (some 1)),
    .operate (.validate (List.replicate 48 1)) .complete]

theorem script_faults_hasty :
    (∀ i ∈ hasty, ¬ i.Direct) ∧ (script 2 {} [] hasty).fault = some .busy ∧
      ∃ before i after, hasty = before ++ i :: after ∧
        (script 2 {} [] before).final.Misuse i .busy ∧ (new 2 {} []).Dropped before := by
  have hi : ∀ i ∈ hasty, ¬ i.Direct := by simp [hasty, Step.Direct]
  have hf : (script 2 {} [] hasty).fault = some .busy := by decide +kernel
  obtain ⟨before, i, after, he, -, -, hm, hd⟩ := (script_faults 2 {} [] hasty hi).2.1 _ hf
  exact ⟨hi, hf, before, i, after, he, hm, hd rfl⟩

end Session
end CurveEngine
