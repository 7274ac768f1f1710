import CurveEngine.Proofs.Answers
import CurveEngine.Proofs.Effects

/-!
# What requests do to a host

* `Request.starts`, `Request.Plain`   the start of a function, and no access to its register;
* `Request.targets`, `Request.operands`   the words a request may write, and the operands behind it;
* `Host.Calm`, `Host.Launches`   what the start of a function and any other request do to time;
* `Host.answer_frame_of_plain`   a request writes its targets only.
-/

namespace CurveEngine

namespace Request

/-- the request starts a function -/
def starts : Request → Bool
  | start _ => true
  | _ => false

theorem exists_of_starts {q : Request} (h : q.starts = true) : ∃ f, q = .start f := by
  cases q with
  | start f => exact ⟨f, rfl⟩
  | _ => cases h

/-- the request is no access to the function register -/
def Plain : Request → Prop
  | writeRegister r _ | readRegister r => r ≠ .function
  | _ => True

/-- the words a request may write, with some operands in the registers -/
def targets (o : Operands) : Request → List Window
  | writeMemory offset ws => [(offset, ws.length)]
  | start f => f.targets o
  | _ => []

/-- the operands in the registers after a request -/
def operands (o : Operands) : Request → Operands
  | writeRegister r v => o.set r v.toNat
  | _ => o

end Request

/-! ## The engine -/

namespace Engine

variable {e e' : Engine}

/-- a function is started on an idle engine only, it runs for the latency and counts, and without
latency it raises its interrupt at once -/
theorem start_frame {v : Word} (h : e.start v = (e', .ok ())) :
    e.busy = 0 ∧ e'.busy = e.latency ∧ e'.latency = e.latency ∧ e'.started = e.started + 1 ∧
      e'.interrupts = e.interrupts + if e.latency = 0 then 1 else 0 := by
  unfold start at h
  split at h
  · cases h
  · split at h
    · cases h
    · rename_i hb
      split at h
      · cases h
      · unfold launch at h
        split at h
        · rename_i e₁ hx
          obtain ⟨m, g, rfl⟩ := execute_frame hx
          cases h
          exact ⟨not_not.mp hb, rfl, rfl, rfl, rfl⟩
        · cases h

theorem launch_frame (e : Engine) (v : Word) (f : Opcode) :
    (e.launch v f).1.registers.operands = e.registers.operands ∧
      ∀ i, (∀ r ∈ f.targets e.registers.operands, i < r.1 ∨ r.1 + r.2 ≤ i) →
        (e.launch v f).1.memory.word i = e.memory.word i := by
  have hx := (e.accept v).execute_eq f
  cases he : (e.accept v).effect f with
  | error g =>
    rw [he] at hx
    rw [launch_of_error hx]
    exact ⟨rfl, fun i _ => rfl⟩
  | ok x =>
    rw [he] at hx
    rw [launch_of_ok hx]
    have hform : x.Form f e.registers.operands := effect_form he
    refine ⟨hform.operands (e.accept v).registers, fun i hi => ?_⟩
    refine Effect.word_onMemory_of_outside (x := x) ?_ e.memory
    obtain hs | hs := hform.stretches
    · rw [hs]
      exact fun r hr => absurd hr List.not_mem_nil
    · rw [hs]
      exact hi

end Engine

/-! ## Hosts -/

namespace Host

variable {h : Host} {q : Request}

/-- no function was started, and no time has passed -/
structure Calm (h h' : Host) : Prop where
  busy : h'.engine.busy = h.engine.busy
  latency : h'.engine.latency = h.engine.latency
  started : h'.engine.started = h.engine.started
  interrupts : h'.engine.interrupts = h.engine.interrupts
  listening : h'.listening = h.listening
  trace : h'.trace = h.trace
  polls : h'.polls = h.polls

theorem answer_calm (hq : q.Plain) (hs : q.starts = false) : h.Calm (h.answer q).1 := by
  cases q with
  | writeRegister r v =>
    have hr : ¬ (r = .function ∧ Opcode.starts v = true) := fun c => hq c.1
    rw [answer, Engine.writeRegister_of_not_starts hr]
    dsimp only
    split
    · exact ⟨rfl, rfl, rfl, rfl, rfl, rfl, rfl⟩
    · exact ⟨rfl, rfl, rfl, rfl, rfl, rfl, rfl⟩
  | readRegister r =>
    rw [answer, Engine.readRegister_of_ne hq]
    exact ⟨rfl, rfl, rfl, rfl, rfl, rfl, rfl⟩
  | writeMemory offset ws =>
    obtain ⟨m, e⟩ := h.answer_writeMemory offset ws
    rw [e]
    exact ⟨rfl, rfl, rfl, rfl, rfl, rfl, rfl⟩
  | start f => cases hs
  | readMemory offset n => exact ⟨rfl, rfl, rfl, rfl, rfl, rfl, rfl⟩
  | log e => exact ⟨rfl, rfl, rfl, rfl, rfl, rfl, rfl⟩
  | draw => exact ⟨rfl, rfl, rfl, rfl, rfl, rfl, rfl⟩
  | output t c =>
    obtain ⟨bufs, e⟩ := h.answer_output t c
    rw [e]
    exact ⟨rfl, rfl, rfl, rfl, rfl, rfl, rfl⟩

/-- while nothing runs, a look at the function register does not count as time either -/
theorem answer_calm_of_idle (hb : h.engine.busy = 0) (hq : ∀ v, q ≠ .writeRegister .function v)
    (hs : q.starts = false) : h.Calm (h.answer q).1 := by
  by_cases hp : q.Plain
  · exact answer_calm hp hs
  · cases q with
    | readRegister r =>
      obtain rfl : r = .function := not_not.mp hp
      show h.Calm { h with engine := h.engine.tick }
      rw [Engine.tick_of_idle hb]
      exact ⟨rfl, rfl, rfl, rfl, rfl, rfl, rfl⟩
    | writeRegister r v =>
      obtain rfl : r = .function := not_not.mp hp
      exact absurd rfl (hq v)
    | _ => exact absurd trivial hp

/-- a function was started -/
structure Launches (h h' : Host) : Prop where
  idle : h.engine.busy = 0
  busy : h'.engine.busy = h.engine.latency
  latency : h'.engine.latency = h.engine.latency
  started : h'.engine.started = h.engine.started + 1
  interrupts : h'.engine.interrupts = h.engine.interrupts + if h.engine.latency = 0 then 1 else 0
  listening : h'.listening = h.listening
  trace : h'.trace.size = h.trace.size + 1
  polls : h'.polls = h.polls

theorem answer_launches {h' : Host} {f : Opcode} {u : Unit}
    (ha : h.answer (.start f) = (h', .ok u)) : h.Launches h' := by
  obtain ⟨e, he, rfl⟩ : ∃ e, h.engine.start (f.code ||| Opcode.run) = (e, .ok ()) ∧
      h' = { h with
        engine := e
        log := h.log.push (.started f)
        trace := h.trace.push ⟨f, h.engine.registers.operands⟩ } := by
    rw [answer, writeRegister_start] at ha
    obtain ⟨rfl, hw⟩ := Prod.mk.inj ha
    exact ⟨_, Prod.ext rfl hw, rfl⟩
  obtain ⟨hi, hb, hl, hs, hn⟩ := Engine.start_frame he
  exact ⟨hi, hb, hl, hs, hn, rfl, Array.size_push _, rfl⟩

theorem ready_of_start {h' : Host} {f : Opcode} {u : Unit}
    (ha : h.answer (.start f) = (h', .ok u)) : h.Ready := by
  refine ⟨?_, (answer_launches ha).idle⟩
  by_contra hp
  rw [answer, writeRegister_start, Engine.start_of_off (Bool.eq_false_iff.mpr hp)] at ha
  cases ha

theorem operands_set (g : RegisterFile) (r : Register) (v : Word) :
    (g.set r v).operands = g.operands.set r v.toNat := by
  cases r <;> rfl

/-- **a request changes its targets only**, and the operands as it says -/
theorem answer_frame_of_plain (hq : q.Plain) :
    (h.answer q).1.engine.registers.operands = q.operands h.engine.registers.operands ∧
      ∀ i, (∀ r ∈ q.targets h.engine.registers.operands, i < r.1 ∨ r.1 + r.2 ≤ i) →
        (h.answer q).1.engine.memory.word i = h.engine.memory.word i := by
  cases q with
  | writeRegister r v =>
    have hr : ¬ (r = .function ∧ Opcode.starts v = true) := fun c => hq c.1
    rw [answer, Engine.writeRegister_of_not_starts hr]
    cases hs : r.isStatus with
    | true =>
      refine ⟨?_, fun i _ => rfl⟩
      cases r with
      | compare | msw | divMsw => rfl
      | _ => cases hs
    | false => exact ⟨operands_set _ r v, fun i _ => rfl⟩
  | readRegister r =>
    rw [answer, Engine.readRegister_of_ne hq]
    exact ⟨rfl, fun i _ => rfl⟩
  | writeMemory offset ws =>
    rw [answer]
    unfold Memory.write
    split
    · rename_i hw
      split at hw
      · cases hw
        exact ⟨rfl, fun i hi => Memory.word_overwrite_of_lt (hi _ List.mem_cons_self)⟩
      · cases hw
    · exact ⟨rfl, fun i _ => rfl⟩
  | readMemory offset n => exact ⟨rfl, fun i _ => rfl⟩
  | start f =>
    rw [answer, writeRegister_start]
    have hf := h.engine.launch_frame (f.code ||| Opcode.run) f
    show (h.engine.start (f.code ||| Opcode.run)).1.registers.operands = _ ∧ ∀ i, _ →
      (h.engine.start (f.code ||| Opcode.run)).1.memory.word i = _
    cases hp : h.engine.powered with
    | false =>
      rw [Engine.start_of_off hp]
      exact ⟨rfl, fun i _ => rfl⟩
    | true =>
      by_cases hb : h.engine.busy = 0
      · rw [Engine.start_of_accepted hp hb (Opcode.decode?_code_run f)]
        exact hf
      · rw [Engine.start_of_running hp hb]
        exact ⟨rfl, fun i _ => rfl⟩
  | log e => exact ⟨rfl, fun i _ => rfl⟩
  | draw => exact ⟨rfl, fun i _ => rfl⟩
  | output t c =>
    obtain ⟨bufs, e⟩ := h.answer_output t c
    rw [e]
    exact ⟨rfl, fun i _ => rfl⟩

end Host
end CurveEngine
