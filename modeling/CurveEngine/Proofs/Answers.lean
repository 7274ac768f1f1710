import CurveEngine.Proofs.Computes
import CurveEngine.Session

/-!
# What an idle session answers

* `Session.Coherent`    the engine has power exactly while a curve is enabled; `coherent_script` says
                        that this holds after every run of steps;
* `Session.Idle`        no function is running, either;
* `Session.Yields`      an operation, run in some way, ends with this result;
* `Session.Answers`     in whatever way it is run, it ends with this result, unless it is given up
                        before.

A result is what the output buffers hold afterwards, or a failure, which leaves them as they were.

A way to run an operation that ends at all ends like `Program.complete`, so one run by `Ends` settles
all of them.
-/

namespace CurveEngine

/-! ## Power -/

namespace Engine

theorem store_frame {e e' : Engine} {o n v : Nat} (h : e.store o n v = .ok e') :
    ∃ m g, e' = e.update m g := by
  unfold store at h
  split at h
  · cases h
    exact ⟨_, _, rfl⟩
  · cases h

theorem storePoint_frame {e e' : Engine} {o : Operands} {r : Option Point}
    (h : e.storePoint o r = .ok e') : ∃ m g, e' = e.update m g := by
  match r, h with
  | none, h | some .infinity, h =>
    cases h
    exact ⟨e.memory, _, rfl⟩
  | some (.affine x y), h =>
    obtain ⟨e₁, h₁, h⟩ := bind_eq_ok_iff.mp h
    obtain ⟨e₂, h₂, h⟩ := bind_eq_ok_iff.mp h
    obtain ⟨m₁, g₁, rfl⟩ := store_frame h₁
    obtain ⟨m₂, g₂, rfl⟩ := store_frame h₂
    cases h
    exact ⟨m₂, _, rfl⟩

/-- a function changes memory and registers only -/
theorem execute_frame {e e' : Engine} {f : Opcode} (h : e.execute f = .ok e') :
    ∃ m g, e' = e.update m g := by
  cases f with
  | multiply | add | subtract =>
    obtain ⟨a, -, h⟩ := bind_eq_ok_iff.mp h
    obtain ⟨b, -, h⟩ := bind_eq_ok_iff.mp h
    exact store_frame h
  | modulo =>
    obtain ⟨m, -, h⟩ := bind_eq_ok_iff.mp h
    by_cases hm : m = 0
    · rw [if_pos hm] at h
      exact store_frame h
    · rw [if_neg hm] at h
      obtain ⟨r, -, h⟩ := bind_eq_ok_iff.mp h
      exact store_frame h
  | compare =>
    obtain ⟨a, -, h⟩ := bind_eq_ok_iff.mp h
    obtain ⟨b, -, h⟩ := bind_eq_ok_iff.mp h
    cases h
    exact ⟨e.memory, _, rfl⟩
  | copy =>
    obtain ⟨ws, -, h⟩ := bind_eq_ok_iff.mp h
    obtain ⟨m, -, h⟩ := bind_eq_ok_iff.mp h
    cases h
    exact ⟨m, e.registers, rfl⟩
  | invert =>
    obtain ⟨m, -, h⟩ := bind_eq_ok_iff.mp h
    obtain ⟨a, -, h⟩ := bind_eq_ok_iff.mp h
    split at h
    · cases h
    · exact store_frame h
  | pointAdd | pointMul =>
    obtain ⟨r, -, h⟩ := bind_eq_ok_iff.mp h
    exact storePoint_frame h

theorem powered_start (e : Engine) (v : Word) : (e.start v).1.powered = e.powered := by
  unfold start
  split
  · rfl
  · split
    · rfl
    · split
      · rfl
      · rename_i f _
        unfold launch
        split
        · rename_i e' he
          obtain ⟨m, g, rfl⟩ := execute_frame he
          rfl
        · rfl

theorem powered_writeRegister (e : Engine) (r : Register) (v : Word) :
    (e.writeRegister r v).1.powered = e.powered := by
  unfold writeRegister
  split
  · rfl
  · split
    · exact e.powered_start v
    · rfl

theorem powered_readRegister (e : Engine) (r : Register) :
    (e.readRegister r).2.powered = e.powered := by
  cases r with
  | function => exact e.tick_frame.2.2.2.1
  | _ => rfl

end Engine

theorem Host.powered_answer (h : Host) (q : Request) :
    (h.answer q).1.engine.powered = h.engine.powered := by
  cases q with
  | writeRegister r v => exact h.engine.powered_writeRegister r v
  | readRegister r => exact h.engine.powered_readRegister r
  | writeMemory o ws =>
    obtain ⟨m, e⟩ := h.answer_writeMemory o ws
    rw [e]
  | readMemory o n => rfl
  | start f => exact h.engine.powered_writeRegister .function _
  | log e => rfl
  | draw => rfl
  | output t c =>
    obtain ⟨bufs, e⟩ := h.answer_output t c
    rw [e]

namespace Program

variable {α : Type}

theorem powered_poll (p : Program α) (h : Host) :
    (p.poll h).2.engine.powered = h.engine.powered := by
  induction p generalizing h with
  | done a => rfl
  | fail e => rfl
  | ask q next ih =>
    have ha := h.powered_answer q
    rcases hq : h.answer q with ⟨h', e | r⟩
    · rw [hq] at ha
      rw [poll_ask_of_error hq, ha]
    · rw [hq] at ha
      rw [poll_ask_of_ok hq, ih, ha]
  | wait next ih =>
    by_cases hb : h.engine.busy = 0
    · rw [poll_wait_of_idle hb, ih]
      rfl
    · rw [poll_wait_of_running hb]
      exact h.engine.tick_frame.2.2.2.1

theorem powered_resume (n : Nat) (p : Program α) (h : Host) :
    (p.resume n h).2.engine.powered = h.engine.powered := by
  induction n generalizing p h with
  | zero => rfl
  | succ n ih =>
    have hp := p.powered_poll h.enter
    rcases hr : p.poll h.enter with ⟨r | rest | f, h'⟩
    · rw [resume_of_settled (by rw [hr]; rfl)]
      exact hp
    · rw [resume_of_pending hr, ih]
      rw [hr] at hp
      exact hp
    · rw [resume_of_settled (by rw [hr]; rfl)]
      exact hp

theorem powered_finish (p : Program α) (h : Host) :
    (p.finish h).2.engine.powered = h.engine.powered := by
  induction p generalizing h with
  | done a => rfl
  | fail e => rfl
  | ask q next ih =>
    have ha := h.powered_answer q
    rcases hq : h.answer q with ⟨h', e | r⟩
    · rw [hq] at ha
      rw [finish_ask_of_error hq, ha]
    · rw [hq] at ha
      rw [finish_ask_of_ok hq, ih, ha]
  | wait next ih =>
    rw [finish_wait, ih]
    exact (h.listen.await_frame h.engine.busy).2.2

theorem powered_drive (p : Program α) (d : Drive) (h : Host) :
    (p.drive d h).2.engine.powered = h.engine.powered := by
  unfold drive
  cases d.limit with
  | none => exact p.powered_finish h.enter
  | some n => exact p.powered_resume n h

end Program

namespace Session

/-- the engine has power exactly while a curve is enabled -/
def Coherent (s : Session) : Prop := s.engine.powered = s.curve.isSome

theorem coherent_new (latency : Nat) (config : Config) (source : List Entry) :
    (new latency config source).Coherent := rfl

/-- every step keeps the engine's power and the enabled curve together, faults included -/
theorem coherent_step {s : Session} (hs : s.Coherent) (i : Step) : (s.step i).1.Coherent := by
  cases i with
  | enable id =>
    rw [step]
    cases NamedCurve.ofId? id with
    | none => exact hs
    | some c => rfl
  | disable =>
    show s.disable.Coherent
    unfold disable
    cases hc : s.curve with
    | none => exact hs
    | some c => rfl
  | operate call d =>
    show (s.run _ d).2.engine.powered = _
    rw [run, Program.powered_drive]
    exact hs
  | curve => exact hs
  | peek o n => exact hs
  | poke o ws =>
    rw [step]
    cases h : Bus.writeMemory s.engine o ws with
    | error f => exact hs
    | ok e =>
      obtain ⟨-, rfl⟩ := Engine.of_writeMemory h
      exact hs
  | access a =>
    have ha : (Bus.access s.engine a).1.powered = s.engine.powered := by
      cases a with
      | readRegister r => exact s.engine.powered_readRegister r
      | writeRegister r v => exact s.engine.powered_writeRegister r v
      | readMemory o n => rfl
      | writeMemory o ws =>
        rw [Bus.access]
        cases h : Bus.writeMemory s.engine o ws with
        | error f => rfl
        | ok e =>
          obtain ⟨-, rfl⟩ := Engine.of_writeMemory h
          rfl
      | isBusy => exact s.engine.tick_frame.2.2.2.1
    exact ha.trans hs

/-- **power follows the enabled curve in every run of steps** -/
theorem coherent_script (latency : Nat) (config : Config) (source : List Entry)
    (steps : List Step) : (script latency config source steps).final.Coherent := by
  unfold script
  have h := coherent_new latency config source
  generalize new latency config source = s at h ⊢
  induction steps generalizing s with
  | nil => exact h
  | cons i is ih =>
    have hs := coherent_step h i
    rcases hi : s.step i with ⟨s', f | a⟩
    · rw [Transcript.of_fault hi]
      rw [hi] at hs
      exact hs
    · rw [Transcript.of_answer hi]
      rw [hi] at hs
      exact ih s' hs

/-! ## Answers -/

/-- the engine has power exactly while a curve is enabled, and it runs nothing -/
structure Idle (s : Session) : Prop where
  coherent : s.Coherent
  idle : s.engine.busy = 0

/-- run like this, the operation ends with `r`: its output buffers hold these contents, or after a
failure what they held before -/
def Yields (s : Session) (op : Operation) (d : Drive) (r : Except Failure (List Bytes)) : Prop :=
  (s.run op d).1 = .ready (r.map fun _ => ()) ∧ (s.run op d).2.outputs = r.toOption.getD op.buffers

/-- however the operation is run, it ends with `r`, unless it is given up before -/
def Answers (s : Session) (op : Operation) (r : Except Failure (List Bytes)) : Prop :=
  ∀ d, s.Yields op d r ∨ (d.limit.isSome = true ∧ (s.run op d).1.settled = false)

/-- the host that an operation of a session begins with -/
def host (s : Session) (op : Operation) : Host :=
  (Host.new s.engine s.drawn op.buffers).enter

variable {s : Session} {c : NamedCurve} {op : Operation} {r : Except Failure (List Bytes)}

theorem Idle.ready (hs : s.Idle) (hc : s.curve = some c) (op : Operation) :
    (s.host op).Ready := by
  refine ⟨?_, hs.idle⟩
  have h := hs.coherent
  unfold Coherent at h
  rw [hc] at h
  exact h

/-- a session is idle again after an operation that ended -/
theorem Idle.after {h : Host} (hc : s.curve = some c) (hr : h.Ready) : (s.after h).Idle := by
  refine ⟨?_, hr.idle⟩
  show h.engine.powered = s.curve.isSome
  rw [hc, hr.powered]
  rfl

theorem answers_of_delivers {h : Host} (he : (op.program s.settings).Delivers (s.host op) r h) :
    s.Answers op r := by
  obtain ⟨hr, ho⟩ := he
  have hf : (op.program s.settings).complete (.new s.engine s.drawn op.buffers) =
      (.ready (r.map fun _ => ()), h) := hr
  intro d
  unfold Yields run Program.drive
  cases hd : d.limit with
  | none =>
    left
    rw [hf]
    exact ⟨rfl, ho⟩
  | some n =>
    dsimp only
    cases hs : ((op.program s.settings).resume n (.new s.engine s.drawn op.buffers)).1.settled with
    | false => exact .inr ⟨rfl, rfl⟩
    | true =>
      left
      rw [← Program.complete_of_settled hs, hf]
      exact ⟨rfl, ho⟩

theorem Answers.complete (h : s.Answers op r) : s.Yields op .complete r := by
  rcases h .complete with h | ⟨h, -⟩
  · exact h
  · cases h

theorem ends_of_run {d : Drive} {r : Except Failure Unit} (hr : (s.run op d).1 = .ready r) :
    (op.program s.settings).Ends (s.host op) r (s.run op d).2 := by
  have e : (op.program s.settings).finish (s.host op) = s.run op d := by
    unfold run Program.drive at hr ⊢
    cases hd : d.limit with
    | none => rfl
    | some n =>
      rw [hd] at hr
      have hs : ((op.program s.settings).resume n
          (.new s.engine s.drawn op.buffers)).1.settled = true := by
        rw [show ((op.program s.settings).resume n (.new s.engine s.drawn op.buffers)).1 = _ from hr]
        rfl
      exact Program.complete_of_settled hs
  show (op.program s.settings).finish (s.host op) = (.ready r, (s.run op d).2)
  rw [e, ← hr]

theorem Yields.delivers {d : Drive} (hr : s.Yields op d r) :
    (op.program s.settings).Delivers (s.host op) r (s.run op d).2 :=
  ⟨ends_of_run hr.1, hr.2⟩

end Session
end CurveEngine
