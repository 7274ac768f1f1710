import CurveEngine.Proofs.Computes
import CurveEngine.Proofs.Effects
import CurveEngine.Proofs.Lockstep

/-!
# Programs that never read what they did not write

Two runs of one program whose memories agree on some words only, and whose registers may differ.

* `Host.Abreast`     what cannot tell two runs apart: log, trace, polls, output buffers, and what they
                     drew;
* `Host.Twins`       also, their memories agree on some windows, and no started function is running;
* `Window.Covered`, `Window.Free`   a window that lies in a known one, and one that may be written;
* `Program.Keeps`    from twins that agree on some windows the program runs in step, to twins that
                     agree on these and on some new ones;
* `keeps_load` and the lemmas behind it   the arithmetic programs.

Both runs apply the same effects, so words that agree keep doing so.  The first run tells where the
constants stay and how a run on a busy engine ends.
-/

namespace CurveEngine

open Memory (Fits)

/-! ## Windows -/

namespace Window

/-- the window lies in the memory and in one of some others -/
def Covered (ws : List Window) (r : Window) : Prop :=
  Fits r.1 r.2 ∧ ∃ v ∈ ws, v.1 ≤ r.1 ∧ r.1 + r.2 ≤ v.1 + v.2

/-- the window lies in the memory, behind the constants -/
def Free (r : Window) : Prop := Layout.scratchpad ≤ r.1 ∧ Fits r.1 r.2

instance (ws : List Window) (r : Window) : Decidable (Covered ws r) :=
  inferInstanceAs (Decidable (_ ∧ _))

instance (r : Window) : Decidable (Free r) := inferInstanceAs (Decidable (_ ∧ _))

/-- the memories agree on the window -/
def Agree (r : Window) (m m' : Memory) : Prop :=
  ∀ i, r.1 ≤ i → i < r.1 + r.2 → m.word i = m'.word i

theorem Agree.of_covered {ws : List Window} {m m' : Memory} (h : ∀ r ∈ ws, Agree r m m')
    {r : Window} (hr : Covered ws r) : Agree r m m' := by
  obtain ⟨-, v, hv, hl, hu⟩ := hr
  intro i hi hi'
  exact h v hv i (by omega) (by omega)

theorem Covered.mono {ws ws' : List Window} {r : Window} (h : Covered ws r) (hs : ws ⊆ ws') :
    Covered ws' r := by
  obtain ⟨hf, v, hv, hr⟩ := h
  exact ⟨hf, v, hs hv, hr⟩

theorem covered_self {ws : List Window} {r : Window} (hf : Fits r.1 r.2) (hr : r ∈ ws) :
    Covered ws r := ⟨hf, r, hr, Nat.le_refl _, Nat.le_refl _⟩

/-- two windows in a row make one -/
theorem Agree.join {o n k : Nat} {m m' : Memory} (h : Agree (o, n) m m')
    (h' : Agree (o + n, k) m m') : Agree (o, n + k) m m' := by
  intro i hl hu
  by_cases hi : i < o + n
  · exact h i hl hi
  · exact h' i (Nat.le_of_not_lt hi) (by omega)

end Window

open Window (Covered Free Agree)

/-! ## Hosts -/

namespace Host

/-- two hosts that the same program reached from `a` and from `b`: they differ in memory, in
registers, and by what `a` and `b` differed in already; the constants of `a` are untouched -/
structure Abreast (a b h₁ h₂ : Host) : Prop where
  latency : h₁.engine.latency = h₂.engine.latency
  pace : h₁.engine.latency = a.engine.latency
  busy : h₁.engine.busy = h₂.engine.busy
  polls : h₁.polls = h₂.polls
  log : h₁.log = h₂.log
  trace : h₁.trace.toList.map Invocation.text = h₂.trace.toList.map Invocation.text
  drawn : h₁.drawn + b.drawn = h₂.drawn + a.drawn
  interrupts : h₁.engine.interrupts + b.engine.interrupts =
    h₂.engine.interrupts + a.engine.interrupts
  listening : h₁.listening.map (· + b.engine.interrupts) =
    h₂.listening.map (· + a.engine.interrupts)
  constants : ∀ i, i < Layout.scratchpad → h₁.engine.memory.word i = a.engine.memory.word i
  outputs : h₁.outputs = h₂.outputs
  shape : h₁.outputs.map List.length = a.outputs.map List.length

/-- two hosts between two steps of a program: their memories agree on the windows `ws`, and no
function runs that was not running before the program began -/
structure Twins (a b : Host) (ws : List Window) (h₁ h₂ : Host) : Prop
    extends Abreast a b h₁ h₂ where
  powered : h₁.engine.powered = true ∧ h₂.engine.powered = true
  calm : h₁.engine.busy = a.engine.busy
  untouched : a.engine.busy ≠ 0 → h₁.trace = #[]
  agree : ∀ r ∈ ws, Agree r h₁.engine.memory h₂.engine.memory

/-- the fault of a program that finds the engine running when it starts its first function -/
def Refused (a : Host) (f : Fault) (h₁ _ : Host) : Prop :=
  f = .busy ∧ a.engine.busy ≠ 0 ∧ h₁.trace.size = 1

variable {a b h₁ h₂ : Host} {ws ws' : List Window}

theorem Abreast.listen (h : Abreast a b h₁ h₂) : Abreast a b h₁.listen h₂.listen := by
  refine { h with listening := ?_ }
  have hl := h.listening
  have hi := h.interrupts
  show Option.map _ (some _) = Option.map _ (some _)
  cases e₁ : h₁.listening with
  | none =>
    cases e₂ : h₂.listening with
    | none => exact congrArg some hi
    | some n₂ =>
      rw [e₁, e₂] at hl
      cases hl
  | some n₁ =>
    cases e₂ : h₂.listening with
    | none =>
      rw [e₁, e₂] at hl
      cases hl
    | some n₂ =>
      rw [e₁, e₂] at hl
      exact hl

theorem Abreast.tick (h : Abreast a b h₁ h₂) : Abreast a b h₁.tick h₂.tick := by
  have hb := h.busy
  have hi := h.interrupts
  obtain ⟨m₁, -, l₁, -, -⟩ := h₁.engine.tick_frame
  obtain ⟨m₂, -, l₂, -, -⟩ := h₂.engine.tick_frame
  refine { h with
    latency := l₁.trans (h.latency.trans l₂.symm)
    pace := l₁.trans h.pace
    busy := ?_
    interrupts := ?_
    constants := ?_ }
  · show h₁.engine.tick.busy = h₂.engine.tick.busy
    rw [Engine.busy_tick, Engine.busy_tick, hb]
  · show h₁.engine.tick.interrupts + _ = h₂.engine.tick.interrupts + _
    unfold Engine.tick
    rw [hb]
    split
    · exact hi
    · show h₁.engine.interrupts + _ + _ = h₂.engine.interrupts + _ + _
      omega
  · show ∀ i, _ → h₁.engine.tick.memory.word i = _
    rw [m₁]
    exact h.constants

/-- both runs were woken equally often -/
theorem Abreast.wakes (h : Abreast a b h₁ h₂) : h₁.wakes = h₂.wakes := by
  have hi := h.interrupts
  have hl := h.listening
  unfold Host.wakes
  cases e₁ : h₁.listening with
  | none =>
    cases e₂ : h₂.listening with
    | none => rfl
    | some n₂ =>
      rw [e₁, e₂] at hl
      cases hl
  | some n₁ =>
    cases e₂ : h₂.listening with
    | none =>
      rw [e₁, e₂] at hl
      cases hl
    | some n₂ =>
      rw [e₁, e₂] at hl
      have hn : n₁ + b.engine.interrupts = n₂ + a.engine.interrupts := Option.some.inj hl
      show h₁.engine.interrupts - n₁ = h₂.engine.interrupts - n₂
      omega

theorem steady_abreast (a b : Host) : Steady (Abreast a b) where
  busy h := h.busy
  listen h := h.listen
  tick h := h.tick
  enter h := { h with polls := congrArg (· + 1) h.polls }

theorem Twins.subset (h : Twins a b ws h₁ h₂) (hs : ws' ⊆ ws) : Twins a b ws' h₁ h₂ :=
  { h with agree := fun r hr => h.agree r (hs hr) }

theorem Twins.window (h : Twins a b ws h₁ h₂) {r : Window} (hr : Covered ws r) :
    h₁.engine.memory.window r.1 r.2 = h₂.engine.memory.window r.1 r.2 :=
  Memory.window_congr (Agree.of_covered h.agree hr)

theorem Twins.setRegister (h : Twins a b ws h₁ h₂) (r : Register) (v : Word) :
    Twins a b ws (h₁.setRegister r v) (h₂.setRegister r v) :=
  { h with }

/-- an effect that leaves the constants alone makes twins of twins, which agree on what it writes -/
theorem Twins.effect (h : Twins a b ws h₁ h₂) {x : Effect} (hx : ∀ r ∈ x.stretches, Free r) :
    (∀ r ∈ x.stretches ++ ws,
      Agree r (x.onMemory h₁.engine.memory) (x.onMemory h₂.engine.memory)) ∧
    ∀ i, i < Layout.scratchpad → (x.onMemory h₁.engine.memory).word i = a.engine.memory.word i := by
  constructor
  · intro r hr i hl hu
    apply Effect.word_onMemory_congr
    obtain hr | hr := List.mem_append.mp hr
    · right
      have hf := (hx r hr).2
      unfold Memory.Fits at hf
      exact ⟨by omega, r, hr, hl, hu⟩
    · left
      exact h.agree r hr i hl hu
  · intro i hi
    rw [Effect.word_onMemory_of_outside _ h₁.engine.memory, h.constants i hi]
    intro r hr
    exact .inl (Nat.lt_of_lt_of_le hi (hx r hr).1)

/-- starting the same function on twins that run nothing, and waiting for it -/
theorem Twins.started (h : Twins a b ws h₁ h₂) (h0 : a.engine.busy = 0) {f : Opcode} {x : Effect}
    (ht : Invocation.text ⟨f, h₁.engine.registers.operands⟩ =
      Invocation.text ⟨f, h₂.engine.registers.operands⟩)
    (hx : ∀ r ∈ x.stretches, Free r) :
    Abreast a b (h₁.started f x) (h₂.started f x) ∧
      Twins a b (x.stretches ++ ws)
        ((h₁.started f x).listen.await (h₁.started f x).engine.busy)
        ((h₂.started f x).listen.await (h₂.started f x).engine.busy) := by
  obtain ⟨hag, hc⟩ := h.effect hx
  have hl := h.latency
  have hA : Abreast a b (h₁.started f x) (h₂.started f x) :=
    { latency := hl
      pace := h.pace
      busy := hl
      polls := h.polls
      log := congrArg (·.push (.started f)) h.log
      trace := by
        show (h₁.trace.push _).toList.map _ = (h₂.trace.push _).toList.map _
        rw [Array.toList_push, Array.toList_push, List.map_append, List.map_append, h.trace,
          List.map_singleton, List.map_singleton, ht]
      drawn := h.drawn
      interrupts := by
        show h₁.engine.interrupts + (if h₁.engine.latency = 0 then 1 else 0) + _ =
          h₂.engine.interrupts + (if h₂.engine.latency = 0 then 1 else 0) + _
        rw [hl, Nat.add_right_comm, h.interrupts, Nat.add_right_comm]
      listening := h.listening
      constants := hc
      outputs := h.outputs
      shape := h.shape }
  have hW := (steady_abreast a b).await (h₁.started f x).engine.busy hA.listen
  obtain ⟨m₁, -, p₁⟩ := (h₁.started f x).listen.await_frame (h₁.started f x).engine.busy
  obtain ⟨m₂, -, p₂⟩ := (h₂.started f x).listen.await_frame (h₁.started f x).engine.busy
  refine ⟨hA, ?_⟩
  rw [← hA.busy]
  refine { hW with
    powered := ⟨p₁.trans h.powered.1, p₂.trans h.powered.2⟩
    calm := ?_
    untouched := fun hb => absurd h0 hb
    agree := ?_ }
  · rw [busy_await, busy_listen, Nat.sub_self, h0]
  · rw [m₁, m₂]
    exact hag

/-- a function whose operands and words are known has the same effect on both twins -/
theorem Twins.exists_effect (hT : Twins a b ws h₁ h₂) {f : Opcode} {u : Operands}
    (hu₁ : f.trim h₁.engine.registers.operands = f.trim u)
    (hu₂ : f.trim h₂.engine.registers.operands = f.trim u)
    (hr : ∀ r ∈ f.reads u, Covered ws r) (ht : ∀ r ∈ f.targets u, Free r)
    (hm : f = .invert → h₁.element u.bLength u.b ≠ 0) :
    ∃ x, h₁.engine.effect f = .ok x ∧ h₂.engine.effect f = .ok x ∧ x.Form f u ∧
      ∀ r ∈ x.stretches, Free r := by
  have er : f.reads h₁.engine.registers.operands = f.reads u := by
    rw [← f.reads_trim, ← f.reads_trim u]
    exact congrArg f.reads hu₁
  have et : f.targets h₁.engine.registers.operands = f.targets u := by
    rw [← f.targets_trim, ← f.targets_trim u]
    exact congrArg f.targets hu₁
  have hi : f = .invert → h₁.engine.memory.element h₁.engine.registers.operands.bLength
      h₁.engine.registers.operands.b ≠ 0 := by
    rintro rfl
    have eb := congrArg Operands.b hu₁
    have el := congrArg Operands.bLength hu₁
    change h₁.engine.registers.operands.b = u.b at eb
    change h₁.engine.registers.operands.bLength = u.bLength at el
    rw [eb, el]
    exact hm rfl
  obtain ⟨x, x₁⟩ := Engine.exists_effect (e := h₁.engine) (f := f)
    (by rw [er]; exact fun r h => (hr r h).1) (by rw [et]; exact fun r h => (ht r h).2) hi
  have hform : x.Form f u := Effect.form_of_trim hu₁ (Engine.effect_form x₁)
  refine ⟨x, x₁, ?_, hform, ?_⟩
  · rw [← x₁]
    refine (Engine.effect_congr (hu₁.trans hu₂.symm) fun r h => ?_).symm
    rw [er] at h
    exact hT.window (hr r h)
  · obtain hs | hs := hform.stretches
    · rw [hs]
      exact fun r h => absurd h List.not_mem_nil
    · rw [hs]
      exact ht

end Host

open Host (Abreast Twins Refused)

/-! ## Programs -/

namespace Program

variable {α β γ : Type} {a b : Host} {ws : List Window}

/-- from twins that agree on `ws` the program runs in step; if it ends well they also agree on the
windows `new`, and `φ` holds of the result -/
def Keeps (a b : Host) (ws : List Window) (p : Program α) (new : α → List Window)
    (φ : α → Prop) : Prop :=
  ∀ h₁ h₂, Twins a b ws h₁ h₂ → p.Lockstep (Abreast a b) (Refused a) h₁ h₂ fun r k₁ k₂ =>
    match r with
    | .ok x => Twins a b (new x ++ ws) k₁ k₂ ∧ φ x
    | .error _ => Twins a b ws k₁ k₂

/-- the result of a program that is of no interest -/
abbrev Any {α : Type} (_ : α) : Prop := True

namespace Keeps

variable {p : Program α} {new : α → List Window} {φ : α → Prop} {new' : β → List Window}
  {ψ : β → Prop}

theorem of_done {x : α} (hn : ∀ r ∈ new x, Covered ws r) (hφ : φ x) :
    Keeps a b ws (done x) new φ := by
  intro h₁ h₂ hT
  refine ⟨{ hT with agree := fun r hr => ?_ }, hφ⟩
  obtain hr | hr := List.mem_append.mp hr
  · exact .of_covered hT.agree (hn r hr)
  · exact hT.agree r hr

/-- nothing is known that was not known before -/
theorem of_known {x : α} (hn : new x ⊆ ws) (hφ : φ x) : Keeps a b ws (done x) new φ :=
  fun _ _ hT => ⟨hT.subset (List.append_subset.mpr ⟨hn, List.Subset.refl ws⟩), hφ⟩

theorem of_fail {e : Failure} : Keeps a b ws (fail e) new φ := fun _ _ hT => hT

theorem imp {new₁ : α → List Window} {φ₁ : α → Prop} (hp : Keeps a b ws p new₁ φ₁)
    (hn : ∀ x, ∀ r ∈ new x, Covered (new₁ x ++ ws) r) (hφ : ∀ x, φ₁ x → φ x) :
    Keeps a b ws p new φ := by
  intro h₁ h₂ hT
  refine (hp h₁ h₂ hT).imp fun r k₁ k₂ h => ?_
  cases r with
  | error e => exact h
  | ok x =>
    obtain ⟨hT, hx⟩ := h
    refine ⟨{ hT with agree := fun r hr => ?_ }, hφ x hx⟩
    obtain hr | hr := List.mem_append.mp hr
    · exact .of_covered hT.agree (hn x r hr)
    · exact hT.agree r (List.mem_append_right _ hr)

/-- what the twins agreed on before they still agree on, so only what is new is passed on -/
theorem bind {f : α → Program β} (hp : Keeps a b ws p new φ)
    (hf : ∀ x, φ x → Keeps a b (new x ++ ws) (f x) new' ψ) : Keeps a b ws (p.bind f) new' ψ := by
  intro h₁ h₂ hT
  apply Lockstep.bind
  refine (hp h₁ h₂ hT).imp fun r k₁ k₂ h => ?_
  cases r with
  | error e => exact h
  | ok x =>
    refine (hf x h.2 k₁ k₂ h.1).imp fun r k₁ k₂ h => ?_
    cases r with
    | error e => exact h.subset (List.subset_append_right _ _)
    | ok y =>
      refine ⟨h.1.subset ?_, h.2⟩
      rw [← List.append_assoc]
      exact List.append_subset.mpr ⟨by simp, by simp⟩

theorem attempt (hp : Keeps a b ws p new φ) :
    Keeps a b ws p.attempt
      (fun r => match r with
        | .ok x => new x
        | .error _ => [])
      (fun r => match r with
        | .ok x => φ x
        | .error _ => True) := by
  intro h₁ h₂ hT
  apply Lockstep.attempt
  refine (hp h₁ h₂ hT).imp fun r k₁ k₂ h => ?_
  cases r with
  | error e => exact ⟨h, trivial⟩
  | ok x => exact h

/-- an attempt at a program that stores nothing -/
theorem attempt_same (hp : Keeps a b ws p (fun _ => []) φ) :
    Keeps a b ws p.attempt (fun _ => []) fun r => ∀ x, r = .ok x → φ x := by
  refine hp.attempt.imp (fun _ => by simp) fun r hr => ?_
  rintro x rfl
  exact hr

theorem ite {q : Prop} [Decidable q] {p' : Program α} (hp : q → Keeps a b ws p new φ)
    (hp' : ¬ q → Keeps a b ws p' new φ) : Keeps a b ws (if q then p else p') new φ := by
  split
  · exact hp ‹_›
  · exact hp' ‹_›

theorem of_log (e : Event) : Keeps a b ws (log e) (fun _ => []) Any := fun _ _ hT =>
  .inl ⟨(), rfl, rfl, { hT with log := congrArg (·.push e) hT.log }, trivial⟩

theorem of_draw : Keeps a b ws draw (fun _ => []) Any := fun h₁ h₂ hT =>
  .inl ⟨(), rfl, rfl,
    { hT with
      drawn := by
        show h₁.drawn + 1 + _ = h₂.drawn + 1 + _
        have := hT.drawn
        omega }, trivial⟩

theorem of_refuse {e : Event} {cause : Failure} : Keeps a b ws (refuse e cause) new φ :=
  (of_log e).bind (f := fun _ => fail cause) fun _ _ => of_fail

end Keeps

/-! ## Single requests -/

variable {h₁ h₂ : Host}

theorem answer_operand (h : Host) {r : Register} (hr : r.isOperand = true) (v : Word) :
    h.answer (.writeRegister r v) = (h.setRegister r v, .ok ()) := by
  obtain ⟨hs, hf⟩ := Register.writable_of_isOperand hr
  have e : h.engine.writeRegister r v = (h.engine.setRegister r v, .ok ()) := by
    unfold Engine.writeRegister
    rw [if_neg (by rw [hs]; decide), if_neg fun c => hf c.1]
  rw [Host.answer, e]
  rfl

theorem lockstep_readRegister {r : Register} (hr : r ≠ .function) {v : Word}
    (hv₁ : h₁.engine.registers.get r = v) (hv₂ : h₂.engine.registers.get r = v)
    {Q : Except Failure Word → Host → Host → Prop} (hQ : Q (.ok v) h₁ h₂) :
    (readRegister r).Lockstep (Abreast a b) (Refused a) h₁ h₂ Q := by
  have e : ∀ h : Host, h.engine.registers.get r = v →
      h.answer (.readRegister r) = (h, .ok v) := by
    intro h hv
    rw [Host.answer, Engine.readRegister_of_ne hr, hv]
  refine .inl ⟨v, ?_, ?_, ?_⟩
  · rw [e h₁ hv₁]
  · rw [e h₂ hv₂]
  · rw [e h₁ hv₁, e h₂ hv₂]
    exact hQ

theorem keeps_readMemory {r : Window} (hr : Covered ws r) :
    Keeps a b ws (readMemory r.1 r.2) (fun _ => []) Any := by
  intro h₁ h₂ hT
  refine .inl ⟨h₁.engine.memory.window r.1 r.2, Memory.read_of_fits hr.1, ?_, hT, trivial⟩
  rw [hT.window hr]
  exact Memory.read_of_fits hr.1

theorem keeps_writeMemory {o : Nat} {vs : List Word} (ho : Free (o, vs.length)) :
    Keeps a b ws (writeMemory o vs) (fun _ => [(o, vs.length)]) Any := by
  intro h₁ h₂ hT
  have e : ∀ h : Host, h.answer (.writeMemory o vs) =
      ({ h with engine := { h.engine with memory := h.engine.memory.overwrite o vs } },
        .ok ()) := by
    intro h
    rw [Host.answer, Memory.write_of_fits ho.2]
  obtain ⟨hag, hc⟩ := hT.effect (x := ⟨[(o, vs)], []⟩) (List.forall_mem_singleton.mpr ho)
  refine .inl ⟨(), ?_, ?_, ?_⟩
  · rw [e h₁]
  · rw [e h₂]
  · rw [e h₁, e h₂]
    exact ⟨{ hT with constants := hc, agree := hag }, trivial⟩

/-- a write that fits in an output buffer of `a` -/
theorem keeps_output {t : Slice} {c : Content}
    (ht : t.start + t.length ≤ (a.outputs.map List.length).getD t.buffer 0)
    (hc : ∀ bs, c = .bytes bs → bs.length = t.length) :
    Keeps a b ws (output t c) (fun _ => []) Any := by
  intro h₁ h₂ hT
  rw [← hT.shape, show (0 : Nat) = List.length ([] : Bytes) from rfl, List.getD_map] at ht
  obtain ⟨bufs, hw⟩ := Slice.exists_write ht hc
  have e₁ : h₁.answer (.output t c) = ({ h₁ with outputs := bufs }, .ok ()) := by
    rw [Host.answer, hw]
  have e₂ : h₂.answer (.output t c) = ({ h₂ with outputs := bufs }, .ok ()) := by
    rw [Host.answer, ← hT.outputs, hw]
  refine .inl ⟨(), ?_, ?_, ?_⟩
  · rw [e₁]
  · rw [e₂]
  · rw [e₁, e₂]
    exact ⟨{ hT with outputs := rfl, shape := (Slice.lengths_write hw).trans hT.shape }, trivial⟩

/-! ## Functions with their operands -/

section
variable {f : Opcode} {u : Operands} {Q : Except Failure Unit → Host → Host → Prop}

/-- a function whose operands are in the registers, on twins: either both engines carry it out, or
both refuse it because they were busy before the program began -/
theorem lockstep_start (hT : Twins a b ws h₁ h₂)
    (hu₁ : f.trim h₁.engine.registers.operands = f.trim u)
    (hu₂ : f.trim h₂.engine.registers.operands = f.trim u)
    (hr : ∀ r ∈ f.reads u, Covered ws r) (ht : ∀ r ∈ f.targets u, Free r)
    (hm : f = .invert → h₁.element u.bLength u.b ≠ 0)
    (hQ : ∀ (e : Engine) x k₁ k₂ g₁ g₂, e.memory = h₁.engine.memory →
      f.trim e.registers.operands = f.trim u → e.effect f = .ok x → x.Form f u →
      Twins a b (x.stretches ++ ws) k₁ k₂ →
      g₁.operands = h₁.engine.registers.operands → g₂.operands = h₂.engine.registers.operands →
      k₁.engine.registers = x.onRegisters g₁ → k₂.engine.registers = x.onRegisters g₂ →
      Q (.ok ()) k₁ k₂) :
    (invoke [] f).Lockstep (Abreast a b) (Refused a) h₁ h₂ Q := by
  by_cases h0 : a.engine.busy = 0
  · have b₁ : h₁.engine.busy = 0 := hT.calm.trans h0
    have b₂ : h₂.engine.busy = 0 := hT.busy ▸ b₁
    obtain ⟨x, x₁, x₂, hform, hfree⟩ := hT.exists_effect hu₁ hu₂ hr ht hm
    have text : Invocation.text ⟨f, h₁.engine.registers.operands⟩ =
        Invocation.text ⟨f, h₂.engine.registers.operands⟩ := by
      rw [← Invocation.text_trim, hu₁.trans hu₂.symm, Invocation.text_trim]
    obtain ⟨hA, hT'⟩ := hT.started h0 text hfree
    refine .inl ⟨(), ?_, ?_, ?_⟩
    · rw [Host.answer_start hT.powered.1 b₁ x₁]
    · rw [Host.answer_start hT.powered.2 b₂ x₂]
    · rw [Host.answer_start hT.powered.1 b₁ x₁, Host.answer_start hT.powered.2 b₂ x₂]
      obtain ⟨-, r₁, -⟩ := (h₁.started f x).listen.await_frame (h₁.started f x).engine.busy
      obtain ⟨-, r₂, -⟩ := (h₂.started f x).listen.await_frame (h₂.started f x).engine.busy
      exact ⟨hA, hQ h₁.engine x _ _ (h₁.engine.accept _).registers
        (h₂.engine.accept _).registers rfl hu₁ x₁ hform hT' rfl rfl r₁ r₂⟩
  · have b₁ : h₁.engine.busy ≠ 0 := hT.calm ▸ h0
    have b₂ : h₂.engine.busy ≠ 0 := hT.busy ▸ b₁
    refine .inr ⟨.busy, ?_, ?_, rfl, h0, ?_⟩
    · rw [Host.answer_start_of_running hT.powered.1 b₁]
    · rw [Host.answer_start_of_running hT.powered.2 b₂]
    · rw [Host.answer_start_of_running hT.powered.1 b₁]
      show (h₁.trace.push _).size = 1
      rw [hT.untouched h0]
      rfl

/-- **a function with its operands, on twins**: it is enough that what it reads is known and that
its targets may be written; `u` are the operands it has, as far as it uses them -/
theorem lockstep_invoke (hT : Twins a b ws h₁ h₂) {l : List (Register × Nat)}
    (hl : ∀ rn ∈ l, rn.1.isOperand = true ∧ rn.2 ≤ Layout.memoryWords)
    (hu₁ : f.trim (h₁.engine.registers.operands.setAll l) = f.trim u)
    (hu₂ : f.trim (h₂.engine.registers.operands.setAll l) = f.trim u)
    (hr : ∀ r ∈ f.reads u, Covered ws r) (ht : ∀ r ∈ f.targets u, Free r)
    (hm : f = .invert → h₁.element u.bLength u.b ≠ 0)
    (hQ : ∀ (e : Engine) x k₁ k₂ g₁ g₂, e.memory = h₁.engine.memory →
      f.trim e.registers.operands = f.trim u → e.effect f = .ok x → x.Form f u →
      Twins a b (x.stretches ++ ws) k₁ k₂ →
      g₁.operands = h₁.engine.registers.operands.setAll l →
      g₂.operands = h₂.engine.registers.operands.setAll l →
      k₁.engine.registers = x.onRegisters g₁ → k₂.engine.registers = x.onRegisters g₂ →
      Q (.ok ()) k₁ k₂) :
    (invoke l f).Lockstep (Abreast a b) (Refused a) h₁ h₂ Q := by
  induction l generalizing h₁ h₂ with
  | nil => exact lockstep_start hT hu₁ hu₂ hr ht hm hQ
  | cons rn l ih =>
    obtain ⟨ho, hn⟩ := hl rn List.mem_cons_self
    have e₁ := operands_setRegister (h := h₁) ho hn
    have e₂ := operands_setRegister (h := h₂) ho hn
    refine .inl ⟨(), ?_, ?_, ?_⟩
    · rw [answer_operand h₁ ho]
    · rw [answer_operand h₂ ho]
    · rw [answer_operand h₁ ho, answer_operand h₂ ho]
      refine ih (hT.setRegister _ _) (fun rn' h => hl rn' (List.mem_cons_of_mem _ h)) ?_ ?_ hm ?_
      · rw [e₁]
        exact hu₁
      · rw [e₂]
        exact hu₂
      · rw [e₁, e₂]
        exact hQ

end

end Program
end CurveEngine
