import CurveEngine.Proofs.Latency

/-!
# How long a function runs

The engine does not count time, it counts looks at the function register: a function runs for so many
of them as the latency is.  Between them may lie anything.

* `Step.polls`, `Step.starts`, `Step.resets`   what a step has to do with a running function;
* `Sound`            the run flag is never stored, and a function never runs longer than the latency;
                     `Sound.step`, every step keeps it, one that is refused too;
* `step_polls`, `start_of_step`, `step_quiet`   what the steps of each kind do to a running function;
* `quiet_run`        a run that starts and resets nothing;
* `Runs`, `Rests`    what an engine shows after a function was started, or after a reset;
* `busy_protocol`    what is seen of a running function in any run of steps.
-/

namespace CurveEngine

namespace Engine

/-! ## Kinds of steps -/

namespace Step

/-- the step looks at the function register -/
def polls : Step → Bool
  | .access (.readRegister r) => decide (r = .function)
  | .access .isBusy => true
  | _ => false

/-- the step starts a function -/
def starts : Step → Bool
  | .access (.writeRegister r v) => decide (r = .function) && Opcode.starts v
  | .run _ _ => true
  | _ => false

def resets : Step → Bool
  | .init => true
  | _ => false

end Step

/-- the run flag in an answer -/
def Answer.running : Answer → Bool
  | .access (.word v) => Opcode.starts v
  | .access (.busy b) => b
  | _ => false

end Engine

theorem Effect.Form.function {f : Opcode} {o : Operands} {x : Effect} (h : x.Form f o)
    (g : RegisterFile) : (x.onRegisters g).function = g.function := by
  cases f with
  | multiply | add | subtract | modulo | invert | compare =>
    obtain ⟨v, rfl⟩ := h
    rfl
  | copy =>
    obtain ⟨ws, -, rfl⟩ := h
    rfl
  | pointAdd | pointMul =>
    obtain ⟨v, -, rfl⟩ | ⟨a, b, rfl⟩ := h
    · rfl
    · rfl

namespace Engine

variable {e e' : Engine} {L : Nat}

/-! ## What is always so -/

/-- the run flag is not in the stored function word, and no function runs longer than the latency -/
structure Sound (L : Nat) (e : Engine) : Prop where
  latency : e.latency = L
  stopped : Opcode.starts e.registers.function = false
  busy : e.busy ≤ L

theorem starts_zero : Opcode.starts 0 = false := rfl

theorem sound_new (L : Nat) : Sound L (new L) := ⟨rfl, starts_zero, Nat.zero_le L⟩

theorem Sound.update (h : Sound L e) (m : Memory) {g : RegisterFile}
    (hg : Opcode.starts g.function = false) : Sound L (e.update m g) :=
  ⟨h.latency, hg, h.busy⟩

theorem Sound.tick (h : Sound L e) : Sound L e.tick := by
  obtain ⟨-, hg, hl, -, -⟩ := e.tick_frame
  refine ⟨hl.trans h.latency, ?_, ?_⟩
  · rw [hg]
    exact h.stopped
  · rw [busy_tick]
    exact (Nat.sub_le _ _).trans h.busy

theorem Sound.launch (h : Sound L e) (v : Word) (f : Opcode) : Sound L (e.launch v f).1 := by
  have ha : Sound L (e.accept v) := ⟨h.latency, e.starts_accept v, h.busy⟩
  have hx := (e.accept v).execute_eq f
  cases he : (e.accept v).effect f with
  | error c =>
    rw [he] at hx
    rw [launch_of_error hx]
    exact ha
  | ok x =>
    rw [he] at hx
    rw [launch_of_ok hx]
    refine ⟨h.latency, ?_, h.latency.le⟩
    show Opcode.starts (x.onRegisters (e.accept v).registers).function = false
    rw [(effect_form he).function]
    exact ha.stopped

theorem Sound.start (h : Sound L e) (v : Word) : Sound L (e.start v).1 := by
  unfold Engine.start
  split
  · exact h
  split
  · exact h
  split
  · exact h
  · exact h.launch v _

theorem Sound.writeRegister (h : Sound L e) (r : Register) (v : Word) :
    Sound L (e.writeRegister r v).1 := by
  by_cases hs : r = .function ∧ Opcode.starts v = true
  · obtain ⟨rfl, hv⟩ := hs
    rw [Engine.writeRegister, if_neg (by decide), if_pos ⟨rfl, hv⟩]
    exact h.start v
  · rw [writeRegister_of_not_starts hs]
    cases r.isStatus with
    | true => exact h
    | false =>
      refine h.update e.memory ?_
      show Opcode.starts ((e.registers.set r v).get .function) = false
      rw [RegisterFile.get_set]
      split
      · rename_i hr
        exact Bool.eq_false_iff.mpr fun hv => hs ⟨hr, hv⟩
      · exact h.stopped

theorem exists_setUp (e : Engine) (u : Setup) :
    ∃ g, e.setUp u = e.update e.memory g ∧ g.function = e.registers.function := by
  obtain ⟨a, b, c, d⟩ := u
  obtain _ | ⟨a, _ | _⟩ := a <;> obtain _ | ⟨b, _ | _⟩ := b <;> cases c <;> cases d <;>
    exact ⟨_, rfl, rfl⟩

theorem Sound.access (h : Sound L e) (a : Bus.Access) : Sound L (Bus.access e a).1 := by
  cases a with
  | readRegister r =>
    show Sound L (e.readRegister r).2
    by_cases hr : r = .function
    · subst hr
      exact h.tick
    · rw [readRegister_of_ne hr]
      exact h
  | writeRegister r v => exact h.writeRegister r v
  | readMemory o n => exact h
  | writeMemory o ws =>
    rw [Bus.access]
    cases hw : Bus.writeMemory e o ws with
    | error f => exact h
    | ok e' =>
      obtain ⟨-, rfl⟩ := of_writeMemory hw
      exact h.update _ h.stopped
  | isBusy =>
    show Sound L (Bus.isBusy e).2
    rw [isBusy_eq h.stopped]
    exact h.tick

/-- **every step keeps it**, a step that is refused too -/
theorem Sound.step (h : Sound L e) (s : Step) : Sound L (e.step s).1 := by
  cases s with
  | access a => exact h.access a
  | init => exact ⟨h.latency, starts_zero, Nat.zero_le L⟩
  | disable => exact ⟨h.latency, h.stopped, h.busy⟩
  | run f u =>
    obtain ⟨g, hu, hg⟩ := e.exists_setUp u
    show Sound L ((e.setUp u).writeRegister .function (f.code ||| Opcode.run)).1
    rw [hu]
    refine (h.update e.memory ?_).writeRegister _ _
    rw [hg]
    exact h.stopped

theorem sound_of (h : Sound L e) (steps : List Step) : Sound L (Transcript.of step e steps).final := by
  induction steps generalizing e with
  | nil => exact h
  | cons s steps ih =>
    have hk := h.step s
    rcases hs : e.step s with ⟨e', f | a⟩
    · rw [Transcript.of_fault hs]
      rwa [hs] at hk
    · rw [Transcript.of_answer hs]
      rw [hs] at hk
      exact ih hk

/-! ## What a step does to a running function -/

theorem step_polls (h : Sound L e) {s : Step} (hs : s.polls = true) :
    ∃ a, e.step s = (e.tick, .ok a) ∧ a.running = decide (e.busy ≠ 0) := by
  have hb := isBusy_eq h.stopped
  cases s with
  | access a =>
    cases a with
    | readRegister r =>
      obtain rfl : r = .function := of_decide_eq_true hs
      exact ⟨_, rfl, congrArg Prod.fst hb⟩
    | isBusy =>
      refine ⟨.access (.busy (decide (e.busy ≠ 0))), ?_, rfl⟩
      show ((Bus.access e .isBusy).1, Answer.access <$> (Bus.access e .isBusy).2) = _
      rw [Bus.access, hb]
      rfl
    | writeRegister | readMemory | writeMemory => cases hs
  | init | disable | run => cases hs

/-- a step that starts a function sets up the operands first -/
theorem step_starts {s : Step} (hs : s.starts = true) : ∃ g v, ∃ k : Unit → Answer,
    e.step s = (((e.update e.memory g).start v).1, k <$> ((e.update e.memory g).start v).2) := by
  cases s with
  | access a =>
    cases a with
    | writeRegister r v =>
      obtain ⟨hr, hv⟩ := Bool.and_eq_true_iff.mp hs
      obtain rfl : r = .function := of_decide_eq_true hr
      have hw : e.writeRegister .function v = e.start v := by
        rw [Engine.writeRegister, if_neg (by decide), if_pos ⟨rfl, hv⟩]
      refine ⟨e.registers, v, fun _ => .access .done, ?_⟩
      show ((e.writeRegister .function v).1, Answer.access <$>
        ((fun _ => Bus.Answer.done) <$> (e.writeRegister .function v).2)) = _
      rw [hw, ← comp_map]
      rfl
    | readRegister | isBusy | readMemory | writeMemory => cases hs
  | run f u =>
    obtain ⟨g, hu, -⟩ := e.exists_setUp u
    refine ⟨g, f.code ||| Opcode.run, fun _ => ?_, ?_⟩
    · exact ((e.update e.memory g).start (f.code ||| Opcode.run)).1.outcome
    · show (((e.setUp u).writeRegister .function (f.code ||| Opcode.run)).1,
        (fun _ => ((e.setUp u).writeRegister .function (f.code ||| Opcode.run)).1.outcome) <$>
          ((e.setUp u).writeRegister .function (f.code ||| Opcode.run)).2) = _
      rw [hu, Host.writeRegister_start]
  | init | disable => cases hs

theorem start_of_step {s : Step} (hs : s.starts = true) {a : Answer} (h : e.step s = (e', .ok a)) :
    e'.busy = e.latency ∧ e'.interrupts = e.interrupts + if e.latency = 0 then 1 else 0 := by
  obtain ⟨g, v, k, hk⟩ := e.step_starts hs
  rw [hk] at h
  rcases hv : (e.update e.memory g).start v with ⟨e₁, f | u⟩
  · rw [hv] at h
    cases h
  · rw [hv] at h
    cases h
    obtain ⟨-, hb, -, -, hi⟩ := start_frame hv
    exact ⟨hb, hi⟩

theorem step_of_running {s : Step} (hs : s.starts = true) (hp : e.powered = true)
    (hb : e.busy ≠ 0) : (e.step s).2 = .error .busy := by
  obtain ⟨g, v, k, hk⟩ := e.step_starts hs
  rw [hk, start_of_running (e := e.update e.memory g) hp hb]
  rfl

/-- a step of any other kind but a reset has nothing to do with a running function, or with what the
functions before told about their results -/
theorem step_aside {s : Step} (hp : s.polls = false) (hs : s.starts = false)
    (hr : s.resets = false) :
    (e.step s).1.busy = e.busy ∧ (e.step s).1.interrupts = e.interrupts ∧
      ∀ r, r.isStatus = true → (e.step s).1.registers.get r = e.registers.get r := by
  cases s with
  | access a =>
    cases a with
    | readRegister q =>
      have hq : q ≠ .function := of_decide_eq_false hp
      have he : (e.step (.access (.readRegister q))).1 = e := by
        show (e.readRegister q).2 = e
        rw [readRegister_of_ne hq]
      rw [he]
      exact ⟨rfl, rfl, fun _ _ => rfl⟩
    | writeRegister q v =>
      have hq : ¬ (q = .function ∧ Opcode.starts v = true) := fun h =>
        Bool.eq_false_iff.mp hs (Bool.and_eq_true_iff.mpr ⟨decide_eq_true h.1, h.2⟩)
      have he : (e.step (.access (.writeRegister q v))).1 =
          if q.isStatus then e else e.setRegister q v := by
        show (e.writeRegister q v).1 = _
        rw [writeRegister_of_not_starts hq]
      rw [he]
      by_cases hqs : q.isStatus = true
      · rw [if_pos hqs]
        exact ⟨rfl, rfl, fun _ _ => rfl⟩
      · rw [if_neg hqs]
        refine ⟨rfl, rfl, fun r hst => RegisterFile.get_set_of_ne _ ?_ v⟩
        rintro rfl
        exact hqs hst
    | readMemory o n => exact ⟨rfl, rfl, fun _ _ => rfl⟩
    | writeMemory o ws =>
      have he : ∃ m, (e.step (.access (.writeMemory o ws))).1 = { e with memory := m } := by
        show ∃ m, (Bus.access e (.writeMemory o ws)).1 = _
        rw [Bus.access]
        cases hw : Bus.writeMemory e o ws with
        | error f => exact ⟨e.memory, rfl⟩
        | ok e' =>
          obtain ⟨-, rfl⟩ := of_writeMemory hw
          exact ⟨_, rfl⟩
      obtain ⟨m, he⟩ := he
      rw [he]
      exact ⟨rfl, rfl, fun _ _ => rfl⟩
    | isBusy => cases hp
  | init => cases hr
  | disable => exact ⟨rfl, rfl, fun _ _ => rfl⟩
  | run => cases hs

/-- the status registers belong to functions and resets -/
theorem step_status (h : Sound L e) {s : Step} (hs : s.starts = false) (hr : s.resets = false)
    {r : Register} (hst : r.isStatus = true) :
    (e.step s).1.registers.get r = e.registers.get r := by
  cases hp : s.polls with
  | true =>
    obtain ⟨a, ha, -⟩ := step_polls h hp
    rw [ha, e.tick_frame.2.1]
  | false => exact (step_aside hp hs hr).2.2 r hst

/-! ## Runs -/

/-- no function is started and nothing is reset -/
def Quiet (steps : List Step) : Prop := ∀ s ∈ steps, s.starts = false ∧ s.resets = false

theorem interrupts_tick (e : Engine) :
    e.tick.interrupts = e.interrupts + if e.busy = 1 then 1 else 0 := by
  unfold tick
  by_cases hb : e.busy = 0
  · rw [if_pos hb, if_neg (by omega), Nat.add_zero]
  · rw [if_neg hb]

/-- **steps that start and reset nothing** bring a running function as many polls closer to its end
as there are polls among them; the interrupt comes with the last one it needs -/
theorem quiet_run (h : Sound L e) {steps : List Step} (hq : Quiet steps)
    (hf : (Transcript.of step e steps).fault = none) :
    (Transcript.of step e steps).final.busy = e.busy - steps.countP Step.polls ∧
      (Transcript.of step e steps).final.interrupts =
        e.interrupts + if 0 < e.busy ∧ e.busy ≤ steps.countP Step.polls then 1 else 0 := by
  induction steps generalizing e with
  | nil =>
    refine ⟨rfl, ?_⟩
    rw [if_neg (fun h => absurd h.2 (Nat.not_le.mpr h.1))]
    rfl
  | cons s steps ih =>
    obtain ⟨hs, hq⟩ := List.forall_mem_cons.mp hq
    have hk := h.step s
    rcases he : e.step s with ⟨e', f | a⟩
    · rw [Transcript.of_fault he] at hf
      cases hf
    rw [Transcript.of_answer he] at hf ⊢
    rw [he] at hk
    obtain ⟨hb, hi⟩ := ih hk hq hf
    rw [hb, hi, List.countP_cons]
    cases hp : s.polls with
    | true =>
      obtain ⟨b, ht, -⟩ := step_polls h hp
      obtain rfl : e.tick = e' := by
        rw [ht] at he
        exact congrArg Prod.fst he
      rw [busy_tick, interrupts_tick, if_pos rfl]
      refine ⟨by omega, ?_⟩
      -- the last poll is this one, or one of those to come
      by_cases h₁ : e.busy = 1
      · rw [if_pos h₁, if_neg (by omega), if_pos (by omega)]
      · rw [if_neg h₁, Nat.add_zero]
        congr 1
        exact if_congr (by omega) rfl rfl
    | false =>
      obtain ⟨hb', hi', -⟩ := step_aside (e := e) hp hs.1 hs.2
      rw [he] at hb' hi'
      rw [hb', hi', if_neg Bool.false_ne_true]
      exact ⟨rfl, rfl⟩

/-- what an engine shows that was polled `n` times since a function was started, as long as no other
was started and nothing was reset; `before` is the engine before the start -/
structure Runs (L n : Nat) (before e : Engine) : Prop where
  /-- polls report it for the latency -/
  polls : ∀ s, s.polls = true → ∃ a, (e.step s).2 = .ok a ∧ a.running = decide (n < L)
  /-- the interrupt came with the last of these polls, or with the start if there are none -/
  interrupts : e.interrupts = before.interrupts + if L ≤ n then 1 else 0
  /-- no other function can be started before -/
  starts : n < L → e.powered = true → ∀ s, s.starts = true → (e.step s).2 = .error .busy

/-- what an engine shows while no function was started since a reset; `before` is the engine before
the reset -/
structure Rests (before e : Engine) : Prop where
  polls : ∀ s, s.polls = true → ∃ a, (e.step s).2 = .ok a ∧ a.running = false
  interrupts : e.interrupts = before.interrupts

theorem runs_of_quiet (h : Sound L e) {s : Step} (hs : s.starts = true) {steps : List Step}
    (hq : Quiet steps) (hf : (Transcript.of step e (s :: steps)).fault = none) :
    Runs L (steps.countP Step.polls) e (Transcript.of step e (s :: steps)).final := by
  have hk := h.step s
  rcases he : e.step s with ⟨e', f | a⟩
  · rw [Transcript.of_fault he] at hf
    cases hf
  rw [Transcript.of_answer he] at hf ⊢
  rw [he] at hk
  obtain ⟨hb', hi'⟩ := start_of_step hs he
  rw [h.latency] at hb' hi'
  obtain ⟨hb, hi⟩ := quiet_run hk hq hf
  rw [hb'] at hb hi
  have hn := sound_of hk steps
  refine ⟨fun r hr => ?_, ?_, fun hl hp r hr => step_of_running hr hp ?_⟩
  · obtain ⟨b, ht, hb₁⟩ := step_polls hn hr
    refine ⟨b, congrArg Prod.snd ht, hb₁.trans ?_⟩
    rw [hb]
    exact decide_eq_decide.mpr (by omega)
  · rw [hi, hi']
    split_ifs <;> omega
  · rw [hb]
    omega

theorem rests_of_quiet (h : Sound L e) (hb₀ : e.busy = 0) {steps : List Step} (hq : Quiet steps)
    (hf : (Transcript.of step e steps).fault = none) :
    Rests e (Transcript.of step e steps).final := by
  obtain ⟨hb, hi⟩ := quiet_run h hq hf
  rw [hb₀] at hb hi
  refine ⟨fun r hr => ?_, ?_⟩
  · obtain ⟨b, ht, hb₁⟩ := step_polls (sound_of h steps) hr
    refine ⟨b, congrArg Prod.snd ht, hb₁.trans ?_⟩
    rw [hb, Nat.zero_sub]
    rfl
  · rw [hi, if_neg (by omega)]
    rfl

/-- **the busy protocol**: in any run of steps without a fault the run flag is never stored, and no
function runs for longer than the latency; a function that was started runs for as many polls as the
latency is, whatever happens between them but a reset, raises one interrupt with the last of them, and
lets no other start before; before the first function and after a reset none runs and no interrupt
comes; and the status registers are written by functions and resets only -/
theorem busy_protocol {L : Nat} {steps : List Step} (hf : (bench L steps).fault = none) :
    let e := (bench L steps).final
    Opcode.starts e.registers.function = false ∧ e.busy ≤ L ∧
      (∀ before s mid, steps = before ++ s :: mid → s.starts = true → Quiet mid →
        Runs L (mid.countP Step.polls) (bench L before).final e) ∧
      (Quiet steps → Rests (new L) e) ∧
      (∀ before mid, steps = before ++ .init :: mid → Quiet mid →
        Rests (bench L before).final e) ∧
      ∀ s r, s.starts = false → s.resets = false → r.isStatus = true →
        (e.step s).1.registers.get r = e.registers.get r := by
  intro e
  have hn : Sound L e := sound_of (sound_new L) steps
  refine ⟨hn.stopped, hn.busy, ?_, ?_, ?_, fun s r hs hr hst => step_status hn hs hr hst⟩
  · rintro before s mid rfl hs hq
    obtain ⟨-, hf', he⟩ := Transcript.of_append hf
    show Runs L _ _ (Transcript.of step (new L) (before ++ s :: mid)).final
    rw [he]
    exact runs_of_quiet (sound_of (sound_new L) before) hs hq hf'
  · intro hq
    exact rests_of_quiet (sound_new L) rfl hq hf
  · rintro before mid rfl hq
    obtain ⟨-, hf', he⟩ := Transcript.of_append hf
    show Rests _ (Transcript.of step (new L) (before ++ .init :: mid)).final
    rw [he]
    have hi := (sound_of (sound_new L) before).step .init
    have hr := rests_of_quiet hi rfl hq hf'
    exact ⟨hr.polls, hr.interrupts⟩

/-- a comparison, looked at twice, with the power switched off between -/
def looked : List Step :=
  [.access (.readRegister .function), .disable, .access (.writeRegister .function 0x7fff),
    .access .isBusy]

/-- its interrupt has come, and it shows no longer -/
theorem busy_protocol_looked :
    (bench 2 (.init :: .run .compare ⟨none, none, none, none⟩ :: looked)).fault = none ∧
      Runs 2 2 (bench 2 [.init]).final
        (bench 2 (.init :: .run .compare ⟨none, none, none, none⟩ :: looked)).final := by
  have hf : (bench 2 (.init :: .run .compare ⟨none, none, none, none⟩ :: looked)).fault = none :=
    rfl
  have hq : Quiet looked := by
    unfold Quiet looked
    decide
  obtain ⟨-, -, hr, -⟩ := busy_protocol hf
  exact ⟨hf, hr [.init] _ looked rfl rfl hq⟩

end Engine
end CurveEngine
