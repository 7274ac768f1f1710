import CurveEngine.Proofs.Checks
import CurveEngine.Proofs.TwinPrograms

/-!
# Operations do not influence each other

* `Session.Alike`       the same curve, settings, random entries to come and constants in memory;
* `Answer.observed`     what an answer shows besides the counts that go on over a session;
* `Session.Resembles`   an operation answers the same in two sessions, and draws as much;
* `run_meets`           runs of an operation in alike sessions go in step;
* `Session.Follows`     what other operations, and accesses that start nothing, leave as it was.

Scratchpad, variables and registers are not part of `Alike`: an operation reads none of them before
it wrote them itself.
-/

namespace CurveEngine

open Program
open Host (Abreast Twins Refused)

namespace Session

/-- two sessions that an operation cannot tell apart -/
structure Alike (s t : Session) : Prop where
  curve : s.curve = t.curve
  config : s.config = t.config
  latency : s.engine.latency = t.engine.latency
  source : s.source.drop s.drawn = t.source.drop t.drawn
  constants : ∀ i, i < Layout.scratchpad → s.engine.memory.word i = t.engine.memory.word i

theorem Alike.refl (s : Session) : s.Alike s := ⟨rfl, rfl, rfl, rfl, fun _ _ => rfl⟩

theorem Alike.settings {s t : Session} (h : s.Alike t) : s.settings = t.settings := by
  unfold Session.settings
  rw [h.curve, h.config, h.source]

/-- everything in an answer but the counts of functions and random entries since the beginning; the
trace shows the operands that each function uses -/
def Answer.observed (a : Answer) :
    Outcome × List Bytes × Option Effort × List Event × List String :=
  (a.outcome, a.buffers, a.effort, a.log, a.trace.map Invocation.text)

/-- run like this, the operation gives the same answer in both sessions, and uses up as many random
entries -/
def Resembles (s t : Session) (op : Operation) (d : Drive) : Prop :=
  ∃ x y, (s.operate op d).2 = .ok x ∧ (t.operate op d).2 = .ok y ∧ x.observed = y.observed ∧
    (s.operate op d).1.drawn + t.drawn = (t.operate op d).1.drawn + s.drawn

variable {s t : Session}

/-! ## Runs in step -/

theorem abreast_new (h : s.Alike t) (hb : s.engine.busy = t.engine.busy) (bufs : List Bytes) :
    Abreast (.new s.engine s.drawn bufs) (.new t.engine t.drawn bufs) (.new s.engine s.drawn bufs)
      (.new t.engine t.drawn bufs) where
  latency := h.latency
  pace := rfl
  busy := hb
  polls := rfl
  log := rfl
  trace := rfl
  drawn := Nat.add_comm _ _
  interrupts := Nat.add_comm _ _
  listening := rfl
  constants _ _ := rfl
  outputs := rfl
  shape := rfl

/-- **runs of an operation in alike sessions go in step**, busy or not -/
theorem run_meets (hs : s.Coherent) (ht : t.Coherent) (h : s.Alike t)
    (hb : s.engine.busy = t.engine.busy) (op : Operation) (d : Drive) :
    Progress.Meet
      (fun _ => Abreast (.new s.engine s.drawn op.buffers) (.new t.engine t.drawn op.buffers))
      (Refused (.new s.engine s.drawn op.buffers))
      (fun _ h₁ h₂ =>
        Abreast (.new s.engine s.drawn op.buffers) (.new t.engine t.drawn op.buffers) h₁ h₂ ∧
          h₁.engine.busy = s.engine.busy)
      (s.run op d) (t.run op d) := by
  have hA := abreast_new h hb op.buffers
  have hE := (Host.steady_abreast _ _).enter hA
  unfold run
  rw [← h.settings]
  refine Lockstep.drive (Host.steady_abreast _ _) d hA ?_
  cases hc : s.curve with
  | none =>
    rw [program_of_not_enabled hc]
    exact .inl ⟨(), rfl, rfl, { hE with log := congrArg (·.push .noCurve) hE.log }, rfl⟩
  | some c =>
    have ps : s.engine.powered = true := by
      rw [hs, hc]
      rfl
    have pt : t.engine.powered = true := by
      rw [ht, ← h.curve, hc]
      rfl
    have hT : Twins _ _ [Window.constants] _ _ :=
      { hE with
        powered := ⟨ps, pt⟩
        calm := rfl
        untouched := fun _ => rfl
        agree := List.forall_mem_singleton.mpr fun i _ hi =>
          h.constants i (by rwa [Window.constants, Nat.zero_add] at hi) }
    refine (Operation.keeps_program (s := s.settings) hc op rfl _ _ hT).imp fun r h₁ h₂ hQ => ?_
    cases r with
    | ok x => exact ⟨hQ.1.toAbreast, hQ.1.calm⟩
    | error e => exact ⟨hQ.toAbreast, hQ.calm⟩

theorem effort_of_abreast {a b h₁ h₂ : Host} (hA : Abreast a b h₁ h₂) (d : Drive) :
    d.effort h₁ = d.effort h₂ := by
  cases d with
  | resume n => exact congrArg (fun n => some (Effort.resumes n)) hA.polls
  | complete => rfl
  | executor n =>
    show some (Effort.polls h₁.polls h₁.wakes) = some (.polls h₂.polls h₂.wakes)
    rw [hA.polls, hA.wakes]

/-- an operation answers in alike idle sessions, and answers the same -/
theorem resembles_of_alike (hs : s.Idle) (ht : t.Idle) (h : s.Alike t) (op : Operation)
    (d : Drive) : s.Resembles t op d := by
  have hm := run_meets hs.coherent ht.coherent h (hs.idle.trans ht.idle.symm) op d
  unfold Resembles operate
  generalize s.run op d = x at hm ⊢
  generalize t.run op d = y at hm ⊢
  obtain ⟨p, h₁⟩ := x
  obtain ⟨q, h₂⟩ := y
  obtain ⟨hpq, hm⟩ := hm
  obtain rfl : p = q := hpq
  have hA : Abreast (.new s.engine s.drawn op.buffers) (.new t.engine t.drawn op.buffers) h₁ h₂ ∧
      ∃ o, outcome p = .ok o := by
    cases p with
    | ready r =>
      cases r with
      | ok out => exact ⟨hm.1, _, rfl⟩
      | error e => exact ⟨hm.1, _, rfl⟩
    | pending rest => exact ⟨hm, _, rfl⟩
    | fault f => exact absurd hs.idle hm.2.1
  obtain ⟨hA, o, ho⟩ := hA
  have he := effort_of_abreast hA d
  simp only [ho]
  refine ⟨_, _, rfl, rfl, ?_, hA.drawn⟩
  unfold Answer.observed
  simp only [he, hA.log, hA.trace, hA.outputs]

/-! ## What happens between two operations -/

/-- steps that leave the curve and the constants: all operations, run in any way and perhaps dropped,
and accesses that start no function and write no constant -/
def Step.Harmless : Step → Prop
  | .operate _ _ | .curve | .peek _ _ => True
  | .poke offset _ | .access (.writeMemory offset _) => Layout.scratchpad ≤ offset
  | .access (.writeRegister r v) => ¬ (r = .function ∧ Opcode.starts v = true)
  | .access _ => True
  | .enable _ | .disable => False

/-- what later operations find as it was -/
structure Follows (s s' : Session) : Prop where
  curve : s'.curve = s.curve
  config : s'.config = s.config
  latency : s'.engine.latency = s.engine.latency
  source : s'.source = s.source
  constants : ∀ i, i < Layout.scratchpad → s'.engine.memory.word i = s.engine.memory.word i

namespace Follows

variable {s' s'' : Session}

theorem refl (s : Session) : s.Follows s := ⟨rfl, rfl, rfl, rfl, fun _ _ => rfl⟩

theorem trans (h : s.Follows s') (h' : s'.Follows s'') : s.Follows s'' :=
  ⟨h'.curve.trans h.curve, h'.config.trans h.config, h'.latency.trans h.latency,
    h'.source.trans h.source, fun i hi => (h'.constants i hi).trans (h.constants i hi)⟩

/-- a session that only changed its engine -/
theorem of_engine {e : Engine} (hl : e.latency = s.engine.latency)
    (hc : ∀ i, i < Layout.scratchpad → e.memory.word i = s.engine.memory.word i) :
    s.Follows { s with engine := e } := ⟨rfl, rfl, hl, rfl, hc⟩

theorem of_write {offset : Nat} (ho : Layout.scratchpad ≤ offset) {ws : List Word} {e : Engine}
    (h : Bus.writeMemory s.engine offset ws = .ok e) : s.Follows { s with engine := e } := by
  obtain ⟨-, rfl⟩ := Engine.of_writeMemory h
  exact of_engine rfl fun i hi => Memory.word_overwrite_of_lt (by omega)

theorem of_tick : s.Follows { s with engine := s.engine.tick } := by
  obtain ⟨hm, -, hl, -, -⟩ := s.engine.tick_frame
  exact of_engine hl fun _ _ => by rw [hm]

/-- the session after an operation that was no fault -/
theorem of_operate (hs : s.Coherent) {op : Operation} {d : Drive} {x : Answer}
    (h : s.operate op d = (s', .ok x)) : s.Follows s' := by
  have hm := run_meets hs hs (.refl s) rfl op d
  unfold operate at h
  generalize s.run op d = y at hm h
  obtain ⟨p, k⟩ := y
  obtain ⟨-, hm⟩ := hm
  obtain ⟨rfl, hx⟩ := Prod.mk.inj h
  cases p with
  | ready r => exact ⟨rfl, rfl, hm.1.pace, rfl, hm.1.constants⟩
  | pending rest => exact ⟨rfl, rfl, hm.pace, rfl, hm.constants⟩
  | fault f => cases hx

theorem of_step (hs : s.Coherent) {i : Step} (hi : i.Harmless) {x : Answer}
    (h : s.step i = (s', .ok x)) : s.Follows s' := by
  cases i with
  | enable | disable => exact absurd hi id
  | operate call d => exact of_operate hs h
  | curve =>
    cases h
    exact refl s
  | peek offset n =>
    obtain ⟨rfl, -⟩ := Prod.mk.inj h
    exact refl s
  | poke offset ws =>
    unfold step at h
    cases hw : Bus.writeMemory s.engine offset ws with
    | error f => simp [hw] at h
    | ok e =>
      simp only [hw] at h
      obtain ⟨rfl, -⟩ := Prod.mk.inj h
      exact of_write hi hw
  | access a =>
    obtain ⟨rfl, hx⟩ := Prod.mk.inj h
    cases a with
    | readRegister r =>
      cases r with
      | function => exact of_tick
      | _ => exact refl s
    | writeRegister r v =>
      show s.Follows { s with engine := (s.engine.writeRegister r v).1 }
      unfold Engine.writeRegister
      rw [if_neg hi]
      split
      · exact refl s
      · exact of_engine rfl fun _ _ => rfl
    | readMemory offset n => exact refl s
    | writeMemory offset ws =>
      show s.Follows { s with engine := (Bus.access s.engine (.writeMemory offset ws)).1 }
      cases hw : Bus.writeMemory s.engine offset ws with
      | error f =>
        rw [Bus.access, hw]
        exact refl s
      | ok e =>
        rw [Bus.access, hw]
        exact of_write hi hw
    | isBusy => exact of_tick

theorem of_steps (hs : s.Coherent) {steps : List Step} (hi : ∀ i ∈ steps, i.Harmless)
    (h : (Transcript.of step s steps).fault = none) :
    s.Follows (Transcript.of step s steps).final ∧ (Transcript.of step s steps).final.Coherent := by
  induction steps generalizing s with
  | nil => exact ⟨refl s, hs⟩
  | cons i is ih =>
    obtain ⟨hi, his⟩ := List.forall_mem_cons.mp hi
    rcases hx : s.step i with ⟨s', f | x⟩
    · rw [Transcript.of_fault hx] at h
      cases h
    · rw [Transcript.of_answer hx] at h ⊢
      have hc : s'.Coherent := by
        have := coherent_step hs i
        rwa [hx] at this
      obtain ⟨hf, hc⟩ := ih hc his h
      exact ⟨(of_step hs hi hx).trans hf, hc⟩

end Follows

/-- **operations do not influence each other**: in two idle sessions that agree on the curve, on the
settings, on the random entries to come and on the words in front of the scratchpad, every operation
answers the same; in particular it answers after any harmless steps, once nothing runs any more, as
it would have answered instead of them -/
theorem operate_isolated (hs : s.Idle) (ht : t.Idle) (h : s.Alike t) :
    (∀ op d, s.Resembles t op d) ∧
      ∀ steps : List Step, (∀ i ∈ steps, i.Harmless) → (Transcript.of step s steps).fault = none →
        (Transcript.of step s steps).final.engine.busy = 0 →
        ∀ op d, (Transcript.of step s steps).final.Resembles
          { s with drawn := (Transcript.of step s steps).final.drawn } op d := by
  refine ⟨resembles_of_alike hs ht h, fun steps hi hf hb => ?_⟩
  obtain ⟨hF, hc⟩ := Follows.of_steps hs.coherent hi hf
  refine resembles_of_alike ⟨hc, hb⟩ ⟨hs.coherent, hs.idle⟩ ?_
  exact ⟨hF.curve, hF.config, hF.latency, by rw [hF.source], hF.constants⟩

/-- P-192 enabled on an engine that takes its time -/
def fresh : Session := (new 2 {} []).enable .p192

/-- the same with other words behind the constants, other registers and other counts -/
def worn : Session :=
  { fresh with
    engine := { fresh.engine with
      memory := fresh.engine.memory.overwrite Layout.scratchpad [7, 8, 9]
      registers := ⟨1, 2, 3, 4, 5, 6, 7, 8, 9, 10, 11⟩
      started := 5
      interrupts := 4 } }

/-- a validation that is given up after its first poll, and a look at the engine -/
def givenUp : List Step :=
  [.operate (.validate (List.replicate 48 1)) (.resume (some 1)), .access .isBusy]

theorem operate_isolated_worn :
    (fresh.Idle ∧ worn.Idle ∧ fresh.Alike worn) ∧ (∀ op d, fresh.Resembles worn op d) ∧
      ∀ op d, (Transcript.of step fresh givenUp).final.Resembles
        { fresh with drawn := (Transcript.of step fresh givenUp).final.drawn } op d := by
  have hf : fresh.Idle := ⟨rfl, rfl⟩
  have hw : worn.Idle := ⟨rfl, rfl⟩
  have hA : fresh.Alike worn :=
    ⟨rfl, rfl, rfl, rfl, fun i hi => (Memory.word_overwrite_of_lt (.inl hi)).symm⟩
  obtain ⟨h₁, h₂⟩ := operate_isolated hf hw hA
  exact ⟨⟨hf, hw, hA⟩, h₁, h₂ givenUp (by simp [givenUp, Step.Harmless]) (by decide +kernel)
    (by decide +kernel)⟩

end Session
end CurveEngine
