import CurveEngine.Proofs.Confinement

/-!
# Sessions that go on alike

* `Session.Matches`         two sessions that differ behind the constants, in registers and in counts
                            only, and that are busy equally long;
* `Session.Step.shows`      what an answer shows, unless it is a look at registers or memory;
* `Session.Agrees`          two steps left matching sessions, or were the same fault;
* `Matches.step`            the same step of matching sessions;
* `Session.Echoes`, `echoes_of_matches`   the same steps, any number of them.

Unlike in `Resembles`, the two sessions go on side by side for ever, with operations given up, with
memory written by others and with other curves enabled on the way.
-/

namespace CurveEngine

open Host (Abreast)

namespace Session

/-- two sessions that no operation can tell apart, now or later -/
structure Matches (s t : Session) : Prop where
  coherent : s.Coherent ∧ t.Coherent
  curve : s.curve = t.curve
  config : s.config = t.config
  latency : s.engine.latency = t.engine.latency
  source : s.source = t.source
  drawn : s.drawn = t.drawn
  busy : s.engine.busy = t.engine.busy
  constants : ∀ i, i < Layout.scratchpad → s.engine.memory.word i = t.engine.memory.word i

/-- what an answer shows, unless the step is a look at registers or memory -/
def Step.shows :
    Step → Answer → Option (Outcome × List Bytes × Option Effort × List Event × List String)
  | .peek _ _, _ | .access _, _ => none
  | _, x => some x.observed

/-- the same step of two sessions left matching ones and showed the same, or was the same fault -/
def Agrees (i : Step) : Session × Except Fault Answer → Session × Except Fault Answer → Prop
  | (s, .ok x), (t, .ok y) => s.Matches t ∧ i.shows x = i.shows y
  | (_, .error f), (_, .error g) => f = g
  | _, _ => False

/-- what the answers to some steps show -/
def observations (s : Session) (steps : List Step) :=
  List.zipWith Step.shows steps (Transcript.of step s steps).answers

/-- whatever steps follow that start no function themselves, they show the same in both sessions -/
def Echoes (s t : Session) : Prop :=
  ∀ steps : List Step, (∀ i ∈ steps, ¬ i.Direct) →
    (Transcript.of step s steps).fault = (Transcript.of step t steps).fault ∧
      s.observations steps = t.observations steps

namespace Matches

variable {s t : Session} (h : s.Matches t)
include h

theorem alike : s.Alike t :=
  ⟨h.curve, h.config, h.latency, by rw [h.source, h.drawn], h.constants⟩

/-- the same sessions with other engines -/
theorem with_engines {e e' : Engine} (hp : e.powered = s.engine.powered)
    (hp' : e'.powered = t.engine.powered) (hl : e.latency = e'.latency) (hb : e.busy = e'.busy)
    (hc : ∀ i, i < Layout.scratchpad → e.memory.word i = e'.memory.word i) :
    ({ s with engine := e } : Session).Matches { t with engine := e' } :=
  { h with
    coherent := ⟨hp.trans h.coherent.1, hp'.trans h.coherent.2⟩
    latency := hl
    busy := hb
    constants := hc }

/-- an operation is the same fault in both, or it answers the same and leaves both alike -/
theorem operate (call : Call) (d : Drive) :
    Agrees (.operate call d) (s.step (.operate call d)) (t.step (.operate call d)) := by
  have he : t.elementBytes = s.elementBytes := by
    unfold elementBytes
    rw [h.curve]
  simp only [Session.step, he]
  generalize call.operation s.elementBytes = op
  have hm := run_meets h.coherent.1 h.coherent.2 h.alike h.busy op d
  have hs := fun i hi => operate_unwritten s op d (i := i) (.inl hi)
  have ht := fun i hi => operate_unwritten t op d (i := i) (.inl hi)
  have ps := Program.powered_drive (op.program s.settings) d (.new s.engine s.drawn op.buffers)
  have pt := Program.powered_drive (op.program t.settings) d (.new t.engine t.drawn op.buffers)
  unfold Session.operate at hs ht ⊢
  change (s.run op d).2.engine.powered = s.engine.powered at ps
  change (t.run op d).2.engine.powered = t.engine.powered at pt
  generalize s.run op d = x at hm hs ps ⊢
  generalize t.run op d = y at hm ht pt ⊢
  obtain ⟨p, h₁⟩ := x
  obtain ⟨q, h₂⟩ := y
  obtain ⟨hpq, hm⟩ := hm
  obtain rfl : p = q := hpq
  have key : Abreast (.new s.engine s.drawn op.buffers) (.new t.engine t.drawn op.buffers) h₁ h₂ →
      (s.after h₁).Matches (t.after h₂) ∧ d.effort h₁ = d.effort h₂ ∧ h₁.log = h₂.log ∧
        h₁.trace.toList.map Invocation.text = h₂.trace.toList.map Invocation.text ∧
          h₁.outputs = h₂.outputs := by
    intro hA
    have hd : h₁.drawn + t.drawn = h₂.drawn + s.drawn := hA.drawn
    rw [h.drawn] at hd
    exact ⟨⟨⟨ps.trans h.coherent.1, pt.trans h.coherent.2⟩, h.curve, h.config, hA.latency,
      h.source, Nat.add_right_cancel hd, hA.busy, fun i hi =>
        (hs i hi).trans ((h.constants i hi).trans (ht i hi).symm)⟩, effort_of_abreast hA d,
      hA.log, hA.trace, hA.outputs⟩
  cases p with
  | ready r =>
    obtain ⟨hM, he, hl, hx, ho⟩ := key hm.1
    cases r with
    | ok out => exact ⟨hM, by simp only [Step.shows, Answer.observed, he, hl, hx, ho]⟩
    | error e => exact ⟨hM, by simp only [Step.shows, Answer.observed, he, hl, hx, ho]⟩
  | pending rest =>
    obtain ⟨hM, he, hl, hx, ho⟩ := key hm
    exact ⟨hM, by simp only [Step.shows, Answer.observed, he, hl, hx, ho]⟩
  | fault f => rfl

theorem enable (c : NamedCurve) : (s.enable c).Matches (t.enable c) :=
  { h with
    coherent := ⟨rfl, rfl⟩
    curve := rfl
    busy := rfl
    constants := fun _ _ => rfl }

theorem disable : s.disable.Matches t.disable := by
  have hc := h.curve
  unfold Session.disable
  cases ht : t.curve with
  | none =>
    rw [ht] at hc
    rw [hc]
    exact h
  | some c =>
    rw [ht] at hc
    rw [hc]
    exact { h with
      coherent := ⟨rfl, rfl⟩
      curve := rfl }

theorem tick : ({ s with engine := s.engine.tick } : Session).Matches
    { t with engine := t.engine.tick } := by
  obtain ⟨ms, -, ls, ps, -⟩ := s.engine.tick_frame
  obtain ⟨mt, -, lt, pt, -⟩ := t.engine.tick_frame
  refine h.with_engines ps pt (by rw [ls, lt, h.latency]) ?_ fun i hi => ?_
  · rw [Engine.busy_tick, Engine.busy_tick, h.busy]
  · rw [ms, mt]
    exact h.constants i hi

/-- the same words are written to both, or to none -/
theorem writeMemory (offset : Nat) (ws : List Word) :
    (∃ f, Bus.writeMemory s.engine offset ws = .error f ∧
      Bus.writeMemory t.engine offset ws = .error f) ∨
    ∃ e e', Bus.writeMemory s.engine offset ws = .ok e ∧
      Bus.writeMemory t.engine offset ws = .ok e' ∧
        ({ s with engine := e } : Session).Matches { t with engine := e' } := by
  have e : ∀ e : Engine, Bus.writeMemory e offset ws = (e.memory.write offset ws).map
      fun m => { e with memory := m } := fun _ => rfl
  rw [e, e]
  unfold Memory.write
  by_cases hf : Memory.Fits offset ws.length
  · rw [if_pos hf, if_pos hf]
    refine .inr ⟨_, _, rfl, rfl, h.with_engines rfl rfl h.latency h.busy fun i hi => ?_⟩
    show (s.engine.memory.overwrite offset ws).word i = (t.engine.memory.overwrite offset ws).word i
    rw [Memory.word_overwrite, Memory.word_overwrite, h.constants i hi]
  · rw [if_neg hf, if_neg hf]
    exact .inl ⟨_, rfl, rfl⟩

theorem access {a : Bus.Access} (ha : ¬ (Step.access a).Direct) :
    Agrees (.access a) (s.step (.access a)) (t.step (.access a)) := by
  cases a with
  | readRegister r =>
    cases r with
    | function => exact ⟨h.tick, rfl⟩
    | _ => exact ⟨h, rfl⟩
  | writeRegister r v =>
    have hs : Bus.writeRegister s.engine r v = _ := Engine.writeRegister_of_not_starts ha s.engine
    have ht : Bus.writeRegister t.engine r v = _ := Engine.writeRegister_of_not_starts ha t.engine
    simp only [Session.step, Bus.access, hs, ht]
    refine ⟨?_, rfl⟩
    split
    · exact h
    · exact h.with_engines rfl rfl h.latency h.busy h.constants
  | readMemory offset n =>
    have e : ∀ s : Session, s.step (.access (.readMemory offset n)) =
        (s, ((s.engine.memory.read offset n).map Bus.Answer.words).map fun a =>
          { outcome := .access a, account := some s.account }) := fun _ => rfl
    rw [e, e]
    unfold Memory.read
    by_cases hf : Memory.Fits offset n
    · rw [if_pos hf, if_pos hf]
      exact ⟨h, rfl⟩
    · rw [if_neg hf, if_neg hf]
      rfl
  | writeMemory offset ws =>
    obtain ⟨f, hs, ht⟩ | ⟨e, e', hs, ht, hM⟩ := h.writeMemory offset ws
    · simp only [Session.step, Bus.access, hs, ht]
      rfl
    · simp only [Session.step, Bus.access, hs, ht]
      exact ⟨hM, rfl⟩
  | isBusy => exact ⟨h.tick, rfl⟩

/-- **the same step of matching sessions** leaves matching ones and shows the same, or is the same
fault -/
theorem step {i : Step} (hi : ¬ i.Direct) : Agrees i (s.step i) (t.step i) := by
  cases i with
  | enable id =>
    simp only [Session.step]
    cases NamedCurve.ofId? id with
    | none => exact ⟨h, rfl⟩
    | some c => exact ⟨h.enable c, rfl⟩
  | disable =>
    refine ⟨h.disable, ?_⟩
    simp only [Step.shows, Answer.observed, h.curve]
  | operate call d => exact h.operate call d
  | curve =>
    refine ⟨h, ?_⟩
    have hp : s.engine.powered = t.engine.powered := by
      rw [h.coherent.1, h.coherent.2, h.curve]
    simp only [Step.shows, Answer.observed, h.curve, hp]
  | peek offset n =>
    have e : ∀ s : Session, s.step (.peek offset n) =
        (s, (s.engine.memory.read offset n).map fun ws => { outcome := .words ws }) := fun _ => rfl
    rw [e, e]
    unfold Memory.read
    by_cases hf : Memory.Fits offset n
    · rw [if_pos hf, if_pos hf]
      exact ⟨h, rfl⟩
    · rw [if_neg hf, if_neg hf]
      rfl
  | poke offset ws =>
    obtain ⟨f, hs, ht⟩ | ⟨e, e', hs, ht, hM⟩ := h.writeMemory offset ws
    · simp only [Session.step, hs, ht]
      rfl
    · simp only [Session.step, hs, ht]
      exact ⟨hM, rfl⟩
  | access a => exact h.access hi

end Matches

/-- **matching sessions go on alike for ever** -/
theorem echoes_of_matches {s t : Session} (h : s.Matches t) : s.Echoes t := by
  intro steps hi
  unfold observations
  induction steps generalizing s t with
  | nil => exact ⟨rfl, rfl⟩
  | cons i is ih =>
    obtain ⟨hi, his⟩ := List.forall_mem_cons.mp hi
    have ha := h.step hi
    rcases hs : s.step i with ⟨s', f | x⟩ <;> rcases ht : t.step i with ⟨t', g | y⟩ <;>
      rw [hs, ht] at ha
    · obtain rfl : f = g := ha
      rw [Transcript.of_fault hs, Transcript.of_fault ht]
      exact ⟨rfl, rfl⟩
    · exact ha.elim
    · exact ha.elim
    · obtain ⟨hM, hx⟩ := ha
      obtain ⟨hf, ho⟩ := ih hM his
      rw [Transcript.of_answer hs, Transcript.of_answer ht]
      refine ⟨hf, ?_⟩
      rw [List.zipWith_cons_cons, List.zipWith_cons_cons, hx, ho]

end Session
end CurveEngine
