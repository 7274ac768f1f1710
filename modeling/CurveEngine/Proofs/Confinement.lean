import CurveEngine.Proofs.Domain
import CurveEngine.Proofs.Faults
import CurveEngine.Proofs.Runs

/-!
# Where operations write

* `Operation.Confines`      words in the scratchpad, or in a single variable of an operation;
* `confines_of_covered`     every window of an operation's territory is such words;
* `operate_unwritten`       an operation leaves all words in front of the scratchpad and behind its
                            variables, however it ends;
* `Session.Step.Spares`     steps that write no constant and enable no curve, and `steps_spare`;
* `Session.memory_confined` all three for every session.

Nothing is asked of the words in memory, of the registers or of the engine, which may be busy or
without power.
-/

namespace CurveEngine

open Program
open Window (Covered)

/-! ## Windows -/

namespace Window

/-- all words of the window lie in another one -/
def Inside (v r : Window) : Prop := v.1 ≤ r.1 ∧ r.1 + r.2 ≤ v.1 + v.2

/-- the windows have no word in common -/
def Apart (v r : Window) : Prop := r.1 + r.2 ≤ v.1 ∨ v.1 + v.2 ≤ r.1

instance (v r : Window) : Decidable (v.Apart r) := inferInstanceAs (Decidable (_ ∨ _))

theorem Apart.of_inside {u v r : Window} (h : u.Apart v) (hr : v.Inside r) : u.Apart r := by
  unfold Apart Inside at *
  omega

end Window

namespace Operation

/-- the words lie in the scratchpad, or they lie in a variable of the operation and touch no other
one -/
def Confines (op : Operation) (r : Window) : Prop :=
  Window.scratchpad.Inside r ∨
    ∃ v ∈ op.slots, v.Inside r ∧ ∀ u ∈ op.slots, u ≠ v → u.Apart r

theorem slots_apart (op : Operation) : ∀ u ∈ op.slots, ∀ v ∈ op.slots, u ≠ v → u.Apart v := by
  cases op <;> simp only [slots] <;> decide

theorem slots_bounds (op : Operation) :
    Layout.scratchpad + Layout.scratchpadSpace ≤ Layout.variables ∧ Layout.variables ≤ op.stop ∧
      ∀ v ∈ op.slots, Layout.variables ≤ v.1 ∧ v.1 + v.2 ≤ op.stop := by
  cases op <;> simp only [slots, stop] <;> decide

theorem confines_of_covered {op : Operation} {r : Window} (h : Covered op.territory r) :
    op.Confines r := by
  obtain ⟨-, v, hv, hr⟩ := h
  obtain rfl | hv := List.mem_cons.mp hv
  · exact .inl hr
  · exact .inr ⟨v, hv, hr, fun u hu hne => (op.slots_apart u hu v hv hne).of_inside hr⟩

theorem outside_territory {op : Operation} {i : Nat} (hi : i < Layout.scratchpad ∨ op.stop ≤ i) :
    ∀ r ∈ op.territory, i < r.1 ∨ r.1 + r.2 ≤ i := by
  obtain ⟨hs, hv, hb⟩ := op.slots_bounds
  refine List.forall_mem_cons.mpr ⟨?_, fun r hr => ?_⟩
  · show i < Layout.scratchpad ∨ Layout.scratchpad + Layout.scratchpadSpace ≤ i
    omega
  · have := hb r hr
    omega

end Operation

/-! ## Runs -/

namespace Session

variable {s : Session} {op : Operation}

/-- what a request of an operation changes, and where that lies -/
theorem request_confined {q : Request} {next : q.Reply → Program Unit} {k : Host}
    (hpass : Passes (op.program s.settings) (s.host op) (.ask q next) k) :
    (∀ i, (k.answer q).1.engine.memory.word i ≠ k.engine.memory.word i →
        ∃ r ∈ q.targets k.engine.registers.operands, r.1 ≤ i ∧ i < r.1 + r.2) ∧
      ∀ r ∈ q.targets k.engine.registers.operands, op.Confines r := by
  obtain ⟨⟨_, -, hplain, ht, -⟩, -⟩ := hpass.orderly (Operation.orderly_program s.settings op)
  refine ⟨fun i hi => ?_, fun r hr => Operation.confines_of_covered (ht r hr)⟩
  by_contra hn
  refine hi ((Host.answer_frame_of_plain hplain).2 i fun r hr => ?_)
  by_contra hc
  exact hn ⟨r, hr, by omega⟩

/-- **an operation leaves all other words**, however it ends -/
theorem operate_unwritten (s : Session) (op : Operation) (d : Drive) {i : Nat}
    (hi : i < Layout.scratchpad ∨ op.stop ≤ i) :
    (s.operate op d).1.engine.memory.word i = s.engine.memory.word i := by
  have ho := Operation.outside_territory hi
  obtain ⟨p', k, hpass, hstop⟩ :=
    passes_of_drive (op.program s.settings) d (.new s.engine s.drawn op.buffers)
  obtain ⟨⟨running, hp'⟩, hm⟩ := hpass.orderly (Operation.orderly_program s.settings op)
  have hk : k.engine.memory.word i = s.engine.memory.word i := hm i ho
  show ((op.program s.settings).drive d
    (.new s.engine s.drawn op.buffers)).2.engine.memory.word i = _
  generalize (op.program s.settings).drive d (.new s.engine s.drawn op.buffers) = x at hstop ⊢
  cases hstop with
  | done | fail | pending => exact hk
  | fault hq =>
    obtain ⟨-, hplain, ht, -⟩ := hp'
    have ha := (Host.answer_frame_of_plain (h := k) hplain).2 i fun r hr => ?_
    · rw [hq] at ha
      exact ha.trans hk
    · obtain ⟨-, v, hv, hl, hu⟩ := ht r hr
      have := ho v hv
      omega

/-! ## Steps -/

/-- the step enables no curve, starts no function itself, and writes no word in front of the
scratchpad itself -/
def Step.Spares : Step → Prop
  | .enable id => NamedCurve.ofId? id = none
  | .poke offset _ | .access (.writeMemory offset _) => Layout.scratchpad ≤ offset
  | .access (.writeRegister r v) => ¬ (r = .function ∧ Opcode.starts v = true)
  | _ => True

theorem word_writeMemory {e e' : Engine} {offset : Nat} {ws : List Word} {i : Nat}
    (hi : i < offset) (h : Bus.writeMemory e offset ws = .ok e') :
    e'.memory.word i = e.memory.word i := by
  obtain ⟨-, rfl⟩ := Engine.of_writeMemory h
  exact Memory.word_overwrite_of_lt (.inl hi)

theorem word_access {e : Engine} {a : Bus.Access} (ha : (Step.access a).Spares) {i : Nat}
    (hi : i < Layout.scratchpad) : (Bus.access e a).1.memory.word i = e.memory.word i := by
  have ht : e.tick.memory.word i = e.memory.word i := by rw [e.tick_frame.1]
  cases a with
  | readRegister r =>
    cases r with
    | function => exact ht
    | _ => rfl
  | writeRegister r v =>
    show (e.writeRegister r v).1.memory.word i = _
    rw [Engine.writeRegister_of_not_starts ha]
    split
    · rfl
    · rfl
  | readMemory offset n => rfl
  | writeMemory offset ws =>
    cases h : Bus.writeMemory e offset ws with
    | error f => rw [Bus.access, h]
    | ok e' =>
      rw [Bus.access, h]
      exact word_writeMemory (Nat.lt_of_lt_of_le hi ha) h
  | isBusy => exact ht

/-- **a step that spares the constants leaves all words in front of the scratchpad**, even if it is a
fault -/
theorem step_spares {i : Step} (hs : i.Spares) {j : Nat} (hj : j < Layout.scratchpad) :
    (s.step i).1.engine.memory.word j = s.engine.memory.word j := by
  cases i with
  | enable id =>
    have hn : NamedCurve.ofId? id = none := hs
    simp only [step, hn]
  | disable =>
    show s.disable.engine.memory.word j = _
    unfold disable
    cases s.curve with
    | none => rfl
    | some c => rfl
  | operate call d => exact operate_unwritten s _ d (.inl hj)
  | curve | peek offset n => rfl
  | poke offset ws =>
    cases h : Bus.writeMemory s.engine offset ws with
    | error f => simp only [step, h]
    | ok e =>
      simp only [step, h]
      exact word_writeMemory (Nat.lt_of_lt_of_le hj hs) h
  | access a => exact word_access hs hj

theorem steps_spare {steps : List Step} (hs : ∀ i ∈ steps, i.Spares) {j : Nat}
    (hj : j < Layout.scratchpad) :
    (Transcript.of step s steps).final.engine.memory.word j = s.engine.memory.word j := by
  induction steps generalizing s with
  | nil => rfl
  | cons i is ih =>
    obtain ⟨hi, his⟩ := List.forall_mem_cons.mp hs
    have hw := step_spares (s := s) hi hj
    rcases hx : s.step i with ⟨s', f | x⟩ <;> rw [hx] at hw
    · rw [Transcript.of_fault hx]
      exact hw
    · rw [Transcript.of_answer hx]
      exact (ih his).trans hw

/-- **operations stay in their place**: whatever is in memory and whatever the engine does, every
word that a host write or a function of an operation changes is one of its targets, and these lie in
the scratchpad or in one single variable of the operation; so however the operation ends, it leaves
all words in front of the scratchpad and behind its variables; and from the time a curve is enabled
until another one is, all its constants are in their places, and zeros behind the narrower ones,
whatever operations run and however they end -/
theorem memory_confined (s : Session) :
    (∀ (op : Operation) (q : Request) (next : q.Reply → Program Unit) (k : Host),
      Passes (op.program s.settings) (s.host op) (.ask q next) k →
        (∀ i, (k.answer q).1.engine.memory.word i ≠ k.engine.memory.word i →
          ∃ r ∈ q.targets k.engine.registers.operands, r.1 ≤ i ∧ i < r.1 + r.2) ∧
        ∀ r ∈ q.targets k.engine.registers.operands, op.Confines r) ∧
    (∀ (op : Operation) (d : Drive) (i : Nat), i < Layout.scratchpad ∨ op.stop ≤ i →
      (s.operate op d).1.engine.memory.word i = s.engine.memory.word i) ∧
    ∀ (c : NamedCurve) (steps : List Step), (∀ i ∈ steps, i.Spares) →
      (∀ i, i < Layout.scratchpad →
        (Transcript.of step (s.enable c) steps).final.engine.memory.word i =
          (c.data.load .zero).word i) ∧
      ∀ k ∈ c.data.constants,
        (Transcript.of step (s.enable c) steps).final.engine.memory.element c.words k.1 = k.2 := by
  refine ⟨fun op q next k hpass => request_confined hpass,
    fun op d i hi => operate_unwritten s op d hi, fun c steps hs => ?_⟩
  have hw : ∀ i, i < Layout.scratchpad →
      (Transcript.of step (s.enable c) steps).final.engine.memory.word i =
        (c.data.load .zero).word i := fun i hi => steps_spare hs hi
  have hd : c.data.Placed ∧ ∀ k ∈ c.data.constants, k.1 + c.words ≤ Layout.scratchpad := by
    cases c <;> decide
  refine ⟨hw, fun k hk => ?_⟩
  rw [← Memory.element_foldl_overwrite hd.1.1 hd.1.2 .zero k hk]
  have hu := hd.2 k hk
  exact Memory.element_ext fun i _ => hw (k.1 + i) (by omega)

end Session
end CurveEngine
