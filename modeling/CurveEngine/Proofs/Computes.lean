import CurveEngine.Arithmetic
import CurveEngine.Drive
import CurveEngine.Proofs.Functions

/-!
# Programs on an idle engine compute

A program that is polled to its end is compared with a pure computation.

* `Program.Ends`        how a program polled to its end ends, with rules for sequences and attempts;
* `Program.Delivers`    the same for one that fills the output buffers, or fails and leaves them;
* `Program.ends_invoke`   a function started with some operands and waited for;
* `Host.Ready`          the engine has power and runs nothing;
* `Host.Writes`         one host after another: outside of the scratchpad and of some words in a row
                        the memory is the same;
* `Layout.Clear`        an element lies outside of both;
* `Program.Computes`    the program ends as a pure computation does, fails where it fails, and
                        writes to some words in a row only; `Computes.bind` follows a sequence.

A started function has its result at once, and waiting changes neither memory nor registers, so the
latency of the engine appears nowhere below `ends_run`.
-/

namespace CurveEngine

namespace Host

/-- functions can be started and none is running -/
structure Ready (h : Host) : Prop where
  powered : h.engine.powered = true
  idle : h.engine.busy = 0

def element (h : Host) (w o : Nat) : Nat := h.engine.memory.element w o

def setRegister (h : Host) (r : Register) (v : Word) : Host :=
  { h with engine := h.engine.setRegister r v }

theorem Ready.setRegister {h : Host} (hr : h.Ready) (r : Register) (v : Word) :
    (h.setRegister r v).Ready := ⟨hr.powered, hr.idle⟩

/-- a host that waited differs from the one before in busy time, interrupts and polls only -/
theorem await_frame (h : Host) (n : Nat) :
    (h.await n).engine.memory = h.engine.memory ∧
      (h.await n).engine.registers = h.engine.registers ∧
      (h.await n).engine.powered = h.engine.powered := by
  induction n generalizing h with
  | zero => exact ⟨rfl, rfl, rfl⟩
  | succ n ih =>
    obtain ⟨hm, hf, -, hp, -⟩ := h.engine.tick_frame
    obtain ⟨im, iff, ip⟩ := ih h.tick.enter
    exact ⟨im.trans hm, iff.trans hf, ip.trans hp⟩

end Host

/-! ## How programs end -/

namespace Program

section
variable {α β : Type}

/-- polled to its end, the program ends with `r` and leaves the host `h'` -/
def Ends (p : Program α) (h : Host) (r : Except Failure α) (h' : Host) : Prop :=
  p.finish h = (.ready r, h')

variable {p : Program α} {h h' h'' : Host}

theorem Ends.bind {a : α} {f : α → Program β} {r : Except Failure β} (hp : p.Ends h (.ok a) h')
    (hf : (f a).Ends h' r h'') : (p.bind f).Ends h r h'' := by
  unfold Ends at hp hf ⊢
  rw [finish_bind, hp]
  exact hf

theorem Ends.bind_error {e : Failure} (f : α → Program β) (hp : p.Ends h (.error e) h') :
    (p.bind f).Ends h (.error e) h' := by
  unfold Ends at hp ⊢
  rw [finish_bind, hp]
  rfl

theorem Ends.attempt {r : Except Failure α} (hp : p.Ends h r h') : p.attempt.Ends h (.ok r) h' := by
  unfold Ends at hp ⊢
  induction p generalizing h with
  | done a =>
    cases hp
    rfl
  | fail e =>
    cases hp
    rfl
  | ask q next ih =>
    rcases hq : h.answer q with ⟨h₁, e | a⟩
    · rw [finish_ask_of_error hq] at hp
      cases hp
    · rw [finish_ask_of_ok hq] at hp
      rw [attempt_ask, finish_ask_of_ok hq]
      exact ih _ hp
  | wait next ih =>
    rw [finish_wait] at hp
    rw [attempt_wait, finish_wait]
    exact ih hp

theorem Ends.unique {r r' : Except Failure α} (hp : p.Ends h r h') (hp' : p.Ends h r' h'') :
    r = r' ∧ h' = h'' := by
  have e := hp.symm.trans hp'
  cases e
  exact ⟨rfl, rfl⟩

/-- how the second part of a sequence ends -/
theorem Ends.rest {a : α} {f : α → Program β} {r : Except Failure β} (hp : p.Ends h (.ok a) h')
    (hb : (p.bind f).Ends h r h'') : (f a).Ends h' r h'' := by
  unfold Ends at hp hb ⊢
  rw [finish_bind, hp] at hb
  exact hb

/-- a sequence ends with a failure of its first part, or as its second part ends -/
theorem Ends.parts {f : α → Program β} {r : Except Failure β} (hb : (p.bind f).Ends h r h'') :
    (∃ e, r = .error e ∧ p.Ends h (.error e) h'') ∨
      ∃ a h', p.Ends h (.ok a) h' ∧ (f a).Ends h' r h'' := by
  unfold Ends at hb ⊢
  rw [finish_bind] at hb
  rcases hp : p.finish h with ⟨(e | a) | q | c, h'⟩ <;> rw [hp] at hb
  · cases hb
    exact .inl ⟨e, rfl, rfl⟩
  · exact .inr ⟨a, h', rfl, hb⟩
  · cases hb
  · cases hb

end

/-- what holds of a result, and what of the cause of a failure -/
def Ending {ε α : Type} (χ : α → Prop) (φ : ε → Prop) : Except ε α → Prop
  | .ok a => χ a
  | .error e => φ e

/-- polled to its end, the program leaves these contents in the output buffers, or it fails with this
cause and leaves them as they were -/
def Delivers (p : Program Unit) (h : Host) (r : Except Failure (List Bytes)) (h' : Host) : Prop :=
  p.Ends h (r.map fun _ => ()) h' ∧ h'.outputs = r.toOption.getD h.outputs

theorem Delivers.unique {p : Program Unit} {h h' h'' : Host} {r r' : Except Failure (List Bytes)}
    (hp : p.Delivers h r h') (hp' : p.Delivers h r' h'') : r = r' ∧ h' = h'' := by
  obtain ⟨hr, rfl⟩ := hp.1.unique hp'.1
  have ho := hp.2.symm.trans hp'.2
  refine ⟨?_, rfl⟩
  cases r with
  | ok outs =>
    cases r' with
    | ok outs' => exact congrArg Except.ok ho
    | error e => cases hr
  | error e =>
    cases r' with
    | ok outs' => cases hr
    | error e' =>
      cases hr
      rfl

/-! ### Single requests -/

variable {h : Host}

theorem ends_writeRegister {r : Register} (hs : r.isStatus = false) (hf : r ≠ .function)
    (v : Word) : (writeRegister r v).Ends h (.ok ()) (h.setRegister r v) := by
  have e : h.engine.writeRegister r v = (h.engine.setRegister r v, .ok ()) := by
    unfold Engine.writeRegister
    rw [if_neg (by rw [hs]; decide), if_neg (fun c => hf c.1)]
  have hq : h.answer (.writeRegister r v) = (h.setRegister r v, .ok ()) := by
    rw [Host.answer, e]
    rfl
  exact finish_ask_of_ok hq done

theorem ends_readRegister {r : Register} (hf : r ≠ .function) :
    (readRegister r).Ends h (.ok (h.engine.registers.get r)) h := by
  have hq : h.answer (.readRegister r) = (h, .ok (h.engine.registers.get r)) := by
    rw [Host.answer, Engine.readRegister_of_ne hf]
  exact finish_ask_of_ok hq done

theorem ends_writeMemory {o : Nat} {ws : List Word} (hf : Memory.Fits o ws.length) :
    (writeMemory o ws).Ends h (.ok ())
      { h with engine := { h.engine with memory := h.engine.memory.overwrite o ws } } := by
  have hq : h.answer (.writeMemory o ws) =
      ({ h with engine := { h.engine with memory := h.engine.memory.overwrite o ws } }, .ok ()) := by
    rw [Host.answer, Memory.write_of_fits hf]
  exact finish_ask_of_ok hq done

theorem ends_readMemory {o n : Nat} (hf : Memory.Fits o n) :
    (readMemory o n).Ends h (.ok (h.engine.memory.window o n)) h := by
  have hq : h.answer (.readMemory o n) = (h, .ok (h.engine.memory.window o n)) := by
    rw [Host.answer, Memory.read_of_fits hf]
  exact finish_ask_of_ok hq done

theorem ends_log (e : Event) : (log e).Ends h (.ok ()) { h with log := h.log.push e } := rfl

theorem ends_draw : draw.Ends h (.ok ()) { h with drawn := h.drawn + 1 } := rfl

theorem ends_output {t : Slice} {c : Content} {bufs : List Bytes}
    (hw : t.write c h.outputs = .ok bufs) :
    (output t c).Ends h (.ok ()) { h with outputs := bufs } := by
  have hq : h.answer (.output t c) = ({ h with outputs := bufs }, .ok ()) := by
    rw [Host.answer, hw]
  exact finish_ask_of_ok hq done

/-- bytes written over as many others -/
theorem ends_outputBytes {i : Nat} {a b d c : Bytes} (hb : h.outputs.getD i [] = a ++ b ++ d)
    (hl : c.length = b.length) :
    (output ⟨i, a.length, c.length⟩ (.bytes c)).Ends h (.ok ())
      { h with outputs := h.outputs.set i (a ++ c ++ d) } :=
  ends_output (hl ▸ Slice.write_of_parts hb (Content.onto_bytes hl))

theorem ends_refuse {α : Type} (e : Event) (cause : Failure) :
    (refuse e cause : Program α).Ends h (.error cause) { h with log := h.log.push e } := rfl

/-- a function that ends is waited for, and leaves its memory and its registers -/
theorem ends_run (hr : h.Ready) {f : Opcode} {m : Memory} {g : RegisterFile}
    (hx : (h.engine.accept (f.code ||| Opcode.run)).execute f =
      .ok ((h.engine.accept (f.code ||| Opcode.run)).update m g)) :
    ∃ h', (run f).Ends h (.ok ()) h' ∧ h'.Ready ∧ h'.engine.memory = m ∧
      h'.engine.registers = g := by
  have hw : h.engine.writeRegister .function (f.code ||| Opcode.run) =
      (((h.engine.accept (f.code ||| Opcode.run)).update m g).hold, .ok ()) := by
    unfold Engine.writeRegister
    rw [if_neg (by decide), if_pos ⟨rfl, Opcode.starts_code_run f⟩,
      Engine.start_of_accepted hr.powered hr.idle (Opcode.decode?_code_run f),
      Engine.launch_of_ok hx]
  let h₁ : Host :=
    { h with
      engine := ((h.engine.accept (f.code ||| Opcode.run)).update m g).hold
      log := h.log.push (.started f)
      trace := h.trace.push ⟨f, h.engine.registers.operands⟩ }
  have hq : h.answer (.start f) = (h₁, .ok ()) := by
    rw [Host.answer, hw]
  have he : (run f).finish h = (.ready (.ok ()), h₁.listen.await h₁.engine.busy) := by
    rw [run, finish_ask_of_ok hq, finish_wait, finish_done]
  obtain ⟨hm, hg, hp⟩ := h₁.listen.await_frame h₁.engine.busy
  refine ⟨_, he, ⟨hp.trans hr.powered, ?_⟩, hm, hg⟩
  rw [Host.busy_await, Host.busy_listen, Nat.sub_self]

end Program

/-! ### Functions with their operands -/

/-- the registers that name operands -/
def Register.isOperand : Register → Bool
  | aPtr | bPtr | cPtr | dPtr | aLength | bLength => true
  | _ => false

theorem Register.writable_of_isOperand {r : Register} (h : r.isOperand = true) :
    r.isStatus = false ∧ r ≠ .function := by
  cases r
  case aPtr | bPtr | cPtr | dPtr | aLength | bLength => decide
  all_goals cases h

def Operands.set (o : Operands) (r : Register) (n : Nat) : Operands :=
  match r with
  | .aPtr => { o with a := n }
  | .bPtr => { o with b := n }
  | .cPtr => { o with c := n }
  | .dPtr => { o with d := n }
  | .aLength => { o with aLength := n }
  | .bLength => { o with bLength := n }
  | _ => o

def Operands.setAll (o : Operands) (l : List (Register × Nat)) : Operands :=
  l.foldl (fun o rn => o.set rn.1 rn.2) o

namespace Program

/-- some operand registers set and a function run -/
def invoke (l : List (Register × Nat)) (f : Opcode) : Program Unit :=
  l.foldr (fun rn p => (Arithmetic.operand rn.1 rn.2).bind fun _ => p) (run f)

variable {h : Host}

theorem operands_setRegister {r : Register} {n : Nat} (hr : r.isOperand = true)
    (hn : n ≤ Layout.memoryWords) :
    (h.setRegister r (UInt32.ofNat n)).engine.registers.operands =
      h.engine.registers.operands.set r n := by
  have e : (UInt32.ofNat n).toNat = n := by
    rw [UInt32.toNat_ofNat']
    exact Nat.mod_eq_of_lt (Nat.lt_of_le_of_lt hn (by decide))
  cases r
  case aPtr | bPtr | cPtr | dPtr | aLength | bLength =>
    simp [Host.setRegister, Engine.setRegister, RegisterFile.set, RegisterFile.operands,
      Operands.set, e]
  all_goals cases hr

/-- **a function with its operands**: it is enough to know what the function does to an engine with
these operands -/
theorem ends_invoke (hr : h.Ready) {l : List (Register × Nat)} {f : Opcode}
    {Q : Memory → RegisterFile → Prop}
    (hl : ∀ rn ∈ l, rn.1.isOperand = true ∧ rn.2 ≤ Layout.memoryWords)
    (hx : ∀ e : Engine, e.memory = h.engine.memory →
      e.registers.operands = h.engine.registers.operands.setAll l →
      ∃ m g, e.execute f = .ok (e.update m g) ∧ Q m g) :
    ∃ h', (invoke l f).Ends h (.ok ()) h' ∧ h'.Ready ∧
      Q h'.engine.memory h'.engine.registers := by
  induction l generalizing h with
  | nil =>
    obtain ⟨m, g, he, hq⟩ := hx (h.engine.accept (f.code ||| Opcode.run)) rfl rfl
    obtain ⟨h', hends, hready, hm, hg⟩ := ends_run hr he
    refine ⟨h', hends, hready, ?_⟩
    rw [hm, hg]
    exact hq
  | cons rn l ih =>
    obtain ⟨ho, hn⟩ := hl rn List.mem_cons_self
    have hs := Register.writable_of_isOperand ho
    obtain ⟨h', hends, hready, hq⟩ := ih (hr.setRegister rn.1 (UInt32.ofNat rn.2))
      (fun rn' hm => hl rn' (List.mem_cons_of_mem _ hm))
      (fun e hm hop => hx e hm (by rw [hop, operands_setRegister ho hn]; rfl))
    exact ⟨h', (ends_writeRegister hs.1 hs.2 _).bind hends, hready, hq⟩

end Program

/-! ## What a program leaves alone -/

namespace Layout

/-- `k` words at `o` lie outside of the scratchpad -/
def Outside (o k : Nat) : Prop := o + k ≤ scratchpad ∨ Layout.variables ≤ o

/-- `k` words at `o'` lie outside of the scratchpad and of `n` words at `o` -/
def Clear (o n o' k : Nat) : Prop := Outside o' k ∧ (n = 0 ∨ o' + k ≤ o ∨ o + n ≤ o')

/-- `n` words at `o` lie in `n'` words at `o'` -/
def Within (o n o' n' : Nat) : Prop := o' ≤ o ∧ o + n ≤ o' + n'

/-- there is place for an element at `o`, outside of the scratchpad -/
def Place (o : Nat) : Prop := Memory.Fits o elementSlot ∧ Outside o elementSlot

/-- there is place for a point at `o`, outside of the scratchpad -/
def PointPlace (o : Nat) : Prop := Memory.Fits o pointSlot ∧ Outside o pointSlot

instance (o k : Nat) : Decidable (Outside o k) := inferInstanceAs (Decidable (_ ∨ _))
instance (o n o' k : Nat) : Decidable (Clear o n o' k) := inferInstanceAs (Decidable (_ ∧ _))
instance (o n o' n' : Nat) : Decidable (Within o n o' n') := inferInstanceAs (Decidable (_ ∧ _))
instance (o : Nat) : Decidable (Place o) := inferInstanceAs (Decidable (_ ∧ _))
instance (o : Nat) : Decidable (PointPlace o) := inferInstanceAs (Decidable (_ ∧ _))

theorem Clear.part {o n a k b j : Nat} (hc : Clear o n a k) (hl : a ≤ b) (hu : b + j ≤ a + k) :
    Clear o n b j := by
  unfold Clear Outside at *
  omega

theorem Within.refl (o n : Nat) : Within o n o n := ⟨Nat.le_refl _, Nat.le_refl _⟩

end Layout

namespace Host

/-- `h'` is ready again, and its memory is that of `h` outside of the scratchpad and of `n` words at
`o` -/
structure Writes (h h' : Host) (o n : Nat) : Prop where
  ready : h'.Ready
  word : ∀ i, i < Layout.scratchpad ∨ Layout.variables ≤ i → i < o ∨ o + n ≤ i →
    h'.engine.memory.word i = h.engine.memory.word i

namespace Writes

variable {h h' h'' : Host} {o n o' n' : Nat}

theorem refl (hr : h.Ready) (o n : Nat) : h.Writes h o n := ⟨hr, fun _ _ _ => rfl⟩

theorem trans (h₁ : h.Writes h' o n) (h₂ : h'.Writes h'' o n) : h.Writes h'' o n :=
  ⟨h₂.ready, fun i hi ho => (h₂.word i hi ho).trans (h₁.word i hi ho)⟩

theorem mono (hw : h.Writes h' o n) (hs : Layout.Within o n o' n') : h.Writes h' o' n' := by
  obtain ⟨hl, hu⟩ := hs
  exact ⟨hw.ready, fun i hi ho => hw.word i hi (by omega)⟩

/-- writing no words is writing in any place -/
theorem of_none (hw : h.Writes h' o' 0) (o n : Nat) : h.Writes h' o n :=
  ⟨hw.ready, fun i hi _ => hw.word i hi (by omega)⟩

theorem element (hw : h.Writes h' o n) {w k : Nat} (hk : w ≤ k)
    (hc : Layout.Clear o n o' k) :
    h'.element w o' = h.element w o' := by
  obtain ⟨hs, hn⟩ := hc
  unfold Layout.Outside at hs
  exact Memory.element_ext fun i hi => hw.word (o' + i) (by omega) (by omega)

theorem point (hw : h.Writes h' o n) {w : Nat} (hk : w ≤ Layout.elementSlot)
    (hc : Layout.Clear o n o' Layout.pointSlot) :
    h'.engine.memory.point w o' = h.engine.memory.point w o' := by
  obtain ⟨hs, hn⟩ := hc
  obtain ⟨h₁, h₂⟩ := Layout.coordinateSpace_le hk
  unfold Layout.Outside at hs
  have hx : h'.element w o' = h.element w o' := by
    refine hw.element (Nat.le_refl w) ⟨?_, by omega⟩
    unfold Layout.Outside
    omega
  have hy : h'.element w (o' + Layout.coordinateSpace w) =
      h.element w (o' + Layout.coordinateSpace w) := by
    refine hw.element (Nat.le_refl w) ⟨?_, by omega⟩
    unfold Layout.Outside
    omega
  show Point.affine (h'.element w o') (h'.element w _) = _
  rw [hx, hy]
  rfl

/-- after nothing was written, every element outside of the scratchpad is the same -/
theorem element_of_none (hw : h.Writes h' o 0) {w : Nat} (hk : w ≤ Layout.elementSlot)
    (hp : Layout.Place o') : h'.element w o' = h.element w o' :=
  hw.element hk ⟨hp.2, .inl rfl⟩

/-- words outside of the scratchpad that an overwrite replaced -/
theorem of_overwrite {ws : List Word} (hr : h'.Ready)
    (hm : h'.engine.memory = h.engine.memory.overwrite o ws) (hn : ws.length ≤ n) :
    h.Writes h' o n := by
  refine ⟨hr, fun i _ ho => ?_⟩
  rw [hm]
  exact Memory.word_overwrite_of_lt (by omega)

/-- an overwrite in the scratchpad does not count -/
theorem of_scratchpad {ws : List Word} (hr : h'.Ready)
    (hm : h'.engine.memory = h.engine.memory.overwrite Layout.scratchpad ws)
    (hn : ws.length ≤ Layout.scratchpadSpace) (o n : Nat) : h.Writes h' o n := by
  refine ⟨hr, fun i hi _ => ?_⟩
  have hs : Layout.scratchpad + Layout.scratchpadSpace ≤ Layout.variables := by decide
  rw [hm]
  exact Memory.word_overwrite_of_lt (by omega)

theorem of_eq (hr : h'.Ready) (hm : h'.engine.memory = h.engine.memory) (o n : Nat) :
    h.Writes h' o n := ⟨hr, fun i _ _ => by rw [hm]⟩

end Writes
end Host

/-! ## Programs and pure computations -/

namespace Program

section
variable {α β γ δ : Type}

/-- the program ends as `x` does, with a result that `post` relates to the result of `x` in the host
it leaves, and it writes only to the scratchpad and to `n` words at `o` -/
def Computes (p : Program α) (h : Host) (o n : Nat) (x : Except Failure β)
    (post : α → β → Host → Prop) : Prop :=
  ∃ h', h.Writes h' o n ∧
    match x with
    | .ok b => ∃ a, p.Ends h (.ok a) h' ∧ post a b h'
    | .error e => p.Ends h (.error e) h'

variable {p : Program α} {h : Host} {o n o' n' : Nat} {x : Except Failure β}
  {post : α → β → Host → Prop}

theorem Computes.of_ok {a : α} {b : β} {h' : Host} (he : p.Ends h (.ok a) h')
    (hw : h.Writes h' o n) (hp : post a b h') : p.Computes h o n (.ok b) post :=
  ⟨h', hw, a, he, hp⟩

theorem Computes.of_error {e : Failure} {h' : Host} (he : p.Ends h (.error e) h')
    (hw : h.Writes h' o n) : p.Computes h o n (.error e) post := ⟨h', hw, he⟩

theorem Computes.of_done {a : α} {b : β} (hr : h.Ready) (hp : post a b h) :
    (done a).Computes h o n (.ok b) post := .of_ok rfl (.refl hr o n) hp

theorem Computes.of_fail {e : Failure} (hr : h.Ready) :
    (fail e : Program α).Computes h o n (.error e : Except Failure β) post :=
  .of_error rfl (.refl hr o n)

theorem Computes.of_refuse {ev : Event} {e : Failure} (hr : h.Ready) :
    (refuse ev e : Program α).Computes h o n (.error e : Except Failure β) post :=
  .of_error (ends_refuse ev e) ⟨⟨hr.powered, hr.idle⟩, fun _ _ _ => rfl⟩

/-- what follows a program that ended well -/
theorem Computes.after {a : α} {f : α → Program γ} {y : Except Failure δ}
    {post' : γ → δ → Host → Prop} {h' : Host} (he : p.Ends h (.ok a) h') (hw : h.Writes h' o n)
    (hf : (f a).Computes h' o n y post') : (p.bind f).Computes h o n y post' := by
  obtain ⟨h'', hw', hy⟩ := hf
  refine ⟨h'', hw.trans hw', ?_⟩
  cases y with
  | error e => exact he.bind hy
  | ok d =>
    obtain ⟨c, hc, hd⟩ := hy
    exact ⟨c, he.bind hc, hd⟩

/-- one program after the other: the second one starts from a host of which only the words that the
first one wrote are new -/
theorem Computes.bind {f : α → Program γ} {g : β → Except Failure δ} {post' : γ → δ → Host → Prop}
    (hp : p.Computes h o' n' x post) (hs : Layout.Within o' n' o n)
    (hf : ∀ a b h', h.Writes h' o' n' → post a b h' → (f a).Computes h' o n (g b) post') :
    (p.bind f).Computes h o n (x >>= g) post' := by
  obtain ⟨h', hw, hx⟩ := hp
  cases x with
  | error e => exact .of_error (hx.bind_error f) (hw.mono hs)
  | ok b =>
    obtain ⟨a, he, hb⟩ := hx
    exact .after he (hw.mono hs) (hf a b h' hw hb)

/-- a program that cannot fail, followed by another one -/
theorem Computes.bind_ok {b : β} {f : α → Program γ} {y : Except Failure δ}
    {post' : γ → δ → Host → Prop} (hp : p.Computes h o' n' (.ok b) post)
    (hs : Layout.Within o' n' o n)
    (hf : ∀ a h', h.Writes h' o' n' → post a b h' → (f a).Computes h' o n y post') :
    (p.bind f).Computes h o n y post' := by
  obtain ⟨h', hw, a, he, hb⟩ := hp
  exact .after he (hw.mono hs) (hf a h' hw hb)

/-- results related, or the same failure -/
def Lift (post : α → β → Host → Prop) : Except Failure α → Except Failure β → Host → Prop
  | .ok a, .ok b, h => post a b h
  | .error e, .error e', _ => e = e'
  | _, _, _ => False

theorem Computes.attempt (hp : p.Computes h o n x post) :
    p.attempt.Computes h o n (.ok x) (Lift post) := by
  obtain ⟨h', hw, hx⟩ := hp
  cases x with
  | error e => exact .of_ok hx.attempt hw rfl
  | ok b =>
    obtain ⟨a, he, hb⟩ := hx
    exact .of_ok he.attempt hw hb

end
end Program
end CurveEngine
