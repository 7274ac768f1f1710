import CurveEngine.Proofs.Requests

/-!
# What programs leave behind

A function that was started, a record in the log, a draw from the random source and a write to an
output buffer stay behind; no other request shows in the host that a program leaves, but for memory
and registers.

* `Marks`              such requests in their order, with `functions`, `records`, `draws` and
                       `outputs` to count them;
* `Host.Marked`        a host after another: the counts of the marks between them are added;
* `Program.Imprints`   how a program ends and the marks it leaves, whatever is replied;
                       `Imprints.bind`, `Imprints.attempt` follow it part by part;
* `Imprints.ends`      a run leaves marks as the program does;
* `Program.Leaves`     a program that cannot fail and leaves these marks;
* `leaves_load` … `imprints_point`   how each primitive ends, and what it leaves;
* `Program.Takes`      a program that cannot fail and starts so many functions.

Whatever is said about the requests and the failures of an operation follows from these primitives.
-/

namespace CurveEngine

/-! ## Marks -/

namespace Request

/-- the record that a request leaves in the log -/
def record? : Request → Option Event
  | start f => some (.started f)
  | log e => some e
  | _ => none

/-- the request writes to an output buffer -/
def fills : Request → Bool
  | output _ _ => true
  | _ => false

/-- what is left behind of a request -/
def marks : Request → List Request
  | start f => [start f]
  | log e => [log e]
  | draw => [draw]
  | output t c => [output t c]
  | _ => []

end Request

/-- what is left behind, in its order -/
abbrev Marks := List Request

namespace Marks

def functions (ms : Marks) : Nat := ms.countP Request.starts

def draws (ms : Marks) : Nat := ms.count .draw

def outputs (ms : Marks) : Nat := ms.countP Request.fills

/-- records of a level -/
def records (ms : Marks) (l : Level) : Nat := ms.countP fun q => q.record?.any (·.level = l)

@[simp] theorem functions_append (ms ms' : Marks) :
    functions (ms ++ ms') = functions ms + functions ms' := List.countP_append

@[simp] theorem draws_append (ms ms' : Marks) : draws (ms ++ ms') = draws ms + draws ms' :=
  List.count_append

@[simp] theorem outputs_append (ms ms' : Marks) :
    outputs (ms ++ ms') = outputs ms + outputs ms' := List.countP_append

@[simp] theorem records_append (ms ms' : Marks) (l : Level) :
    records (ms ++ ms') l = records ms l + records ms' l := List.countP_append

end Marks

namespace Host

/-- records of a level in the log -/
def records (h : Host) (l : Level) : Nat := h.log.toList.countP fun e => e.level = l

/-- `h'` is what `h` has become after these marks -/
structure Marked (h : Host) (ms : Marks) (h' : Host) : Prop where
  trace : h'.trace.size = h.trace.size + ms.functions
  started : h'.engine.started = h.engine.started + ms.functions
  records : ∀ l, h'.records l = h.records l + ms.records l
  drawn : h'.drawn = h.drawn + ms.draws
  outputs : ms.outputs = 0 → h'.outputs = h.outputs

variable {h h' h'' : Host} {ms ms' : Marks}

theorem Marked.trans (hm : h.Marked ms h') (hm' : h'.Marked ms' h'') :
    h.Marked (ms ++ ms') h'' := by
  refine ⟨?_, ?_, fun l => ?_, ?_, fun hz => ?_⟩
  · rw [hm'.trace, hm.trace, Marks.functions_append, Nat.add_assoc]
  · rw [hm'.started, hm.started, Marks.functions_append, Nat.add_assoc]
  · rw [hm'.records, hm.records, Marks.records_append, Nat.add_assoc]
  · rw [hm'.drawn, hm.drawn, Marks.draws_append, Nat.add_assoc]
  · rw [Marks.outputs_append, Nat.add_eq_zero_iff] at hz
    rw [hm'.outputs hz.2, hm.outputs hz.1]

/-- the same functions, records, draws and output buffers -/
theorem Marked.of_eq (ht : h'.trace = h.trace) (hs : h'.engine.started = h.engine.started)
    (hl : h'.log = h.log) (hd : h'.drawn = h.drawn) (ho : h'.outputs = h.outputs) :
    h.Marked [] h' := by
  refine ⟨by rw [ht]; rfl, hs, fun l => ?_, hd, fun _ => ho⟩
  unfold Host.records
  rw [hl]
  rfl

/-- one record more -/
theorem records_push {e : Event} (hl : h'.log = h.log.push e) (l : Level) :
    h'.records l = h.records l + if e.level = l then 1 else 0 := by
  unfold Host.records
  rw [hl, Array.toList_push, List.countP_append, List.countP_singleton]
  simp

theorem marked_log (h : Host) (e : Event) :
    h.Marked [.log e] { h with log := h.log.push e } := by
  refine ⟨rfl, rfl, fun l => ?_, rfl, fun _ => rfl⟩
  rw [records_push rfl]
  simp [Marks.records, Request.record?]

theorem marked_draw (h : Host) : h.Marked [.draw] { h with drawn := h.drawn + 1 } :=
  ⟨rfl, rfl, fun _ => rfl, rfl, fun _ => rfl⟩

/-- waiting leaves nothing behind -/
theorem marked_await (h : Host) (n : Nat) : h.Marked [] (h.await n) := by
  induction n generalizing h with
  | zero => exact .of_eq rfl rfl rfl rfl rfl
  | succ n ih =>
    have ht : h.Marked [] h.tick.enter := .of_eq rfl h.engine.tick_frame.2.2.2.2 rfl rfl rfl
    exact ht.trans (ih h.tick.enter)

theorem marked_listen_await (h : Host) (n : Nat) : h.Marked [] (h.listen.await n) :=
  (Marked.of_eq rfl rfl rfl rfl rfl : h.Marked [] h.listen).trans (h.listen.marked_await n)

/-- **an answered request leaves its marks** -/
theorem marked_answer {q : Request} (hq : q.Plain) {r : q.Reply} (ha : h.answer q = (h', .ok r)) :
    h.Marked q.marks h' := by
  have hfst : (h.answer q).1 = h' := congrArg Prod.fst ha
  -- what starts no function changes neither the trace nor the engine's count
  have hcalm : q.starts = false → h.Calm h' := fun hs => hfst ▸ answer_calm hq hs
  cases q with
  | start f =>
    have hl := answer_launches ha
    subst hfst
    refine ⟨hl.trace, hl.started, fun l => ?_, rfl, fun _ => rfl⟩
    rw [records_push (e := .started f) rfl]
    simp [Marks.records, Request.record?, Request.marks]
  | log e =>
    subst hfst
    exact h.marked_log e
  | draw =>
    subst hfst
    exact h.marked_draw
  | writeMemory offset ws =>
    obtain ⟨m, e⟩ := h.answer_writeMemory offset ws
    rw [hfst] at e
    subst e
    exact .of_eq rfl rfl rfl rfl rfl
  | output t c =>
    obtain ⟨bufs, e⟩ := h.answer_output t c
    rw [hfst] at e
    subst e
    exact ⟨rfl, rfl, fun l => rfl, rfl, fun hz => by cases hz⟩
  | writeRegister r v | readRegister r | readMemory offset n =>
    have hc := hcalm rfl
    subst hfst
    exact .of_eq hc.trace hc.started rfl rfl rfl

end Host

/-! ## Programs -/

namespace Program

variable {α β : Type}

/-- however the requests are answered, the program ends and leaves marks as `P` says -/
def Imprints : Program α → (Except Failure α → Marks → Prop) → Prop
  | done a, P => P (.ok a) []
  | fail e, P => P (.error e) []
  | ask q next, P => q.Plain ∧ ∀ r, (next r).Imprints fun x ms => P x (q.marks ++ ms)
  | wait next, P => next.Imprints P

variable {p q : Program α} {P P' : Except Failure α → Marks → Prop}
  {Q : Except Failure β → Marks → Prop}

namespace Imprints

theorem imp (hp : p.Imprints P) (h : ∀ x ms, P x ms → P' x ms) : p.Imprints P' := by
  induction p generalizing P P' with
  | done a | fail e => exact h _ _ hp
  | ask q next ih => exact ⟨hp.1, fun r => ih r (hp.2 r) fun x ms => h x _⟩
  | wait next ih => exact ih hp h

theorem bind {f : α → Program β} (hp : p.Imprints P)
    (hok : ∀ a ms, P (.ok a) ms → (f a).Imprints fun x ms' => Q x (ms ++ ms'))
    (herror : ∀ e ms, P (.error e) ms → Q (.error e) ms) : (p.bind f).Imprints Q := by
  induction p generalizing P Q with
  | done a => exact hok a [] hp
  | fail e => exact herror e [] hp
  | ask q next ih =>
    refine ⟨hp.1, fun r => ih r (hp.2 r) (fun a ms ha => ?_) fun e ms => herror e _⟩
    simpa only [List.append_assoc] using hok a _ ha
  | wait next ih => exact ih hp hok herror

/-- what is tried ends well, with how it would have ended -/
theorem attempt (hp : p.Imprints P) : p.attempt.Imprints fun x ms => ∃ y, x = .ok y ∧ P y ms := by
  induction p generalizing P with
  | done a | fail e => exact ⟨_, rfl, hp⟩
  | ask q next ih => exact ⟨hp.1, fun r => ih r (hp.2 r)⟩
  | wait next ih => exact ih hp

/-- what is tried and then goes on -/
theorem attempt_bind {f : Except Failure α → Program β} (hp : p.Imprints P)
    (hf : ∀ y ms, P y ms → (f y).Imprints fun x ms' => Q x (ms ++ ms')) :
    (p.attempt.bind f).Imprints Q := by
  refine hp.attempt.bind (fun y ms hy => ?_) fun e ms he => ?_
  · obtain ⟨_, h, hy⟩ := hy
    cases h
    exact hf _ ms hy
  · obtain ⟨_, h, -⟩ := he
    cases h

theorem ite {c : Prop} [Decidable c] (hp : p.Imprints P) (hq : q.Imprints P) :
    (if c then p else q).Imprints P := by
  split
  · exact hp
  · exact hq

/-- a program ends somehow -/
theorem exists_ending (hp : p.Imprints P) : ∃ x ms, P x ms := by
  induction p generalizing P with
  | done a | fail e => exact ⟨_, _, hp⟩
  | ask q next ih =>
    have r : q.Reply := by cases q <;> exact default
    obtain ⟨x, ms, h⟩ := ih r (hp.2 r)
    exact ⟨x, _, h⟩
  | wait next ih => exact ih hp

/-- **a run leaves marks as its program does** -/
theorem ends (hp : p.Imprints P) {h h' : Host} {x : Except Failure α} (he : p.Ends h x h') :
    ∃ ms, P x ms ∧ h.Marked ms h' := by
  unfold Ends at he
  induction p generalizing P h with
  | done a | fail e =>
    cases he
    exact ⟨[], hp, .of_eq rfl rfl rfl rfl rfl⟩
  | ask q next ih =>
    rcases hq : h.answer q with ⟨h₁, f | r⟩
    · rw [finish_ask_of_error hq] at he
      cases he
    · rw [finish_ask_of_ok hq] at he
      obtain ⟨ms, hx, hm⟩ := ih r (hp.2 r) he
      exact ⟨_, hx, (Host.marked_answer hp.1 hq).trans hm⟩
  | wait next ih =>
    rw [finish_wait] at he
    obtain ⟨ms, hx, hm⟩ := ih hp he
    exact ⟨ms, hx, (h.marked_listen_await _).trans hm⟩

end Imprints

/-! ### Programs that cannot fail -/

/-- the program cannot fail, and it leaves these marks -/
def Leaves (ms : Marks) (p : Program α) : Prop :=
  p.Imprints fun x ms' => x.isOk = true ∧ ms' = ms

namespace Leaves

variable {ms ms' : Marks}

/-- what follows it -/
theorem andThen (hp : p.Leaves ms) {f : α → Program β}
    (hf : ∀ a, (f a).Imprints fun x ms' => Q x (ms ++ ms')) : (p.bind f).Imprints Q := by
  refine Imprints.bind hp (fun a ms' ha => ?_) fun e ms' he => by cases he.1
  obtain ⟨-, rfl⟩ := ha
  exact hf a

theorem bind {f : α → Program β} (hp : p.Leaves ms) (hf : ∀ a, (f a).Leaves ms') :
    (p.bind f).Leaves (ms ++ ms') :=
  hp.andThen fun a => (hf a).imp fun _ _ hx => ⟨hx.1, congrArg (ms ++ ·) hx.2⟩

end Leaves

/-- the program cannot fail, and it starts so many functions -/
def Takes (n : Nat) (p : Program α) : Prop :=
  p.Imprints fun x ms => x.isOk = true ∧ ms.functions = n

theorem Leaves.takes {ms : Marks} (hp : p.Leaves ms) : p.Takes ms.functions :=
  hp.imp fun _ _ hx => ⟨hx.1, congrArg Marks.functions hx.2⟩

namespace Takes

variable {n m : Nat}

theorem of_done (a : α) : (done a).Takes 0 := ⟨rfl, rfl⟩

theorem bind {f : α → Program β} (hp : p.Takes n) (hf : ∀ a, (f a).Takes m) :
    (p.bind f).Takes (n + m) := by
  refine Imprints.bind hp (fun a ms ha => (hf a).imp fun x ms' hx => ?_) fun e ms he => ?_
  · obtain ⟨-, rfl⟩ := ha
    obtain ⟨hx, rfl⟩ := hx
    exact ⟨hx, Marks.functions_append ms ms'⟩
  · cases he.1

/-- so many functions are started by a run, and the engine counts them -/
theorem ends (hp : p.Takes n) {h h' : Host} {x : Except Failure α} (he : p.Ends h x h') :
    h'.trace.size = h.trace.size + n ∧ h'.engine.started = h.engine.started + n := by
  obtain ⟨ms, ⟨-, rfl⟩, hm⟩ := Imprints.ends hp he
  exact ⟨hm.trace, hm.started⟩

end Takes

/-! ## Primitives -/

section
open Arithmetic

/-- operands are set, and then the function is all that stays behind -/
theorem leaves_invoke {l : List (Register × Nat)} (hl : ∀ rn ∈ l, rn.1.isOperand = true)
    (f : Opcode) : (invoke l f).Leaves [.start f] := by
  induction l with
  | nil => exact ⟨trivial, fun _ => ⟨rfl, rfl⟩⟩
  | cons rn l ih =>
    obtain ⟨hrn, hl⟩ := List.forall_mem_cons.mp hl
    exact ⟨(Register.writable_of_isOperand hrn).2, fun _ => ih hl⟩

/-- a function and a look at the register that tells how it went -/
theorem imprints_status {l : List (Register × Nat)} (hl : ∀ rn ∈ l, rn.1.isOperand = true)
    {f : Opcode} {r : Register} (hr : r ≠ .function) {k : Word → Program α}
    (hk : ∀ v, (k v).Imprints fun x ms => P x (.start f :: ms)) :
    ((invoke l f).bind fun _ => (readRegister r).bind k).Imprints P :=
  (leaves_invoke hl f).andThen fun _ => ⟨hr, hk⟩

variable (w : Nat)

theorem leaves_load (bs : Bytes) (offset : Nat) : (load w bs offset).Leaves [] :=
  ⟨trivial, fun _ => ⟨rfl, rfl⟩⟩

theorem leaves_loadPoint (bs : Bytes) (offset : Nat) : (loadPoint w bs offset).Leaves [] :=
  (leaves_load w _ _).bind fun _ => leaves_load w _ _

theorem leaves_lowWord (offset : Nat) : (lowWord offset).Leaves [] :=
  ⟨trivial, fun _ => ⟨rfl, rfl⟩⟩

theorem leaves_compare (a b : Nat) : (Arithmetic.compare w a b).Leaves [.start .compare] :=
  imprints_status (l := [(.aPtr, a), (.aLength, w), (.bPtr, b)]) (by simp [Register.isOperand])
    (by decide) fun _ => ⟨rfl, rfl⟩

theorem leaves_copy (source target n : Nat) : (copy source target n).Leaves [.start .copy] :=
  leaves_invoke (l := [(.aPtr, source), (.aLength, n), (.cPtr, target)])
    (by simp [Register.isOperand]) .copy

theorem leaves_subtract (a b result : Nat) :
    (subtract w a b result).Leaves [.start .subtract, .start .copy] :=
  (leaves_invoke (l := [(.aPtr, a), (.aLength, w), (.bPtr, b), (.bLength, w),
    (.cPtr, Layout.scratchpad)]) (by simp [Register.isOperand]) .subtract).bind fun _ =>
      leaves_copy _ _ _

/-- a range check compares twice, if the first comparison does not decide it -/
theorem imprints_checkBetween (x low high : Nat) :
    (checkBetween w x low high).Imprints fun y ms => (y = .ok () ∨ y = .error .failed) ∧
      (ms = [.start .compare] ∨ ms = [.start .compare, .start .compare]) := by
  refine (leaves_compare w x low).andThen fun _ => .ite ⟨.inr rfl, .inl rfl⟩ ?_
  exact (leaves_compare w x high).andThen fun _ =>
    .ite ⟨.inr rfl, .inr rfl⟩ ⟨.inl rfl, .inr rfl⟩

theorem imprints_invert (number modulus result : Nat) :
    (invert w number modulus result).Imprints fun x ms =>
      (x = .ok () ∧ ms = [.start .invert, .start .copy]) ∨
        (x = .error .zeroResult ∧ ms = [.start .invert]) := by
  refine imprints_status (l := [(.aPtr, number), (.aLength, w), (.bPtr, modulus), (.bLength, w),
    (.dPtr, Layout.scratchpad)]) (by simp [Register.isOperand]) (by decide) fun _ =>
      .ite (.inr ⟨rfl, rfl⟩) ((leaves_copy _ _ _).imp fun x ms hx => ?_)
  obtain ⟨hx, rfl⟩ := hx
  cases x with
  | ok u => exact .inl ⟨rfl, rfl⟩
  | error e => cases hx

/-- a raw result that is refused is not reduced -/
theorem imprints_modular (f : Opcode) (a b modulus result : Nat) :
    (modular f w a b modulus result).Imprints fun x ms =>
      (x = .ok () ∧ ms = [.start f, .start .modulo]) ∨
        (x = .error .zeroResult ∧ ms = [.start f]) := by
  refine imprints_status (l := [(.aPtr, a), (.aLength, w), (.bPtr, b), (.bLength, w),
    (.cPtr, Layout.scratchpad)]) (by simp [Register.isOperand]) (by decide) fun status =>
      .ite (.inr ⟨rfl, rfl⟩) ((leaves_invoke (l := [(.aPtr, Layout.scratchpad),
        (.aLength, rawLength w (Status.address status)), (.bPtr, modulus), (.cPtr, result)])
          (by simp [Register.isOperand]) .modulo).imp fun x ms hx => ?_)
  obtain ⟨hx, rfl⟩ := hx
  cases x with
  | ok u => exact .inl ⟨rfl, rfl⟩
  | error e => cases hx

/-- **two functions for each field operation**, whether the raw result is zero or not: the second one
is the remainder or the copy of the constant -/
theorem imprints_field (f : Opcode) (a b result : Nat) :
    (field f w a b result).Imprints fun x ms => x.isOk = true ∧
      (ms = [.start f, .start .modulo] ∨ ms = [.start f, .start .copy]) := by
  refine (imprints_modular w f a b Layout.field result).attempt_bind fun y ms hy => ?_
  obtain ⟨rfl, rfl⟩ | ⟨rfl, rfl⟩ := hy
  · exact ⟨rfl, .inl rfl⟩
  · exact (leaves_copy Layout.null result w).imp fun x ms hx =>
      ⟨hx.1, .inr (congrArg ([.start f] ++ ·) hx.2)⟩

theorem takes_field (f : Opcode) (a b result : Nat) : (field f w a b result).Takes 2 := by
  refine (imprints_field w f a b result).imp fun x ms hx => ⟨hx.1, ?_⟩
  obtain ⟨-, rfl | rfl⟩ := hx <;> rfl

/-- a point operation says why it failed, but for a result at infinity -/
theorem imprints_point (f : Opcode) (a c result : Nat) :
    (point f w a c result).Imprints fun x ms =>
      (x = .ok () ∧ ms = [.start f, .start .copy]) ∨ (x = .error .infinity ∧ ms = [.start f]) ∨
        (x = .error .failed ∧ ∃ shift, ms = [.start f, .log (.pointFailed shift)]) := by
  refine imprints_status (l := [(.aPtr, a), (.aLength, w), (.bPtr, Layout.field), (.bLength, w),
    (.cPtr, c), (.dPtr, Layout.scratchpad)]) (by simp [Register.isOperand]) (by decide) fun shift =>
      .ite (.inr (.inl ⟨rfl, rfl⟩)) (.ite ⟨trivial, fun _ => .inr (.inr ⟨rfl, shift, rfl⟩)⟩
        ((leaves_copy _ _ _).imp fun x ms hx => ?_))
  obtain ⟨hx, rfl⟩ := hx
  cases x with
  | ok u => exact .inl ⟨rfl, rfl⟩
  | error e => cases hx

end
end Program
end CurveEngine
