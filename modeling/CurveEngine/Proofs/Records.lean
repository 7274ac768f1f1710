import CurveEngine.Proofs.Marks

/-!
# What is recorded, and how often

Every function has a record of its own.  Apart from these the log has one record of an error for an
operation that fails, and none for one that goes on.

* `Marks.Tallies`       functions with their records, so many warnings, errors and draws, and nothing
                        else of these levels;
* `Program.Quiet`       a program that cannot fail and records its functions only;
* `Program.Discreet`    one that also records a failure, unless another draw may avoid it;
* `Program.Candid`      one that fails plainly, if at all, and records that once;
* `candid_degenerate`   what is discreet becomes candid when the other failures are results;
* `Signature.candid_attemptWith`, `KeyAgreement.candid_attemptWith`   the rounds of both sampling
                        operations.

A round turns a failed range check into a rejection before anyone could have recorded it, so the check
itself records nothing, and a failed point operation records why it failed.
-/

namespace CurveEngine

/-- each function has its record, and there are so many warnings, errors and draws -/
structure Marks.Tallies (ms : Marks) (warnings errors draws : Nat) : Prop where
  traced : ms.records .trace = ms.functions
  warned : ms.records .warn = warnings
  erred : ms.records .error = errors
  drawn : ms.draws = draws

namespace Marks.Tallies

variable {ms ms' : Marks} {w e d w' e' d' : Nat}

theorem nil : Tallies [] 0 0 0 := ⟨rfl, rfl, rfl, rfl⟩

theorem start (f : Opcode) : Tallies [.start f] 0 0 0 := ⟨rfl, rfl, rfl, rfl⟩

theorem draw : Tallies [.draw] 0 0 1 := ⟨rfl, rfl, rfl, rfl⟩

theorem warning {ev : Event} (h : ev.level = .warn) : Tallies [.log ev] 1 0 0 := by
  refine ⟨?_, ?_, ?_, rfl⟩ <;> simp [records, functions, Request.record?, Request.starts, h]

theorem error {ev : Event} (h : ev.level = .error) : Tallies [.log ev] 0 1 0 := by
  refine ⟨?_, ?_, ?_, rfl⟩ <;> simp [records, functions, Request.record?, Request.starts, h]

theorem output (t : Slice) (c : Content) : Tallies [.output t c] 0 0 0 := ⟨rfl, rfl, rfl, rfl⟩

theorem append (h : ms.Tallies w e d) (h' : ms'.Tallies w' e' d') :
    (ms ++ ms').Tallies (w + w') (e + e') (d + d') := by
  refine ⟨?_, ?_, ?_, ?_⟩
  · rw [records_append, functions_append, h.traced, h'.traced]
  · rw [records_append, h.warned, h'.warned]
  · rw [records_append, h.erred, h'.erred]
  · rw [draws_append, h.drawn, h'.drawn]

/-- functions in front count for nothing -/
theorem behind (h' : ms'.Tallies w e d) (h : ms.Tallies 0 0 0) : (ms ++ ms').Tallies w e d := by
  simpa only [Nat.zero_add] using h.append h'

/-- and so do writes to output buffers -/
theorem of_fills (h : ∀ q ∈ ms, q.fills = true) : ms.Tallies 0 0 0 := by
  induction ms with
  | nil => exact nil
  | cons q ms ih =>
    obtain ⟨hq, hms⟩ := List.forall_mem_cons.mp h
    cases q with
    | output t c => exact (ih hms).behind (output t c)
    | _ => cases hq

end Marks.Tallies

namespace Program

variable {α β : Type} {p q : Program α} {ms : Marks}

/-- how many errors are to be recorded for a result or a failure -/
def failures : Except Failure α → Nat
  | .ok _ => 0
  | .error _ => 1

/-- the same, where another draw may avoid the failure -/
def hardFailures : Except Failure α → Nat
  | .ok _ => 0
  | .error e => if e.retryable then 0 else 1

/-- the program cannot fail, and nothing but its functions is recorded -/
def Quiet (p : Program α) : Prop := p.Imprints fun x ms => x.isOk = true ∧ ms.Tallies 0 0 0

/-- a failure is plain and recorded, once, unless another draw may avoid it; output buffers stay -/
def Discreet (p : Program α) : Prop :=
  p.Imprints fun x ms => ms.Tallies 0 (hardFailures x) 0 ∧ ms.outputs = 0 ∧
    ∀ e, x = .error e → e.retryable = true ∨ e = .failed

/-- a failure is plain and recorded, once; output buffers stay -/
def Candid (p : Program α) : Prop :=
  p.Imprints fun x ms => ms.Tallies 0 (failures x) 0 ∧ ms.outputs = 0 ∧
    ∀ e, x = .error e → e = .failed

/-! ## Programs in parts -/

namespace Quiet

theorem of_done (a : α) : (done a).Quiet := ⟨rfl, .nil⟩

theorem of_leaves (hp : p.Leaves ms) (h : ms.Tallies 0 0 0) : p.Quiet :=
  hp.imp fun _ _ hx => ⟨hx.1, hx.2 ▸ h⟩

theorem bind {f : α → Program β} (hp : p.Quiet) (hf : ∀ a, (f a).Quiet) : (p.bind f).Quiet := by
  refine Imprints.bind hp (fun a ms ha => (hf a).imp fun x ms' hx => ?_) fun e ms he => ?_
  · exact ⟨hx.1, ha.2.append hx.2⟩
  · cases he.1

end Quiet

namespace Candid

theorem of_done (a : α) : (done a).Candid := ⟨.nil, rfl, nofun⟩

theorem of_leaves (hp : p.Leaves ms) (h : ms.Tallies 0 0 0) (ho : ms.outputs = 0) : p.Candid := by
  refine hp.imp fun x ms' hx => ?_
  obtain ⟨hx, rfl⟩ := hx
  cases x with
  | ok a => exact ⟨h, ho, nofun⟩
  | error e => cases hx

theorem bind {f : α → Program β} (hp : p.Candid) (hf : ∀ a, (f a).Candid) :
    (p.bind f).Candid := by
  refine Imprints.bind hp (fun a ms ha => (hf a).imp fun x ms' hx => ?_) fun e ms he => ?_
  · obtain ⟨ht, ho, -⟩ := ha
    obtain ⟨ht', ho', he⟩ := hx
    exact ⟨ht'.behind ht, by rw [Marks.outputs_append, ho, ho'], he⟩
  · exact ⟨he.1, he.2.1, fun e' h => by cases h; exact he.2.2 e rfl⟩

theorem ite {c : Prop} [Decidable c] (hp : p.Candid) (hq : q.Candid) :
    (if c then p else q).Candid := Imprints.ite hp hq

end Candid

/-! ## Primitives -/

section
open Arithmetic Sampling

variable (w : Nat)

theorem candid_load (bs : Bytes) (offset : Nat) : (load w bs offset).Candid :=
  .of_leaves (leaves_load w bs offset) .nil rfl

theorem candid_compare (a b : Nat) : (Arithmetic.compare w a b).Candid :=
  .of_leaves (leaves_compare w a b) (.start _) rfl

/-- a range check records no failure -/
theorem candid_attempt_checkBetween (x low high : Nat) :
    (checkBetween w x low high).attempt.Candid := by
  refine (imprints_checkBetween w x low high).attempt.imp fun y ms hy => ?_
  obtain ⟨z, rfl, -, rfl | rfl⟩ := hy
  · exact ⟨.start _, rfl, nofun⟩
  · exact ⟨(Marks.Tallies.start .compare).append (.start .compare), rfl, nofun⟩

/-- a raw zero is refused without a record -/
theorem discreet_modular (f : Opcode) (a b modulus result : Nat) :
    (modular f w a b modulus result).Discreet := by
  refine (imprints_modular w f a b modulus result).imp fun x ms hx => ?_
  obtain ⟨rfl, rfl⟩ | ⟨rfl, rfl⟩ := hx
  · exact ⟨(Marks.Tallies.start f).append (.start .modulo), rfl, nofun⟩
  · exact ⟨.start f, rfl, fun e he => by cases he; exact .inl rfl⟩

theorem discreet_invert (number modulus result : Nat) :
    (invert w number modulus result).Discreet := by
  refine (imprints_invert w number modulus result).imp fun x ms hx => ?_
  obtain ⟨rfl, rfl⟩ | ⟨rfl, rfl⟩ := hx
  · exact ⟨(Marks.Tallies.start .invert).append (.start .copy), rfl, nofun⟩
  · exact ⟨.start .invert, rfl, fun e he => by cases he; exact .inl rfl⟩

/-- a point operation that fails says why -/
theorem discreet_point (f : Opcode) (a c result : Nat) : (point f w a c result).Discreet := by
  refine (imprints_point w f a c result).imp fun x ms hx => ?_
  obtain ⟨rfl, rfl⟩ | ⟨rfl, rfl⟩ | ⟨rfl, shift, rfl⟩ := hx
  · exact ⟨(Marks.Tallies.start f).append (.start .copy), rfl, nofun⟩
  · exact ⟨.start f, rfl, fun e he => by cases he; exact .inl rfl⟩
  · exact ⟨(Marks.Tallies.start f).append (.error rfl), rfl,
      fun e he => by cases he; exact .inr rfl⟩

/-- the failures that go unrecorded are results here -/
theorem candid_degenerate {p : Program Unit} (hp : p.Discreet) : (degenerate p).Candid := by
  refine Imprints.attempt_bind hp fun y ms hy => ?_
  obtain ⟨ht, ho, he⟩ := hy
  cases y with
  | ok u => exact ⟨ht.append .nil, by rw [List.append_nil, ho], nofun⟩
  | error e =>
    show (if e.retryable = true then (done true : Program Bool) else fail e).Imprints _
    cases hr : e.retryable with
    | true =>
      rw [hardFailures, if_pos hr] at ht
      exact ⟨ht.append .nil, by rw [List.append_nil, ho], nofun⟩
    | false =>
      rw [hardFailures, if_neg (by rw [hr]; decide)] at ht
      refine ⟨ht.append .nil, by rw [List.append_nil, ho], fun e' h => ?_⟩
      cases h
      exact (he e rfl).resolve_left (by rw [hr]; decide)

end
end Program

/-! ## Rounds -/

open Program Arithmetic Sampling

theorem Signature.candid_attemptWith (w : Nat) (block : Bytes) :
    (attemptWith w block).Candid := by
  have hp {f : Opcode} {a c r : Nat} : (degenerate (Arithmetic.point f w a c r)).Candid :=
    candid_degenerate (discreet_point w _ _ _ _)
  have hm {f : Opcode} {a b m r : Nat} : (degenerate (Arithmetic.modular f w a b m r)).Candid :=
    candid_degenerate (discreet_modular w _ _ _ _ _)
  have hi {a m r : Nat} : (degenerate (Arithmetic.invert w a m r)).Candid :=
    candid_degenerate (discreet_invert w _ _ _)
  refine (candid_load w _ _).bind fun _ =>
    (candid_attempt_checkBetween w _ _ _).bind fun _ => .ite ?_ (.of_done _)
  exact hp.bind fun _ => .ite (.of_done _) <| (candid_compare w _ _).bind fun _ =>
    .ite (.of_done _) <| hm.bind fun _ => .ite (.of_done _) <| (candid_compare w _ _).bind fun _ =>
    .ite (.of_done _) <| hm.bind fun _ => .ite (.of_done _) <| hi.bind fun _ =>
    .ite (.of_done _) <| hm.bind fun _ => .ite (.of_done _) <| (candid_compare w _ _).bind fun _ =>
    .ite (.of_done _) (.of_done _)

theorem KeyAgreement.candid_attemptWith (w : Nat) (block : Bytes) :
    (attemptWith w block).Candid :=
  (candid_load w _ _).bind fun _ => (candid_attempt_checkBetween w _ _ _).bind fun _ =>
    .ite ((candid_degenerate (discreet_point w _ _ _ _)).bind fun _ =>
      .ite (.of_done _) (.of_done _)) (.of_done _)

end CurveEngine
