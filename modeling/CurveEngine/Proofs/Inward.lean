import CurveEngine.Operation
import CurveEngine.Proofs.Records

/-!
# Work that stays inside

An operation works in the engine's memory first, and writes to the output buffers when nothing can fail
any more.

* `Program.Inward`     a program that writes to no output buffer, and ends like this;
* `inward_sample`      sampling fails as its rounds do, or because source or limit is at its end;
* `PublicKey.inward_validate` … `KeyAgreement.inward_product`   the work of each operation;
* `Computes.delivers`  what is written behind such work is the result, or the buffers stay.

Zero results and points at infinity are signals between the parts of an operation.  They come out of
`invert`, `modular` and `point` only, and each use of these catches them: a random draw is rejected, a
field result is zero, and a plain failure is left where a caller waits for an answer.
-/

namespace CurveEngine

namespace Program

variable {α β : Type}

/-- the program writes to no output buffer, its results satisfy `χ` and its failures `φ` -/
def Inward (χ : α → Prop) (φ : Failure → Prop) (p : Program α) : Prop :=
  p.Imprints fun x ms => ms.outputs = 0 ∧ Ending χ φ x

variable {p q : Program α} {χ : α → Prop} {χ' : β → Prop} {φ ψ : Failure → Prop}

/-! ## Programs in parts -/

namespace Inward

theorem of_done {a : α} (h : χ a) : (done a).Inward χ φ := ⟨rfl, h⟩

theorem of_refuse {ev : Event} {e : Failure} (h : φ e) : (refuse ev e : Program α).Inward χ φ :=
  ⟨trivial, fun _ => ⟨rfl, h⟩⟩

theorem of_leaves {ms : Marks} (hp : p.Leaves ms) (ho : ms.outputs = 0) :
    p.Inward (fun _ => True) φ := by
  refine hp.imp fun x ms' hx => ?_
  obtain ⟨hx, rfl⟩ := hx
  cases x with
  | ok a => exact ⟨ho, trivial⟩
  | error e => cases hx

theorem of_candid (hp : p.Candid) : p.Inward (fun _ => True) (· = .failed) := by
  refine Imprints.imp hp fun x ms hx => ⟨hx.2.1, ?_⟩
  cases x with
  | ok a => trivial
  | error e => exact hx.2.2 e rfl

theorem imp (hp : p.Inward χ φ) (h : ∀ e, φ e → ψ e) : p.Inward χ ψ := by
  refine Imprints.imp hp fun x ms hx => ⟨hx.1, ?_⟩
  cases x with
  | ok a => exact hx.2
  | error e => exact h e hx.2

theorem bind {f : α → Program β} (hp : p.Inward χ φ) (hf : ∀ a, χ a → (f a).Inward χ' φ) :
    (p.bind f).Inward χ' φ := by
  refine Imprints.bind hp (fun a ms ha => Imprints.imp (hf a ha.2) fun x ms' hx => ⟨?_, hx.2⟩)
    fun e ms he => he
  rw [Marks.outputs_append, ha.1, hx.1]

/-- what is tried goes on with its result or with the cause it failed with -/
theorem attempt_bind {f : Except Failure α → Program β} (hp : p.Inward χ φ)
    (hf : ∀ x, Ending χ φ x → (f x).Inward χ' ψ) : (p.attempt.bind f).Inward χ' ψ := by
  refine Imprints.attempt_bind hp fun x ms hx =>
    Imprints.imp (hf x hx.2) fun y ms' hy => ⟨?_, hy.2⟩
  rw [Marks.outputs_append, hx.1, hy.1]

theorem ite {c : Prop} [Decidable c] (hp : p.Inward χ φ) (hq : q.Inward χ φ) :
    (if c then p else q).Inward χ φ := Imprints.ite hp hq

/-- the first request is no write, and what follows it stays inside -/
theorem of_ask {r : Request} {next : r.Reply → Program α} (hp : (ask r next).Inward χ φ) :
    r.fills = false ∧ ∀ a, (next a).Inward χ φ := by
  refine ⟨?_, fun a => Imprints.imp (hp.2 a) fun x ms hx => ⟨?_, hx.2⟩⟩
  · cases r with
    | output t c =>
      obtain ⟨x, ms, ho, -⟩ := Imprints.exists_ending (hp.2 ())
      rw [Marks.outputs_append, Nat.add_eq_zero_iff] at ho
      exact absurd ho.1 Nat.one_ne_zero
    | _ => rfl
  · exact (Nat.add_eq_zero_iff.mp ((Marks.outputs_append ..).symm.trans hx.1)).2

/-- **a run leaves the output buffers as they were**, and ends as the program does -/
theorem ends (hp : p.Inward χ φ) {h h' : Host} {x : Except Failure α} (he : p.Ends h x h') :
    h'.outputs = h.outputs ∧ Ending χ φ x := by
  obtain ⟨ms, ⟨ho, hx⟩, hm⟩ := Imprints.ends hp he
  exact ⟨hm.outputs ho, hx⟩

end Inward

/-! ## Primitives -/

section
open Arithmetic Sampling

variable (w : Nat)

theorem inward_load (bs : Bytes) (offset : Nat) : (load w bs offset).Inward (fun _ => True) φ :=
  .of_leaves (leaves_load w bs offset) rfl

theorem inward_compare (a b : Nat) : (Arithmetic.compare w a b).Inward (fun _ => True) φ :=
  .of_leaves (leaves_compare w a b) rfl

theorem inward_checkBetween (x low high : Nat) :
    (checkBetween w x low high).Inward (fun _ => True) (· = .failed) := by
  refine (imprints_checkBetween w x low high).imp fun y ms hy => ?_
  obtain ⟨rfl | rfl, rfl | rfl⟩ := hy
  · exact ⟨rfl, trivial⟩
  · exact ⟨rfl, trivial⟩
  · exact ⟨rfl, rfl⟩
  · exact ⟨rfl, rfl⟩

theorem inward_invert (number modulus result : Nat) :
    (invert w number modulus result).Inward (fun _ => True) (· = .zeroResult) := by
  refine (imprints_invert w number modulus result).imp fun x ms hx => ?_
  obtain ⟨rfl, rfl⟩ | ⟨rfl, rfl⟩ := hx
  · exact ⟨rfl, trivial⟩
  · exact ⟨rfl, rfl⟩

theorem inward_modular (f : Opcode) (a b modulus result : Nat) :
    (modular f w a b modulus result).Inward (fun _ => True) (· = .zeroResult) := by
  refine (imprints_modular w f a b modulus result).imp fun x ms hx => ?_
  obtain ⟨rfl, rfl⟩ | ⟨rfl, rfl⟩ := hx
  · exact ⟨rfl, trivial⟩
  · exact ⟨rfl, rfl⟩

theorem inward_field (f : Opcode) (a b result : Nat) :
    (field f w a b result).Inward (fun _ => True) φ := by
  refine (imprints_field w f a b result).imp fun x ms hx => ?_
  obtain ⟨hx, hms⟩ := hx
  cases x with
  | error e => cases hx
  | ok u => exact ⟨by rcases hms with rfl | rfl <;> rfl, trivial⟩

theorem inward_point (f : Opcode) (a c result : Nat) :
    (point f w a c result).Inward (fun _ => True) fun e => e = .infinity ∨ e = .failed := by
  refine (imprints_point w f a c result).imp fun x ms hx => ?_
  obtain ⟨rfl, rfl⟩ | ⟨rfl, rfl⟩ | ⟨rfl, shift, rfl⟩ := hx
  · exact ⟨rfl, trivial⟩
  · exact ⟨rfl, .inl rfl⟩
  · exact ⟨rfl, .inr rfl⟩

/-- the causes sampling can fail with, where its rounds fail plainly -/
def Sampled (budget : Option Nat) (e : Failure) : Prop :=
  e = .failed ∨ e = .randomSource ∨ e = .retryLimit ∧ budget.isSome = true

/-- sampling ends with an accepted result, fails as its rounds do, or is at its end with the source or
the retry limit -/
theorem inward_sample {n : Nat} {round : Bytes → Program (Except Rejection α)}
    (hround : ∀ block, block.length = n →
      (round block).Inward (fun r => ∀ a, r = .ok a → χ a) (· = .failed))
    (source : List Entry) (budget : Option Nat) :
    (sample n round source budget).Inward χ (Sampled budget) := by
  induction source generalizing budget with
  | nil => exact .of_refuse (.inr (.inl rfl))
  | cons entry rest ih =>
    have hdraw : draw.Inward (fun _ => True) (Sampled budget) := ⟨trivial, fun _ => ⟨rfl, trivial⟩⟩
    refine hdraw.bind fun _ _ => ?_
    cases hb : entry.block? n with
    | none => exact .of_refuse (.inr (.inl rfl))
    | some block =>
      obtain ⟨-, hl⟩ := (entry.block?_eq_some_iff n block).mp hb
      refine ((hround block hl).imp fun _ => .inl).bind fun r hr => ?_
      cases r with
      | ok a => exact .of_done (hr a rfl)
      | error reason =>
        have hlog : (log (.rejected reason)).Inward (fun _ => True) (Sampled budget) :=
          ⟨trivial, fun _ => ⟨rfl, trivial⟩⟩
        refine hlog.bind fun _ _ => ?_
        rcases budget with - | - | k
        · exact ih none
        · exact .of_refuse (.inr (.inr ⟨rfl, rfl⟩))
        · exact ih (some k)

end
end Program

/-! ## Operations -/

open Program Arithmetic Sampling

namespace PublicKey

theorem inward_rightHandSide {φ : Failure → Prop} (w x result : Nat) :
    (rightHandSide w x result).Inward (fun _ => True) φ :=
  (inward_field w _ _ _ _).bind fun _ _ => (inward_field w _ _ _ _).bind fun _ _ =>
    (inward_field w _ _ _ _).bind fun _ _ => inward_field w _ _ _ _

theorem inward_validate (w : Nat) (key : Bytes) :
    (validate w key).Inward (fun _ => True) (· = .failed) :=
  (inward_load w _ _).bind fun _ _ => (inward_load w _ _).bind fun _ _ =>
    (inward_checkBetween w _ _ _).bind fun _ _ => (inward_checkBetween w _ _ _).bind fun _ _ =>
      (inward_field w _ _ _ _).bind fun _ _ => (inward_rightHandSide w _ _).bind fun _ _ =>
        (inward_compare w _ _).bind fun _ _ => .ite ⟨rfl, rfl⟩ (.of_done trivial)

theorem inward_rootSteps {φ : Failure → Prop} (w : Nat) (digits : List Bool) :
    (rootSteps w digits).Inward (fun _ => True) φ := by
  induction digits with
  | nil => exact .of_done trivial
  | cons d ds ih =>
    have hd : (rootStep w d).Inward (fun _ => True) φ :=
      (inward_field w _ _ _ _).bind fun _ _ => .ite (inward_field w _ _ _ _) (.of_done trivial)
    exact hd.bind fun _ _ => ih

theorem inward_expand {φ : Failure → Prop} (c : NamedCurve) (compressed : Bytes) :
    (expand c compressed).Inward (fun _ => True) φ :=
  (inward_load _ _ _).bind fun _ _ => (inward_rightHandSide _ _ _).bind fun _ _ =>
    Inward.bind (.of_leaves (leaves_copy _ _ _) rfl) fun _ _ =>
      (inward_rootSteps _ _).bind fun _ _ => Inward.bind (.of_leaves (leaves_lowWord _) rfl)
        fun _ _ => .ite (.of_leaves (leaves_subtract _ _ _ _) rfl) (.of_done trivial)

end PublicKey

namespace Signature

/-- the check fails plainly, or with one of the signals of its parts -/
theorem inward_check (w : Nat) (signature hash publicKey : Bytes) :
    (check w signature hash publicKey).Inward (fun _ => True) fun e => e.hard = .failed := by
  have hb {x low high : Nat} :
      (checkBetween w x low high).Inward (fun _ => True) fun e => e.hard = .failed :=
    (inward_checkBetween w _ _ _).imp fun e he => by rw [he]; rfl
  have hi {a m r : Nat} : (invert w a m r).Inward (fun _ => True) fun e => e.hard = .failed :=
    (inward_invert w _ _ _).imp fun e he => by rw [he]; rfl
  have hm {f : Opcode} {a b m r : Nat} :
      (modular f w a b m r).Inward (fun _ => True) fun e => e.hard = .failed :=
    (inward_modular w _ _ _ _ _).imp fun e he => by rw [he]; rfl
  have hp {f : Opcode} {a c r : Nat} :
      (point f w a c r).Inward (fun _ => True) fun e => e.hard = .failed :=
    (inward_point w _ _ _ _).imp fun e he => by rcases he with he | he <;> rw [he] <;> rfl
  exact Inward.bind (.of_leaves (leaves_loadPoint w _ _) rfl) fun _ _ =>
    (inward_load w _ _).bind fun _ _ => (inward_load w _ _).bind fun _ _ =>
      (inward_load w _ _).bind fun _ _ => hb.bind fun _ _ => hb.bind fun _ _ =>
        hi.bind fun _ _ => hm.bind fun _ _ => hp.bind fun _ _ => hm.bind fun _ _ =>
          hp.bind fun _ _ => hp.bind fun _ _ => (inward_compare w _ _).bind fun _ _ =>
            .ite ⟨rfl, rfl⟩ (.of_done trivial)

theorem inward_verify (w : Nat) (signature hash publicKey : Bytes) :
    (verify w signature hash publicKey).Inward (fun _ => True) (· = .failed) := by
  refine (inward_check w signature hash publicKey).attempt_bind fun x hx => ?_
  cases x with
  | ok u => exact .of_done trivial
  | error e => exact .of_refuse hx

theorem inward_draft (w : Nat) (hash privateKey : Bytes) (source : List Entry)
    (budget : Option Nat) :
    (draft w hash privateKey source budget).Inward (fun _ => True) (Sampled budget) :=
  (inward_load w _ _).bind fun _ _ => (inward_load w _ _).bind fun _ _ =>
    inward_sample (fun block _ => (candid_attemptWith w block).imp fun x ms hx => by
      refine ⟨hx.2.1, ?_⟩
      cases x with
      | ok r => exact fun _ _ => trivial
      | error e => exact hx.2.2 e rfl) source budget

end Signature

namespace KeyAgreement

/-- a block is accepted as it is -/
theorem inward_attemptWith (w : Nat) (block : Bytes) :
    (attemptWith w block).Inward (fun r => ∀ bs, r = .ok bs → bs = block) (· = .failed) := by
  refine (inward_load w _ _).bind fun _ _ =>
    (Inward.of_candid (candid_attempt_checkBetween w _ _ _)).bind fun _ _ =>
      .ite ((Inward.of_candid (candid_degenerate (discreet_point w _ _ _ _))).bind fun _ _ =>
        .ite (.of_done nofun) (.of_done ?_)) (.of_done nofun)
  rintro bs ⟨⟩
  rfl

theorem inward_sample (w : Nat) (source : List Entry) (budget : Option Nat) :
    (sample (4 * w) (attemptWith w) source budget).Inward (fun bs => bs.length = 4 * w)
      (Sampled budget) := by
  refine Program.inward_sample (fun block hl =>
    Imprints.imp (inward_attemptWith w block) fun x ms hx => ?_) source budget
  refine ⟨hx.1, ?_⟩
  cases x with
  | error e => exact hx.2
  | ok r => exact fun bs hbs => (congrArg List.length (hx.2 bs hbs)).trans hl

theorem inward_product (w : Nat) (privateKey publicKey : Bytes) :
    (product w privateKey publicKey).Inward (fun _ => True) (· = .failed) := by
  refine (inward_load w _ _).bind fun _ _ =>
    Inward.bind (.of_leaves (leaves_loadPoint w _ _) rfl) fun _ _ =>
      (inward_point w _ _ _ _).attempt_bind fun x hx => ?_
  cases x with
  | ok u => exact .of_done trivial
  | error e => exact .of_refuse (by rcases hx with rfl | rfl <;> rfl)

end KeyAgreement

/-! ## Results behind the work -/

namespace Program

variable {α β : Type} {p : Program α} {h : Host} {o n : Nat} {x : Except Failure β}
  {post : α → β → Host → Prop} {χ : α → Prop} {φ : Failure → Prop}

/-- **work that is followed by what writes its result** -/
theorem Computes.delivers {f : α → Program Unit} {g : β → List Bytes}
    (hp : p.Computes h o n x post) (hi : p.Inward χ φ)
    (hf : ∀ a b h', h.Writes h' o n → post a b h' → χ a → h'.outputs = h.outputs →
      (f a).Ends h' (.ok ()) { h' with outputs := g b }) :
    ∃ h', h.Writes h' o n ∧ (p.bind f).Delivers h (x.map g) h' := by
  obtain ⟨h', hw, hx⟩ := hp
  cases x with
  | error e => exact ⟨h', hw, hx.bind_error f, (hi.ends hx).1⟩
  | ok b =>
    obtain ⟨a, he, hb⟩ := hx
    obtain ⟨ho, ha⟩ := hi.ends he
    exact ⟨{ h' with outputs := g b }, ⟨⟨hw.ready.powered, hw.ready.idle⟩, hw.word⟩,
      he.bind (hf a b h' hw hb ha ho), rfl⟩

/-- work with no other result than that it did not fail -/
theorem Computes.delivers_same {p : Program Unit} {post : Unit → β → Host → Prop}
    {χ : Unit → Prop} (hp : p.Computes h o n x post) (hi : p.Inward χ φ) :
    ∃ h', h.Writes h' o n ∧ p.Delivers h (x.map fun _ => h.outputs) h' := by
  obtain ⟨h', hw, hx⟩ := hp
  cases x with
  | error e => exact ⟨h', hw, hx, (hi.ends hx).1⟩
  | ok b =>
    obtain ⟨a, he, -⟩ := hx
    exact ⟨h', hw, he, (hi.ends he).1⟩

end Program
end CurveEngine
