import CurveEngine.Proofs.Answers

/-!
# What operations ask for

* `Operation.Sized`      buffers of the lengths an operation asks for;
* `Operation.work`       what an operation does behind its checks;
* `program_of_sized`     with the right lengths the checks are passed, and the work is done;
* `refusal_of_not_sized`, `program_of_not_enabled`   otherwise it is over at once;
* `sized_of_run`         an operation that succeeds had buffers of these lengths.
-/

namespace CurveEngine

open Program

namespace Operation

/-- hash and buffers have the lengths the operation asks for, where elements have `n` bytes -/
def Sized (n : Nat) : Operation → Prop
  | validate publicKey => publicKey.length = 2 * n
  | compress publicKey out => publicKey.length = 2 * n ∧ out.length = n + 1
  | decompress compressed out => compressed.length = n + 1 ∧ out.length = 2 * n
  | sign hash privateKey out => hash ≠ [] ∧ privateKey.length = n ∧ out.length = 2 * n
  | verify signature hash publicKey =>
    signature.length = 2 * n ∧ hash ≠ [] ∧ publicKey.length = 2 * n
  | generate privateKey publicKey => privateKey.length = n ∧ publicKey.length = 2 * n
  | agree privateKey publicKey out =>
    privateKey.length = n ∧ publicKey.length = 2 * n ∧ out.length = n

/-- what an operation does behind its checks -/
def work (s : Settings) (c : NamedCurve) : Operation → Program Unit
  | validate publicKey => PublicKey.validate c.words publicKey
  | compress publicKey _ => PublicKey.compress publicKey
  | decompress compressed _ => PublicKey.decompress c compressed
  | sign hash privateKey _ => Signature.sign c.words hash privateKey s.source s.retryLimit
  | verify signature hash publicKey => Signature.verify c.words signature hash publicKey
  | generate _ _ => KeyAgreement.generate c.words s.source s.retryLimit
  | agree privateKey publicKey _ => KeyAgreement.derive c.words privateKey publicKey

section
variable {s : Settings} {c : NamedCurve} (hc : s.curve = some c) {op : Operation}
include hc

/-- **with the right lengths, an operation is its work** -/
theorem program_of_sized (h : op.Sized c.elementBytes) : op.program s = op.work s c := by
  have hl {bs : Bytes} {n : Nat} (hn : bs.length = n) : checkLength bs n = done () := if_pos hn
  have hh {hash : Bytes} (hn : hash ≠ []) : checkHash hash = done () := if_neg hn
  unfold program enabled
  rw [hc]
  cases op with
  | validate publicKey => simp only [bind_eq, done_bind, hl h, work]
  | compress publicKey out => simp only [bind_eq, done_bind, hl h.1, hl h.2, work]
  | decompress compressed out => simp only [bind_eq, done_bind, hl h.1, hl h.2, work]
  | sign hash privateKey out => simp only [bind_eq, done_bind, hh h.1, hl h.2.1, hl h.2.2, work]
  | verify signature hash publicKey =>
    simp only [bind_eq, done_bind, hl h.1, hh h.2.1, hl h.2.2, work]
  | generate privateKey publicKey => simp only [bind_eq, done_bind, hl h.1, hl h.2, work]
  | agree privateKey publicKey out =>
    simp only [bind_eq, done_bind, hl h.1, hl h.2.1, hl h.2.2, work]

/-- with other lengths it is over before it loads or starts anything, and that is an error -/
theorem refusal_of_not_sized (h : ¬ op.Sized c.elementBytes) :
    ∃ e, e.level = .error ∧ op.program s = Program.refuse e .wrongSize := by
  unfold program enabled
  rw [hc]
  cases op <;> simp only [Sized, not_and_or, not_not] at h <;>
    simp only [Program.bind_eq, Program.done_bind, checkLength, checkHash] <;>
    split_ifs <;> first | exact ⟨_, rfl, rfl⟩ | simp_all

theorem program_of_not_sized (h : ¬ op.Sized c.elementBytes) :
    ∃ e, op.program s = Program.refuse e .wrongSize :=
  (refusal_of_not_sized hc h).imp fun _ => And.right

end

end Operation

namespace Session

variable {s : Session} {op : Operation}

theorem program_of_not_enabled (hc : s.curve = none) :
    op.program s.settings = refuse .noCurve .notEnabled := by
  unfold Operation.program Operation.enabled
  rw [show s.settings.curve = none from hc]
  rfl

theorem program_eq_work {c : NamedCurve} (hc : s.curve = some c) (op : Operation)
    (h : op.Sized c.elementBytes) : op.program s.settings = op.work s.settings c :=
  Operation.program_of_sized hc h

/-- an operation that succeeds had buffers of the lengths it asks for -/
theorem sized_of_run {c : NamedCurve} (hc : s.curve = some c) {d : Drive}
    (h : (s.run op d).1 = .ready (.ok ())) : op.Sized c.elementBytes := by
  by_contra hn
  obtain ⟨e, he⟩ := Operation.program_of_not_sized (s := s.settings) hc hn
  have hr := ends_of_run h
  rw [he] at hr
  obtain ⟨h₁, -⟩ := hr.unique (Program.ends_refuse _ _)
  cases h₁

end Session
end CurveEngine
