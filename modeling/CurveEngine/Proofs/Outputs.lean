import CurveEngine.Proofs.Lockstep
import CurveEngine.Proofs.Stages

/-!
# Output buffers

* `Host.Beside`            two hosts that differ in their output buffers only;
* `Inward.lockstep`        work that writes to no output buffer runs in step on both;
* `Closing.lockstep`       so do writes that end;
* `Operation.lockstep_program`   an operation leaves equal buffers, or the two it found;
* `Operation.withBuffers`  an operation with other output buffers;
* `Session.operate_outputs`   all output buffers are replaced, or none.

Neither what an operation does before it writes nor what it writes depends on what its buffers held.
-/

namespace CurveEngine

/-! ## Hosts with different buffers -/

namespace Host

/-- the hosts differ in their output buffers only, `x` and `y` -/
def Beside (x y : List Bytes) (h₁ h₂ : Host) : Prop := h₁.outputs = x ∧ h₂ = { h₁ with outputs := y }

variable {x y : List Bytes} {h₁ h₂ : Host}

theorem steady_beside (x y : List Bytes) : Steady (Beside x y) where
  busy := fun ⟨_, e⟩ => e ▸ rfl
  listen := fun ⟨h, e⟩ => ⟨h, e ▸ rfl⟩
  tick := fun ⟨h, e⟩ => ⟨h, e ▸ rfl⟩
  enter := fun ⟨h, e⟩ => ⟨h, e ▸ rfl⟩

theorem Beside.answer (h : Beside x y h₁ h₂) {q : Request} (hq : q.fills = false) :
    (h₁.answer q).2 = (h₂.answer q).2 ∧ Beside x y (h₁.answer q).1 (h₂.answer q).1 := by
  obtain ⟨rfl, rfl⟩ := h
  cases q with
  | output t c => cases hq
  | writeMemory offset ws =>
    rw [Host.answer, Host.answer]
    cases h₁.engine.memory.write offset ws with
    | error f => exact ⟨rfl, rfl, rfl⟩
    | ok m => exact ⟨rfl, rfl, rfl⟩
  | _ => exact ⟨rfl, rfl, rfl⟩

/-- two runs are over: they failed and left the buffers, or they left equal ones of these lengths -/
def Filled (x y : List Bytes) : Except Failure Unit → Host → Host → Prop
  | .ok _, h₁, h₂ => h₁ = h₂ ∧ h₁.outputs.map List.length = x.map List.length
  | .error _, h₁, h₂ => Beside x y h₁ h₂

end Host

namespace Program

variable {α : Type} {x y : List Bytes} {h₁ h₂ : Host}

/-! ## Programs -/

/-- **work runs in step on hosts with different buffers**, and leaves both as they were -/
theorem Inward.lockstep {p : Program α} {χ : α → Prop} {φ : Failure → Prop} (hp : p.Inward χ φ)
    (h : Host.Beside x y h₁ h₂) :
    p.Lockstep (Host.Beside x y) (fun _ => Host.Beside x y) h₁ h₂ fun r k₁ k₂ =>
      Host.Beside x y k₁ k₂ ∧ Ending χ φ r := by
  induction p generalizing h₁ h₂ with
  | done a | fail e => exact ⟨h, hp.2⟩
  | ask q next ih =>
    obtain ⟨hq, hn⟩ := hp.of_ask
    obtain ⟨he, hb⟩ := h.answer hq
    cases hr : (h₁.answer q).2 with
    | error f => exact .inr ⟨f, hr, he ▸ hr, hb⟩
    | ok r => exact .inl ⟨r, hr, he ▸ hr, ih r (hn r) hb⟩
  | wait next ih =>
    obtain ⟨rfl, rfl⟩ := h
    exact ⟨⟨rfl, rfl⟩, ih hp (((Host.steady_beside _ _).await _) ⟨rfl, rfl⟩)⟩

theorem Closing.answer {q : Request} {next : q.Reply → Program α} (hp : (ask q next).Closing)
    (hm : h₁.engine.memory = h₂.engine.memory) {k₁ k₂ : Host} {r₁ r₂ : q.Reply}
    (ha₁ : h₁.answer q = (k₁, .ok r₁)) (ha₂ : h₂.answer q = (k₂, .ok r₂)) :
    r₁ = r₂ ∧ k₁.engine.memory = k₂.engine.memory ∧ (next r₁).Closing := by
  cases q with
  | readMemory offset n =>
    rw [Host.answer] at ha₁ ha₂
    obtain ⟨rfl, e₁⟩ := Prod.mk.inj ha₁
    obtain ⟨rfl, e₂⟩ := Prod.mk.inj ha₂
    rw [hm, e₂] at e₁
    cases e₁
    exact ⟨rfl, hm, hp _⟩
  | output t c =>
    obtain ⟨bufs₁, e₁⟩ := h₁.answer_output t c
    obtain ⟨bufs₂, e₂⟩ := h₂.answer_output t c
    rw [ha₁] at e₁
    rw [ha₂] at e₂
    subst e₁ e₂
    exact ⟨rfl, hm, hp _⟩
  | _ => cases hp

/-- writes run in step on hosts with the same memory, if they end -/
theorem Closing.lockstep {p : Program α} {I : Host → Host → Prop}
    {T : Fault → Host → Host → Prop} (hp : p.Closing) {r : Except Failure α} {k₁ k₂ : Host}
    (he₁ : p.Ends h₁ r k₁) (he₂ : p.Ends h₂ r k₂)
    (hm : h₁.engine.memory = h₂.engine.memory) :
    p.Lockstep I T h₁ h₂ fun r' k₁' k₂' => r' = r ∧ k₁' = k₁ ∧ k₂' = k₂ := by
  unfold Ends at he₁ he₂
  induction p generalizing h₁ h₂ with
  | done a =>
    cases he₁
    cases he₂
    exact ⟨rfl, rfl, rfl⟩
  | fail e => cases hp
  | wait next => cases hp
  | ask q next ih =>
    rcases ha₁ : h₁.answer q with ⟨j₁, f₁ | r₁⟩
    · rw [finish_ask_of_error ha₁] at he₁
      cases he₁
    rcases ha₂ : h₂.answer q with ⟨j₂, f₂ | r₂⟩
    · rw [finish_ask_of_error ha₂] at he₂
      cases he₂
    rw [finish_ask_of_ok ha₁] at he₁
    rw [finish_ask_of_ok ha₂] at he₂
    obtain ⟨rfl, hm', hn⟩ := hp.answer hm ha₁ ha₂
    refine .inl ⟨r₁, congrArg Prod.snd ha₁, congrArg Prod.snd ha₂, ?_⟩
    rw [ha₁, ha₂]
    exact ih r₁ hn he₁ he₂ hm'

/-- **work, and then writes over the whole buffers** -/
theorem Inward.lockstep_overwrites {p : Program α} {χ : α → Prop} {φ : Failure → Prop}
    {f : α → Program Unit} (hp : p.Inward χ φ)
    (hf : ∀ a, χ a → (f a).Overwrites (x.map List.length))
    (hy : y.map List.length = x.map List.length) (h : Host.Beside x y h₁ h₂) :
    (p.bind f).Lockstep (Host.Beside x y) (fun _ => Host.Beside x y) h₁ h₂ (Host.Filled x y) := by
  refine Lockstep.bind ((hp.lockstep h).imp fun r k₁ k₂ hr => ?_)
  obtain ⟨⟨rfl, rfl⟩, hr⟩ := hr
  cases r with
  | error e => exact ⟨rfl, rfl⟩
  | ok a =>
    obtain ⟨hc, hz⟩ := hf a hr
    obtain ⟨z, hl, hz⟩ := hz k₁
    have he₁ : (f a).Ends k₁ (.ok ()) { k₁ with outputs := z } := hz k₁.outputs rfl
    have he₂ : (f a).Ends { k₁ with outputs := y } (.ok ()) { k₁ with outputs := z } := hz y hy
    refine (hc.lockstep he₁ he₂ rfl).imp fun r' k₁' k₂' hr => ?_
    obtain ⟨rfl, rfl, rfl⟩ := hr
    exact ⟨rfl, hl⟩

end Program

/-! ## Operations -/

open Program

namespace Operation

/-- **an operation leaves equal buffers behind, or the two it found** -/
theorem lockstep_program (s : Settings) (op : Operation) {y : List Bytes} {h₁ h₂ : Host}
    (hy : y.map List.length = op.buffers.map List.length) (h : Host.Beside op.buffers y h₁ h₂) :
    (op.program s).Lockstep (Host.Beside op.buffers y) (fun _ => Host.Beside op.buffers y) h₁ h₂
      (Host.Filled op.buffers y) := by
  have hrefuse (e : Event) (cause : Failure) : (refuse e cause : Program Unit).Lockstep
      (Host.Beside op.buffers y) (fun _ => Host.Beside op.buffers y) h₁ h₂
        (Host.Filled op.buffers y) := by
    have hp : (refuse e cause : Program Unit).Inward (fun _ => False) (fun _ => True) :=
      .of_refuse trivial
    exact hp.lockstep_overwrites (f := done) (fun _ => False.elim) hy h
  cases hc : s.curve with
  | none =>
    unfold program enabled
    rw [hc]
    exact hrefuse _ _
  | some c =>
    by_cases hs : op.Sized c.elementBytes
    · obtain ⟨α, p, χ, f, e, hp, hf⟩ := exists_stages s c hs
      rw [program_of_sized hc hs, e]
      exact hp.lockstep_overwrites hf hy h
    · obtain ⟨e, he⟩ := program_of_not_sized hc hs
      rw [he]
      exact hrefuse _ _

/-! ## Other output buffers -/

/-- the operation with other output buffers, if they are as many -/
def withBuffers : Operation → List Bytes → Operation
  | compress publicKey _, [out] => compress publicKey out
  | decompress compressed _, [out] => decompress compressed out
  | sign hash privateKey _, [out] => sign hash privateKey out
  | generate _ _, [privateKey, publicKey] => generate privateKey publicKey
  | agree privateKey publicKey _, [out] => agree privateKey publicKey out
  | op, _ => op

section
variable {op : Operation} {bufs : List Bytes}
  (h : bufs.map List.length = op.buffers.map List.length)
include h

theorem buffers_withBuffers : (op.withBuffers bufs).buffers = bufs := by
  cases op with
  | validate | verify => exact (List.map_eq_nil_iff.mp h).symm
  | compress | decompress | sign | agree =>
    obtain ⟨out, rfl, -⟩ := List.map_eq_singleton_iff.mp h
    rfl
  | generate =>
    obtain ⟨privateKey, rest, rfl, -, hrest⟩ := List.map_eq_cons_iff.mp h
    obtain ⟨publicKey, rfl, -⟩ := List.map_eq_singleton_iff.mp hrest
    rfl

theorem program_withBuffers (s : Settings) : (op.withBuffers bufs).program s = op.program s := by
  cases op with
  | validate | verify => rfl
  | compress | decompress | sign | agree =>
    obtain ⟨out, rfl, ho⟩ := List.map_eq_singleton_iff.mp h
    simp only [withBuffers, program, checkLength, ho]
  | generate =>
    obtain ⟨privateKey, rest, rfl, hk, hrest⟩ := List.map_eq_cons_iff.mp h
    obtain ⟨publicKey, rfl, hq⟩ := List.map_eq_singleton_iff.mp hrest
    simp only [withBuffers, program, checkLength, hk, hq]

end

end Operation

/-! ## Sessions -/

namespace Session

theorem run_beside (s : Session) (op : Operation) (d : Drive) {bufs : List Bytes}
    (hb : bufs.map List.length = op.buffers.map List.length) :
    Progress.Meet (fun _ => Host.Beside op.buffers bufs) (fun _ => Host.Beside op.buffers bufs)
      (Host.Filled op.buffers bufs) (s.run op d)
        ((op.program s.settings).drive d (.new s.engine s.drawn bufs)) :=
  (Operation.lockstep_program s.settings op hb ⟨rfl, rfl⟩).drive (Host.steady_beside op.buffers bufs)
    d ⟨rfl, rfl⟩

theorem outputs_of_pending {s : Session} {op : Operation} {d : Drive} {rest : Program Unit}
    {h : Host} (hr : s.run op d = (.pending rest, h)) : h.outputs = op.buffers := by
  obtain ⟨-, hm⟩ := run_beside s op d (rfl : op.buffers.map List.length = _)
  rw [hr] at hm
  exact hm.1

/-- **all or nothing**: whatever is in memory, an operation that fails or is given up leaves its
output buffers as they were; one that ends well replaces them by as many bytes, and every one of
these is the same whatever the buffers held before, like everything else about the run; curve,
settings and random source stay -/
theorem operate_outputs (s : Session) (op : Operation) (d : Drive) :
    ((s.operate op d).1.curve = s.curve ∧ (s.operate op d).1.config = s.config ∧
      (s.operate op d).1.source = s.source) ∧
    (∀ x, (s.operate op d).2 = .ok x →
      (x.outcome ≠ .ok → x.buffers = op.buffers) ∧
        x.buffers.map List.length = op.buffers.map List.length) ∧
    ∀ bufs : List Bytes, bufs.map List.length = op.buffers.map List.length →
      s.operate (op.withBuffers bufs) d = ((s.operate op d).1, (s.operate op d).2.map fun x =>
        if x.outcome = .ok then x else { x with buffers := bufs }) := by
  refine ⟨⟨rfl, rfl, rfl⟩, fun x hx => ?_, fun bufs hb => ?_⟩
  · obtain ⟨-, hm⟩ := run_beside s op d (rfl : op.buffers.map List.length = _)
    unfold operate at hx
    rcases hr : s.run op d with ⟨(e | u) | rest | f, k⟩ <;> rw [hr] at hx hm <;> cases hx
    · exact ⟨fun _ => hm.1, congrArg _ hm.1⟩
    · exact ⟨fun hn => absurd rfl hn, hm.2⟩
    · exact ⟨fun _ => hm.1, congrArg _ hm.1⟩
  · obtain ⟨hp, hm⟩ := run_beside s op d hb
    have hrun : s.run (op.withBuffers bufs) d =
        (op.program s.settings).drive d (.new s.engine s.drawn bufs) := by
      unfold run
      rw [Operation.program_withBuffers hb, Operation.buffers_withBuffers hb]
    unfold operate
    rw [hrun]
    generalize s.run op d = y at hp hm ⊢
    generalize (op.program s.settings).drive d (.new s.engine s.drawn bufs) = y' at hp hm ⊢
    obtain ⟨p, k⟩ := y
    obtain ⟨p', k'⟩ := y'
    obtain rfl : p = p' := hp
    rcases p with (e | u) | rest | f
    · obtain ⟨-, rfl⟩ := hm
      rfl
    · obtain ⟨rfl, -⟩ := hm
      rfl
    · obtain ⟨-, rfl⟩ := hm
      rfl
    · obtain ⟨-, rfl⟩ := hm
      rfl

end Session
end CurveEngine
