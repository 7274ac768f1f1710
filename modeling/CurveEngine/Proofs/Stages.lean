import CurveEngine.Proofs.Decompression
import CurveEngine.Proofs.KeyAgreement

/-!
# Operations in two stages

Every operation is work that stays inside the engine's memory, and then writes over its whole output
buffers.

* `Program.Closing`        requests that only read memory and write to output buffers;
* `Program.Overwrites`     such requests that write over every byte, and cannot fail;
* `Operation.Causes`       the causes an operation can fail with once curve and lengths are right;
* `Operation.exists_stages`   the two stages of each operation.

Nothing is waited for in the second stage, so an operation is never given up among its writes.
-/

namespace CurveEngine

namespace Program

open Arithmetic

variable {α β : Type}

/-! ## Writes to the buffers -/

/-- the program reads memory and writes to output buffers, without waiting -/
def Closing : Program α → Prop
  | done _ => True
  | fail _ => False
  | ask (.readMemory _ _) next => ∀ r, (next r).Closing
  | ask (.output _ _) next => ∀ r, (next r).Closing
  | ask _ _ => False
  | wait _ => False

theorem Closing.bind {p : Program α} {f : α → Program β} (hp : p.Closing)
    (hf : ∀ a, (f a).Closing) : (p.bind f).Closing := by
  induction p with
  | done a => exact hf a
  | fail e => cases hp
  | wait next => cases hp
  | ask q next ih =>
    cases q with
    | readMemory | output => exact fun r => ih r (hp r)
    | _ => cases hp

/-- it cannot fail, and leaves nothing behind but its writes -/
theorem Closing.imprints {p : Program α} (hp : p.Closing) :
    p.Imprints fun x ms => x.isOk = true ∧ ∀ q ∈ ms, q.fills = true := by
  induction p with
  | done a => exact ⟨rfl, nofun⟩
  | fail e => cases hp
  | wait next => cases hp
  | ask q next ih =>
    cases q with
    | readMemory offset n => exact ⟨trivial, fun r => ih r (hp r)⟩
    | output t c =>
      exact ⟨trivial, fun r => (ih r (hp r)).imp fun x ms hx =>
        ⟨hx.1, List.forall_mem_cons.mpr ⟨rfl, hx.2⟩⟩⟩
    | _ => cases hp

theorem Takes.of_closing {p : Program α} (hp : p.Closing) : p.Takes 0 := by
  refine hp.imprints.imp fun x ms hx => ⟨hx.1, List.countP_eq_zero.mpr fun q hq => ?_⟩
  have hf := hx.2 q hq
  cases q with
  | output t c => nofun
  | _ => cases hf

theorem Quiet.of_closing {p : Program α} (hp : p.Closing) : p.Quiet :=
  hp.imprints.imp fun _ _ hx => ⟨hx.1, .of_fills hx.2⟩

theorem Closing.isOk_of_ends {p : Program α} (hp : p.Closing) {h h' : Host} {r : Except Failure α}
    (he : p.Ends h r h') : r.isOk = true := by
  obtain ⟨ms, hr, -⟩ := hp.imprints.ends he
  exact hr.1

/-- the program writes over every byte of buffers of these lengths, whatever they hold -/
def Overwrites (lengths : List Nat) (p : Program Unit) : Prop :=
  p.Closing ∧ ∀ h : Host, ∃ z : List Bytes, z.map List.length = lengths ∧
    ∀ bufs : List Bytes, bufs.map List.length = lengths →
      p.Ends { h with outputs := bufs } (.ok ()) { h with outputs := z }

theorem closing_output (t : Slice) (c : Content) : (output t c).Closing := fun _ => trivial

theorem closing_fetch (w o i a : Nat) : (fetch w o i a).Closing := fun _ => closing_output _ _

theorem closing_fetchPoint (w o i : Nat) : (fetchPoint w o i).Closing :=
  (closing_fetch _ _ _ _).bind fun _ => closing_fetch _ _ _ _

/-- the only buffer, of the length of an element -/
theorem overwrites_fetch {w o : Nat} (ho : Memory.Fits o w) :
    (fetch w o 0 0).Overwrites [4 * w] := by
  refine ⟨closing_fetch _ _ _ _, fun h => ⟨[Bytes.ofNat w (h.element w o)], ?_, fun bufs hb => ?_⟩⟩
  · rw [List.map_singleton, Bytes.length_ofNat]
  · obtain ⟨out, rfl, hl⟩ := List.map_eq_singleton_iff.mp hb
    have hbuf : [out].getD 0 [] = [] ++ out ++ [] := (List.append_nil out).symm
    have hf := ends_fetch (h := { h with outputs := [out] }) ho hbuf hl
    rw [List.append_nil] at hf
    exact hf

/-- two elements, one behind the other in the only buffer -/
theorem overwrites_fetchBoth {w o o' : Nat} (ho : Memory.Fits o w) (ho' : Memory.Fits o' w) :
    ((fetch w o 0 0).bind fun _ => fetch w o' 0 (4 * w)).Overwrites [2 * (4 * w)] := by
  refine ⟨.bind (closing_fetch _ _ _ _) fun _ => closing_fetch _ _ _ _, fun h =>
    ⟨[Bytes.ofNat w (h.element w o) ++ Bytes.ofNat w (h.element w o')], ?_, fun bufs hb => ?_⟩⟩
  · rw [List.map_singleton, List.length_append, Bytes.length_ofNat, Bytes.length_ofNat, Nat.two_mul]
  · obtain ⟨out, rfl, hl⟩ := List.map_eq_singleton_iff.mp hb
    exact ends_fetchBoth (h := { h with outputs := [out] }) (i := 0) ho ho' rfl hl

theorem overwrites_done : (done ()).Overwrites [] := by
  refine ⟨trivial, fun h => ⟨[], rfl, fun bufs hb => ?_⟩⟩
  obtain rfl := List.map_eq_nil_iff.mp hb
  rfl

end Program

/-! ## The operations -/

open Program

theorem PublicKey.overwrites_compress {n : Nat} {key : Bytes} (hl : key.length = 2 * n) :
    (compress key).Overwrites [n + 1] := by
  refine ⟨(closing_output _ _).bind fun _ => closing_output _ _, fun h =>
    ⟨[Bytes.compress key], ?_, fun bufs hb => ?_⟩⟩
  · rw [List.map_singleton, Bytes.compress, List.length_cons, List.length_take]
    congr 2
    omega
  · obtain ⟨out, rfl, ho⟩ := List.map_eq_singleton_iff.mp hb
    exact ends_compress (h := { h with outputs := [out] }) hl rfl ho

theorem KeyAgreement.overwrites_outputs {w : Nat} (hw : w ≤ Layout.elementSlot) {block : Bytes}
    (hl : block.length = 4 * w) :
    ((output ⟨0, 0, 4 * w⟩ (.bytes block)).bind fun _ =>
        Arithmetic.fetchPoint w Layout.KeyPair.publicKey 1).Overwrites [4 * w, 2 * (4 * w)] := by
  refine ⟨(closing_output _ _).bind fun _ => closing_fetchPoint _ _ _, fun h =>
    ⟨[block, pointBytes w (h.element w Layout.KeyPair.publicKey,
      h.element w (Layout.KeyPair.publicKey + Layout.coordinateSpace w))], ?_, fun bufs hb => ?_⟩⟩
  · show [block.length, (pointBytes w _).length] = _
    rw [hl, length_pointBytes]
  · obtain ⟨key, rest, rfl, hk, hrest⟩ := List.map_eq_cons_iff.mp hb
    obtain ⟨publicKey, rfl, hq⟩ := List.map_eq_singleton_iff.mp hrest
    exact ends_outputs (h := { h with outputs := [key, publicKey] }) hw hl rfl hk hq

namespace Operation

/-- the causes an operation can fail with when a curve is enabled and all lengths are right -/
def Causes (retryLimit : Option Nat) : Operation → Failure → Prop
  | compress _ _, _ | decompress _ _, _ => False
  | validate _, e | verify _ _ _, e | agree _ _ _, e => e = .failed
  | sign _ _ _, e | generate _ _, e =>
    e = .failed ∨ e = .randomSource ∨ e = .retryLimit ∧ retryLimit.isSome = true

/-- **an operation is work, which fails for its causes only, and writes behind it** -/
theorem exists_stages (s : Settings) (c : NamedCurve) {op : Operation}
    (h : op.Sized c.elementBytes) :
    ∃ (α : Type) (p : Program α) (χ : α → Prop) (f : α → Program Unit), op.work s c = p.bind f ∧
      p.Inward χ (op.Causes s.retryLimit) ∧
        ∀ a, χ a → (f a).Overwrites (op.buffers.map List.length) := by
  have hc := c.words_le
  cases op with
  | validate publicKey =>
    exact ⟨_, _, _, done, (bind_done _).symm, PublicKey.inward_validate c.words publicKey,
      fun _ _ => overwrites_done⟩
  | compress publicKey out =>
    refine ⟨_, done (), fun _ => True, fun _ => PublicKey.compress publicKey, rfl, .of_done trivial,
      fun _ _ => ?_⟩
    show (PublicKey.compress publicKey).Overwrites [out.length]
    rw [h.2]
    exact PublicKey.overwrites_compress h.1
  | decompress compressed out =>
    refine ⟨_, _, _, _, rfl, PublicKey.inward_expand c compressed, fun _ _ => ?_⟩
    show Overwrites [out.length] _
    rw [h.2]
    exact overwrites_fetchBoth (.mono (by decide) hc) (.mono (by decide) hc)
  | sign hash privateKey out =>
    refine ⟨_, _, _, _, rfl, Signature.inward_draft c.words hash privateKey s.source s.retryLimit,
      fun _ _ => ?_⟩
    show Overwrites [out.length] _
    rw [h.2.2]
    exact overwrites_fetchBoth (.mono (by decide) hc) (.mono (by decide) hc)
  | verify signature hash publicKey =>
    exact ⟨_, _, _, done, (bind_done _).symm,
      Signature.inward_verify c.words signature hash publicKey, fun _ _ => overwrites_done⟩
  | generate privateKey publicKey =>
    refine ⟨_, _, _, _, rfl, KeyAgreement.inward_sample c.words s.source s.retryLimit,
      fun _ hb => ?_⟩
    show Overwrites [privateKey.length, publicKey.length] _
    rw [h.1, h.2]
    exact KeyAgreement.overwrites_outputs hc hb
  | agree privateKey publicKey out =>
    refine ⟨_, _, _, _, rfl, KeyAgreement.inward_product c.words privateKey publicKey,
      fun _ _ => ?_⟩
    show Overwrites [out.length] _
    rw [h.2.2]
    exact overwrites_fetch (.mono (by decide) hc)

end Operation
end CurveEngine
