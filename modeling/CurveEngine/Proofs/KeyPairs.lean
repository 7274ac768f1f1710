import CurveEngine.Proofs.KeyAgreement
import CurveEngine.Proofs.Latency

/-!
# Which private keys are accepted

For any constants in memory, so for any modulus as the order, any prime and any generator:

* `KeyAgreement.Accepts`, `KeyAgreement.Aborts`   the conditions on a block under which it is a private
                        key, and under which it ends the whole run;
* `attempt_eq_accept_iff`, `attempt_eq_error_iff`, `attempt_eq_reject_iff`   the verdict on a block says
                        the same, and what is left to be rejected;
* `rejects_iff_of_describes`   a generator of prime order has no multiple in range that is infinity;
* `Session.generate_concludes`   generating answers with the first block that is not rejected and its
                        multiple of the generator.
-/

namespace CurveEngine

open Program Sampling

namespace KeyAgreement

variable {K : Constants} {block : Bytes}

/-- the number of the block is above zero and below the order -/
def InRange (K : Constants) (block : Bytes) : Prop :=
  0 < Bytes.value block ∧ Bytes.value block < K.order

instance (K : Constants) : DecidablePred (InRange K) :=
  fun block => inferInstanceAs (Decidable (0 < Bytes.value block ∧ Bytes.value block < K.order))

/-- the block is accepted: it is the private key as it stands, and its multiple of the generator the
public one -/
structure Accepts (K : Constants) (block : Bytes) (v : Bytes × Nat × Nat) : Prop where
  key : v.1 = block
  range : InRange K block
  point : K.law.multiple? (Bytes.value block) K.generator = some (.affine v.2.1 v.2.2)

/-- the block ends the run: it is in range, and the generator is no point over the field -/
structure Aborts (K : Constants) (block : Bytes) (f : Failure) : Prop where
  failure : f = .failed
  range : InRange K block
  generator : ¬ K.law.Reduced K.generator

/-! ## The verdict -/

theorem attempt_of_not_inRange (h : ¬ InRange K block) :
    attempt K block = .ok (.error .keyRange) := if_neg h

theorem attempt_of_inRange (h : InRange K block) :
    attempt K block =
      match K.law.multiple? (Bytes.value block) K.generator with
      | none => .error .failed
      | some .infinity => .ok (.error .keyInfinity)
      | some (.affine x y) => .ok (.ok (block, x, y)) := by
  refine (if_pos h).trans ?_
  match K.law.multiple? (Bytes.value block) K.generator with
  | none => rfl
  | some .infinity => rfl
  | some (.affine x y) => rfl

theorem attempt_eq_accept_iff {v : Bytes × Nat × Nat} :
    attempt K block = .ok (.ok v) ↔ Accepts K block v := by
  by_cases hr : InRange K block
  · rw [attempt_of_inRange hr]
    constructor
    · intro h
      match hm : K.law.multiple? (Bytes.value block) K.generator, h with
      | some (.affine x y), h =>
        cases h
        exact ⟨rfl, hr, hm⟩
    · rintro ⟨rfl, -, hm⟩
      rw [hm]
  · rw [attempt_of_not_inRange hr]
    exact ⟨nofun, fun h => absurd h.range hr⟩

theorem attempt_eq_error_iff {f : Failure} : attempt K block = .error f ↔ Aborts K block f := by
  by_cases hr : InRange K block
  · rw [attempt_of_inRange hr]
    cases hm : K.law.multiple? (Bytes.value block) K.generator with
    | none =>
      have hG := Weierstrass.multiple?_eq_none_iff.mp hm
      exact ⟨fun h => ⟨(Except.error.inj h).symm, hr, hG⟩, fun h => by rw [h.failure]⟩
    | some P =>
      have hG := (Weierstrass.multiple?_eq_some_iff.mp hm).1
      refine ⟨fun h => ?_, fun h => absurd hG h.generator⟩
      cases P with
      | infinity | affine x y => cases h
  · rw [attempt_of_not_inRange hr]
    exact ⟨nofun, fun h => absurd h.range hr⟩

/-- a block is drawn again if it is out of range, or if its multiple of the generator is no key -/
theorem attempt_eq_reject_iff :
    (∃ reason, attempt K block = .ok (.error reason)) ↔
      ¬ InRange K block ∨ K.law.multiple? (Bytes.value block) K.generator = some .infinity := by
  by_cases hr : InRange K block
  · rw [attempt_of_inRange hr, or_iff_right (not_not_intro hr)]
    match K.law.multiple? (Bytes.value block) K.generator with
    | none => exact ⟨nofun, nofun⟩
    | some .infinity => exact ⟨fun _ => rfl, fun _ => ⟨_, rfl⟩⟩
    | some (.affine x y) => exact ⟨nofun, nofun⟩
  · rw [attempt_of_not_inRange hr]
    exact ⟨fun _ => .inl hr, fun _ => ⟨_, rfl⟩⟩

theorem tells (K : Constants) : Tells (Accepts K) (Aborts K) (attempt K) where
  accepts_iff _ _ := attempt_eq_accept_iff.symm
  aborts_iff _ _ := attempt_eq_error_iff.symm

theorem rejects_iff {n : Nat} : Rejects n (Accepts K) (Aborts K) block ↔ block.length = n ∧
    (¬ InRange K block ∨ K.law.multiple? (Bytes.value block) K.generator = some .infinity) :=
  (tells K).rejects_iff.trans (and_congr_right fun _ => attempt_eq_reject_iff)

/-- over a field, a multiple in range of a generator of prime order is not infinity -/
theorem rejects_iff_of_describes {D : Domain} (hD : D.Describes K) {n : Nat} :
    Rejects n (Accepts K) (Aborts K) block ↔ block.length = n ∧ ¬ InRange K block := by
  rw [rejects_iff]
  refine and_congr_right fun _ => or_iff_left_of_imp fun hm hr => ?_
  rw [hD.generator, Domain.multiple?_eq hD, Option.some.injEq,
    PrimeCurve.coords_eq_infinity_iff] at hm
  unfold InRange at hr
  rw [hD.order] at hr
  exact D.smul_ne_zero D.addOrderOf_generator (Residue.cast_ne_zero hr.1 hr.2) hm

/-- the bytes of a public key are its coordinates, which are reduced and so cut nowhere -/
theorem Accepts.point_pointBytes {m : Memory} {w : Nat} {v : Bytes × Nat × Nat}
    (h : Accepts (m.constants w) block v) :
    Bytes.point (4 * w) (pointBytes w v.2) = .affine v.2.1 v.2.2 := by
  obtain ⟨hG, hm⟩ := Weierstrass.multiple?_eq_some_iff.mp h.point
  have hr := Weierstrass.reduced_smul (m.constants w).law (Bytes.value block) hG
  rw [hm] at hr
  have hp : (m.constants w).law.p < 2 ^ (32 * w) := m.element_lt w Layout.field
  exact KeyAgreement.point_pointBytes (hr.1.trans hp) (hr.2.trans hp)

end KeyAgreement

/-! ## The operation -/

namespace Session

open KeyAgreement

variable {s : Session} {c : NamedCurve} {key publicKey : Bytes}

/-- **what generating answers**, for any constants with a zero among them, any random source and any
retry limit.  A block is rejected if it is out of range or its multiple of the generator is infinity,
for a named curve's own constants only if it is out of range.  The blocks are drawn in order: the
answer is the first block that is not rejected, as private key, with its multiple of the generator,
unless the run ends before; in all cases just the entries up to the end of the run are used up. -/
theorem generate_concludes (hs : s.Idle) (hc : s.curve = some c) {K : Constants}
    (hK : s.engine.memory.constants c.words = K) (h0 : K.null = 0)
    (hk : key.length = c.elementBytes) (hq : publicKey.length = 2 * c.elementBytes) :
    (∀ block, Rejects c.elementBytes (Accepts K) (Aborts K) block ↔
      block.length = c.elementBytes ∧ (¬ InRange K block ∨
        K.law.multiple? (Bytes.value block) K.generator = some .infinity)) ∧
    (K = c.data.values → ∀ block, Rejects c.elementBytes (Accepts K) (Aborts K) block ↔
      block.length = c.elementBytes ∧ ¬ InRange K block) ∧
    (∀ block v, Accepts K block v →
      Bytes.point c.elementBytes (pointBytes c.words v.2) = .affine v.2.1 v.2.2) ∧
    ∃ r m, (∀ r' m', Concludes c.elementBytes (Accepts K) (Aborts K) s.config.retryLimit
        (s.source.drop s.drawn) r' m' ↔ r' = r ∧ m' = m) ∧
      s.Answers (.generate key publicKey) (r.map fun v => [v.1, pointBytes c.words v.2]) ∧
      ∀ dr, (s.run (.generate key publicKey) dr).1.settled = true →
        (s.run (.generate key publicKey) dr).2.drawn = s.drawn + m := by
  refine ⟨fun block => rejects_iff, fun hv block => ?_, fun block v h => ?_, ?_⟩
  · subst hv
    exact rejects_iff_of_describes c.describes_values
  · subst hK
    exact h.point_pointBytes
  · -- the outcome of the loop is the one end that its rounds allow
    obtain ⟨h', -, hdrawn, hends⟩ := generate_delivers hs hc hK h0 hk hq
    refine ⟨_, _, fun r' m' => concludes_iff (tells K), answers_of_delivers hends, fun dr hset => ?_⟩
    rw [(yields_of_delivers hends hset).2, hdrawn]
    rfl

/-- P-192 enabled, and two random blocks to come, with the numbers 0 and 1 -/
def redrawn : Session :=
  (new 0 {} [some (Bytes.ofNat 6 0), some (Bytes.ofNat 6 1)]).enable .p192

/-- the first block is out of range, the second one is the private key of the generator itself -/
theorem generate_concludes_redrawn :
    redrawn.Idle ∧ redrawn.engine.memory.constants NamedCurve.p192.words =
        NamedCurve.p192.data.values ∧
      redrawn.Answers (.generate (List.replicate 24 0) (List.replicate 48 0))
        (.ok [Bytes.ofNat 6 1, pointBytes 6 publicOne]) ∧
      (redrawn.run (.generate (List.replicate 24 0) (List.replicate 48 0)) .complete).2.drawn =
        2 := by
  obtain ⟨hs, hc, hK⟩ : redrawn.Equipped .p192 := equipped_enable _ _
  have hl : (List.replicate 24 0 : Bytes).length = NamedCurve.p192.elementBytes := by decide
  have hl' : (List.replicate 48 0 : Bytes).length = 2 * NamedCurve.p192.elementBytes := by decide
  obtain ⟨-, hr, -, r, m, hiff, ha, hd⟩ := generate_concludes hs hc hK rfl hl hl'
  have hzero : ¬ InRange NamedCurve.p192.data.values (Bytes.ofNat 6 0) := by decide
  have hone : Accepts NamedCurve.p192.data.values (Bytes.ofNat 6 1) (Bytes.ofNat 6 1, publicOne) :=
    attempt_eq_accept_iff.mp (by decide +kernel)
  obtain ⟨rfl, rfl⟩ := (hiff (.ok (Bytes.ofNat 6 1, publicOne)) 2).mp <|
    .accepted [Bytes.ofNat 6 0] [] (List.forall_mem_singleton.mpr ((hr rfl _).mpr ⟨by decide, hzero⟩))
      nofun (Bytes.length_ofNat 6 1) hone
  have hdrawn := hd .complete (by rw [ha.complete.1]; rfl)
  rw [show redrawn.drawn = 0 from rfl, Nat.zero_add] at hdrawn
  exact ⟨hs, hK, ha, hdrawn⟩

end Session
end CurveEngine
