import CurveEngine.Proofs.Acceptance
import CurveEngine.Proofs.KeyAgreement

/-!
# Which values signing excludes

For constants that describe a `Domain`, any hash and any private key, also ones that are not below the
order:

* `Signature.generatorPart_eq_keyPart_iff`   when the two points that verification adds are equal;
* `Session.sign_excludes`   what an emitted pair satisfies.

Signing looks at the raw product of `r` and the private key, and compares the hash as it stands with
the reduced product.  Both tests say the same modulo the order if the numbers are below it;
`sign_admits_congruent` is a hash above the order that passes.
-/

namespace CurveEngine

namespace Signature

variable {D : Domain} {K : Constants}

theorem cast_quotient {n a b : Nat} [NeZero n] :
    ((Residue.quotient n a b : Nat) : ZMod n) = (b : ZMod n)⁻¹ * a := ZMod.natCast_zmod_val _

theorem generatorPart_eq (hK : D.Describes K) (e t : Nat) :
    generatorPart K e t = D.curve.coords (Residue.quotient D.order e t • D.generator) := by
  unfold generatorPart
  rw [hK.law, hK.generator, hK.order, PrimeCurve.coords_smul]

theorem keyPart_eq (hK : D.Describes K) (r t : Nat) (Q : D.curve.Group) :
    keyPart K r t (D.curve.coords Q) = D.curve.coords (Residue.quotient D.order r t • Q) := by
  unfold keyPart
  rw [hK.law, hK.order, PrimeCurve.coords_smul]

/-- the two multiples are equal exactly if the hash is the product of the first half and the private
key, modulo the order; the second half cancels -/
theorem generatorPart_eq_keyPart_iff (hK : D.Describes K) {e d r t : Nat}
    (ht : 0 < t ∧ t < D.order) :
    generatorPart K e t = keyPart K r t (D.curve.coords (d • D.generator)) ↔
      e ≡ r * d [MOD D.order] := by
  have : NeZero D.order := ⟨D.order_pos.ne'⟩
  have ht0 : (t : ZMod D.order)⁻¹ ≠ 0 := inv_ne_zero (Residue.cast_ne_zero ht.1 ht.2)
  rw [generatorPart_eq hK, keyPart_eq hK, D.curve.coords_injective.eq_iff, ← mul_smul]
  calc Residue.quotient D.order e t • D.generator =
        (Residue.quotient D.order r t * d) • D.generator
      ↔ ((Residue.quotient D.order e t : Nat) : ZMod D.order) =
          (Residue.quotient D.order r t * d : Nat) := by
        rw [nsmul_eq_nsmul_iff_modEq, D.addOrderOf_generator, ZMod.natCast_eq_natCast_iff]
    _ ↔ (t : ZMod D.order)⁻¹ * e = (t : ZMod D.order)⁻¹ * (r * d) := by
        rw [Nat.cast_mul, cast_quotient, cast_quotient, mul_assoc]
    _ ↔ (e : ZMod D.order) = r * d := mul_right_inj' ht0
    _ ↔ e ≡ r * d [MOD D.order] := by
        rw [← ZMod.natCast_eq_natCast_iff, Nat.cast_mul]

end Signature

namespace Session

variable {D : Domain} {s : Session} {c : NamedCurve}

/-- **what signing excludes**: whenever it answers with the halves `r` and `t`, for the hash `e` and the
private key `d` of any size, the product of `r` and `d` is not zero and not the hash once it is reduced,
its sum with the hash is not zero modulo the order, and neither is `t`.  If neither `r` nor `d` is zero
modulo the order, their product is not; and if the hash is below the order, it is not congruent to the
product, so that verification has two different points to add. -/
theorem sign_excludes (hs : s.Idle) (hc : s.curve = some c)
    (hD : D.Describes (s.engine.memory.constants c.words)) {hash key signature out : Bytes}
    {dr : Drive} (hsign : s.Yields (.sign hash key out) dr (.ok [signature]))
    {e d r t : Nat} (he : Bytes.value (Bytes.fit c.elementBytes hash) = e) (hd : Bytes.value key = d)
    (hr : Bytes.value (signature.take c.elementBytes) = r)
    (ht : Bytes.value (signature.drop c.elementBytes) = t) :
    (r * d ≠ 0 ∧ e ≠ r * d % D.order ∧ ¬ D.order ∣ e + r * d ∧ ¬ D.order ∣ t) ∧
      (¬ D.order ∣ r → ¬ D.order ∣ d → ¬ D.order ∣ r * d) ∧
      (Signature.generatorPart (s.engine.memory.constants c.words) e t =
          Signature.keyPart (s.engine.memory.constants c.words) r t
            (D.curve.coords (d • D.generator)) ↔ e ≡ r * d [MOD D.order]) ∧
      (e < D.order → ¬ e ≡ r * d [MOD D.order] ∧
        Signature.generatorPart (s.engine.memory.constants c.words) e t ≠
          Signature.keyPart (s.engine.memory.constants c.words) r t
            (D.curve.coords (d • D.generator))) := by
  obtain ⟨-, -, -, v, block, hv, hout⟩ := of_sign_ok hs hc rfl hD.null hsign
  obtain rfl : signature = signatureBytes c.words v := (List.cons.inj hout).1
  rw [he, hd] at hv
  obtain ⟨-, ⟨y, hy⟩, -, hrange, -⟩ := Signature.of_attempt hD hv
  have ha := Signature.attempt_eq_accept_iff.mp hv
  -- both halves are short enough to be read back
  obtain ⟨hp, hn⟩ := Domain.lt_two_pow hD
  have hx := D.curve.reduced_coords (Bytes.value block • D.generator)
  rw [hy] at hx
  obtain ⟨-, hvr, hvt⟩ := signatureBytes_parts (hx.1.trans hp) (hrange.2.trans hn)
  obtain rfl : v.1 = r := hvr.symm.trans hr
  obtain rfl : v.2 = t := hvt.symm.trans ht
  have hcomm := Nat.mul_comm d v.1
  have hprod : v.1 * d ≠ 0 := hcomm ▸ ha.product
  have hhash : e ≠ v.1 * d % D.order := hcomm ▸ hD.order ▸ ha.hash
  have hsum : ¬ D.order ∣ e + v.1 * d := fun h =>
    ha.sum (by rw [hcomm, hD.order, Nat.mod_eq_zero_of_dvd h])
  have hsecond : ¬ D.order ∣ v.2 := Nat.not_dvd_of_pos_of_lt hrange.1 hrange.2
  have hiff := Signature.generatorPart_eq_keyPart_iff hD (e := e) (d := d) (r := v.1) hrange
  have hne (hlt : e < D.order) : ¬ e ≡ v.1 * d [MOD D.order] := fun h =>
    hhash (by rw [← Nat.mod_eq_of_lt hlt, h])
  refine ⟨⟨hprod, hhash, hsum, hsecond⟩, ?_, hiff, ?_⟩
  · intro h₁ h₂ h
    exact (D.order_prime.dvd_mul.mp h).elim h₁ h₂
  · intro hlt
    exact ⟨hne hlt, fun h => hne hlt (hiff.mp h)⟩

/-- the pair `(6, 1)` of the hash 3 and the private key 2 -/
theorem sign_excludes_small :
    (small 1).Yields smallSign .complete (.ok [signatureBytes 6 (6, 1)]) ∧
      ¬ Domain.small.order ∣ 3 + 6 * 2 ∧ ¬ Domain.small.order ∣ 6 * 2 ∧
      ¬ 3 ≡ 6 * 2 [MOD Domain.small.order] ∧
      Signature.generatorPart ((small 1).engine.memory.constants NamedCurve.p192.words) 3 1 ≠
        Signature.keyPart ((small 1).engine.memory.constants NamedCurve.p192.words) 6 1
          (Domain.small.curve.coords (2 • Domain.small.generator)) := by
  have hsign := sign_small signed_small_one
  have he : Bytes.value (Bytes.fit NamedCurve.p192.elementBytes [3]) = 3 := by decide
  obtain ⟨⟨-, -, hs, -⟩, hd, -, hl⟩ := sign_excludes (idle_small 1) rfl (describes_small 1) hsign he
    (Bytes.value_ofNat (by decide : 2 < 2 ^ (32 * 6))) (by decide : _ = 6) (by decide : _ = 1)
  exact ⟨hsign, hs, hd (by decide) (by decide), hl (by decide)⟩

theorem sign_keyed {hash key : Bytes} {v : Nat × Nat} (hh : hash ≠ []) (hk : key.length = 24)
    (h : Signature.signed NamedCurve.p192.data.values 6 (Bytes.value (Bytes.fit 24 hash))
      (Bytes.value key) [some (Bytes.ofNat 6 1)] none = .ok v) :
    (keyed 1).Yields (.sign hash key (blank none 48)) .complete (.ok [signatureBytes 6 v]) := by
  obtain ⟨hs, hc, hK⟩ := (serves_keyed 1).ready
  have ha : (keyed 1).Answers (.sign hash key (blank none 48)) _ :=
    answers_sign hs hc hK rfl hh hk (by decide)
  have hv : Signature.signed NamedCurve.p192.data.values NamedCurve.p192.words
      (Bytes.value (Bytes.fit NamedCurve.p192.elementBytes hash)) (Bytes.value key)
      ((keyed 1).source.drop (keyed 1).drawn) (keyed 1).config.retryLimit = .ok v := h
  rw [hv] at ha
  exact ha.complete

/-- the private key whose product with the abscissa of the generator of P-192 is 1 modulo the order -/
def inverseKey : Nat := 0x9674b42867d883b79b7ccaabfcbc7731067444faaad4bdd6

/-- **numbers above the order are not recognized**: with the order and 1 as the hash and a product of 1
the pair is emitted, although hash and product are congruent, and verification adds equal points; and
with the order itself as the private key it is emitted as well -/
theorem sign_admits_congruent :
    ((keyed 1).Yields (.sign (Bytes.ofNat 6 (NamedCurve.p192.data.n + 1)) (Bytes.ofNat 6 inverseKey)
          (blank none 48)) .complete (.ok [signatureBytes 6 (NamedCurve.p192.data.gx, 2)]) ∧
      NamedCurve.p192.data.n + 1 ≡ NamedCurve.p192.data.gx * inverseKey
        [MOD NamedCurve.p192.data.n] ∧
      Signature.generatorPart NamedCurve.p192.data.values (NamedCurve.p192.data.n + 1) 2 =
        Signature.keyPart NamedCurve.p192.data.values NamedCurve.p192.data.gx 2
          (NamedCurve.p192.standard.curve.coords
            (inverseKey • NamedCurve.p192.standard.generator))) ∧
    (keyed 1).Yields (.sign [1] (Bytes.ofNat 6 NamedCurve.p192.data.n) (blank none 48)) .complete
        (.ok [signatureBytes 6 (NamedCurve.p192.data.gx, 1)]) ∧
      NamedCurve.p192.data.n ∣ NamedCurve.p192.data.gx * NamedCurve.p192.data.n := by
  have hcong : NamedCurve.p192.data.n + 1 ≡ NamedCurve.p192.data.gx * inverseKey
      [MOD NamedCurve.p192.data.n] := by decide
  refine ⟨⟨?_, hcong, ?_⟩, ?_, Nat.dvd_mul_left _ _⟩
  · exact sign_keyed (by decide) (by decide) (by decide +kernel)
  · exact (Signature.generatorPart_eq_keyPart_iff NamedCurve.p192.describes_values (by decide)).mpr
      hcong
  · exact sign_keyed (by decide) (by decide) (by decide +kernel)

end Session
end CurveEngine
