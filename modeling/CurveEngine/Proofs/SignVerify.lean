import CurveEngine.Proofs.Ecdsa

/-!
# Signing, and then verifying

For sessions whose constants describe a `Domain`:

* `verify_signed`       what signing answers passes verification;
* `verify_of_equation`  which pairs that satisfy the equation of the signature scheme pass;
* `signature_range`     in which ranges the halves of an emitted signature lie.

`r` is an abscissa, below the prime of the field, and it is never reduced modulo the order.  Where
the order is smaller than the prime, an abscissa may be out of the range that verification accepts.
-/

namespace CurveEngine

open Program

namespace Session

theorem signatureBytes_parts {w : Nat} {v : Nat × Nat} (hr : v.1 < 2 ^ (32 * w))
    (hs : v.2 < 2 ^ (32 * w)) :
    (signatureBytes w v).length = 2 * (4 * w) ∧
      Bytes.value ((signatureBytes w v).take (4 * w)) = v.1 ∧
      Bytes.value ((signatureBytes w v).drop (4 * w)) = v.2 := by
  unfold signatureBytes
  have hl := Bytes.length_ofNat w v.1
  refine ⟨?_, ?_, ?_⟩
  · rw [List.length_append, hl, Bytes.length_ofNat]
    omega
  · rw [List.take_left' hl, Bytes.value_ofNat hr]
  · rw [List.drop_left' hl, Bytes.value_ofNat hs]

/-! ## A signature that signing answers -/

variable {D : Domain} {s : Session} {c : NamedCurve}

section
variable (hs : s.Idle) (hc : s.curve = some c)
  (hD : D.Describes (s.engine.memory.constants c.words))
include hs hc hD

/-- **sign and verify**: a signature that signing answers passes verification under the public key
of the private key, in the session that signing leaves, if the hash is not zero modulo the order and
`r` is below it -/
theorem verify_signed {hash key publicKey signature out : Bytes} {d : Drive}
    (hd : 0 < Bytes.value key ∧ Bytes.value key < D.order)
    (hl : publicKey.length = 2 * c.elementBytes)
    (hQ : Bytes.point c.elementBytes publicKey =
      D.curve.coords (Bytes.value key • D.generator))
    (he : ¬ D.order ∣ Bytes.value (Bytes.fit c.elementBytes hash))
    (hsign : s.Yields (.sign hash key out) d (.ok [signature]))
    (hr : Bytes.value (signature.take c.elementBytes) < D.order) :
    (s.after (s.run (.sign hash key out) d).2).Answers (.verify signature hash publicKey)
      (.ok []) := by
  obtain ⟨hh, -, hw, v, block, hv, hout⟩ := of_sign_ok hs hc rfl hD.null hsign
  obtain rfl : signature = signatureBytes c.words v := List.cons.inj hout |>.1
  obtain ⟨hk, ⟨y, hy⟩, hr0, hs', hcast⟩ := Signature.of_attempt hD hv
  obtain ⟨hp, hn⟩ := Domain.lt_two_pow hD
  have hx := D.curve.reduced_coords (Bytes.value block • D.generator)
  rw [hy] at hx
  obtain ⟨hlen, hvr, hvs⟩ := signatureBytes_parts (w := c.words) (v := v) (hx.1.trans hp)
    (hs'.2.trans hn)
  have hvr' : Bytes.value ((signatureBytes c.words v).take c.elementBytes) = v.1 := hvr
  have hvs' : Bytes.value ((signatureBytes c.words v).drop c.elementBytes) = v.2 := hvs
  rw [hvr'] at hr
  have hK : (s.after (s.run (.sign hash key out) d).2).engine.memory.constants c.words =
      s.engine.memory.constants c.words := hw.constants c.words_le (Nat.le_refl _)
  have ha := answers_verify (Idle.after hc hw.ready) hc hK hD.null hh hlen hl
  have hok : Signature.checked (s.engine.memory.constants c.words)
      (Bytes.value (Bytes.fit c.elementBytes hash)) v.1 v.2
      (D.curve.coords (Bytes.value key • D.generator)) = .ok () := by
    rw [Signature.checked_eq_ok_iff hD (D.addOrderOf_smul hd.1 hd.2)]
    refine ⟨⟨hr0, hr⟩, hs', he, y, ?_⟩
    rw [Signature.recovered_eq hk hs' hcast, hy]
  rw [hvr', hvs', hQ, Signature.verdict_of_ok hok] at ha
  exact ha

end

/-! ### The small domain: the private key 2, whose public key is `(10, 9)` -/

/-- the hash 3, signed by the private key 2 -/
def smallSign : Operation := .sign [3] (Bytes.ofNat 6 2) (blank none 48)

/-- the public key of the private key 2 -/
def smallKey : Bytes := signatureBytes 6 (10, 9)

theorem point_smallKey :
    Bytes.point 24 smallKey = Domain.small.curve.coords (2 • Domain.small.generator) := by
  rw [← PrimeCurve.coords_smul]
  decide_cbv

theorem sign_small {k : Nat} {v : Nat × Nat}
    (h : Signature.signed CurveData.small.values 6 3 2 [some (Bytes.ofNat 6 k)] none = .ok v) :
    (small k).Yields smallSign .complete (.ok [signatureBytes 6 v]) := by
  have ha : (small k).Answers smallSign _ :=
    answers_sign (idle_small k) rfl (constants_small k) rfl (by decide) (by decide) (by decide)
  have he : Bytes.value (Bytes.fit NamedCurve.p192.elementBytes [3]) = 3 := by decide
  have hv : Signature.signed CurveData.small.values NamedCurve.p192.words 3 2
      ((small k).source.drop (small k).drawn) (small k).config.retryLimit = .ok v := h
  rw [he, Bytes.value_ofNat (by decide), hv] at ha
  exact ha.complete

theorem verify_small {r t e : Nat} {hash : Bytes} (hh : hash ≠ [])
    (he : Bytes.value (Bytes.fit 24 hash) = e) (hr : r < 2 ^ 192) (ht : t < 2 ^ 192)
    (h : Signature.verdict CurveData.small.values e r t (Bytes.point 24 smallKey) =
      .error .failed) :
    ((small 1).run (.verify (signatureBytes 6 (r, t)) hash smallKey) .complete).1 =
      .ready (.error .failed) := by
  obtain ⟨hl, hvr, hvt⟩ := signatureBytes_parts (w := NamedCurve.p192.words) (v := (r, t)) hr ht
  have ha : (small 1).Answers (.verify _ hash smallKey) _ :=
    answers_verify (idle_small 1) rfl (constants_small 1) rfl hh hl (by decide)
  unfold NamedCurve.elementBytes at ha
  rw [hvr, hvt] at ha
  have hv : Signature.verdict CurveData.small.values
      (Bytes.value (Bytes.fit (4 * NamedCurve.p192.words) hash)) r t
      (Bytes.point (4 * NamedCurve.p192.words) smallKey) = .error .failed := he ▸ h
  rw [hv] at ha
  exact ha.complete.1

theorem signed_small_one :
    Signature.signed CurveData.small.values 6 3 2 [some (Bytes.ofNat 6 1)] none = .ok (6, 1) := by
  decide_cbv

theorem signed_small_two :
    Signature.signed CurveData.small.values 6 3 2 [some (Bytes.ofNat 6 2)] none = .ok (10, 1) := by
  decide_cbv

theorem verify_signed_small :
    ((small 1).after ((small 1).run smallSign .complete).2).Answers
      (.verify (signatureBytes 6 (6, 1)) [3] smallKey) (.ok []) :=
  verify_signed (idle_small 1) rfl (describes_small 1) (by decide) (by decide)
    point_smallKey (by decide) (sign_small signed_small_one) (by decide)

/-! ## A pair that satisfies the equation -/

section
variable (hs : s.Idle) (hc : s.curve = some c)
  (hD : D.Describes (s.engine.memory.constants c.words))
include hs hc hD

/-- **verification and the equation**: for halves in range, a public key of the generator's order
and the recovered point `(x, y)` with `x = r` modulo the order, verification succeeds unless the hash
is zero modulo the order or `x` is not below it -/
theorem verify_of_equation {hash publicKey signature : Bytes} {e r t x y : Nat}
    {Q : D.curve.Group} (hh : hash ≠ []) (hl : signature.length = 2 * c.elementBytes)
    (hl' : publicKey.length = 2 * c.elementBytes)
    (he : Bytes.value (Bytes.fit c.elementBytes hash) = e)
    (hr : Bytes.value (signature.take c.elementBytes) = r)
    (ht : Bytes.value (signature.drop c.elementBytes) = t)
    (hQ : Bytes.point c.elementBytes publicKey = D.curve.coords Q)
    (hord : addOrderOf Q = D.order) (hr' : 0 < r ∧ r < D.order) (ht' : 0 < t ∧ t < D.order)
    (hR : D.curve.coords (D.recovered Q e r t) = .affine x y) (hx : x % D.order = r) :
    s.Answers (.verify signature hash publicKey)
      (if D.order ∣ e ∨ D.order ≤ x then .error .failed else .ok []) := by
  have ha := answers_verify hs hc rfl hD.null hh hl hl'
  rw [he, hr, ht, hQ] at ha
  have hiff := Signature.checked_eq_ok_iff hD hord e r t
  by_cases hf : D.order ∣ e ∨ D.order ≤ x
  · rw [if_pos hf]
    have hne : Signature.checked (s.engine.memory.constants c.words) e r t (D.curve.coords Q) ≠
        .ok () := by
      intro h
      obtain ⟨-, -, hne, y', hy'⟩ := hiff.mp h
      rw [hR, Point.affine.injEq] at hy'
      rcases hf with hf | hf
      · exact hne hf
      · omega
    rw [Signature.verdict_of_ne hne] at ha
    exact ha
  · rw [if_neg hf]
    rw [not_or, Nat.not_le] at hf
    have hok : Signature.checked (s.engine.memory.constants c.words) e r t (D.curve.coords Q) =
        .ok () := by
      refine hiff.mpr ⟨hr', ht', hf.1, y, ?_⟩
      rw [hR, ← hx, Nat.mod_eq_of_lt hf.2]
    rw [Signature.verdict_of_ok hok] at ha
    exact ha

end

theorem recovered_small {e k r t : Nat} (hk : 0 < k ∧ k < 7) (ht : 0 < t ∧ t < 7)
    (h : t * k % 7 = (e + 2 * r) % 7) :
    Domain.small.curve.coords (Domain.small.recovered (2 • Domain.small.generator) e r t) =
      Domain.small.curve.law.smul k (.affine 6 2) := by
  have hk0 : (k : ZMod Domain.small.order) ≠ 0 := by
    rw [Ne, ZMod.natCast_eq_zero_iff]
    exact Nat.not_dvd_of_pos_of_lt hk.1 hk.2
  have hcast := (ZMod.natCast_eq_natCast_iff' _ _ Domain.small.order).mpr h
  rw [Nat.cast_mul, Nat.cast_add, Nat.cast_mul] at hcast
  rw [Signature.recovered_eq hk ht ((eq_div_iff hk0).mpr hcast), ← PrimeCurve.coords_smul]
  rfl

theorem verify_of_equation_small :
    (small 1).Answers (.verify (signatureBytes 6 (6, 1)) [3] smallKey)
      (if 7 ∣ 3 ∨ 7 ≤ 6 then .error .failed else .ok []) :=
  have hR : Domain.small.curve.coords
      (Domain.small.recovered (2 • Domain.small.generator) 3 6 1) = .affine 6 2 :=
    (recovered_small (k := 1) (by decide) (by decide) (by decide)).trans (by decide_cbv)
  have he : Bytes.value (Bytes.fit NamedCurve.p192.elementBytes [3]) = 3 := by decide
  verify_of_equation (idle_small 1) rfl (describes_small 1) (by decide) (by decide) (by decide)
    he (by decide) (by decide) point_smallKey
    (Domain.small.addOrderOf_smul (by decide) (by decide)) (by decide) (by decide) hR (by decide)

/-- two pairs that satisfy the equation and do not pass: one for a hash that is zero, one with the
recovered abscissa 10 -/
theorem verify_small_fails :
    (Domain.small.curve.coords (Domain.small.recovered (2 • Domain.small.generator) 0 6 5) =
        .affine 6 2 ∧
      ((small 1).run (.verify (signatureBytes 6 (6, 5)) [0] smallKey) .complete).1 =
        .ready (.error .failed)) ∧
    Domain.small.curve.coords (Domain.small.recovered (2 • Domain.small.generator) 3 3 1) =
        .affine 10 9 ∧ 10 % 7 = 3 ∧
      ((small 1).run (.verify (signatureBytes 6 (3, 1)) [3] smallKey) .complete).1 =
        .ready (.error .failed) := by
  refine ⟨⟨?_, ?_⟩, ?_, by decide, ?_⟩
  · exact (recovered_small (k := 1) (by decide) (by decide) (by decide)).trans (by decide_cbv)
  · exact verify_small (e := 0) (by decide) (by decide) (by decide) (by decide)
      (by decide_cbv)
  · exact (recovered_small (k := 2) (by decide) (by decide) (by decide)).trans (by decide_cbv)
  · exact verify_small (e := 3) (by decide) (by decide) (by decide) (by decide)
      (by decide_cbv)

/-! ## The ranges of both halves -/

section
variable (hs : s.Idle) (hc : s.curve = some c)
  (hD : D.Describes (s.engine.memory.constants c.words))
include hs hc hD

/-- **the ranges of an emitted signature**: `s` is in range and `r` is not zero; `r` is an abscissa of
a multiple of the generator, and if that is not below the order, verification of the signature fails
for every hash and every public key -/
theorem signature_range {hash key out : Bytes} {outs : List Bytes} {d : Drive}
    (hsign : s.Yields (.sign hash key out) d (.ok outs)) :
    ∃ r t k y, outs = [signatureBytes c.words (r, t)] ∧ 0 < r ∧ (0 < t ∧ t < D.order) ∧
      (0 < k ∧ k < D.order) ∧ D.curve.coords (k • D.generator) = .affine r y ∧
      (D.order ≤ r → ∀ hash' publicKey, hash' ≠ [] → publicKey.length = 2 * c.elementBytes →
        (s.after (s.run (.sign hash key out) d).2).Answers
          (.verify (signatureBytes c.words (r, t)) hash' publicKey) (.error .failed)) := by
  obtain ⟨-, -, hw, v, block, hv, hout⟩ := of_sign_ok hs hc rfl hD.null hsign
  obtain ⟨hk, ⟨y, hy⟩, hr0, ht, -⟩ := Signature.of_attempt hD hv
  refine ⟨v.1, v.2, Bytes.value block, y, hout, hr0, ht, hk, hy, ?_⟩
  intro hlt hash' publicKey hh hl
  obtain ⟨hp, hn⟩ := Domain.lt_two_pow hD
  have hx := D.curve.reduced_coords (Bytes.value block • D.generator)
  rw [hy] at hx
  obtain ⟨hlen, hvr, -⟩ := signatureBytes_parts (w := c.words) (v := v) (hx.1.trans hp)
    (ht.2.trans hn)
  have hvr' : Bytes.value ((signatureBytes c.words v).take c.elementBytes) = v.1 := hvr
  have hK : (s.after (s.run (.sign hash key out) d).2).engine.memory.constants c.words =
      s.engine.memory.constants c.words := hw.constants c.words_le (Nat.le_refl _)
  have ha := answers_verify (Idle.after hc hw.ready) hc hK hD.null hh hlen hl
  have hne : ∀ e t' Q, Signature.checked (s.engine.memory.constants c.words) e v.1 t' Q ≠
      .ok () := by
    intro e t' Q h
    obtain ⟨_, h₁, -⟩ := bind_eq_ok_iff.mp h
    have := (Residue.between_eq_ok_iff.mp h₁).2
    rw [hD.order] at this
    omega
  rw [hvr', Signature.verdict_of_ne (hne _ _ _)] at ha
  exact ha

end

theorem signature_range_small :
    ∃ r t k y, [signatureBytes 6 (10, 1)] = [signatureBytes 6 (r, t)] ∧ 0 < r ∧
      (0 < t ∧ t < 7) ∧ (0 < k ∧ k < 7) ∧
      Domain.small.curve.coords (k • Domain.small.generator) = .affine r y ∧
      (7 ≤ r → ∀ hash' publicKey, hash' ≠ [] → publicKey.length = 2 * 24 →
        ((small 2).after ((small 2).run smallSign .complete).2).Answers
          (.verify (signatureBytes 6 (r, t)) hash' publicKey) (.error .failed)) :=
  signature_range (idle_small 2) rfl (describes_small 2) (sign_small signed_small_two)

/-- a signature is answered whose first half is not below the order -/
theorem sign_small_exceeds :
    (small 2).Yields smallSign .complete (.ok [signatureBytes 6 (10, 1)]) ∧
      ¬ (Bytes.value ((signatureBytes 6 (10, 1)).take 24) < Domain.small.order) :=
  ⟨sign_small signed_small_two, by decide⟩

end Session
end CurveEngine
