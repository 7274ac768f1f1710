import CurveEngine.Proofs.Nonces

/-!
# Which signatures are accepted

For any constants in memory, so for any order and any modulus of the field, prime or not, and for any
public key, on the curve or not:

* `Residue.quotient`         a number divided by another one, modulo a third;
* `Signature.Passes`         the condition under which a signature passes;
* `checked_eq_ok_iff_passes`   the check decides it, although it looks at raw products on its way;
* `Session.verify_decides`   verification succeeds under this condition and fails plainly otherwise.

The check refuses a raw product that is zero.  The inverse of `s` is never zero, nor is `r`, so all it
refuses is a hash that is zero; a hash that is zero only modulo the order is refused later on, because
it takes the generator to infinity.
-/

namespace CurveEngine

namespace Residue

/-- `a / b` modulo `m` -/
def quotient (m a b : Nat) : Nat := ((b : ZMod m)⁻¹ * (a : ZMod m)).val

theorem mod_eq_quotient {m a b i : Nat} (hm : 1 < m) (h : inverted b m = .ok i) :
    i * a % m = quotient m a b := by
  have : NeZero m := ⟨by omega⟩
  obtain ⟨-, rfl⟩ := (inverted_eq_ok_iff hm).mp h
  unfold quotient
  rw [← ZMod.val_natCast, Nat.cast_mul, ZMod.natCast_zmod_val]

theorem inverted_ne_zero {b m : Nat} : inverted b m ≠ .ok 0 := by
  unfold inverted
  dsimp only
  split
  · exact nofun
  · rename_i h
    rw [Ne, Except.ok.injEq]
    exact h

theorem exists_inverted_iff {b m : Nat} (hm : 1 < m) :
    (∃ i, inverted b m = .ok i) ↔ Nat.Coprime b m := by
  simp only [inverted_eq_ok_iff hm, exists_and_left, exists_eq, and_true]

end Residue

theorem Point.exists_of_ne_infinity {P : Point} (h : P ≠ .infinity) : ∃ x y, P = .affine x y := by
  cases P with
  | infinity => exact absurd rfl h
  | affine x y => exact ⟨x, y, rfl⟩

namespace Signature

variable {K : Constants} {e r s : Nat} {Q : Point}

/-- `e / s` times the generator -/
def generatorPart (K : Constants) (e s : Nat) : Point :=
  K.law.smul (Residue.quotient K.order e s) K.generator

/-- `r / s` times the public key -/
def keyPart (K : Constants) (r s : Nat) (Q : Point) : Point :=
  K.law.smul (Residue.quotient K.order r s) Q

/-- the signature `(r, s)` passes for the hash `e` and the public key `Q` -/
structure Passes (K : Constants) (e r s : Nat) (Q : Point) : Prop where
  first : 0 < r ∧ r < K.order
  second : 0 < s ∧ s < K.order
  invertible : Nat.Coprime s K.order
  hash : e ≠ 0
  /-- the coordinates of both points are below the modulus of the field -/
  reduced : K.law.Reduced K.generator ∧ K.law.Reduced Q
  /-- both multiples are points -/
  finite : generatorPart K e s ≠ .infinity ∧ keyPart K r s Q ≠ .infinity
  /-- their sum is one as well, and `r` is its abscissa -/
  abscissa : ∃ y, K.law.add (generatorPart K e s) (keyPart K r s Q) = .affine r y

/-- **the check accepts a signature exactly under the plain condition** -/
theorem checked_eq_ok_iff_passes : checked K e r s Q = .ok () ↔ Passes K e r s Q := by
  rw [checked_eq_ok_iff_points]
  simp only [Weierstrass.multiple?_eq_some_iff, Weierstrass.sum?_eq_some_iff]
  constructor
  · rintro ⟨hr, hs, i, hi, ⟨he, -⟩, P₁, P₂, y, ⟨hG, h₁⟩, ⟨hQ, h₂⟩, -, -, h⟩
    have hn : 1 < K.order := by omega
    rw [Residue.mod_eq_quotient hn hi] at h₁ h₂
    refine ⟨hr, hs, (Residue.exists_inverted_iff hn).mp ⟨i, hi⟩, right_ne_zero_of_mul he, ⟨hG, hQ⟩,
      ⟨?_, ?_⟩, y, ?_⟩
    · exact fun h0 => nomatch h₁.symm.trans h0
    · exact fun h0 => nomatch h₂.symm.trans h0
    · rw [← h, ← h₁, ← h₂]
      rfl
  · rintro ⟨hr, hs, hc, he, ⟨hG, hQ⟩, ⟨hf₁, hf₂⟩, y, h⟩
    have hn : 1 < K.order := by omega
    obtain ⟨i, hi⟩ := (Residue.exists_inverted_iff hn).mpr hc
    have hi0 : i ≠ 0 := fun h0 => Residue.inverted_ne_zero (h0 ▸ hi)
    obtain ⟨x₁, y₁, h₁⟩ := Point.exists_of_ne_infinity hf₁
    obtain ⟨x₂, y₂, h₂⟩ := Point.exists_of_ne_infinity hf₂
    -- multiples of reduced points are reduced, so their sum is not refused
    have hP₁ : K.law.Reduced (.affine x₁ y₁) := h₁ ▸ Weierstrass.reduced_smul _ _ hG
    have hP₂ : K.law.Reduced (.affine x₂ y₂) := h₂ ▸ Weierstrass.reduced_smul _ _ hQ
    refine ⟨hr, hs, i, hi, ⟨Nat.mul_ne_zero hi0 he, Nat.mul_ne_zero hi0 hr.1.ne'⟩,
      (x₁, y₁), (x₂, y₂), y, ⟨hG, ?_⟩, ⟨hQ, ?_⟩, hP₁, hP₂, ?_⟩
    · rw [Residue.mod_eq_quotient hn hi]
      exact h₁
    · rw [Residue.mod_eq_quotient hn hi]
      exact h₂
    · rw [h₁, h₂] at h
      exact h

instance (K : Constants) (e r s : Nat) (Q : Point) : Decidable (Passes K e r s Q) :=
  decidable_of_iff _ checked_eq_ok_iff_passes

theorem verdict_eq (K : Constants) (e r s : Nat) (Q : Point) :
    verdict K e r s Q = if Passes K e r s Q then .ok () else .error .failed := by
  by_cases h : Passes K e r s Q
  · rw [if_pos h]
    exact verdict_of_ok (checked_eq_ok_iff_passes.mpr h)
  · rw [if_neg h]
    exact verdict_of_ne fun hc => h (checked_eq_ok_iff_passes.mp hc)

/-- a signature that passes satisfies the equation of the scheme -/
theorem Passes.equation (h : Passes K e r s Q) :
    ∃ x y, K.law.add (generatorPart K e s) (keyPart K r s Q) = .affine x y ∧ x % K.order = r := by
  obtain ⟨y, hy⟩ := h.abscissa
  exact ⟨r, y, hy, Nat.mod_eq_of_lt h.first.2⟩

end Signature

/-! ## The operation -/

namespace Session

variable {s : Session} {c : NamedCurve} {signature hash publicKey : Bytes}

/-- **what verification answers**, for any constants with a zero among them, any hash that is not
empty, and any signature and public key of the right length: it succeeds if the signature passes, and
fails plainly otherwise; so whenever it succeeds, the abscissa of the sum is `r` modulo the order -/
theorem verify_decides (hs : s.Idle) (hc : s.curve = some c) {K : Constants}
    (hK : s.engine.memory.constants c.words = K) (h0 : K.null = 0) (hh : hash ≠ [])
    (hl : signature.length = 2 * c.elementBytes) (hq : publicKey.length = 2 * c.elementBytes)
    {e r t : Nat} {Q : Point} (he : Bytes.value (Bytes.fit c.elementBytes hash) = e)
    (hr : Bytes.value (signature.take c.elementBytes) = r)
    (ht : Bytes.value (signature.drop c.elementBytes) = t)
    (hQ : Bytes.point c.elementBytes publicKey = Q) :
    s.Answers (.verify signature hash publicKey)
        (if Signature.Passes K e r t Q then .ok [] else .error .failed) ∧
      ∀ d, (s.run (.verify signature hash publicKey) d).1 = .ready (.ok ()) →
        ∃ x y, K.law.add (Signature.generatorPart K e t) (Signature.keyPart K r t Q) =
          .affine x y ∧ x % K.order = r := by
  have ha := answers_verify hs hc hK h0 hh hl hq
  rw [he, hr, ht, hQ, Signature.verdict_eq, apply_ite (Except.map fun _ => ([] : List Bytes))] at ha
  refine ⟨ha, fun d hok => ?_⟩
  by_cases hp : Signature.Passes K e r t Q
  · exact hp.equation
  · rw [if_neg hp] at ha
    rcases ha d with h | ⟨-, h⟩
    · cases hok.symm.trans h.1
    · rw [hok] at h
      cases h

/-- a public key `(0, 1)` that is not on the curve: the pair `(2, 1)` passes for the hash 8, and not for
the hash 7, which is zero modulo the order -/
theorem verify_decides_small :
    (small 1).Answers (.verify (signatureBytes 6 (2, 1)) [8] (signatureBytes 6 (0, 1))) (.ok []) ∧
      (small 1).Answers (.verify (signatureBytes 6 (2, 1)) [7] (signatureBytes 6 (0, 1)))
        (.error .failed) := by
  have h (hash : Bytes) (e : Nat) (hh : hash ≠ [])
      (he : Bytes.value (Bytes.fit NamedCurve.p192.elementBytes hash) = e) :
      (small 1).Answers (.verify (signatureBytes 6 (2, 1)) hash (signatureBytes 6 (0, 1)))
        (if Signature.Passes CurveData.small.values e 2 1 (.affine 0 1) then .ok []
          else .error .failed) :=
    (verify_decides (idle_small 1) rfl (constants_small 1) rfl hh (by decide) (by decide) he
      (by decide) (by decide) (by decide)).1
  have h₁ := h [8] 8 (by decide) (by decide)
  have h₂ := h [7] 7 (by decide) (by decide)
  rw [if_pos (by decide_cbv)] at h₁
  rw [if_neg (by decide_cbv)] at h₂
  exact ⟨h₁, h₂⟩

end Session
end CurveEngine
