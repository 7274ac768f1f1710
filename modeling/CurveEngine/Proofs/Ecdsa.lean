import CurveEngine.Proofs.Signing
import CurveEngine.Proofs.Verification

/-!
# Signatures over a curve of prime order

But for the steps of the check, everything here is about constants in memory that describe a `Domain`.

* `Signature.checked_eq_ok_iff_points`   the steps of the check, for any constants;
* `Signature.checked_eq_ok_iff`   the check in the group of the curve;
* `Signature.of_attempt`          what an accepted nonce says about the pair it gives.
-/

namespace CurveEngine

/-! ## Numbers modulo the order -/

namespace Residue

variable {n : Nat} [hn : Fact n.Prime]

theorem cast_ne_zero {x : Nat} (h0 : 0 < x) (hlt : x < n) : (x : ZMod n) ≠ 0 := by
  rw [Ne, ZMod.natCast_eq_zero_iff]
  intro hd
  exact absurd (Nat.le_of_dvd h0 hd) (by omega)

/-- modulo a prime every number in range has an inverse -/
theorem inverted_eq {a : Nat} (h0 : 0 < a) (hlt : a < n) :
    ∃ i, inverted a n = .ok i ∧ 0 < i ∧ i < n ∧ (i : ZMod n) = (a : ZMod n)⁻¹ := by
  have ha := cast_ne_zero (n := n) h0 hlt
  obtain ⟨i, hi⟩ := inverse?_isSome ha
  have hc := cast_inverse? hi
  have hi0 : i ≠ 0 := by
    intro h
    rw [h, Nat.cast_zero] at hc
    exact inv_ne_zero ha hc.symm
  refine ⟨i, ?_, Nat.pos_of_ne_zero hi0, inverse?_lt hn.out.pos hi, hc⟩
  unfold inverted
  rw [hi]
  exact if_neg hi0

end Residue

theorem Point.regular_eq_ok_iff {R : Option Point} {v : Nat × Nat} :
    Point.regular R = .ok v ↔ R = some (.affine v.1 v.2) := by
  match R with
  | none => exact ⟨fun h => (by cases h), fun h => (by cases h)⟩
  | some .infinity => exact ⟨fun h => (by cases h), fun h => (by cases h)⟩
  | some (.affine x y) =>
    constructor
    · intro h
      cases h
      rfl
    · intro h
      cases h
      rfl

namespace Domain

variable (D : Domain)

/-- multiples depend on the factor modulo the order only -/
theorem smul_congr {P : D.curve.Group} (hP : addOrderOf P = D.order) {j k : Nat}
    (h : (j : ZMod D.order) = k) : j • P = k • P := by
  rw [nsmul_eq_nsmul_iff_modEq, hP]
  exact (ZMod.natCast_eq_natCast_iff _ _ _).mp h

theorem smul_ne_zero {P : D.curve.Group} (hP : addOrderOf P = D.order) {k : Nat}
    (h : (k : ZMod D.order) ≠ 0) : k • P ≠ 0 := by
  intro h0
  apply h
  rw [ZMod.natCast_eq_zero_iff, ← hP]
  exact addOrderOf_dvd_iff_nsmul_eq_zero.mpr h0

theorem addOrderOf_smul {k : Nat} (h0 : 0 < k) (hlt : k < D.order) :
    addOrderOf (k • D.generator) = D.order := by
  have hk := D.smul_ne_zero D.addOrderOf_generator (Residue.cast_ne_zero h0 hlt)
  refine addOrderOf_eq_prime ?_ hk
  rw [smul_comm, ← D.addOrderOf_generator, addOrderOf_nsmul_eq_zero, smul_zero]

/-- the point whose abscissa a signature is compared with -/
def recovered (Q : D.curve.Group) (e r s : Nat) : D.curve.Group :=
  ((e : ZMod D.order) / s).val • D.generator + ((r : ZMod D.order) / s).val • Q

/-- the factor that the check computes, for the inverse `i` of `s` -/
theorem cast_factor {i s : Nat} (hi : (i : ZMod D.order) = (s : ZMod D.order)⁻¹) (e : Nat) :
    ((i * e % D.order : Nat) : ZMod D.order) = ((e : ZMod D.order) / s).val := by
  rw [ZMod.natCast_mod, Nat.cast_mul, hi, ZMod.natCast_zmod_val, div_eq_mul_inv, mul_comm]

variable {D} {K : Constants} (hK : D.Describes K)
include hK

theorem multiple?_eq (k : Nat) (P : D.curve.Group) :
    K.law.multiple? k (D.curve.coords P) = some (D.curve.coords (k • P)) := by
  rw [hK.law]
  unfold Weierstrass.multiple?
  rw [if_pos (D.curve.reduced_coords P), PrimeCurve.coords_smul]

theorem sum?_eq (P Q : D.curve.Group) :
    K.law.sum? (D.curve.coords P) (D.curve.coords Q) = some (D.curve.coords (P + Q)) := by
  rw [hK.law]
  unfold Weierstrass.sum?
  rw [if_pos ⟨D.curve.reduced_coords P, D.curve.reduced_coords Q⟩, PrimeCurve.coords_add]

end Domain

theorem Residue.between_eq_ok_iff {x low high : Nat} {u : Unit} :
    Residue.between x low high = .ok u ↔ low < x ∧ x < high := by
  unfold Residue.between
  split
  · rename_i h
    exact ⟨fun _ => h, fun _ => rfl⟩
  · rename_i h
    exact ⟨fun e => (by cases e), fun e => absurd e h⟩

theorem PrimeCurve.exists_coords_of_ne_zero {C : PrimeCurve} {P : C.Group} (h : P ≠ 0) :
    ∃ x y, C.coords P = .affine x y := by
  cases hc : C.coords P with
  | infinity => exact absurd ((C.coords_eq_infinity_iff P).mp hc) h
  | affine x y => exact ⟨x, y, rfl⟩

theorem PrimeCurve.ne_zero_of_coords {C : PrimeCurve} {P : C.Group} {x y : Nat}
    (h : C.coords P = .affine x y) : P ≠ 0 := by
  intro h0
  rw [h0, PrimeCurve.coords_zero] at h
  cases h

namespace Signature

open Sampling

/-- the steps of the check, with the inverse `i` of `s` and both multiples -/
theorem checked_eq_ok_iff_points {K : Constants} {e r s : Nat} {Q : Point} :
    checked K e r s Q = .ok () ↔
      (0 < r ∧ r < K.order) ∧ (0 < s ∧ s < K.order) ∧
        ∃ i, Residue.inverted s K.order = .ok i ∧ (i * e ≠ 0 ∧ i * r ≠ 0) ∧
          ∃ (P₁ P₂ : Nat × Nat) (y : Nat),
            K.law.multiple? (i * e % K.order) K.generator = some (.affine P₁.1 P₁.2) ∧
            K.law.multiple? (i * r % K.order) Q = some (.affine P₂.1 P₂.2) ∧
            K.law.sum? (.affine P₁.1 P₁.2) (.affine P₂.1 P₂.2) = some (.affine r y) := by
  unfold checked
  simp only [bind_eq_ok_iff, Residue.between_eq_ok_iff, Point.regular_eq_ok_iff]
  constructor
  · rintro ⟨_, hr, _, hs, i, hi, u₁, h₁, P₁, hP₁, u₂, h₂, P₂, hP₂, P, hP, h⟩
    have hn : 0 < K.order := by omega
    obtain ⟨he, rfl⟩ := (Residue.reduced_eq_ok_iff hn).mp h₁
    obtain ⟨hr', rfl⟩ := (Residue.reduced_eq_ok_iff hn).mp h₂
    have hx : P.1 = r := by
      by_contra hne
      rw [if_neg hne] at h
      cases h
    rw [hx] at hP
    exact ⟨hr, hs, i, hi, ⟨he, hr'⟩, P₁, P₂, P.2, hP₁, hP₂, hP⟩
  · rintro ⟨hr, hs, i, hi, ⟨he, hr'⟩, P₁, P₂, y, hP₁, hP₂, hP⟩
    have hn : 0 < K.order := by omega
    exact ⟨(), hr, (), hs, i, hi, _, (Residue.reduced_eq_ok_iff hn).mpr ⟨he, rfl⟩, P₁, hP₁, _,
      (Residue.reduced_eq_ok_iff hn).mpr ⟨hr', rfl⟩, P₂, hP₂, (r, y), hP, if_pos rfl⟩

variable {D : Domain} {K : Constants} (hK : D.Describes K)
include hK

/-- the steps of the check in the group, with the inverse `i` of `s` -/
theorem checked_eq_ok_iff_steps (Q : D.curve.Group) (e r s : Nat) :
    checked K e r s (D.curve.coords Q) = .ok () ↔
      (0 < r ∧ r < D.order) ∧ (0 < s ∧ s < D.order) ∧
        ∃ i, Residue.inverted s D.order = .ok i ∧ (i * e ≠ 0 ∧ i * r ≠ 0) ∧
          ((i * e % D.order) • D.generator ≠ 0 ∧ (i * r % D.order) • Q ≠ 0) ∧
          ∃ y, D.curve.coords ((i * e % D.order) • D.generator + (i * r % D.order) • Q) =
            .affine r y := by
  rw [checked_eq_ok_iff_points, hK.order, hK.generator]
  simp only [Domain.multiple?_eq hK, Option.some.injEq]
  constructor
  · rintro ⟨hr, hs, i, hi, hne, P₁, P₂, y, h₁, h₂, h⟩
    rw [← h₁, ← h₂, Domain.sum?_eq hK, Option.some.injEq] at h
    exact ⟨hr, hs, i, hi, hne,
      ⟨PrimeCurve.ne_zero_of_coords h₁, PrimeCurve.ne_zero_of_coords h₂⟩, y, h⟩
  · rintro ⟨hr, hs, i, hi, hne, ⟨hP₁, hP₂⟩, y, hy⟩
    obtain ⟨x₁, y₁, h₁⟩ := PrimeCurve.exists_coords_of_ne_zero hP₁
    obtain ⟨x₂, y₂, h₂⟩ := PrimeCurve.exists_coords_of_ne_zero hP₂
    refine ⟨hr, hs, i, hi, hne, (x₁, y₁), (x₂, y₂), y, h₁, h₂, ?_⟩
    rw [← h₁, ← h₂, Domain.sum?_eq hK, hy]

/-- **the check in the group**: a signature passes exactly if both halves are in range, the hash is
not zero modulo the order, and `r` is the abscissa of the recovered point, unreduced -/
theorem checked_eq_ok_iff {Q : D.curve.Group} (hQ : addOrderOf Q = D.order) (e r s : Nat) :
    checked K e r s (D.curve.coords Q) = .ok () ↔
      (0 < r ∧ r < D.order) ∧ (0 < s ∧ s < D.order) ∧ ¬ D.order ∣ e ∧
        ∃ y, D.curve.coords (D.recovered Q e r s) = .affine r y := by
  rw [checked_eq_ok_iff_steps hK]
  -- both factors are those of the recovered point, and the second one is never zero
  have hrec : ∀ i : Nat, (i : ZMod D.order) = (s : ZMod D.order)⁻¹ →
      (i * e % D.order) • D.generator + (i * r % D.order) • Q = D.recovered Q e r s := by
    intro i hc
    rw [D.smul_congr D.addOrderOf_generator (D.cast_factor hc e),
      D.smul_congr hQ (D.cast_factor hc r)]
    rfl
  constructor
  · intro h
    obtain ⟨hr, hs, i, hi, -, ⟨hP₁, -⟩, y, hy⟩ := h
    obtain ⟨i', hi', -, -, hc⟩ := Residue.inverted_eq hs.1 hs.2
    obtain rfl : i = i' := Except.ok.inj (hi.symm.trans hi')
    refine ⟨hr, hs, ?_, y, (hrec i hc) ▸ hy⟩
    intro hd
    apply hP₁
    rw [Nat.mod_eq_zero_of_dvd (Dvd.dvd.mul_left hd i), zero_nsmul]
  · intro h
    obtain ⟨hr, hs, he, y, hy⟩ := h
    obtain ⟨i, hi, hi0, hin, hc⟩ := Residue.inverted_eq hs.1 hs.2
    have hne : ∀ x : Nat, ¬ D.order ∣ x → i * x ≠ 0 ∧ ((i * x % D.order : Nat) : ZMod D.order) ≠ 0 := by
      intro x hx
      have hx' : ¬ D.order ∣ i * x := fun hd => ((Nat.Prime.dvd_mul D.order_prime).mp hd).elim
        (fun hd => absurd (Nat.le_of_dvd hi0 hd) (by omega)) hx
      refine ⟨fun h0 => hx' (h0 ▸ dvd_zero _), ?_⟩
      rw [ZMod.natCast_mod, Ne, ZMod.natCast_eq_zero_iff]
      exact hx'
    obtain ⟨e₁, e₂⟩ := hne e he
    obtain ⟨r₁, r₂⟩ := hne r fun hd => absurd (Nat.le_of_dvd hr.1 hd) (by omega)
    exact ⟨hr, hs, i, hi, ⟨e₁, r₁⟩, ⟨D.smul_ne_zero D.addOrderOf_generator e₂,
      D.smul_ne_zero hQ r₂⟩, y, (hrec i hc).symm ▸ hy⟩

/-- what follows an accepted `r`: `s` is `(e + r d) / k` modulo the order, and it is not zero -/
theorem of_secondHalf {e d k r : Nat} {v : Nat × Nat} (hk : 0 < k ∧ k < D.order)
    (h : secondHalf K e d k r = .ok (.ok v)) :
    v.1 = r ∧ (0 < v.2 ∧ v.2 < D.order) ∧
      (v.2 : ZMod D.order) = ((e : ZMod D.order) + d * r) / k := by
  unfold secondHalf at h
  rw [hK.order] at h
  obtain ⟨a, h₁, h⟩ := orReject_eq_accept_iff.mp h
  obtain ⟨-, h⟩ := reject_eq_accept_iff.mp h
  obtain ⟨b, h₂, h⟩ := orReject_eq_accept_iff.mp h
  obtain ⟨i, h₃, h⟩ := orReject_eq_accept_iff.mp h
  obtain ⟨t, h₄, h⟩ := orReject_eq_accept_iff.mp h
  obtain ⟨ht, h⟩ := reject_eq_accept_iff.mp h
  cases h
  obtain ⟨i', hi', -, -, hc⟩ := Residue.inverted_eq hk.1 hk.2
  obtain rfl : i = i' := Except.ok.inj (h₃.symm.trans hi')
  obtain ⟨-, rfl⟩ := (Residue.reduced_eq_ok_iff D.order_pos).mp h₁
  obtain ⟨-, rfl⟩ := (Residue.reduced_eq_ok_iff D.order_pos).mp h₂
  obtain ⟨-, rfl⟩ := (Residue.reduced_eq_ok_iff D.order_pos).mp h₄
  refine ⟨rfl, ⟨Nat.pos_of_ne_zero ht, Nat.mod_lt _ D.order_pos⟩, ?_⟩
  show ((_ % D.order : Nat) : ZMod D.order) = _
  rw [ZMod.natCast_mod, Nat.cast_mul, hc, ZMod.natCast_mod, Nat.cast_add, ZMod.natCast_mod,
    Nat.cast_mul, div_eq_mul_inv, mul_comm]

/-- **an accepted nonce**: `r` is the abscissa of its multiple of the generator, unreduced, and `s`
is `(e + r d) / k` modulo the order; neither is zero -/
theorem of_attempt {e d k : Nat} {v : Nat × Nat} (h : attempt K e d k = .ok (.ok v)) :
    (0 < k ∧ k < D.order) ∧ (∃ y, D.curve.coords (k • D.generator) = .affine v.1 y) ∧ 0 < v.1 ∧
      (0 < v.2 ∧ v.2 < D.order) ∧ (v.2 : ZMod D.order) = ((e : ZMod D.order) + d * v.1) / k := by
  unfold attempt at h
  rw [hK.order, hK.generator] at h
  by_cases hk : 0 < k ∧ k < D.order
  · rw [if_pos hk, orReject_eq_accept_iff] at h
    obtain ⟨P, h₁, h⟩ := h
    obtain ⟨hr, h₂⟩ := reject_eq_accept_iff.mp h
    obtain ⟨hv, hs, hcast⟩ := of_secondHalf hK hk h₂
    rw [Domain.multiple?_eq hK, Point.regular_eq_ok_iff, Option.some.injEq] at h₁
    rw [← hv] at h₁ hr hcast
    exact ⟨hk, ⟨P.2, h₁⟩, Nat.pos_of_ne_zero hr, hs, hcast⟩
  · rw [if_neg hk] at h
    cases h

omit hK in
/-- with the private key of `Q`, the recovered point is the nonce's multiple of the generator -/
theorem recovered_eq {e d k r s : Nat} (hk : 0 < k ∧ k < D.order) (hs : 0 < s ∧ s < D.order)
    (h : (s : ZMod D.order) = ((e : ZMod D.order) + d * r) / k) :
    D.recovered (d • D.generator) e r s = k • D.generator := by
  unfold Domain.recovered
  rw [← mul_smul, ← add_smul]
  apply D.smul_congr D.addOrderOf_generator
  have hk0 := Residue.cast_ne_zero hk.1 hk.2
  have hs0 := Residue.cast_ne_zero hs.1 hs.2
  have hsum : (e : ZMod D.order) + d * r = s * k := by
    rw [h, div_mul_cancel₀ _ hk0]
  rw [Nat.cast_add, Nat.cast_mul, ZMod.natCast_zmod_val, ZMod.natCast_zmod_val]
  rw [div_mul_eq_mul_div, ← add_div, mul_comm (r : ZMod D.order), hsum, mul_div_cancel_left₀ _ hs0]

end Signature
end CurveEngine
