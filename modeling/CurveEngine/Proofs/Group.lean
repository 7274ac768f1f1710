import CurveEngine.Point
import Mathlib.AlgebraicGeometry.EllipticCurve.Affine.Point
import Mathlib.Data.ZMod.Basic
import Mathlib.FieldTheory.Finite.Basic
import Mathlib.Tactic.LinearCombination

/-!
# Chord and tangent on plain numbers are the group of the curve

* `PrimeCurve`           a non-singular curve over a prime field, its coefficients as plain numbers;
* `PrimeCurve.Group`     Mathlib's group of its points;
* `PrimeCurve.coords`    a point of the group in affine form, with coordinates below the prime;
* `coords_add`, `coords_smul`   sums and multiples in the group are `Weierstrass.add` and
                         `Weierstrass.smul` of the coordinates.

The sum has one case for each branch of `Weierstrass.slope?`.  A slope is missing only for opposite
points: two points with one abscissa that are not opposite are equal, so the tangent's denominator
`2 y` is not zero.
-/

namespace CurveEngine

namespace Residue

variable {p : Nat} [hp : Fact p.Prime]

theorem cast_inverse? {y i : Nat} (h : inverse? y p = some i) :
    (i : ZMod p) = (y : ZMod p)⁻¹ := by
  have hm := mul_inverse? hp.out.pos h
  have e : ((i * y : Nat) : ZMod p) = ((1 : Nat) : ZMod p) :=
    (ZMod.natCast_eq_natCast_iff' _ _ p).mpr hm
  rw [Nat.cast_mul, Nat.cast_one] at e
  exact eq_inv_of_mul_eq_one_left e

theorem inverse?_isSome {y : Nat} (h : (y : ZMod p) ≠ 0) : ∃ i, inverse? y p = some i := by
  cases hi : inverse? y p with
  | some i => exact ⟨i, rfl⟩
  | none =>
    have hg := (inverse?_eq_none_iff y p).mp hi
    rw [Ne, ZMod.natCast_eq_zero_iff] at h
    exact absurd (Nat.coprime_comm.mp (hp.out.coprime_iff_not_dvd.mpr h)) hg

end Residue

/-- a non-singular curve `y ^ 2 = x ^ 3 + a x + b` over the field of `p` elements -/
structure PrimeCurve where
  p : Nat
  /-- not necessarily below `p` -/
  a : Nat
  b : Nat
  prime : p.Prime
  /-- modulo 2 every such curve is singular -/
  two_lt : 2 < p
  nonsingular : ¬ p ∣ 4 * a ^ 3 + 27 * b ^ 2

namespace PrimeCurve

variable (C : PrimeCurve)

instance : Fact C.p.Prime := ⟨C.prime⟩

def law : Weierstrass := ⟨C.p, C.a⟩

/-- the curve over the residues modulo `p` -/
def equation : WeierstrassCurve.Affine (ZMod C.p) := ⟨0, 0, 0, C.a, C.b⟩

abbrev Group : Type := C.equation.Point

/-- a point of the group in affine form -/
def coords : C.Group → Point
  | .zero => .infinity
  | .some x y _ => .affine x.val y.val

@[simp] theorem law_p : C.law.p = C.p := rfl
@[simp] theorem law_a : C.law.a = C.a := rfl
@[simp] theorem coords_zero : C.coords 0 = .infinity := rfl

theorem coords_some {x y : ZMod C.p} (h : C.equation.Nonsingular x y) :
    C.coords (.some x y h) = .affine x.val y.val := rfl

theorem pos : 0 < C.p := C.prime.pos

theorem reduced_coords (P : C.Group) : C.law.Reduced (C.coords P) := by
  cases P with
  | zero => trivial
  | some x y h => exact ⟨x.val_lt, y.val_lt⟩

theorem coords_injective : Function.Injective C.coords := by
  intro P Q h
  cases P with
  | zero =>
    cases Q with
    | zero => rfl
    | some x y hQ => cases h
  | some x y hP =>
    cases Q with
    | zero => cases h
    | some x' y' hQ =>
      rw [coords_some, coords_some, Point.affine.injEq] at h
      obtain ⟨hx, hy⟩ := h
      have ex := ZMod.val_injective _ hx
      have ey := ZMod.val_injective _ hy
      subst ex ey
      rfl

theorem coords_eq_infinity_iff (P : C.Group) : C.coords P = .infinity ↔ P = 0 :=
  ⟨fun h => C.coords_injective (h.trans C.coords_zero.symm), fun h => by rw [h, coords_zero]⟩

/-! ## Points on the curve -/

theorem negY_eq (x y : ZMod C.p) : C.equation.negY x y = -y := by
  simp [equation, WeierstrassCurve.Affine.negY]

theorem equation_iff (x y : ZMod C.p) :
    C.equation.Equation x y ↔ y ^ 2 = x ^ 3 + C.a * x + C.b := by
  rw [WeierstrassCurve.Affine.equation_iff]
  simp [equation]

theorem discriminant_ne_zero : C.equation.Δ ≠ 0 := by
  have h : ((4 * C.a ^ 3 + 27 * C.b ^ 2 : Nat) : ZMod C.p) ≠ 0 := by
    rw [Ne, ZMod.natCast_eq_zero_iff]
    exact C.nonsingular
  have h16 : ((16 : Nat) : ZMod C.p) ≠ 0 := by
    rw [Ne, ZMod.natCast_eq_zero_iff]
    intro hd
    have h2 : C.p ∣ 2 := C.prime.dvd_of_dvd_pow (show C.p ∣ 2 ^ 4 from hd)
    have := Nat.le_of_dvd (by decide) h2
    have := C.two_lt
    omega
  have e : C.equation.Δ =
      -(((16 : Nat) : ZMod C.p) * ((4 * C.a ^ 3 + 27 * C.b ^ 2 : Nat) : ZMod C.p)) := by
    simp only [equation, WeierstrassCurve.Δ, WeierstrassCurve.b₂, WeierstrassCurve.b₄,
      WeierstrassCurve.b₆, WeierstrassCurve.b₈]
    push_cast
    ring
  rw [e]
  exact neg_ne_zero.mpr (mul_ne_zero h16 h)

theorem nonsingular_iff (x y : ZMod C.p) :
    C.equation.Nonsingular x y ↔ y ^ 2 = x ^ 3 + C.a * x + C.b := by
  rw [← C.equation_iff,
    WeierstrassCurve.Affine.equation_iff_nonsingular_of_Δ_ne_zero C.discriminant_ne_zero]

/-- the points of the group are the reduced solutions of the equation -/
theorem exists_coords_eq {x y : Nat} (hx : x < C.p) (hy : y < C.p)
    (h : y ^ 2 % C.p = (x ^ 3 + C.a * x + C.b) % C.p) : ∃ P, C.coords P = .affine x y := by
  have e : (y : ZMod C.p) ^ 2 = (x : ZMod C.p) ^ 3 + C.a * x + C.b := by
    have := (ZMod.natCast_eq_natCast_iff' _ _ C.p).mpr h
    push_cast at this
    exact this
  refine ⟨.some (x : ZMod C.p) (y : ZMod C.p) ((C.nonsingular_iff _ _).mpr e), ?_⟩
  rw [coords_some, ZMod.val_natCast_of_lt hx, ZMod.val_natCast_of_lt hy]

/-! ## Residues -/

theorem cast_mul (x y : Nat) : ((C.law.mul x y : Nat) : ZMod C.p) = x * y := by
  show ((x * y % C.p : Nat) : ZMod C.p) = _
  rw [ZMod.natCast_mod, Nat.cast_mul]

theorem cast_sub {x y : Nat} (h : y ≤ C.p) : ((C.law.sub x y : Nat) : ZMod C.p) = x - y := by
  show (((x + C.p - y) % C.p : Nat) : ZMod C.p) = _
  rw [ZMod.natCast_mod, Nat.cast_sub (by omega), Nat.cast_add, ZMod.natCast_self, add_zero]

/-- a quotient by a residue that is not zero -/
theorem div?_eq {x y : Nat} (h : (y : ZMod C.p) ≠ 0) :
    ∃ s, C.law.div? x y = some s ∧ (s : ZMod C.p) = x / y := by
  obtain ⟨i, hi⟩ := Residue.inverse?_isSome h
  refine ⟨C.law.mul x i, ?_, ?_⟩
  · show (Residue.inverse? y C.p).map (C.law.mul x) = _
    rw [hi]
    rfl
  · rw [cast_mul, Residue.cast_inverse? hi, div_eq_mul_inv]

/-! ## Sums -/

variable {C}

theorem coords_third {x₁ y₁ x₂ y₂ : ZMod C.p} {h₁ : C.equation.Nonsingular x₁ y₁}
    {h₂ : C.equation.Nonsingular x₂ y₂} (hxy : ¬(x₁ = x₂ ∧ y₁ = C.equation.negY x₂ y₂)) {s : Nat}
    (hs : (s : ZMod C.p) = C.equation.slope x₁ x₂ y₁ y₂) :
    C.law.third s x₁.val y₁.val x₂.val = C.coords (.some x₁ y₁ h₁ + .some x₂ y₂ h₂) := by
  have le₁ := x₁.val_lt.le
  have le₂ := x₂.val_lt.le
  have le₃ := y₁.val_lt.le
  have lt_sub : ∀ u v, C.law.sub u v < C.p := fun u v => Nat.mod_lt _ C.pos
  have cx : ((C.law.sub (C.law.sub (C.law.mul s s) x₁.val) x₂.val : Nat) : ZMod C.p)
      = s * s - x₁ - x₂ := by
    rw [C.cast_sub le₂, C.cast_sub le₁, cast_mul, ZMod.natCast_zmod_val, ZMod.natCast_zmod_val]
  rw [WeierstrassCurve.Affine.Point.add_some hxy, coords_some]
  show Point.affine _ _ = _
  rw [Point.affine.injEq]
  constructor
  · rw [← ZMod.val_natCast_of_lt (lt_sub (C.law.sub (C.law.mul s s) x₁.val) x₂.val), cx, hs]
    congr 1
    simp only [WeierstrassCurve.Affine.addX, equation]
    ring
  · rw [← ZMod.val_natCast_of_lt (lt_sub (C.law.mul s _) y₁.val), C.cast_sub le₃, cast_mul,
      C.cast_sub (lt_sub _ _).le, cx, hs, ZMod.natCast_zmod_val, ZMod.natCast_zmod_val]
    congr 1
    simp only [WeierstrassCurve.Affine.addY, WeierstrassCurve.Affine.negAddY,
      WeierstrassCurve.Affine.addX, WeierstrassCurve.Affine.negY, equation]
    ring

/-- the slope of the line through two points that are not opposite -/
theorem slope?_eq {x₁ y₁ x₂ y₂ : ZMod C.p} (h₁ : C.equation.Nonsingular x₁ y₁)
    (h₂ : C.equation.Nonsingular x₂ y₂) (hxy : ¬(x₁ = x₂ ∧ y₁ = C.equation.negY x₂ y₂)) :
    ∃ s, C.law.slope? x₁.val y₁.val x₂.val y₂.val = some s ∧
      (s : ZMod C.p) = C.equation.slope x₁ x₂ y₁ y₂ := by
  by_cases hx : x₁ = x₂
  · subst hx
    have hy : y₁ ≠ C.equation.negY x₁ y₂ := fun h => hxy ⟨rfl, h⟩
    have e : y₁ = y₂ := WeierstrassCurve.Affine.Y_eq_of_Y_ne h₁.1 h₂.1 rfl hy
    subst e
    rw [negY_eq] at hy
    have h2 : y₁ + y₁ ≠ 0 := fun h => hy (eq_neg_of_add_eq_zero_left h)
    have hc : (((y₁.val + y₁.val) % C.p : Nat) : ZMod C.p) = y₁ + y₁ := by
      rw [ZMod.natCast_mod, Nat.cast_add, ZMod.natCast_zmod_val]
    have hn : ¬ (y₁.val + y₁.val) % C.p = 0 := fun h => h2 (by rw [← hc, h, Nat.cast_zero])
    obtain ⟨s, hs, es⟩ := C.div?_eq (x := (C.law.mul 3 (C.law.mul x₁.val x₁.val) + C.law.a) % C.p)
      (by rw [hc]; exact h2)
    refine ⟨s, ?_, ?_⟩
    · unfold Weierstrass.slope?
      rw [if_pos rfl, law_p, if_neg hn, hs]
    · rw [es, hc, ZMod.natCast_mod, Nat.cast_add, cast_mul, cast_mul, ZMod.natCast_zmod_val, law_a,
        WeierstrassCurve.Affine.slope_of_Y_ne rfl (by rw [negY_eq]; exact hy), negY_eq]
      simp only [equation]
      congr 1
      · push_cast
        ring
      · ring
  · have hv : ¬ x₁.val = x₂.val := fun h => hx (ZMod.val_injective _ h)
    have hc : ((C.law.sub x₂.val x₁.val : Nat) : ZMod C.p) = x₂ - x₁ := by
      rw [C.cast_sub x₁.val_lt.le, ZMod.natCast_zmod_val, ZMod.natCast_zmod_val]
    have hn : x₂ - x₁ ≠ 0 := sub_ne_zero.mpr (Ne.symm hx)
    obtain ⟨s, hs, es⟩ := C.div?_eq (x := C.law.sub y₂.val y₁.val) (by rw [hc]; exact hn)
    refine ⟨s, ?_, ?_⟩
    · unfold Weierstrass.slope?
      rw [if_neg hv, hs]
    · rw [es, hc, C.cast_sub y₁.val_lt.le, ZMod.natCast_zmod_val, ZMod.natCast_zmod_val,
        WeierstrassCurve.Affine.slope_of_X_ne hx, ← neg_sub y₁ y₂, ← neg_sub x₁ x₂, neg_div_neg_eq]

/-- opposite points have no slope -/
theorem slope?_neg {x y₁ y₂ : ZMod C.p} (h : y₁ = -y₂) :
    C.law.slope? x.val y₁.val x.val y₂.val = none := by
  have hc : ((y₁.val + y₂.val : Nat) : ZMod C.p) = 0 := by
    rw [Nat.cast_add, ZMod.natCast_zmod_val, ZMod.natCast_zmod_val, h, neg_add_cancel]
  have hz : (y₁.val + y₂.val) % C.p = 0 :=
    Nat.mod_eq_zero_of_dvd ((ZMod.natCast_eq_zero_iff _ _).mp hc)
  unfold Weierstrass.slope?
  rw [if_pos rfl, law_p, if_pos hz]

/-- **sums in the group are sums of coordinates** -/
theorem coords_add (P Q : C.Group) : C.law.add (C.coords P) (C.coords Q) = C.coords (P + Q) := by
  cases P with
  | zero =>
    show C.law.add .infinity _ = C.coords (0 + Q)
    rw [zero_add, Weierstrass.infinity_add]
  | some x₁ y₁ h₁ =>
    cases Q with
    | zero =>
      show C.law.add _ .infinity = C.coords (.some x₁ y₁ h₁ + 0)
      rw [add_zero, Weierstrass.add_infinity]
    | some x₂ y₂ h₂ =>
      rw [coords_some, coords_some, Weierstrass.affine_add]
      by_cases hxy : x₁ = x₂ ∧ y₁ = C.equation.negY x₂ y₂
      · obtain ⟨hx, hy⟩ := hxy
        rw [WeierstrassCurve.Affine.Point.add_of_Y_eq hx hy, coords_zero]
        subst hx
        rw [negY_eq] at hy
        rw [slope?_neg hy]
      · obtain ⟨s, hs, es⟩ := slope?_eq h₁ h₂ hxy
        rw [hs]
        exact coords_third hxy es

/-- **multiples in the group are multiples of coordinates** -/
theorem coords_smul (k : Nat) (P : C.Group) : C.law.smul k (C.coords P) = C.coords (k • P) := by
  induction k using Nat.strongRecOn with
  | ind k ih =>
    by_cases h : k = 0
    · subst h
      rw [Weierstrass.zero_smul, zero_nsmul, coords_zero]
    · have hk : k = k / 2 + k / 2 + k % 2 := by omega
      rw [Weierstrass.smul_of_ne_zero _ h,
        ih _ (Nat.div_lt_self (Nat.pos_of_ne_zero h) (by decide)), coords_add, coords_add,
        ← add_smul]
      rcases Nat.mod_two_eq_zero_or_one k with h0 | h1
      · rw [if_neg (by omega)]
        congr 2
        omega
      · rw [if_pos h1, ← succ_nsmul]
        congr 2
        omega

end PrimeCurve
end CurveEngine
