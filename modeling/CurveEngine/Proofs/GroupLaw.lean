import CurveEngine.Proofs.Group

/-!
# The points of a curve are a group

* `PrimeCurve.OnCurve`     infinity, or reduced coordinates that solve the equation;
* `PrimeCurve.onCurve_iff` these are the coordinates of the points of Mathlib's group, so its laws
                           carry over to chord and tangent (`onCurve_add`, `add_assoc_of_onCurve`, ..);
* `PrimeCurve.add_reflect` the reflection of a point is its inverse;
* `PrimeCurve.smul_eq_iterate`  doubling along the binary digits adds the point as often as the
                           scalar says, whether or not the sums pass through infinity;
* `PrimeCurve.law_group`   all of it, for every curve and every scalar.
-/

namespace CurveEngine
namespace PrimeCurve

variable (C : PrimeCurve)

/-- infinity, or a reduced solution of the equation -/
def OnCurve : Point → Prop
  | .infinity => True
  | .affine x y => (x < C.p ∧ y < C.p) ∧ y ^ 2 % C.p = (x ^ 3 + C.a * x + C.b) % C.p

instance : DecidablePred C.OnCurve
  | .infinity => inferInstanceAs (Decidable True)
  | .affine x y => inferInstanceAs (Decidable ((x < C.p ∧ y < C.p) ∧ _ = _))

theorem onCurve_coords (P : C.Group) : C.OnCurve (C.coords P) := by
  cases P with
  | zero => trivial
  | some x y h =>
    refine ⟨⟨x.val_lt, y.val_lt⟩, (ZMod.natCast_eq_natCast_iff' _ _ C.p).mp ?_⟩
    push_cast
    rw [ZMod.natCast_zmod_val, ZMod.natCast_zmod_val]
    exact (C.nonsingular_iff x y).mp h

/-- the points on the curve are the points of the group -/
theorem onCurve_iff (P : Point) : C.OnCurve P ↔ ∃ G : C.Group, C.coords G = P := by
  constructor
  · intro h
    match P, h with
    | .infinity, _ => exact ⟨0, C.coords_zero⟩
    | .affine x y, ⟨⟨hx, hy⟩, he⟩ => exact C.exists_coords_eq hx hy he
  · rintro ⟨G, rfl⟩
    exact C.onCurve_coords G

variable {C} {P Q R : Point}

/-! ## The laws, carried over from the group -/

theorem onCurve_add (hP : C.OnCurve P) (hQ : C.OnCurve Q) : C.OnCurve (C.law.add P Q) := by
  obtain ⟨G, rfl⟩ := (C.onCurve_iff P).mp hP
  obtain ⟨H, rfl⟩ := (C.onCurve_iff Q).mp hQ
  rw [coords_add]
  exact C.onCurve_coords (G + H)

theorem add_comm_of_onCurve (hP : C.OnCurve P) (hQ : C.OnCurve Q) :
    C.law.add P Q = C.law.add Q P := by
  obtain ⟨G, rfl⟩ := (C.onCurve_iff P).mp hP
  obtain ⟨H, rfl⟩ := (C.onCurve_iff Q).mp hQ
  rw [coords_add, coords_add, add_comm]

theorem add_assoc_of_onCurve (hP : C.OnCurve P) (hQ : C.OnCurve Q) (hR : C.OnCurve R) :
    C.law.add (C.law.add P Q) R = C.law.add P (C.law.add Q R) := by
  obtain ⟨G, rfl⟩ := (C.onCurve_iff P).mp hP
  obtain ⟨H, rfl⟩ := (C.onCurve_iff Q).mp hQ
  obtain ⟨K, rfl⟩ := (C.onCurve_iff R).mp hR
  rw [coords_add, coords_add, coords_add, coords_add, add_assoc]

/-- a reflected ordinate solves the equation with the same abscissa; it is taken modulo `p` for a
point with ordinate zero, which is its own inverse -/
theorem onCurve_reflect {x y : Nat} (h : C.OnCurve (.affine x y)) :
    C.OnCurve (.affine x ((C.p - y) % C.p)) := by
  obtain ⟨⟨hx, hy⟩, he⟩ := h
  refine ⟨⟨hx, Nat.mod_lt _ C.pos⟩, Eq.trans ?_ he⟩
  apply (ZMod.natCast_eq_natCast_iff' _ _ C.p).mp
  rw [Nat.cast_pow, ZMod.natCast_mod, Nat.cast_sub hy.le, ZMod.natCast_self, zero_sub, neg_sq,
    Nat.cast_pow]

/-- opposite ordinates have no slope, reduced or not -/
theorem add_of_ordinates {x y₁ y₂ : Nat} (h : (y₁ + y₂) % C.p = 0) :
    C.law.add (.affine x y₁) (.affine x y₂) = .infinity := by
  rw [Weierstrass.affine_add]
  unfold Weierstrass.slope?
  rw [if_pos rfl, law_p, if_pos h]

theorem add_reflect {x y : Nat} (h : C.OnCurve (.affine x y)) :
    C.law.add (.affine x y) (.affine x (C.p - y)) = .infinity ∧
      C.law.add (.affine x y) (.affine x ((C.p - y) % C.p)) = .infinity := by
  have hz : (y + (C.p - y)) % C.p = 0 := by
    rw [Nat.add_sub_cancel' h.1.2.le, Nat.mod_self]
  refine ⟨add_of_ordinates hz, add_of_ordinates ?_⟩
  rw [Nat.add_mod_mod, hz]

/-! ## Multiples -/

theorem coords_iterate (k : Nat) (G : C.Group) :
    (C.law.add (C.coords G))^[k] .infinity = C.coords (k • G) := by
  induction k with
  | zero => rw [Function.iterate_zero_apply, zero_nsmul, coords_zero]
  | succ k ih => rw [Function.iterate_succ_apply', ih, coords_add, ← succ_nsmul']

/-- doubling along the binary digits adds the point `k` times -/
theorem smul_eq_iterate (k : Nat) (hP : C.OnCurve P) :
    C.law.smul k P = (C.law.add P)^[k] .infinity := by
  obtain ⟨G, rfl⟩ := (C.onCurve_iff P).mp hP
  rw [coords_smul, coords_iterate]

theorem onCurve_smul (k : Nat) (hP : C.OnCurve P) : C.OnCurve (C.law.smul k P) := by
  obtain ⟨G, rfl⟩ := (C.onCurve_iff P).mp hP
  rw [coords_smul]
  exact C.onCurve_coords (k • G)

/-! ## The group -/

/-- **chord and tangent make the points of a curve a group**: the one of Mathlib -/
theorem law_group (C : PrimeCurve) :
    Function.Injective C.coords ∧ (∀ P, C.OnCurve P ↔ ∃ G : C.Group, C.coords G = P) ∧
      (∀ G H : C.Group, C.law.add (C.coords G) (C.coords H) = C.coords (G + H)) ∧
      (∀ P Q, C.OnCurve P → C.OnCurve Q →
        C.OnCurve (C.law.add P Q) ∧ C.law.add P Q = C.law.add Q P) ∧
      (∀ P Q R, C.OnCurve P → C.OnCurve Q → C.OnCurve R →
        C.law.add (C.law.add P Q) R = C.law.add P (C.law.add Q R)) ∧
      (∀ P, C.law.add .infinity P = P ∧ C.law.add P .infinity = P) ∧
      (∀ x y, C.OnCurve (.affine x y) → C.OnCurve (.affine x ((C.p - y) % C.p)) ∧
        C.law.add (.affine x y) (.affine x (C.p - y)) = .infinity ∧
        C.law.add (.affine x y) (.affine x ((C.p - y) % C.p)) = .infinity) ∧
      (∀ k P, C.OnCurve P → C.OnCurve (C.law.smul k P) ∧
        C.law.smul k P = (C.law.add P)^[k] .infinity) ∧
      ∀ k (G : C.Group), C.law.smul k (C.coords G) = C.coords (k • G) := by
  refine ⟨C.coords_injective, C.onCurve_iff, coords_add, ?_, ?_, ?_, ?_, ?_, coords_smul⟩
  · intro P Q hP hQ
    exact ⟨onCurve_add hP hQ, add_comm_of_onCurve hP hQ⟩
  · intro P Q R hP hQ hR
    exact add_assoc_of_onCurve hP hQ hR
  · intro P
    exact ⟨C.law.infinity_add P, C.law.add_infinity P⟩
  · intro x y h
    exact ⟨onCurve_reflect h, add_reflect h⟩
  · intro k P hP
    exact ⟨onCurve_smul k hP, smul_eq_iterate k hP⟩

/-- the curve `y ^ 2 = x ^ 3 + 2 x + 3` over 97 elements, its coefficient not reduced -/
def unreduced : PrimeCurve where
  p := 97
  a := 99
  b := 3
  prime := by decide
  two_lt := by decide
  nonsingular := by decide

/-- `(3, 6)` has order 5 there: seven of it are its double, `(80, 10)` -/
theorem law_group_unreduced :
    unreduced.OnCurve (.affine 3 6) ∧
      unreduced.OnCurve (unreduced.law.smul 7 (.affine 3 6)) ∧
      unreduced.law.smul 7 (.affine 3 6) = .affine 80 10 ∧
      unreduced.law.add (.affine 3 6) (.affine 3 91) = .infinity := by
  have hG : unreduced.OnCurve (.affine 3 6) := by decide
  obtain ⟨-, -, -, -, -, -, reflect, multiple, -⟩ := law_group unreduced
  obtain ⟨on, e⟩ := multiple 7 (.affine 3 6) hG
  refine ⟨hG, on, ?_, (reflect 3 6 hG).2.1⟩
  rw [e]
  decide_cbv

end PrimeCurve
end CurveEngine
