import CurveEngine.Residue

/-!
# Points of a curve, with plain numbers as coordinates

* `Point`                 the point at infinity or a pair of coordinates;
* `Weierstrass`           a curve `y ^ 2 = x ^ 3 + a x + b` over the residues modulo `p`; the sum of
                          two points does not need `b`;
* `Weierstrass.slope?`    the slope of the line through two points, `none` for a vertical one;
* `Weierstrass.add`       the sum by chord and tangent;
* `Weierstrass.smul`      the multiple of a point, by doubling along the binary digits.

Nothing here asks for a prime `p` or for points on the curve: a slope whose denominator has no
inverse counts as vertical.  `reduced_add` and `reduced_smul` say that coordinates stay below `p`.
-/

namespace CurveEngine

inductive Point where
  | infinity
  | affine (x y : Nat)
  deriving DecidableEq

/-- what the sum of two points depends on: the modulus and the coefficient of `x` -/
structure Weierstrass where
  p : Nat
  /-- the coefficient of `x`, not necessarily below `p` -/
  a : Nat
  deriving DecidableEq

namespace Weierstrass

variable (C : Weierstrass)

def Reduced : Point → Prop
  | .infinity => True
  | .affine x y => x < C.p ∧ y < C.p

instance : DecidablePred C.Reduced
  | .infinity => inferInstanceAs (Decidable True)
  | .affine x y => inferInstanceAs (Decidable (x < C.p ∧ y < C.p))

/-- the difference of residues, for `y` below `p` -/
def sub (x y : Nat) : Nat := (x + C.p - y) % C.p

def mul (x y : Nat) : Nat := x * y % C.p

/-- the quotient of residues, if the divisor has an inverse -/
def div? (x y : Nat) : Option Nat := (Residue.inverse? y C.p).map (C.mul x)

/-- the slope of the line through two points, or of the tangent if their abscissas agree -/
def slope? (x₁ y₁ x₂ y₂ : Nat) : Option Nat :=
  if x₁ = x₂ then
    if (y₁ + y₂) % C.p = 0 then none
    else C.div? ((C.mul 3 (C.mul x₁ x₁) + C.a) % C.p) ((y₁ + y₁) % C.p)
  else C.div? (C.sub y₂ y₁) (C.sub x₂ x₁)

/-- the third point of the line with slope `s` through `(x₁, y₁)` and abscissa `x₂`, reflected -/
def third (s x₁ y₁ x₂ : Nat) : Point :=
  let x₃ := C.sub (C.sub (C.mul s s) x₁) x₂
  .affine x₃ (C.sub (C.mul s (C.sub x₁ x₃)) y₁)

def add : Point → Point → Point
  | .infinity, Q => Q
  | P, .infinity => P
  | .affine x₁ y₁, .affine x₂ y₂ =>
    match C.slope? x₁ y₁ x₂ y₂ with
    | none => .infinity
    | some s => C.third s x₁ y₁ x₂

/-- the `k`-fold sum of a point -/
def smul (k : Nat) (P : Point) : Point :=
  if k = 0 then .infinity
  else
    let half := smul (k / 2) P
    let double := C.add half half
    if k % 2 = 1 then C.add double P else double
termination_by k
decreasing_by exact Nat.div_lt_self (Nat.pos_of_ne_zero ‹_›) (by decide)

@[simp] theorem infinity_add (Q : Point) : C.add .infinity Q = Q := by
  cases Q <;> rfl

@[simp] theorem add_infinity (P : Point) : C.add P .infinity = P := by
  cases P <;> rfl

theorem affine_add (x₁ y₁ x₂ y₂ : Nat) :
    C.add (.affine x₁ y₁) (.affine x₂ y₂) =
      match C.slope? x₁ y₁ x₂ y₂ with
      | none => .infinity
      | some s => C.third s x₁ y₁ x₂ := rfl

@[simp] theorem zero_smul (P : Point) : C.smul 0 P = .infinity := by
  rw [smul, if_pos rfl]

/-- a binary digit more: double, and add the point for digit 1 -/
theorem smul_of_ne_zero {k : Nat} (h : k ≠ 0) (P : Point) :
    C.smul k P =
      if k % 2 = 1 then C.add (C.add (C.smul (k / 2) P) (C.smul (k / 2) P)) P
      else C.add (C.smul (k / 2) P) (C.smul (k / 2) P) := by
  rw [smul, if_neg h]

@[simp] theorem one_smul (P : Point) : C.smul 1 P = P := by
  rw [smul_of_ne_zero C (by decide)]
  simp

@[simp] theorem smul_infinity (k : Nat) : C.smul k .infinity = .infinity := by
  induction k using Nat.strongRecOn with
  | ind k ih =>
    by_cases h : k = 0
    · subst h
      exact zero_smul C _
    · rw [smul_of_ne_zero C h, ih _ (Nat.div_lt_self (Nat.pos_of_ne_zero h) (by decide))]
      simp

theorem reduced_third (hp : 0 < C.p) (s x₁ y₁ x₂ : Nat) : C.Reduced (C.third s x₁ y₁ x₂) :=
  ⟨Nat.mod_lt _ hp, Nat.mod_lt _ hp⟩

theorem reduced_add {P Q : Point} (hP : C.Reduced P) (hQ : C.Reduced Q) :
    C.Reduced (C.add P Q) := by
  match P, Q with
  | .infinity, Q =>
    rw [infinity_add]
    exact hQ
  | .affine x y, .infinity => exact hP
  | .affine x₁ y₁, .affine x₂ y₂ =>
    rw [affine_add]
    cases C.slope? x₁ y₁ x₂ y₂ with
    | none => trivial
    | some s => exact reduced_third C (Nat.zero_lt_of_lt hP.1) s x₁ y₁ x₂

theorem reduced_smul (k : Nat) {P : Point} (hP : C.Reduced P) : C.Reduced (C.smul k P) := by
  induction k using Nat.strongRecOn with
  | ind k ih =>
    by_cases h : k = 0
    · subst h
      rw [zero_smul]
      trivial
    · have hh := ih _ (Nat.div_lt_self (Nat.pos_of_ne_zero h) (by decide : 1 < 2))
      rw [smul_of_ne_zero C h]
      split
      · exact reduced_add C (reduced_add C hh hh) hP
      · exact reduced_add C hh hh

end Weierstrass
end CurveEngine
