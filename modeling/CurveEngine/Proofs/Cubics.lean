import CurveEngine.Proofs.NamedCurves

/-!
# Cubics without a root

A point of a curve has a zero ordinate where the right-hand side of its equation has a root.  Neither of
the supported curves has such a point.

* `Cubic`                  the equation `t ^ 3 = m t + k` over the field of `p` elements;
* `Cubic.Remainder`        a polynomial in `t`, reduced by the equation;
* `Cubic.mul`, `Cubic.power`   products and powers, along binary digits;
* `eval_mul`, `eval_power`   in a root their values are products and powers, too;
* `Cubic.Rootless`         a test, and `Rootless.not_isRoot`, what it says;
* `NamedCurve.rightSide_ne_zero`   both curves pass it.

Every number is its own `p`-th power, so `t ^ p - t` vanishes in a root.  The test finds that some power
of it leaves the remainder 1, which vanishes nowhere.
-/

namespace CurveEngine

/-- the equation `t ^ 3 = m t + k` modulo `p` -/
structure Cubic where
  p : Nat
  m : Nat
  k : Nat

namespace Cubic

/-- the polynomial `c₀ + c₁ t + c₂ t ^ 2` -/
structure Remainder where
  c₀ : Nat
  c₁ : Nat
  c₂ : Nat
  deriving DecidableEq

variable (C : Cubic)

/-- the product, with `t ^ 3` and `t ^ 4` replaced -/
def mul (f g : Remainder) : Remainder :=
  let e₃ := f.c₁ * g.c₂ + f.c₂ * g.c₁
  let e₄ := f.c₂ * g.c₂
  { c₀ := (f.c₀ * g.c₀ + C.k * e₃) % C.p
    c₁ := (f.c₀ * g.c₁ + f.c₁ * g.c₀ + C.m * e₃ + C.k * e₄) % C.p
    c₂ := (f.c₀ * g.c₂ + f.c₁ * g.c₁ + f.c₂ * g.c₀ + C.m * e₄) % C.p }

/-- `v ^ 2`, times `f` for digit 1 -/
def powerStep (f v : Remainder) (digit : Bool) : Remainder :=
  let q := C.mul v v
  if digit then C.mul q f else q

def power (f : Remainder) (n : Nat) : Remainder :=
  (Residue.digits n 0 (n.log2 + 1)).foldl (C.powerStep f) ⟨1, 0, 0⟩

/-- `t ^ p - t` -/
def gap : Remainder :=
  let f := C.power ⟨0, 1, 0⟩ C.p
  { f with c₁ := f.c₁ + (C.p - 1) }

/-- a power of `t ^ p - t` is 1 -/
def Rootless : Prop := C.power C.gap (C.p ^ 3 - 1) = ⟨1, 0, 0⟩

instance : Decidable C.Rootless := inferInstanceAs (Decidable (_ = _))

/-! ## Values in a root -/

variable {C}

def IsRoot (C : Cubic) (x : ZMod C.p) : Prop := x ^ 3 = C.m * x + C.k

def eval (x : ZMod C.p) (f : Remainder) : ZMod C.p := f.c₀ + f.c₁ * x + f.c₂ * x ^ 2

variable {x : ZMod C.p} (hx : C.IsRoot x)

theorem eval_one : eval x ⟨1, 0, 0⟩ = 1 := by
  simp [eval]

theorem eval_variable : eval x ⟨0, 1, 0⟩ = x := by
  simp [eval]

include hx

theorem eval_mul (f g : Remainder) : eval x (C.mul f g) = eval x f * eval x g := by
  have hx' : x ^ 3 = C.m * x + C.k := hx
  simp only [eval, mul, ZMod.natCast_mod, Nat.cast_add, Nat.cast_mul]
  -- the product differs by the multiple `e₃ + e₄ t` of the equation
  linear_combination
    -((f.c₁ * g.c₂ + f.c₂ * g.c₁ : ZMod C.p) + (f.c₂ * g.c₂ : ZMod C.p) * x) * hx'

theorem eval_powerStep (f v : Remainder) (k : Nat) (d : Bool) (hv : eval x v = eval x f ^ k) :
    eval x (C.powerStep f v d) = eval x f ^ (2 * k + d.toNat) := by
  have hq : eval x (C.mul v v) = eval x f ^ (2 * k) := by
    rw [eval_mul hx, hv, ← pow_add, two_mul]
  cases d with
  | false => exact hq
  | true =>
    show eval x (C.mul (C.mul v v) f) = _
    rw [eval_mul hx, hq, ← pow_succ]
    rfl

theorem eval_power (f : Remainder) (n : Nat) : eval x (C.power f n) = eval x f ^ n := by
  have h := Residue.foldl_exponent (Q := fun k v => eval x v = eval x f ^ k)
    (fun k v d => eval_powerStep hx f v k d) (Residue.digits n 0 (n.log2 + 1))
    (eval_one.trans (pow_zero _).symm)
  rw [Residue.exponent_digits_self] at h
  exact h

theorem eval_gap [hp : Fact C.p.Prime] : eval x C.gap = 0 := by
  have hpower : eval x (C.power ⟨0, 1, 0⟩ C.p) = x := by
    rw [eval_power hx, eval_variable, ZMod.pow_card]
  have hneg : ((C.p - 1 : Nat) : ZMod C.p) = -1 := by
    rw [Nat.cast_sub hp.out.one_le, ZMod.natCast_self, Nat.cast_one, zero_sub]
  unfold eval at hpower ⊢
  rw [gap, Nat.cast_add, hneg]
  linear_combination hpower

omit hx in
/-- **a cubic that passes the test has no root** -/
theorem Rootless.not_isRoot (hC : C.Rootless) (hp : C.p.Prime) (x : ZMod C.p) : ¬ C.IsRoot x := by
  have : Fact C.p.Prime := ⟨hp⟩
  intro hx
  have hpos : C.p ^ 3 - 1 ≠ 0 := Nat.sub_ne_zero_of_lt (Nat.one_lt_pow (by decide) hp.one_lt)
  have h := eval_power hx C.gap (C.p ^ 3 - 1)
  rw [hC, eval_one, eval_gap hx, zero_pow hpos] at h
  exact one_ne_zero h

end Cubic

namespace NamedCurve

/-- where the right-hand side of the equation is zero -/
def cubic (c : NamedCurve) : Cubic := ⟨c.data.p, c.data.p - c.data.a, c.data.p - c.data.b⟩

theorem rootless : ∀ c : NamedCurve, c.cubic.Rootless
  | p256 => by decide +kernel
  | p192 => by decide +kernel

/-- **no point of a supported curve has a zero ordinate** -/
theorem rightSide_ne_zero (c : NamedCurve) (x : Nat) :
    (x ^ 3 + c.data.a * x + c.data.b) % c.data.p ≠ 0 := by
  intro h
  have hlt : c.data.a ≤ c.data.p ∧ c.data.b ≤ c.data.p := by cases c <;> decide
  have hzero := (ZMod.natCast_eq_zero_iff _ c.data.p).mpr (Nat.dvd_of_mod_eq_zero h)
  push_cast at hzero
  have hroot : (x : ZMod c.data.p) ^ 3 = ((c.data.p - c.data.a : Nat) : ZMod c.data.p) * x +
      ((c.data.p - c.data.b : Nat) : ZMod c.data.p) := by
    rw [Nat.cast_sub hlt.1, Nat.cast_sub hlt.2, ZMod.natCast_self]
    linear_combination hzero
  exact c.rootless.not_isRoot c.prime _ hroot

end NamedCurve
end CurveEngine
