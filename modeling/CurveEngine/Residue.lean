/-!
# Inverses modulo a number

* `Residue.euclid`     the remainder sequence of two numbers, each remainder with the multiple of
                       the second number it stands for;
* `Residue.inverse?`   the inverse of `a` modulo `m`, if there is one.

`inverse?_eq_none_iff` says when there is none and `mul_inverse?` what it is otherwise.  Modulo 1
the inverse is 0.
-/

namespace CurveEngine.Residue

/-- the last non-zero remainder of `r, s, …` and its coefficient, when `x` and `y` are the
coefficients of `r` and `s` -/
def euclid (r s : Nat) (x y : Int) : Nat × Int :=
  if s = 0 then (r, x) else euclid s (r % s) y (x - (r / s : Nat) * y)
termination_by s
decreasing_by exact Nat.mod_lt _ (Nat.pos_of_ne_zero ‹_›)

/-- the inverse of `a` modulo `m`, as libraries for big numbers document theirs: the number below `m`
whose product with `a` is 1 modulo `m`, which exists if and only if `a` and `m` are coprime -/
def inverse? (a m : Nat) : Option Nat :=
  let (g, x) := euclid m (a % m) 0 1
  if g = 1 then some (x % m).toNat else none

theorem euclid_zero (r : Nat) (x y : Int) : euclid r 0 x y = (r, x) := by
  rw [euclid, if_pos rfl]

theorem euclid_pos {s : Nat} (h : s ≠ 0) (r : Nat) (x y : Int) :
    euclid r s x y = euclid s (r % s) y (x - (r / s : Nat) * y) := by
  rw [euclid, if_neg h]

theorem euclid_fst (r s : Nat) (x y : Int) : (euclid r s x y).1 = Nat.gcd r s := by
  induction s using Nat.strongRecOn generalizing r x y with
  | ind s ih =>
    by_cases h : s = 0
    · subst h
      rw [euclid_zero, Nat.gcd_zero_right]
    · rw [euclid_pos h, ih _ (Nat.mod_lt _ (Nat.pos_of_ne_zero h)), Nat.gcd_comm s, Nat.gcd_comm r,
        ← Nat.gcd_rec]

/-- every remainder is its coefficient times `a`, modulo `m` -/
theorem euclid_snd {a m : Int} (r s : Nat) (x y : Int) (hr : m ∣ x * a - r) (hs : m ∣ y * a - s) :
    m ∣ (euclid r s x y).2 * a - (euclid r s x y).1 := by
  induction s using Nat.strongRecOn generalizing r x y with
  | ind s ih =>
    by_cases h : s = 0
    · subst h
      rw [euclid_zero]
      exact hr
    · rw [euclid_pos h]
      refine ih _ (Nat.mod_lt _ (Nat.pos_of_ne_zero h)) _ _ _ hs ?_
      have hq : (r : Int) = (s : Int) * ((r / s : Nat) : Int) + ((r % s : Nat) : Int) := by
        exact_mod_cast (Nat.div_add_mod r s).symm
      have e : (x - ((r / s : Nat) : Int) * y) * a - ((r % s : Nat) : Int) =
          (x * a - r) - ((r / s : Nat) : Int) * (y * a - s) := by
        grind
      rw [e]
      exact Int.dvd_sub hr (Int.dvd_mul_of_dvd_right hs)

theorem inverse?_eq (a m : Nat) :
    inverse? a m =
      if (euclid m (a % m) 0 1).1 = 1 then some ((euclid m (a % m) 0 1).2 % m).toNat else none :=
  rfl

/-- there is no inverse exactly when `a` and `m` have a common divisor -/
theorem inverse?_eq_none_iff (a m : Nat) : inverse? a m = none ↔ Nat.gcd a m ≠ 1 := by
  have hg : (euclid m (a % m) 0 1).1 = Nat.gcd a m := by
    rw [euclid_fst, Nat.gcd_comm m, ← Nat.gcd_rec, Nat.gcd_comm]
  rw [inverse?_eq, hg]
  split <;> simp_all

theorem coprime_of_inverse? {a m i : Nat} (h : inverse? a m = some i) : Nat.Coprime a m := by
  refine Decidable.byContradiction fun hg => ?_
  rw [(inverse?_eq_none_iff a m).mpr hg] at h
  cases h

theorem inverse?_lt {a m i : Nat} (hm : 0 < m) (h : inverse? a m = some i) : i < m := by
  rw [inverse?_eq] at h
  split at h
  · cases h
    have := Int.emod_lt_of_pos (euclid m (a % m) 0 1).2 (show (0 : Int) < m by omega)
    have := Int.emod_nonneg (euclid m (a % m) 0 1).2 (show (m : Int) ≠ 0 by omega)
    omega
  · cases h

theorem mul_inverse? {a m i : Nat} (hm : 0 < m) (h : inverse? a m = some i) :
    i * a % m = 1 % m := by
  rw [inverse?_eq] at h
  split at h
  · rename_i hg
    have hd := euclid_snd (a := a) (m := m) m (a % m) 0 1
      (by rw [Int.zero_mul, Int.zero_sub]; exact Int.dvd_neg.mpr (Int.dvd_refl _))
      (by rw [Int.one_mul, Int.natCast_emod]; exact Int.dvd_self_sub_of_emod_eq rfl)
    rw [hg] at hd
    generalize (euclid m (a % m) 0 1).2 = x at h hd
    cases h
    have hn : 0 ≤ x % m := Int.emod_nonneg _ (by omega)
    have h1 : x * a % m = 1 % m :=
      Int.emod_eq_emod_iff_emod_sub_eq_zero.mpr (Int.emod_eq_zero_of_dvd hd)
    apply Int.ofNat_inj.mp
    rw [Int.natCast_emod, Int.natCast_mul, Int.toNat_of_nonneg hn, Int.mul_emod, Int.emod_emod,
      ← Int.mul_emod, h1]
    rfl
  · cases h

/-! ## Zero for no inverse -/

theorem getD_inverse?_lt {m : Nat} (hm : 0 < m) (a : Nat) : (inverse? a m).getD 0 < m := by
  cases h : inverse? a m with
  | none => exact hm
  | some i => exact inverse?_lt hm h

/-- the result is zero if there is no inverse, and modulo 1 -/
theorem getD_inverse?_eq_zero_iff {a m : Nat} (hm : 0 < m) :
    (inverse? a m).getD 0 = 0 ↔ ¬ Nat.Coprime a m ∨ m = 1 := by
  cases h : inverse? a m with
  | none => exact ⟨fun _ => .inl ((inverse?_eq_none_iff a m).mp h), fun _ => rfl⟩
  | some i =>
    have hg := coprime_of_inverse? h
    have hi := inverse?_lt hm h
    have he := mul_inverse? hm h
    show i = 0 ↔ _
    constructor
    · intro h0
      rw [h0, Nat.zero_mul, Nat.zero_mod] at he
      exact .inr (Nat.dvd_one.mp (Nat.dvd_of_mod_eq_zero he.symm))
    · rintro (hn | rfl)
      · exact absurd hg hn
      · omega

/-- and otherwise it is the one residue whose product with `a` is 1 -/
theorem mul_getD_inverse? {a m : Nat} (hm : 0 < m) (h : (inverse? a m).getD 0 ≠ 0) :
    (inverse? a m).getD 0 < m ∧ (inverse? a m).getD 0 * a % m = 1 := by
  cases hi : inverse? a m with
  | none =>
    rw [hi] at h
    exact absurd rfl h
  | some i =>
    rw [hi] at h
    have hlt := inverse?_lt hm hi
    have hne : i ≠ 0 := h
    refine ⟨hlt, ?_⟩
    show i * a % m = 1
    rw [mul_inverse? hm hi, Nat.mod_eq_of_lt (by omega)]

end CurveEngine.Residue
