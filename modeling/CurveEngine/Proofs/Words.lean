import CurveEngine.Words
import Mathlib.Algebra.Group.Nat.Even
import Mathlib.Data.Nat.Bitwise

/-!
# How wide a number is

* `Words.value_ofNat`         `k` words keep a number modulo `2 ^ (32 * k)`;
* `Words.value_lt`            and no list of `k` words stands for a larger one;
* `Words.top?_eq_some_iff`    the index of the highest non-zero word tells how many words it takes;
* `Words.testBit_value`       a digit of a number is a digit of one of its words.
-/

namespace CurveEngine.Words

theorem size_eq : UInt32.size = 2 ^ 32 := rfl

theorem pow_succ_words (k : Nat) : 2 ^ (32 * (k + 1)) = 2 ^ 32 * 2 ^ (32 * k) := by
  rw [← Nat.pow_add]
  congr 1
  omega

/-- storing in `k` words keeps the number modulo `2 ^ (32 * k)` -/
theorem value_ofNat (k n : Nat) : value (ofNat k n) = n % 2 ^ (32 * k) := by
  induction k generalizing n with
  | zero => rw [ofNat_zero, value_nil, Nat.mul_zero, Nat.pow_zero, Nat.mod_one]
  | succ k ih =>
    rw [ofNat_succ, value_cons, ih, UInt32.toNat_ofNat', size_eq, pow_succ_words, Nat.mod_mul]

theorem value_ofNat_of_lt {k n : Nat} (h : n < 2 ^ (32 * k)) : value (ofNat k n) = n := by
  rw [value_ofNat, Nat.mod_eq_of_lt h]

theorem value_lt (ws : List Word) : value ws < 2 ^ (32 * ws.length) := by
  induction ws with
  | nil => exact Nat.one_pos
  | cons w ws ih =>
    rw [value_cons, size_eq, List.length_cons, pow_succ_words]
    have hw : w.toNat < 2 ^ 32 := w.toNat_lt
    omega

theorem value_append (us ws : List Word) :
    value (us ++ ws) = value us + 2 ^ (32 * us.length) * value ws := by
  induction us with
  | nil => rw [List.nil_append, value_nil, List.length_nil, Nat.mul_zero, Nat.pow_zero]; omega
  | cons u us ih =>
    rw [List.cons_append, value_cons, value_cons, ih, size_eq, List.length_cons, pow_succ_words,
      Nat.mul_add, Nat.add_assoc, Nat.mul_assoc]

/-- index `i` is the highest non-zero word exactly when the number needs `i + 1` words -/
theorem top?_eq_some_iff (ws : List Word) (i : Nat) :
    top? ws = some i ↔ 2 ^ (32 * i) ≤ value ws ∧ value ws < 2 ^ (32 * (i + 1)) := by
  induction ws generalizing i with
  | nil =>
    have := Nat.two_pow_pos (32 * i)
    simp only [top?_nil, value_nil, reduceCtorEq, false_iff]
    omega
  | cons w ws ih =>
    have hw : w.toNat < 2 ^ 32 := w.toNat_lt
    rw [top?_cons, value_cons, size_eq]
    cases h : top? ws with
    | some j =>
      have hj := (ih j).mp h
      have hp := Nat.two_pow_pos (32 * j)
      cases i with
      | zero =>
        simp only [Option.some.injEq, reduceCtorEq, false_iff]
        omega
      | succ i =>
        have hi := ih i
        rw [h, Option.some.injEq] at hi
        have e := pow_succ_words i
        have e' := pow_succ_words (i + 1)
        rw [Option.some.injEq, Nat.add_right_cancel_iff, hi]
        omega
    | none =>
      have hz := (top?_eq_none_iff ws).mp h
      rw [hz]
      by_cases hw0 : w = 0
      · subst hw0
        have := Nat.two_pow_pos (32 * i)
        simp only [if_true, reduceCtorEq, false_iff, UInt32.toNat_zero]
        omega
      · have hn : w.toNat ≠ 0 := fun e => hw0 (UInt32.toNat_inj.mp e)
        cases i with
        | zero =>
          simp only [if_neg hw0, true_iff]
          omega
        | succ i =>
          have hp := Nat.two_pow_pos (32 * i)
          rw [pow_succ_words]
          simp only [if_neg hw0, Option.some.injEq, reduceCtorEq, false_iff]
          omega

theorem testBit_value (ws : List Word) (q r : Nat) (hr : r < 32) :
    (value ws).testBit (32 * q + r) = (ws.getD q 0).toNat.testBit r := by
  induction ws generalizing q with
  | nil => simp
  | cons w ws ih =>
    have hw : w.toNat < 2 ^ 32 := w.toNat_lt
    rw [value_cons, size_eq, Nat.add_comm, Nat.testBit_two_pow_mul_add _ hw]
    cases q with
    | zero => simp [hr]
    | succ q =>
      rw [if_neg (by omega), show 32 * (q + 1) + r - 32 = 32 * q + r by omega, ih,
        List.getD_cons_succ]

/-- a mask tells a digit of a word -/
theorem and_mask_ne_zero_iff (v : Word) {r : Nat} (hr : r < 32) :
    v &&& 1 <<< UInt32.ofNat r ≠ 0 ↔ v.toNat.testBit r = true := by
  have hmask : (1 <<< UInt32.ofNat r : Word).toNat = 2 ^ r := by
    have : (2 : Nat) ^ r < 2 ^ 32 := Nat.pow_lt_pow_right (by decide) hr
    rw [UInt32.toNat_shiftLeft, UInt32.toNat_ofNat', Nat.mod_eq_of_lt (show r < 2 ^ 32 by omega),
      Nat.mod_eq_of_lt hr, UInt32.toNat_one, Nat.one_shiftLeft, Nat.mod_eq_of_lt this]
  rw [Ne, ← UInt32.toNat_inj, UInt32.toNat_and, hmask, Nat.and_two_pow]
  cases v.toNat.testBit r <;> simp

end CurveEngine.Words
