import CurveEngine.Proofs.Arithmetic
import Mathlib.Data.List.Prime
import Mathlib.NumberTheory.LucasPrimality

/-!
# Powers by square and multiply

* `Residue.powerStep`   one step of the ladder, along a binary digit;
* `foldl_powerStep`     the ladder computes the power whose exponent the digits spell;
* `exponent_digits`     the digits of a number spell what is left of it without its low digits;
* `prime_of_generates`  a number whose units have a generator of full order is prime.

The same ladder that takes square roots tests the primes: `a` generates the units modulo `p` if
`a ^ (p - 1)` is 1 and no `a ^ ((p - 1) / q)` is, for the primes `q` that divide `p - 1`.
-/

namespace CurveEngine

namespace Residue

/-! ## The ladder -/

def powerStep (p R v : Nat) (digit : Bool) : Nat :=
  let q := total (v * v) p
  if digit then total (q * R) p else q

/-- the number that a list of digits spells behind `k` -/
def exponent (k : Nat) (ds : List Bool) : Nat := ds.foldl (fun k d => 2 * k + d.toNat) k

theorem powerStep_power {p : Nat} (hp : 0 < p) (R k : Nat) (d : Bool) :
    powerStep p R (R ^ k % p) d = R ^ (2 * k + d.toNat) % p := by
  unfold powerStep
  simp only [total_of_pos hp, ← Nat.mul_mod]
  cases d with
  | false =>
    show R ^ k * R ^ k % p = R ^ (2 * k + 0) % p
    rw [← pow_add, Nat.add_zero, two_mul]
  | true =>
    show R ^ k * R ^ k % p * R % p = R ^ (2 * k + 1) % p
    rw [Nat.mod_mul_mod, ← pow_add, ← pow_succ, two_mul]

/-- what a step keeps for the exponent that its digit spells, the ladder keeps for all digits -/
theorem foldl_exponent {β : Type} {Q : Nat → β → Prop} {step : β → Bool → β}
    (hstep : ∀ k v d, Q k v → Q (2 * k + d.toNat) (step v d)) (ds : List Bool) {k : Nat} {v : β}
    (hv : Q k v) : Q (exponent k ds) (ds.foldl step v) := by
  induction ds generalizing k v with
  | nil => exact hv
  | cons d ds ih => exact ih (hstep k v d hv)

/-- **the ladder computes a power** -/
theorem foldl_powerStep {p : Nat} (hp : 0 < p) (R : Nat) (ds : List Bool) (k : Nat) :
    ds.foldl (powerStep p R) (R ^ k % p) = R ^ exponent k ds % p := by
  refine foldl_exponent (Q := fun k v => v = R ^ k % p) (fun k v d hv => ?_) ds rfl
  rw [hv, powerStep_power hp]

/-- `n` binary digits of `m`, from the highest one down to digit `s` -/
def digits (m s n : Nat) : List Bool := (List.range n).reverse.map fun i => m.testBit (i + s)

theorem digits_succ (m s n : Nat) : digits m s (n + 1) = m.testBit (n + s) :: digits m s n := by
  unfold digits
  rw [List.range_succ, List.reverse_append]
  rfl

theorem exponent_digits (m s n k : Nat) :
    exponent k (digits m s n) = k * 2 ^ n + m / 2 ^ s % 2 ^ n := by
  induction n generalizing k with
  | zero => rw [pow_zero, Nat.mod_one, Nat.mul_one]; rfl
  | succ n ih =>
    have hbit : (m / 2 ^ s).testBit n = m.testBit (n + s) := Nat.testBit_div_two_pow m n
    have hcons : exponent k (digits m s (n + 1)) =
        exponent (2 * k + (m.testBit (n + s)).toNat) (digits m s n) := by
      rw [digits_succ]
      rfl
    rw [hcons, ih, Nat.mod_pow_succ, ← Nat.toNat_testBit, hbit, pow_succ]
    ring

/-- all digits of a number spell it -/
theorem exponent_digits_self (n : Nat) : exponent 0 (digits n 0 (n.log2 + 1)) = n := by
  rw [exponent_digits, Nat.zero_mul, Nat.zero_add, pow_zero, Nat.div_one,
    Nat.mod_eq_of_lt Nat.lt_log2_self]

/-- all digits of a number, along the ladder -/
def power (p R k : Nat) : Nat := (digits k 0 (k.log2 + 1)).foldl (powerStep p R) (1 % p)

theorem power_eq {p : Nat} (hp : 0 < p) (R k : Nat) : power p R k = R ^ k % p := by
  have h := foldl_powerStep hp R (digits k 0 (k.log2 + 1)) 0
  rw [exponent_digits_self, pow_zero] at h
  exact h

/-! ## Primality -/

/-- the powers of `a` that have to be 1, and those that must not be -/
def Generates (p a : Nat) (qs : List Nat) : Prop :=
  1 < p ∧ qs.prod = p - 1 ∧ power p a (p - 1) = 1 ∧ ∀ q ∈ qs, power p a ((p - 1) / q) ≠ 1

instance (p a : Nat) (qs : List Nat) : Decidable (Generates p a qs) :=
  inferInstanceAs (Decidable (_ ∧ _))

theorem power_eq_one_iff {p : Nat} (hp : 1 < p) (a k : Nat) :
    power p a k = 1 ↔ (a : ZMod p) ^ k = 1 := by
  have h := ZMod.natCast_eq_natCast_iff' (a ^ k) 1 p
  rw [Nat.cast_pow, Nat.cast_one, Nat.mod_eq_of_lt hp] at h
  rw [power_eq (Nat.zero_lt_of_lt hp), h]

/-- **a generator certifies a prime**, given the primes of `p - 1`: small ones, and others -/
theorem prime_of_generates {p : Nat} (a : Nat) (qs rs : List Nat) (hq : ∀ q ∈ qs, q.Prime)
    (hr : ∀ q ∈ rs, q.Prime) (h : Generates p a (qs ++ rs)) : p.Prime := by
  obtain ⟨hp, hprod, hone, hne⟩ := h
  refine lucas_primality p a ((power_eq_one_iff hp a _).mp hone) fun t ht hdvd => ?_
  rw [← hprod] at hdvd
  obtain ⟨q, hmem, htq⟩ := (Prime.dvd_prod_iff ht.prime).mp hdvd
  have hprime : q.Prime := (List.mem_append.mp hmem).elim (hq q) (hr q)
  obtain rfl : t = q := (Nat.prime_dvd_prime_iff_eq ht hprime).mp htq
  exact fun hone => hne t hmem ((power_eq_one_iff hp a _).mpr hone)

end Residue

end CurveEngine
