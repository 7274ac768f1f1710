import CurveEngine.Proofs.Domain
import CurveEngine.Proofs.Powers

/-!
# The supported curves are domains

* `digit_eq`               the table of words gives the binary digits of `p + 1`;
* `NamedCurve.prime`, `NamedCurve.order_prime`   the moduli of both curves are prime, each with a
                           generator of its units and the primes of the number before it;
* `smul_order`             the order of each curve takes its generator to infinity;
* `NamedCurve.standard`    a supported curve with its generator, and the constants that describe it.

That the order is right is a computation, with the doublings and additions that the engine itself would
carry out.
-/

namespace CurveEngine

namespace NamedCurve

open Residue

/-! ## The constants -/

theorem value_pPlusOne (c : NamedCurve) : Words.value c.data.pPlusOne = c.data.p + 1 := by
  cases c <;> decide

/-- the table and the mask give the digits of `p + 1` -/
theorem digit_eq (c : NamedCurve) (i : Nat) : c.data.digit i = (c.data.p + 1).testBit i := by
  have hmask : i &&& 0x1f = i % 32 := Nat.and_two_pow_sub_one_eq_mod i 5
  have hlt : i % 32 < 32 := Nat.mod_lt i (by decide)
  have hi : 32 * (i >>> 5) + i % 32 = i := by
    rw [Nat.shiftRight_eq_div_pow]
    exact Nat.div_add_mod i 32
  have hbit := Words.testBit_value c.data.pPlusOne (i >>> 5) (i % 32) hlt
  rw [hi, value_pPlusOne] at hbit
  unfold CurveData.digit
  rw [hmask, hbit, Bool.eq_iff_iff, decide_eq_true_eq, Words.and_mask_ne_zero_iff _ hlt]

/-- the words of an element hold every number of the field -/
theorem p_lt_two_pow (c : NamedCurve) : c.data.p < 2 ^ (32 * c.words) := by
  cases c <;> decide

/-- the generator lies on the curve -/
theorem generator_on_curve (c : NamedCurve) :
    c.data.gy ^ 2 % c.data.p =
      (c.data.gx ^ 3 + c.data.a * c.data.gx + c.data.b) % c.data.p := by
  cases c <;> decide

/-! ## The primes of the fields -/

set_option maxRecDepth 8000 in
theorem prime_p192 : p192.data.p.Prime := by
  have h₁ : Nat.Prime 108341181769254293 :=
    prime_of_generates 2 [2, 2, 17, 43, 2477, 54251, 275729] [] (by norm_num) (by simp)
      (by decide)
  have h₂ : Nat.Prime 252396031 :=
    prime_of_generates 3 [2, 3, 5, 8413201] [] (by norm_num) (by simp) (by decide)
  have h₃ : Nat.Prime 455827231987 :=
    prime_of_generates 2 [2, 3, 7, 43] [252396031] (by norm_num)
      (List.forall_mem_singleton.mpr h₂) (by decide)
  have h₄ : Nat.Prime 5933177618131140283 :=
    prime_of_generates 2 [2, 3, 3, 723127] [455827231987] (by norm_num)
      (List.forall_mem_singleton.mpr h₃) (by decide)
  have h₅ : Nat.Prime 288626509448065367648032903 :=
    prime_of_generates 6 [2, 3, 19, 19, 37, 607] [5933177618131140283] (by norm_num)
      (List.forall_mem_singleton.mpr h₄) (by decide)
  exact prime_of_generates 11 [2, 59, 149309, 11393611]
    [108341181769254293, 288626509448065367648032903] (by norm_num)
    (List.forall_mem_cons.mpr ⟨h₁, List.forall_mem_singleton.mpr h₅⟩) (by decide)

set_option maxRecDepth 8000 in
theorem prime_p256 : p256.data.p.Prime := by
  have h₁ : Nat.Prime 204061199 :=
    prime_of_generates 11 [2, 11, 23, 107, 3769] [] (by norm_num) (by simp) (by decide)
  have h₂ : Nat.Prime 34282281433 :=
    prime_of_generates 17 [2, 2, 2, 3, 7] [204061199] (by norm_num)
      (List.forall_mem_singleton.mpr h₁) (by decide)
  have h₃ : Nat.Prime 66417393611 :=
    prime_of_generates 6 [2, 5, 53, 173, 197, 3677] [] (by norm_num) (by simp)
      (by decide)
  have h₄ : Nat.Prime 11290956913871 :=
    prime_of_generates 13 [2, 5, 17] [66417393611] (by norm_num)
      (List.forall_mem_singleton.mpr h₃) (by decide)
  have h₅ : Nat.Prime 46076956964474543 :=
    prime_of_generates 5 [2, 23, 18169, 78283, 704251] [] (by norm_num) (by simp)
      (by decide)
  have h₆ : Nat.Prime 774023187263532362759620327192479577272145303 :=
    prime_of_generates 3 [2, 3, 3, 2411] [34282281433, 11290956913871, 46076956964474543]
      (by norm_num) (List.forall_mem_cons.mpr ⟨h₂, List.forall_mem_cons.mpr
        ⟨h₄, List.forall_mem_singleton.mpr h₅⟩⟩) (by decide)
  have h₇ : Nat.Prime 835945042244614951780389953367877943453916927241 :=
    prime_of_generates 11 [2, 2, 2, 3, 3, 3, 5] [774023187263532362759620327192479577272145303]
      (by norm_num) (List.forall_mem_singleton.mpr h₆) (by decide)
  exact prime_of_generates 6 [2, 3, 5, 5, 17, 257, 641, 1531, 65537, 490463, 6700417]
    [835945042244614951780389953367877943453916927241] (by norm_num)
    (List.forall_mem_singleton.mpr h₇) (by decide)

theorem prime : ∀ c : NamedCurve, c.data.p.Prime
  | p256 => prime_p256
  | p192 => prime_p192

/-! ## The orders of the generators -/

set_option maxRecDepth 8000 in
theorem order_prime_p192 : p192.data.n.Prime := by
  have h₁ : Nat.Prime 15716741 :=
    prime_of_generates 2 [2, 2, 5, 13, 60449] [] (by norm_num) (by simp) (by decide)
  have h₂ : Nat.Prime 46245989 :=
    prime_of_generates 2 [2, 2, 1693, 6829] [] (by norm_num) (by simp) (by decide)
  have h₃ : Nat.Prime 7244839476697597 :=
    prime_of_generates 2 [2, 2, 3, 239, 54623] [46245989] (by norm_num)
      (List.forall_mem_singleton.mpr h₂) (by decide)
  have h₄ : Nat.Prime 9564682313913860059195669 :=
    prime_of_generates 2 [2, 2, 3, 7] [15716741, 7244839476697597] (by norm_num)
      (List.forall_mem_cons.mpr ⟨h₁, List.forall_mem_singleton.mpr h₃⟩) (by decide)
  have h₅ : Nat.Prime 51920273 :=
    prime_of_generates 3 [2, 2, 2, 2, 61, 53197] [] (by norm_num) (by simp) (by decide)
  have h₆ : Nat.Prime 103840547 :=
    prime_of_generates 2 [2] [51920273] (by norm_num) (List.forall_mem_singleton.mpr h₅)
      (by decide)
  have h₇ : Nat.Prime 7532705587894727 :=
    prime_of_generates 5 [2, 29, 43, 43, 331, 4127, 51419] [] (by norm_num) (by simp)
      (by decide)
  have h₈ : Nat.Prime 3433859179316188682119986911 :=
    prime_of_generates 13 [2, 5, 439] [103840547, 7532705587894727] (by norm_num)
      (List.forall_mem_cons.mpr ⟨h₆, List.forall_mem_singleton.mpr h₇⟩) (by decide)
  exact prime_of_generates 3 [2, 2, 2, 2, 5, 2389]
    [9564682313913860059195669, 3433859179316188682119986911] (by norm_num)
    (List.forall_mem_cons.mpr ⟨h₄, List.forall_mem_singleton.mpr h₈⟩) (by decide)

set_option maxRecDepth 8000 in
theorem order_prime_p256 : p256.data.n.Prime := by
  have h₁ : Nat.Prime 187019741 :=
    prime_of_generates 2 [2, 2, 5, 9350987] [] (by norm_num) (by simp) (by decide)
  have h₂ : Nat.Prime 311245691 :=
    prime_of_generates 2 [2, 5, 7, 17, 29, 29, 311] [] (by norm_num) (by simp)
      (by decide)
  have h₃ : Nat.Prime 622491383 :=
    prime_of_generates 5 [2] [311245691] (by norm_num) (List.forall_mem_singleton.mpr h₂)
      (by decide)
  have h₄ : Nat.Prime 1002328039319 :=
    prime_of_generates 19 [2, 126241, 3969899] [] (by norm_num) (by simp) (by decide)
  have h₅ : Nat.Prime 191039911 :=
    prime_of_generates 3 [2, 3, 5, 41, 155317] [] (by norm_num) (by simp) (by decide)
  have h₆ : Nat.Prime 208150935158385979 :=
    prime_of_generates 2 [2, 3, 11, 43, 127, 3023] [191039911] (by norm_num)
      (List.forall_mem_singleton.mpr h₅) (by decide)
  have h₇ : Nat.Prime 2624747550333869278416773953 :=
    prime_of_generates 7 [2, 2, 2, 2, 2, 2, 3, 3, 1297, 16879] [208150935158385979]
      (by norm_num) (List.forall_mem_singleton.mpr h₆) (by decide)
  exact prime_of_generates 7 [2, 2, 2, 2, 3, 71, 131, 373, 3407, 17449, 38189]
    [187019741, 622491383, 1002328039319, 2624747550333869278416773953] (by norm_num)
    (List.forall_mem_cons.mpr ⟨h₁, List.forall_mem_cons.mpr ⟨h₃, List.forall_mem_cons.mpr
      ⟨h₄, List.forall_mem_singleton.mpr h₇⟩⟩⟩) (by decide)

theorem order_prime : ∀ c : NamedCurve, c.data.n.Prime
  | p256 => order_prime_p256
  | p192 => order_prime_p192

/-! ## The curves -/

/-- a supported curve over its field -/
def primeCurve (c : NamedCurve) : PrimeCurve where
  p := c.data.p
  a := c.data.a
  b := c.data.b
  prime := c.prime
  two_lt := by cases c <;> decide
  nonsingular := by cases c <;> decide

theorem generator_lt (c : NamedCurve) : c.data.gx < c.data.p ∧ c.data.gy < c.data.p := by
  cases c <;> decide

theorem exists_generator (c : NamedCurve) :
    ∃ P, c.primeCurve.coords P = .affine c.data.gx c.data.gy :=
  c.primeCurve.exists_coords_eq c.generator_lt.1 c.generator_lt.2 c.generator_on_curve

/-- **the orders of the generators** -/
theorem smul_order : ∀ c : NamedCurve,
    c.primeCurve.law.smul c.data.n (.affine c.data.gx c.data.gy) = .infinity
  | p256 => by decide +kernel
  | p192 => by decide +kernel

section
variable (c : NamedCurve)
  (hg : c.primeCurve.law.smul c.data.n (.affine c.data.gx c.data.gy) = .infinity)

/-- a supported curve with its generator, if the order takes it to infinity -/
noncomputable def domain : Domain where
  curve := c.primeCurve
  generator := c.exists_generator.choose
  order := c.data.n
  order_prime := c.order_prime
  addOrderOf_generator := by
    have hc := c.exists_generator.choose_spec
    have : Fact c.data.n.Prime := ⟨c.order_prime⟩
    refine addOrderOf_eq_prime ?_ ?_
    · rw [← PrimeCurve.coords_eq_infinity_iff, ← PrimeCurve.coords_smul, hc, hg]
    · intro h0
      rw [h0, PrimeCurve.coords_zero] at hc
      cases hc

/-- **an enabled curve is described by its constants** -/
theorem describes_enable (s : Session) :
    (c.domain hg).Describes ((s.enable c).engine.memory.constants c.words) := by
  rw [constants_enable]
  exact ⟨rfl, rfl, c.exists_generator.choose_spec.symm, rfl⟩

end

/-- a supported curve with its generator -/
noncomputable def standard (c : NamedCurve) : Domain := c.domain c.smul_order

theorem describes_values (c : NamedCurve) : c.standard.Describes c.data.values := by
  have h := c.describes_enable c.smul_order (.new 0 {} [])
  rwa [constants_enable] at h

end NamedCurve
end CurveEngine
