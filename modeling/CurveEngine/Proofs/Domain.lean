import CurveEngine.Proofs.Answers
import CurveEngine.Proofs.Constants
import CurveEngine.Proofs.Group
import Mathlib.GroupTheory.OrderOfElement
import Mathlib.Tactic.NormNum.PowMod
import Mathlib.Tactic.NormNum.Prime

/-!
# Curves and their constants

* `constants_enable`         enabling a curve puts its constants in their places;
* `Session.Equipped`         an idle session that has them there;
* `Domain`                   a non-singular curve over a prime field with a generator of prime order;
* `Domain.Describes`         the constants are those of such a curve;
* `Domain.small`             a curve of order 7 over 11 elements, and `Session.small` with its
                             constants in memory;
* `Domain.tiny`              a curve of order 5 over 7 elements with a point that has the abscissa
                             zero, and `Session.tiny`.
-/

namespace CurveEngine

/-! ## Loading constants -/

namespace Memory

variable {w : Nat} {cs : List (Nat × Nat)}

/-- elements stored behind an element leave it -/
theorem element_foldl_overwrite_of_lt {o : Nat} (h : ∀ c ∈ cs, o + w ≤ c.1) (m : Memory) :
    (cs.foldl (fun m c => m.overwrite c.1 (Words.ofNat w c.2)) m).element w o =
      m.element w o := by
  induction cs generalizing m with
  | nil => rfl
  | cons c cs ih =>
    obtain ⟨hc, hcs⟩ := List.forall_mem_cons.mp h
    rw [List.foldl_cons, ih hcs, element_overwrite_disjoint (.inl hc)]

/-- elements stored one behind the other are all found -/
theorem element_foldl_overwrite (hd : cs.Pairwise fun c c' => c.1 + w ≤ c'.1)
    (h : ∀ c ∈ cs, Fits c.1 w ∧ c.2 < 2 ^ (32 * w)) (m : Memory) :
    ∀ c ∈ cs, (cs.foldl (fun m c => m.overwrite c.1 (Words.ofNat w c.2)) m).element w c.1 =
      c.2 := by
  induction cs generalizing m with
  | nil => exact fun c hc => absurd hc List.not_mem_nil
  | cons c cs ih =>
    obtain ⟨hc, hcs⟩ := List.pairwise_cons.mp hd
    obtain ⟨hv, hvs⟩ := List.forall_mem_cons.mp h
    refine List.forall_mem_cons.mpr ⟨?_, fun c' hc' => ?_⟩
    · rw [List.foldl_cons, element_foldl_overwrite_of_lt hc,
        element_overwrite_of_lt hv.1 (Nat.le_refl w) hv.2]
    · rw [List.foldl_cons]
      exact ih hcs hvs _ c' hc'

end Memory

namespace CurveData

/-- the constants of a curve -/
def values (d : CurveData) : Constants := ⟨0, 1, ⟨d.p, d.a⟩, .affine d.gx d.gy, d.n, d.a, d.b⟩

/-- the constants lie one behind the other, each in the memory and not wider than its place -/
def Placed (d : CurveData) : Prop :=
  (d.constants.Pairwise fun c c' => c.1 + d.words ≤ c'.1) ∧
    ∀ c ∈ d.constants, Memory.Fits c.1 d.words ∧ c.2 < 2 ^ (32 * d.words)

instance (d : CurveData) : Decidable d.Placed := inferInstanceAs (Decidable (_ ∧ _))

/-- loading a curve puts its constants in their places -/
theorem constants_load {d : CurveData} (hd : d.Placed) (m : Memory) :
    (d.load m).constants d.words = d.values := by
  have h := Memory.element_foldl_overwrite hd.1 hd.2 m
  simp only [constants, List.forall_mem_cons] at h
  obtain ⟨h0, h1, hgx, hgy, hp, ha, -, hn, hca, hcb, -⟩ := h
  unfold Memory.constants Memory.law Memory.point values load constants
  rw [h0, h1, hgx, hgy, hp, ha, hn, hca, hcb]

end CurveData

/-- enabling a curve puts its constants in their places -/
theorem constants_enable (s : Session) (c : NamedCurve) :
    (s.enable c).engine.memory.constants c.words = c.data.values := by
  have h : c.data.Placed := by cases c <;> decide
  exact CurveData.constants_load h s.engine.init.memory

namespace Session

/-- an idle session with a curve enabled, and the constants as they were loaded -/
structure Equipped (s : Session) (c : NamedCurve) : Prop where
  idle : s.Idle
  curve : s.curve = some c
  constants : s.engine.memory.constants c.words = c.data.values

theorem equipped_enable (s : Session) (c : NamedCurve) : (s.enable c).Equipped c :=
  ⟨⟨rfl, rfl⟩, rfl, constants_enable s c⟩

end Session

/-! ## Domains -/

/-- a non-singular curve over a prime field with a generator of prime order -/
structure Domain where
  curve : PrimeCurve
  generator : curve.Group
  order : Nat
  order_prime : order.Prime
  addOrderOf_generator : addOrderOf generator = order

namespace Domain

/-- the constants describe the curve and its generator; that 1 and the second copies of the
coefficients are in their places is not asked for -/
structure Describes (D : Domain) (K : Constants) : Prop where
  null : K.null = 0
  law : K.law = D.curve.law
  generator : K.generator = D.curve.coords D.generator
  order : K.order = D.order

/-- both moduli fit into the elements that hold them -/
theorem lt_two_pow {D : Domain} {m : Memory} {w : Nat} (hD : D.Describes (m.constants w)) :
    D.curve.p < 2 ^ (32 * w) ∧ D.order < 2 ^ (32 * w) := by
  have hp : m.element w Layout.field = D.curve.p := congrArg Weierstrass.p hD.law
  have hn : m.element w Layout.order = D.order := hD.order
  rw [← hp, ← hn]
  exact ⟨m.element_lt w _, m.element_lt w _⟩

variable (D : Domain)

instance : Fact D.order.Prime := ⟨D.order_prime⟩

theorem order_pos : 0 < D.order := D.order_prime.pos

end Domain

/-! ## A small domain

The whole group has order 7.  The prime is larger than the order, and the multiple of the generator
by 2 has the abscissa 10, which is not below the order. -/

/-- `y ^ 2 = x ^ 3 + 2 x + 7` over 11 elements -/
def PrimeCurve.small : PrimeCurve where
  p := 11
  a := 2
  b := 7
  prime := by norm_num
  two_lt := by decide
  nonsingular := by decide

/-- the generator `(6, 2)` of order 7 -/
def Domain.small : Domain where
  curve := .small
  generator := .some (6 : ZMod 11) (2 : ZMod 11)
    ((PrimeCurve.small.nonsingular_iff 6 2).mpr (by decide))
  order := 7
  order_prime := by norm_num
  addOrderOf_generator := by
    have : Fact (Nat.Prime 7) := ⟨by norm_num⟩
    refine addOrderOf_eq_prime ?_ ?_
    · rw [← PrimeCurve.coords_eq_infinity_iff, ← PrimeCurve.coords_smul]
      decide_cbv
    · rw [Ne, ← PrimeCurve.coords_eq_infinity_iff]
      decide

/-- the constants of the small domain, in the words of P-192 -/
def CurveData.small : CurveData :=
  { title := "", words := 6, p := 11, a := 2, b := 7, gx := 6, gy := 2, n := 7, pPlusOne := [12],
    bits := 4 }

namespace Session

/-- P-192 enabled, the constants replaced by small ones, and one random block with the number `k` -/
def small (k : Nat) : Session :=
  let s := (new 0 {} [some (Bytes.ofNat 6 k)]).enable .p192
  { s with engine := { s.engine with memory := CurveData.small.load .zero } }

theorem idle_small (k : Nat) : (small k).Idle := ⟨rfl, rfl⟩

theorem constants_small (k : Nat) :
    (small k).engine.memory.constants NamedCurve.p192.words = CurveData.small.values := by
  have h : CurveData.small.Placed := by decide
  exact CurveData.constants_load h .zero

theorem describes_small (k : Nat) :
    Domain.small.Describes ((small k).engine.memory.constants NamedCurve.p192.words) := by
  rw [constants_small]
  exact ⟨rfl, rfl, rfl, rfl⟩

end Session

/-! ## A domain with a zero abscissa

The double of the generator is `(0, 1)`. -/

/-- `y ^ 2 = x ^ 3 + x + 1` over 7 elements -/
def PrimeCurve.tiny : PrimeCurve where
  p := 7
  a := 1
  b := 1
  prime := by norm_num
  two_lt := by decide
  nonsingular := by decide

/-- the generator `(2, 2)` of order 5 -/
def Domain.tiny : Domain where
  curve := .tiny
  generator := .some (2 : ZMod 7) (2 : ZMod 7)
    ((PrimeCurve.tiny.nonsingular_iff 2 2).mpr (by decide))
  order := 5
  order_prime := by norm_num
  addOrderOf_generator := by
    have : Fact (Nat.Prime 5) := ⟨by norm_num⟩
    refine addOrderOf_eq_prime ?_ ?_
    · rw [← PrimeCurve.coords_eq_infinity_iff, ← PrimeCurve.coords_smul]
      decide_cbv
    · rw [Ne, ← PrimeCurve.coords_eq_infinity_iff]
      decide

/-- the constants of the tiny domain, in the words of P-192 -/
def CurveData.tiny : CurveData :=
  { title := "", words := 6, p := 7, a := 1, b := 1, gx := 2, gy := 2, n := 5, pPlusOne := [8],
    bits := 4 }

namespace Session

/-- P-192 enabled with the constants of the tiny domain, and one random block with the number `k` -/
def tiny (k : Nat) : Session :=
  { small k with engine := { (small k).engine with memory := CurveData.tiny.load .zero } }

theorem constants_tiny (k : Nat) :
    (tiny k).engine.memory.constants NamedCurve.p192.words = CurveData.tiny.values := by
  have h : CurveData.tiny.Placed := by decide
  exact CurveData.constants_load h .zero

end Session
end CurveEngine
