import CurveEngine.Proofs.Arithmetic

/-!
# Arithmetic with curve constants

* `Constants`, `Memory.constants`   the numbers in the places of a curve's constants;
* `Host.Loaded`         a ready host with given constants in their places;
* `Loaded.writes`       no program that writes behind the scratchpad changes them;
* `Loaded.multiply` and the lemmas behind it   the arithmetic programs modulo the order, modulo the
                        prime and on points, for operands whose values are known.
-/

namespace CurveEngine

/-- the numbers in the places of a curve's constants -/
structure Constants where
  null : Nat
  one : Nat
  /-- the prime and the coefficient `a` as functions on points read them -/
  law : Weierstrass
  generator : Point
  order : Nat
  coefficientA : Nat
  coefficientB : Nat
  deriving DecidableEq

/-- the constants of `w` words in a memory -/
def Memory.constants (m : Memory) (w : Nat) : Constants where
  null := m.element w Layout.null
  one := m.element w Layout.one
  law := m.law w Layout.field
  generator := m.point w Layout.generator
  order := m.element w Layout.order
  coefficientA := m.element w Layout.coefficientA
  coefficientB := m.element w Layout.coefficientB

/-- the words in front of the scratchpad decide the constants -/
theorem Memory.constants_congr {m m' : Memory} {w : Nat} (hw : w ≤ Layout.elementSlot)
    (h : ∀ i, i < Layout.scratchpad → m.word i = m'.word i) : m.constants w = m'.constants w := by
  obtain ⟨hcs, hps⟩ := Layout.coordinateSpace_le hw
  have he : ∀ o, o + w ≤ Layout.scratchpad → m.element w o = m'.element w o :=
    fun o ho => element_ext fun i hi => h (o + i) (by omega)
  have hp : ∀ o, o + Layout.pointSlot ≤ Layout.scratchpad → ∀ k, k ≤ Layout.coordinateSpace w →
      m.element w (o + k) = m'.element w (o + k) := fun o ho k hk => he _ (by omega)
  have hs : ∀ o, o + Layout.elementSlot ≤ Layout.scratchpad → m.element w o = m'.element w o :=
    fun o ho => he o (by omega)
  have hg := hp Layout.generator (by decide)
  have hf := hp Layout.field (by decide)
  unfold constants law point
  rw [hs Layout.null (by decide), hs Layout.one (by decide), hs Layout.order (by decide),
    hs Layout.coefficientA (by decide), hs Layout.coefficientB (by decide),
    hg _ (Nat.le_refl _), hf _ (Nat.le_refl _)]
  rw [show m.element w Layout.generator = _ from hg 0 (Nat.zero_le _),
    show m.element w Layout.field = _ from hf 0 (Nat.zero_le _)]
  rfl

theorem Host.Writes.constants {h h' : Host} {o n w : Nat} (hw : h.Writes h' o n)
    (hk : w ≤ Layout.elementSlot) (ho : Layout.variables ≤ o) :
    h'.engine.memory.constants w = h.engine.memory.constants w := by
  have hs : Layout.scratchpad ≤ Layout.variables := by decide
  exact Memory.constants_congr hk fun i hi => hw.word i (.inl hi) (by omega)

/-- a ready host with these constants of `w` words in their places, a zero among them -/
structure Host.Loaded (h : Host) (w : Nat) (K : Constants) : Prop where
  ready : h.Ready
  words : w ≤ Layout.elementSlot
  constants : h.engine.memory.constants w = K
  null : K.null = 0

namespace Host.Loaded

open Program Arithmetic
open Memory (Fits)
open Layout (Place PointPlace)

variable {h : Host} {w : Nat} {K : Constants} (hL : h.Loaded w K)
include hL

theorem writes {h' : Host} {o n : Nat} (hw : h.Writes h' o n)
    (ho : Layout.variables ≤ o) :
    h'.Loaded w K :=
  ⟨hw.ready, hL.words, (hw.constants hL.words ho).trans hL.constants, hL.null⟩

/-! ## Where the constants are -/

theorem null_element : h.element w Layout.null = 0 :=
  (congrArg Constants.null hL.constants).trans hL.null

theorem one_element : h.element w Layout.one = K.one := congrArg Constants.one hL.constants

theorem field_element : h.element w Layout.field = K.law.p :=
  congrArg (fun K => K.law.p) hL.constants

theorem order_element : h.element w Layout.order = K.order :=
  congrArg Constants.order hL.constants

theorem coefficientA_element : h.element w Layout.coefficientA = K.coefficientA :=
  congrArg Constants.coefficientA hL.constants

theorem coefficientB_element : h.element w Layout.coefficientB = K.coefficientB :=
  congrArg Constants.coefficientB hL.constants

theorem law_field : h.engine.memory.law w Layout.field = K.law :=
  congrArg Constants.law hL.constants

theorem point_generator : h.engine.memory.point w Layout.generator = K.generator :=
  congrArg Constants.generator hL.constants

/-! ## Modulo the order -/

variable {a b c t x y : Nat}

theorem range (hx : h.element w a = x) (ha : Place a) (o : Nat) :
    (checkBetween w a Layout.null Layout.order).Computes h o 0 (Residue.between x 0 K.order)
      fun _ _ _ => 0 < x ∧ x < K.order := by
  have hc := checkBetween_computes hL.words hL.ready ha (by decide : Place Layout.null)
    (by decide : Place Layout.order) o
  rw [hx, hL.null_element, hL.order_element] at hc
  exact hc

theorem multiply (hx : h.element w a = x) (hy : h.element w b = y)
    (hs : Place a ∧ Place b ∧ Fits t Layout.remainderSlot) :
    (modular .multiply w a b Layout.order t).Computes h t Layout.remainderSlot
      (Residue.reduced (x * y) K.order) (Stored w t) := by
  have hc := multiply_computes hL.words hL.ready hs.1 hs.2.1 (by decide : Place Layout.order) hs.2.2
  rw [hx, hy, hL.order_element] at hc
  exact hc

theorem add (hx : h.element w a = x) (hy : h.element w b = y)
    (hs : Place a ∧ Place b ∧ Fits t Layout.remainderSlot) :
    (modular .add w a b Layout.order t).Computes h t Layout.remainderSlot
      (Residue.reduced (x + y) K.order) (Stored w t) := by
  have hc := add_computes hL.words hL.ready hs.1 hs.2.1 (by decide : Place Layout.order) hs.2.2
  rw [hx, hy, hL.order_element] at hc
  exact hc

theorem invert (hx : h.element w a = x) (hn : K.order ≠ 0)
    (hs : Place a ∧ Place t) :
    (invert w a Layout.order t).Computes h t Layout.elementSlot (Residue.inverted x K.order)
      (Stored w t) := by
  have hc := invert_computes hL.words hL.ready hs.1 (by decide : Place Layout.order) hs.2
    (by rwa [hL.order_element])
  rw [hx, hL.order_element] at hc
  exact hc

/-! ## Modulo the prime -/

omit hL in
theorem clear_null (hv : Layout.variables ≤ t) :
    Layout.Clear t Layout.remainderSlot Layout.null Layout.elementSlot :=
  ⟨.inl (by decide), .inr (.inl (Nat.le_trans (by decide) hv))⟩

theorem fieldRange (hx : h.element w a = x) (ha : Place a) (o : Nat) :
    (checkBetween w a Layout.null Layout.field).Computes h o 0 (Residue.between x 0 K.law.p)
      fun _ _ _ => 0 < x ∧ x < K.law.p := by
  have hc := checkBetween_computes hL.words hL.ready ha (by decide : Place Layout.null)
    (by decide : Place Layout.field) o
  rw [hx, hL.null_element, hL.field_element] at hc
  exact hc

theorem fieldMultiply (hx : h.element w a = x) (hy : h.element w b = y)
    (hs : Place a ∧ Place b ∧ Fits t Layout.remainderSlot) (hv : Layout.variables ≤ t) :
    (field .multiply w a b t).Computes h t Layout.remainderSlot
      (.ok (Residue.total (x * y) K.law.p)) (Stored w t) := by
  have hc := fieldMultiply_computes hL.words hL.ready hL.null_element hs.1 hs.2.1 hs.2.2 (clear_null hv)
  rw [hx, hy, hL.field_element] at hc
  exact hc

theorem fieldAdd (hx : h.element w a = x) (hy : h.element w b = y)
    (hs : Place a ∧ Place b ∧ Fits t Layout.remainderSlot) (hv : Layout.variables ≤ t) :
    (field .add w a b t).Computes h t Layout.remainderSlot
      (.ok (Residue.total (x + y) K.law.p)) (Stored w t) := by
  have hc := fieldAdd_computes hL.words hL.ready hL.null_element hs.1 hs.2.1 hs.2.2 (clear_null hv)
  rw [hx, hy, hL.field_element] at hc
  exact hc

/-! ## Points -/

theorem pointMul {P : Point} (hx : h.element w a = x) (hP : h.engine.memory.point w c = P)
    (hs : Place a ∧ PointPlace c ∧ PointPlace t) :
    (point .pointMul w a c t).Computes h t Layout.pointSlot
      (Point.regular (K.law.multiple? x P)) (StoredPoint w t) := by
  have hm := pointMul_computes hL.words hL.ready hs.1 hs.2.1 hs.2.2
  rw [hx, hP, hL.law_field] at hm
  exact hm

theorem pointAdd {P Q : Point} (hP : h.engine.memory.point w a = P)
    (hQ : h.engine.memory.point w c = Q)
    (hs : PointPlace a ∧ PointPlace c ∧ PointPlace t) :
    (point .pointAdd w a c t).Computes h t Layout.pointSlot
      (Point.regular (K.law.sum? P Q)) (StoredPoint w t) := by
  have hm := pointAdd_computes hL.words hL.ready hs.1 hs.2.1 hs.2.2
  rw [hP, hQ, hL.law_field] at hm
  exact hm

end Host.Loaded
end CurveEngine
