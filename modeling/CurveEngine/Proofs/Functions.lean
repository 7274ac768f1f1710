import CurveEngine.Engine
import CurveEngine.Proofs.Elements
import Mathlib.Data.Nat.Bitwise

/-!
# What each function of the engine leaves behind

One equation for each function, with operands that lie in memory: the numbers it reads are elements,
and the engine afterwards differs from the one before in memory and registers only.

* `Status.msw_of_ne_zero`    what the status word of a stored number says;
* `Engine.update`            the engine with another memory and other registers;
* `Weierstrass.sum?`, `Weierstrass.multiple?`   what a function on points computes;
* `storePoint_eq`            where a point goes, and what its status register says.
-/

namespace CurveEngine

/-- a sequence gives a result exactly if both parts do -/
theorem bind_eq_ok_iff {ε α β : Type} {x : Except ε α} {f : α → Except ε β} {b : β} :
    x >>= f = .ok b ↔ ∃ a, x = .ok a ∧ f a = .ok b := by
  cases x with
  | error e => exact ⟨fun h => (by cases h), fun ⟨_, h, _⟩ => (by cases h)⟩
  | ok a =>
    constructor
    · intro h
      exact ⟨a, rfl, h⟩
    · intro h
      obtain ⟨_, ha, h⟩ := h
      cases ha
      exact h

namespace Weierstrass

variable (C : Weierstrass)

/-- the sum of two points, if their coordinates are reduced -/
def sum? (P Q : Point) : Option Point :=
  if C.Reduced P ∧ C.Reduced Q then some (C.add P Q) else none

/-- the multiple of a point, if its coordinates are reduced -/
def multiple? (k : Nat) (Q : Point) : Option Point :=
  if C.Reduced Q then some (C.smul k Q) else none

variable {C}

theorem sum?_eq_some_iff {P Q R : Point} :
    C.sum? P Q = some R ↔ C.Reduced P ∧ C.Reduced Q ∧ C.add P Q = R := by
  unfold sum?
  split
  · rename_i h
    rw [Option.some.injEq]
    exact ⟨fun e => ⟨h.1, h.2, e⟩, fun e => e.2.2⟩
  · rename_i h
    exact ⟨fun e => (by cases e), fun e => absurd ⟨e.1, e.2.1⟩ h⟩

theorem multiple?_eq_some_iff {k : Nat} {Q R : Point} :
    C.multiple? k Q = some R ↔ C.Reduced Q ∧ C.smul k Q = R := by
  unfold multiple?
  split
  · rename_i h
    rw [Option.some.injEq]
    exact ⟨fun e => ⟨h, e⟩, fun e => e.2⟩
  · rename_i h
    exact ⟨fun e => (by cases e), fun e => absurd e.1 h⟩

theorem multiple?_eq_none_iff {k : Nat} {Q : Point} : C.multiple? k Q = none ↔ ¬ C.Reduced Q := by
  unfold multiple?
  split
  · rename_i h
    exact ⟨nofun, fun hn => absurd h hn⟩
  · rename_i h
    exact ⟨fun _ => h, fun _ => rfl⟩

end Weierstrass

/-- the status word of a function on points -/
def Status.ofPoint : Option Point → Word
  | none => pointFailed
  | some .infinity => pointInfinity
  | some (.affine _ _) => pointDone

namespace Status

theorem address_ofNat {n : Nat} (h : n < 0x800) : address (UInt32.ofNat n) = n := by
  unfold address
  rw [UInt32.toNat_and, UInt32.toNat_ofNat', show (0x7ff : UInt32).toNat = 2 ^ 11 - 1 from rfl,
    Nat.and_two_pow_sub_one_eq_mod]
  omega

theorem isZero_ofNat {n : Nat} (h : n < 0x800) : isZero (UInt32.ofNat n) = false := by
  have e : UInt32.ofNat n &&& zeroFlag = 0 := by
    apply UInt32.toNat_inj.mp
    rw [UInt32.toNat_and, UInt32.toNat_ofNat', show zeroFlag.toNat = 2 ^ 15 from rfl,
      Nat.mod_eq_of_lt (by omega), Nat.and_two_pow, Nat.testBit_lt_two_pow (by omega)]
    rfl
  unfold isZero
  rw [e]
  rfl

theorem isZero_or (v : Word) : isZero (zeroFlag ||| v) = true := by
  have e : (zeroFlag ||| v) &&& zeroFlag = zeroFlag := by
    apply UInt32.toBitVec_inj.mp
    ext i hi
    rw [UInt32.toBitVec_and, UInt32.toBitVec_or, BitVec.getElem_and, BitVec.getElem_or]
    cases zeroFlag.toBitVec[i] <;> simp
  unfold isZero
  rw [e]
  rfl

theorem isZero_msw_of_zero {o : Nat} {ws : List Word} (h : Words.value ws = 0) :
    isZero (msw o ws) = true := by
  unfold msw
  rw [(Words.top?_eq_none_iff ws).mpr h]
  exact isZero_or _

/-- the status of any other result tells how many words the result takes -/
theorem msw_of_ne_zero {o : Nat} {ws : List Word} (hf : o + ws.length ≤ 0x800)
    (h : Words.value ws ≠ 0) :
    isZero (msw o ws) = false ∧ ∃ i, i < ws.length ∧ address (msw o ws) = o + i ∧
      Words.value ws < 2 ^ (32 * (i + 1)) := by
  cases ht : Words.top? ws with
  | none => exact absurd ((Words.top?_eq_none_iff ws).mp ht) h
  | some i =>
    obtain ⟨hl, hu⟩ := (Words.top?_eq_some_iff ws i).mp ht
    have hi : i < ws.length := by
      have hlt := Nat.lt_of_le_of_lt hl (Words.value_lt ws)
      have := (Nat.pow_lt_pow_iff_right (by decide : 1 < 2)).mp hlt
      omega
    have e : msw o ws = UInt32.ofNat (o + i) := by
      unfold msw
      rw [ht]
    rw [e]
    exact ⟨isZero_ofNat (by omega), i, hi, address_ofNat (by omega), hu⟩

end Status

namespace Engine

open Memory (Fits)

theorem vector_eq {e : Engine} {o n : Nat} (h : Fits o n) :
    e.vector o n = .ok (e.memory.element n o) := vector_of_fits h

def update (e : Engine) (m : Memory) (f : RegisterFile) : Engine :=
  { e with memory := m, registers := f }

@[simp] theorem memory_update (e : Engine) (m : Memory) (f : RegisterFile) :
    (e.update m f).memory = m := rfl
@[simp] theorem registers_update (e : Engine) (m : Memory) (f : RegisterFile) :
    (e.update m f).registers = f := rfl

/-- the memory and the status after a number was stored in `n` words -/
theorem store_eq {e : Engine} {o n : Nat} (h : Fits o n) (v : Nat) :
    e.store o n v = .ok (e.update (e.memory.overwrite o (Words.ofNat n v))
      (e.registers.set .msw (Status.msw o (Words.ofNat n v)))) := store_of_fits h v

section
variable {e : Engine} {o : Operands} (ho : e.registers.operands = o)
include ho

theorem execute_multiply (ha : Fits o.a o.aLength) (hb : Fits o.b o.bLength)
    (hc : Fits o.c (o.aLength + o.bLength)) :
    e.execute .multiply = e.store o.c (o.aLength + o.bLength)
      (e.memory.element o.aLength o.a * e.memory.element o.bLength o.b) := by
  subst ho
  simp only [execute, vector_eq ha, vector_eq hb]
  rfl

theorem execute_add (ha : Fits o.a o.aLength) (hb : Fits o.b o.bLength) :
    e.execute .add = e.store o.c (max o.aLength o.bLength + 1)
      (e.memory.element o.aLength o.a + e.memory.element o.bLength o.b) := by
  subst ho
  simp only [execute, vector_eq ha, vector_eq hb]
  rfl

theorem execute_subtract (ha : Fits o.a o.aLength) (hb : Fits o.b o.bLength) :
    e.execute .subtract = e.store o.c (max o.aLength o.bLength)
      (2 ^ (32 * max o.aLength o.bLength) + e.memory.element o.aLength o.a
        - e.memory.element o.bLength o.b) := by
  subst ho
  simp only [execute, vector_eq ha, vector_eq hb, Nat.one_shiftLeft]
  rfl

theorem execute_modulo (ha : Fits o.a o.aLength) (hb : Fits o.b o.bLength) :
    e.execute .modulo = e.store o.c (o.bLength + 1)
      (if e.memory.element o.bLength o.b = 0 then 0
        else e.memory.element o.aLength o.a % e.memory.element o.bLength o.b) := by
  subst ho
  simp only [execute, vector_eq ha, vector_eq hb]
  show (if e.memory.element e.registers.operands.bLength e.registers.operands.b = 0 then
      e.store _ _ 0 else e.store _ _ (_ % _)) = _
  split
  · rfl
  · rfl

theorem execute_compare (ha : Fits o.a o.aLength) (hb : Fits o.b o.aLength) :
    e.execute .compare = .ok (e.setRegister .compare (Status.ofOrdering
      (compare (e.memory.element o.aLength o.a) (e.memory.element o.aLength o.b)))) := by
  subst ho
  simp only [execute, vector_eq ha, vector_eq hb]
  rfl

theorem execute_copy (ha : Fits o.a o.aLength) (hc : Fits o.c o.aLength) :
    e.execute .copy =
      .ok (e.update (e.memory.overwrite o.c (e.memory.window o.a o.aLength)) e.registers) := by
  subst ho
  have hw : Fits e.registers.operands.c
      (e.memory.window e.registers.operands.a e.registers.operands.aLength).length := by
    rwa [Memory.length_window]
  simp only [execute, Memory.read_of_fits ha]
  show (do let m ← e.memory.write _ _; pure { e with memory := m }) = _
  rw [Memory.write_of_fits hw]
  rfl

theorem execute_invert (ha : Fits o.a o.aLength) (hb : Fits o.b o.bLength)
    (hm : e.memory.element o.bLength o.b ≠ 0) :
    e.execute .invert = e.store o.d o.bLength
      ((Residue.inverse? (e.memory.element o.aLength o.a)
        (e.memory.element o.bLength o.b)).getD 0) := by
  subst ho
  simp only [execute, vector_eq ha, vector_eq hb]
  show (do
    if e.memory.element e.registers.operands.bLength e.registers.operands.b = 0 then
      throw Fault.zeroModulus
    e.store _ _ _) = _
  rw [if_neg hm]

/-! ## Points -/

theorem execute_pointMul (ha : Fits o.a o.aLength) (hb : Fits o.b o.bLength)
    (hb' : Fits (o.b + Layout.coordinateSpace o.bLength) o.bLength) (hc : Fits o.c o.bLength)
    (hc' : Fits (o.c + Layout.coordinateSpace o.bLength) o.bLength) :
    e.execute .pointMul = e.storePoint o ((e.memory.law o.bLength o.b).multiple?
      (e.memory.element o.aLength o.a) (e.memory.point o.bLength o.c)) := by
  subst ho
  simp only [execute, pointMultiple?, curve, point, vector_eq ha, vector_eq hb, vector_eq hb',
    vector_eq hc, vector_eq hc']
  rfl

theorem execute_pointAdd (ha : Fits o.a o.bLength)
    (ha' : Fits (o.a + Layout.coordinateSpace o.bLength) o.bLength) (hb : Fits o.b o.bLength)
    (hb' : Fits (o.b + Layout.coordinateSpace o.bLength) o.bLength) (hc : Fits o.c o.bLength)
    (hc' : Fits (o.c + Layout.coordinateSpace o.bLength) o.bLength) :
    e.execute .pointAdd = e.storePoint o ((e.memory.law o.bLength o.b).sum?
      (e.memory.point o.bLength o.a) (e.memory.point o.bLength o.c)) := by
  subst ho
  simp only [execute, pointSum?, curve, point, vector_eq ha, vector_eq ha', vector_eq hb,
    vector_eq hb', vector_eq hc, vector_eq hc']
  rfl

end

/-- a stored point changes its own words only, and is read back if its coordinates are short -/
theorem storePoint_eq {e : Engine} {o : Operands} (hd : Fits o.d (Layout.pointSpace o.bLength))
    (r : Option Point) :
    ∃ m f, e.storePoint o r = .ok (e.update m f) ∧ f.shift = Status.ofPoint r ∧
      (∀ i, i < o.d ∨ o.d + Layout.pointSpace o.bLength ≤ i → m.word i = e.memory.word i) ∧
      ∀ x y, r = some (.affine x y) → x < 2 ^ (32 * o.bLength) → y < 2 ^ (32 * o.bLength) →
        m.point o.bLength o.d = .affine x y := by
  match r with
  | none => exact ⟨e.memory, _, rfl, rfl, fun _ _ => rfl, fun _ _ h => by cases h⟩
  | some .infinity => exact ⟨e.memory, _, rfl, rfl, fun _ _ => rfl, fun _ _ h => by cases h⟩
  | some (.affine x y) =>
    have hs : Layout.pointSpace o.bLength = 2 * Layout.coordinateSpace o.bLength := rfl
    have hw := Layout.le_coordinateSpace o.bLength
    unfold Memory.Fits at hd
    have hx : Fits o.d (Layout.coordinateSpace o.bLength) := by
      unfold Memory.Fits
      omega
    have hy : Fits (o.d + Layout.coordinateSpace o.bLength) (Layout.coordinateSpace o.bLength) := by
      unfold Memory.Fits
      omega
    let xs := Words.ofNat (Layout.coordinateSpace o.bLength) x
    let ys := Words.ofNat (Layout.coordinateSpace o.bLength) y
    let d' := o.d + Layout.coordinateSpace o.bLength
    refine ⟨(e.memory.overwrite o.d xs).overwrite d' ys,
      ((e.registers.set .msw (Status.msw o.d xs)).set .msw (Status.msw d' ys)).set .shift
        Status.pointDone, ?_, rfl, ?_, ?_⟩
    · simp only [storePoint, store_eq hx]
      show (do let e ← Engine.store _ _ _ _; pure (e.setRegister .shift Status.pointDone)) = _
      rw [store_eq hy]
      rfl
    · intro i hi
      rw [Memory.word_overwrite_of_lt (by rw [Words.length_ofNat]; omega),
        Memory.word_overwrite_of_lt (by rw [Words.length_ofNat]; omega)]
    · intro x' y' h hx' hy'
      cases h
      show Point.affine _ _ = _
      rw [Memory.element_overwrite_disjoint (by omega), Memory.element_overwrite_of_lt hx hw hx',
        Memory.element_overwrite_of_lt hy hw hy']

end Engine
end CurveEngine
