import CurveEngine.Proofs.Functions
import Mathlib.Algebra.Order.Ring.Int

/-!
# Functions are exact, whatever their operands overlap

What one function of the engine leaves behind, for any memory and any operand registers.  All
numbers are those the operands named before the function started; a function may write over its own
operands, so nothing here asks for windows beside each other.

* `Contents`                what a function works on, the memory and the registers;
* `Contents.Keeps`          registers that stay;
* `Contents.Reports`        what the status word says of a stored number;
* `Contents.Stores`, `Contents.StoresPoint`   a number, or the outcome of a function on points,
                            stored in full with its status, and nothing else changed;
* `Contents.Exact`          what each of the nine functions leaves behind;
* `Engine.execute_exact`    a function that completes is exact, one case for each;
* `Engine.writeRegister_exact`   the same for the write that starts it.
-/

namespace CurveEngine

open Memory (Fits)

/-- what a function works on -/
structure Contents where
  memory : Memory
  registers : RegisterFile

namespace Contents

variable (s s' : Contents)

/-- every register but those in `rs` is the same -/
def Keeps (rs : List Register) : Prop :=
  ∀ r, r ∉ rs → s'.registers.get r = s.registers.get r

/-- the status word is flagged exactly for zero, and otherwise the address of the highest of the `n`
words at `offset` that is not zero -/
structure Reports (offset n value : Nat) : Prop where
  isZero : Status.isZero s.registers.msw = true ↔ value = 0
  top : value ≠ 0 → ∃ i, i < n ∧ s.registers.msw.toNat = offset + i ∧
    s.memory.word (offset + i) ≠ 0 ∧ ∀ j, i < j → j < n → s.memory.word (offset + j) = 0

/-- all of `value` was stored in `n` words at `offset`, and nothing else changed but its status -/
structure Stores (offset n value : Nat) : Prop where
  fits : Fits offset n
  element : s'.memory.element n offset = value
  reports : s'.Reports offset n value
  outside : ∀ i, i < offset ∨ offset + n ≤ i → s'.memory.word i = s.memory.word i
  keeps : s.Keeps s' [.msw]

/-- both coordinates were stored from `offset` on, in `n` words each; the status is that of the
ordinate -/
structure StoresCoordinates (offset n x y : Nat) : Prop where
  fits : Fits offset (2 * n)
  abscissa : s'.memory.element n offset = x
  ordinate : s'.memory.element n (offset + n) = y
  reports : s'.Reports (offset + n) n y
  shift : s'.registers.shift = Status.pointDone
  outside : ∀ i, i < offset ∨ offset + 2 * n ≤ i → s'.memory.word i = s.memory.word i
  keeps : s.Keeps s' [.msw, .shift]

/-- failure and infinity are told by the shift register and change nothing else -/
def StoresPoint (offset n : Nat) : Option Point → Prop
  | some (.affine x y) => s.StoresCoordinates s' offset n x y
  | r => s'.registers.shift = Status.ofPoint r ∧ s'.memory = s.memory ∧ s.Keeps s' [.shift]

/-- what a function makes of the numbers its operands name -/
def Exact (f : Opcode) : Prop :=
  let o := s.registers.operands
  let a := s.memory.element o.aLength o.a
  let b := s.memory.element o.bLength o.b
  match f with
  | .multiply => s.Stores s' o.c (o.aLength + o.bLength) (a * b)
  | .add => s.Stores s' o.c (max o.aLength o.bLength + 1) (a + b)
  | .subtract =>
    let n := max o.aLength o.bLength
    s.Stores s' o.c n (((a : Int) - b) % 2 ^ (32 * n)).toNat
  | .modulo => s.Stores s' o.c (o.bLength + 1) (if b = 0 then 0 else a % b)
  | .invert => b ≠ 0 ∧ ∃ i, s.Stores s' o.d o.bLength i ∧
    (i = 0 ↔ ¬ Nat.Coprime a b ∨ b = 1) ∧ (i ≠ 0 → i < b ∧ i * a % b = 1)
  | .copy => (Fits o.a o.aLength ∧ Fits o.c o.aLength) ∧
    (∀ i, i < o.aLength → s'.memory.word (o.c + i) = s.memory.word (o.a + i)) ∧
    (∀ i, i < o.c ∨ o.c + o.aLength ≤ i → s'.memory.word i = s.memory.word i) ∧ s.Keeps s' []
  | .compare =>
    s'.registers.compare = Status.ofOrdering (compare a (s.memory.element o.aLength o.b)) ∧
    s'.memory = s.memory ∧ s.Keeps s' [.compare]
  | .pointAdd => s.StoresPoint s' o.d (Layout.coordinateSpace o.bLength)
    ((s.memory.law o.bLength o.b).sum? (s.memory.point o.bLength o.a) (s.memory.point o.bLength o.c))
  | .pointMul => s.StoresPoint s' o.d (Layout.coordinateSpace o.bLength)
    ((s.memory.law o.bLength o.b).multiple? a (s.memory.point o.bLength o.c))

/-- the status word of what lies in `n` words -/
theorem reports_of_msw {s : Contents} {o n v : Nat} (hf : Fits o n)
    (hw : s.memory.window o n = Words.ofNat n v)
    (hm : s.registers.msw = Status.msw o (Words.ofNat n v)) :
    s.Reports o n (v % 2 ^ (32 * n)) := by
  have hword : ∀ i, i < n → s.memory.word (o + i) = (Words.ofNat n v).getD i 0 := by
    intro i hi
    rw [← hw, Memory.getD_window _ _ _ _ hi]
  unfold Memory.Fits Layout.memoryWords at hf
  rw [← Words.value_ofNat]
  cases ht : Words.top? (Words.ofNat n v) with
  | none =>
    have hz := (Words.top?_eq_none_iff _).mp ht
    refine ⟨?_, fun h => absurd hz h⟩
    rw [hm, Status.isZero_msw_of_zero hz]
    exact ⟨fun _ => hz, fun _ => rfl⟩
  | some i =>
    have hz : Words.value (Words.ofNat n v) ≠ 0 := by
      intro h
      rw [(Words.top?_eq_none_iff _).mpr h] at ht
      cases ht
    obtain ⟨hi, hn, ha⟩ := Words.getD_of_top?_eq_some ht
    rw [Words.length_ofNat] at hi
    have e : s.registers.msw = UInt32.ofNat (o + i) := by
      rw [hm]
      unfold Status.msw
      rw [ht]
    refine ⟨?_, fun _ => ⟨i, hi, ?_, ?_, ?_⟩⟩
    · rw [e, Status.isZero_ofNat (by omega)]
      exact ⟨fun h => (by cases h), fun h => absurd h hz⟩
    · rw [e, UInt32.toNat_ofNat', Nat.mod_eq_of_lt (by omega)]
    · rw [hword i hi]
      exact hn
    · intro j hj hjn
      rw [hword j hjn]
      exact ha j hj

theorem keeps_set (m m' : Memory) (g : RegisterFile) (r : Register) (v : Word) :
    Keeps ⟨m, g⟩ ⟨m', g.set r v⟩ [r] := by
  intro r' h
  exact RegisterFile.get_set_of_ne g (fun he => h (List.mem_singleton.mpr he.symm)) v

end Contents

/-! ## How wide results are -/

namespace Words

variable {a b m n : Nat}

theorem mul_lt_pow (ha : a < 2 ^ (32 * m)) (hb : b < 2 ^ (32 * n)) :
    a * b < 2 ^ (32 * (m + n)) := by
  rw [Nat.mul_add, Nat.pow_add]
  exact Nat.mul_lt_mul'' ha hb

theorem pow_le_pow_max (m n : Nat) :
    2 ^ (32 * m) ≤ 2 ^ (32 * max m n) ∧ 2 ^ (32 * n) ≤ 2 ^ (32 * max m n) :=
  ⟨Nat.pow_le_pow_right (by decide) (by omega), Nat.pow_le_pow_right (by decide) (by omega)⟩

theorem add_lt_pow (ha : a < 2 ^ (32 * m)) (hb : b < 2 ^ (32 * n)) :
    a + b < 2 ^ (32 * (max m n + 1)) := by
  obtain ⟨hm, hn⟩ := pow_le_pow_max m n
  rw [pow_succ_words]
  omega

/-- the power added before a subtraction does not matter modulo that power -/
theorem sub_mod_pow (m : Nat) (hb : b < 2 ^ (32 * n)) :
    (2 ^ (32 * max m n) + a - b) % 2 ^ (32 * max m n) =
      (((a : Int) - b) % 2 ^ (32 * max m n)).toNat := by
  have hn := (pow_le_pow_max m n).2
  generalize 32 * max m n = k at hn ⊢
  have e : (((2 ^ k + a - b) % 2 ^ k : Nat) : Int) = ((a : Int) - b) % 2 ^ k := by
    rw [Int.natCast_emod, Int.ofNat_sub (by omega)]
    push_cast
    rw [Int.add_sub_assoc, Int.add_emod_left]
  rw [← e, Int.toNat_natCast]

end Words

namespace Engine

variable {e e' : Engine}

def contents (e : Engine) : Contents := ⟨e.memory, e.registers⟩

/-! ## Operands -/

section
variable {α : Type} {x : α}

/-- what follows a read goes on with the number that was read -/
theorem of_bind_vector {o n : Nat} {k : Nat → Except Fault α}
    (h : e.vector o n >>= k = .ok x) : k (e.memory.element n o) = .ok x := by
  obtain ⟨v, hv, hk⟩ := bind_eq_ok_iff.mp h
  obtain ⟨ws, hr, hw⟩ := bind_eq_ok_iff.mp hv
  cases hw
  unfold Memory.read at hr
  split at hr
  · cases hr
    exact hk
  · cases hr

theorem of_bind_curve {o : Operands} {k : Weierstrass → Except Fault α}
    (h : e.curve o >>= k = .ok x) : k (e.memory.law o.bLength o.b) = .ok x := by
  obtain ⟨C, hC, hk⟩ := bind_eq_ok_iff.mp h
  cases of_bind_vector (of_bind_vector hC)
  exact hk

theorem of_bind_point {o w : Nat} {k : Point → Except Fault α}
    (h : e.point o w >>= k = .ok x) : k (e.memory.point w o) = .ok x := by
  obtain ⟨P, hP, hk⟩ := bind_eq_ok_iff.mp h
  cases of_bind_vector (of_bind_vector hP)
  exact hk

end

theorem of_pointSum? {o : Operands} {r : Option Point} (h : e.pointSum? o = .ok r) :
    (e.memory.law o.bLength o.b).sum? (e.memory.point o.bLength o.a)
      (e.memory.point o.bLength o.c) = r := by
  cases of_bind_point (of_bind_point (of_bind_curve h))
  rfl

theorem of_pointMultiple? {o : Operands} {r : Option Point} (h : e.pointMultiple? o = .ok r) :
    (e.memory.law o.bLength o.b).multiple? (e.memory.element o.aLength o.a)
      (e.memory.point o.bLength o.c) = r := by
  cases of_bind_vector (of_bind_point (of_bind_curve h))
  rfl

/-! ## Results -/

/-- a store keeps a number modulo what its words can hold -/
theorem stores_of_store {o n v : Nat} (h : e.store o n v = .ok e') :
    e.contents.Stores e'.contents o n (v % 2 ^ (32 * n)) := by
  unfold store at h
  split at h
  · rename_i hf
    have hl : (Words.ofNat n v).length = n := Words.length_ofNat n v
    have hw : (e.memory.overwrite o (Words.ofNat n v)).window o (Words.ofNat n v).length =
      Words.ofNat n v := Memory.window_overwrite_self (by rwa [hl])
    rw [hl] at hw
    cases h
    refine ⟨hf, Memory.element_overwrite_ofNat hf (Nat.le_refl n) v,
      Contents.reports_of_msw hf hw rfl, ?_, Contents.keeps_set _ _ _ _ _⟩
    intro i hi
    exact Memory.word_overwrite_of_lt (by rwa [hl])
  · cases h

theorem stores_of_lt {o n v : Nat} (h : e.store o n v = .ok e') (hv : v < 2 ^ (32 * n)) :
    e.contents.Stores e'.contents o n v := by
  have hs := stores_of_store h
  rwa [Nat.mod_eq_of_lt hv] at hs

/-- the ordinate goes behind the abscissa, so the second store leaves the first one alone -/
theorem storesCoordinates_of_store {e₁ e₂ : Engine} {o n x y : Nat}
    (h₁ : e.store o n x = .ok e₁) (h₂ : e₁.store (o + n) n y = .ok e₂)
    (hx : x < 2 ^ (32 * n)) (hy : y < 2 ^ (32 * n)) :
    e.contents.StoresCoordinates (e₂.setRegister .shift Status.pointDone).contents o n x y := by
  have s₁ := stores_of_lt h₁ hx
  have s₂ := stores_of_lt h₂ hy
  have hf : Fits o (2 * n) := by
    have := s₂.fits
    unfold Memory.Fits at this ⊢
    omega
  refine ⟨hf, ?_, s₂.element, ⟨s₂.reports.isZero, s₂.reports.top⟩, rfl, ?_, ?_⟩
  · rw [← s₁.element]
    apply Memory.element_ext
    intro i hi
    exact s₂.outside (o + i) (by omega)
  · intro i hi
    exact (s₂.outside i (by omega)).trans (s₁.outside i (by omega))
  · intro r hr
    have hs : Register.shift ≠ r := by
      rintro rfl
      exact hr (by decide)
    have hm : r ∉ [Register.msw] := fun h => hr (List.mem_cons.mpr (.inl (List.mem_singleton.mp h)))
    calc (e₂.registers.set .shift Status.pointDone).get r
        = e₂.registers.get r := RegisterFile.get_set_of_ne _ hs _
      _ = e₁.registers.get r := s₂.keeps r hm
      _ = e.registers.get r := s₁.keeps r hm

theorem storesPoint_of_storePoint {o : Operands} {r : Option Point} (h : e.storePoint o r = .ok e')
    (hr : ∀ x y, r = some (.affine x y) →
      x < 2 ^ (32 * Layout.coordinateSpace o.bLength) ∧
        y < 2 ^ (32 * Layout.coordinateSpace o.bLength)) :
    e.contents.StoresPoint e'.contents o.d (Layout.coordinateSpace o.bLength) r := by
  match r, h with
  | none, h | some .infinity, h =>
    cases h
    exact ⟨rfl, rfl, Contents.keeps_set _ _ _ _ _⟩
  | some (.affine x y), h =>
    obtain ⟨e₁, h₁, h⟩ := bind_eq_ok_iff.mp h
    obtain ⟨e₂, h₂, h⟩ := bind_eq_ok_iff.mp h
    cases h
    exact storesCoordinates_of_store h₁ h₂ (hr x y rfl).1 (hr x y rfl).2

/-- reduced coordinates fit where a coordinate goes -/
theorem lt_of_reduced {m : Memory} {w b : Nat} {r : Option Point}
    (h : ∀ P, r = some P → (m.law w b).Reduced P) {x y : Nat} (hr : r = some (.affine x y)) :
    x < 2 ^ (32 * Layout.coordinateSpace w) ∧ y < 2 ^ (32 * Layout.coordinateSpace w) := by
  obtain ⟨hx, hy⟩ := h _ hr
  have hp : (m.law w b).p < 2 ^ (32 * w) := m.element_lt w b
  have hw := Layout.le_coordinateSpace w
  have hle : 2 ^ (32 * w) ≤ 2 ^ (32 * Layout.coordinateSpace w) :=
    Nat.pow_le_pow_right (by decide) (by omega)
  exact ⟨by omega, by omega⟩

/-- words moved at once: each target word is what its source word was, also where they overlap -/
theorem moves_of_read {m m' : Memory} {o n c : Nat} {ws : List Word} (hr : m.read o n = .ok ws)
    (hw : m.write c ws = .ok m') :
    (Fits o n ∧ Fits c n) ∧ (∀ i, i < n → m'.word (c + i) = m.word (o + i)) ∧
      ∀ i, i < c ∨ c + n ≤ i → m'.word i = m.word i := by
  unfold Memory.read at hr
  split at hr
  · rename_i ho
    cases hr
    unfold Memory.write at hw
    have hl : (m.window o n).length = n := Memory.length_window m o n
    split at hw
    · rename_i hc
      cases hw
      refine ⟨⟨ho, by rwa [hl] at hc⟩, ?_, ?_⟩
      · intro i hi
        rw [Memory.word_overwrite_of_le hc (by rwa [hl]), Memory.getD_window _ _ _ _ hi]
      · intro i hi
        exact Memory.word_overwrite_of_lt (by rwa [hl])
    · cases hw
  · cases hr

/-! ## Functions -/

/-- a remainder takes a word less than it gets; the dividend is not read for modulus zero -/
theorem stores_of_modulo {a n b w c : Nat}
    (h : (do
      let m ← e.vector b w
      let r ← if m = 0 then pure 0 else (· % m) <$> e.vector a n
      e.store c (w + 1) r) = .ok e') :
    e.contents.Stores e'.contents c (w + 1)
      (if e.memory.element w b = 0 then 0 else e.memory.element n a % e.memory.element w b) := by
  have hs := of_bind_vector h
  have hb := e.memory.element_lt w b
  have hw : 2 ^ (32 * w) ≤ 2 ^ (32 * (w + 1)) := Nat.pow_le_pow_right (by decide) (by omega)
  by_cases hz : e.memory.element w b = 0
  · rw [if_pos hz] at hs ⊢
    exact stores_of_lt hs (by omega)
  · rw [if_neg hz] at hs ⊢
    obtain ⟨r, hr, hs⟩ := bind_eq_ok_iff.mp hs
    cases of_bind_vector hr
    have hm := Nat.mod_lt (e.memory.element n a) (Nat.pos_of_ne_zero hz)
    exact stores_of_lt hs (by omega)

/-- **a function that completes is exact** -/
theorem execute_exact {f : Opcode} (h : e.execute f = .ok e') : e.contents.Exact e'.contents f := by
  unfold execute at h
  unfold Contents.Exact
  dsimp only [contents]
  generalize e.registers.operands = o at h ⊢
  have la := e.memory.element_lt o.aLength o.a
  have lb := e.memory.element_lt o.bLength o.b
  cases f with
  | multiply =>
    exact stores_of_lt (of_bind_vector (of_bind_vector h)) (Words.mul_lt_pow la lb)
  | add =>
    exact stores_of_lt (of_bind_vector (of_bind_vector h)) (Words.add_lt_pow la lb)
  | subtract =>
    have hs := stores_of_store (of_bind_vector (of_bind_vector h) :)
    rw [Nat.one_shiftLeft, Words.sub_mod_pow _ lb] at hs
    exact hs
  | modulo => exact stores_of_modulo h
  | compare =>
    cases of_bind_vector (of_bind_vector h)
    exact ⟨rfl, rfl, Contents.keeps_set _ _ _ _ _⟩
  | copy =>
    obtain ⟨ws, hr, h⟩ := bind_eq_ok_iff.mp h
    obtain ⟨m, hw, h⟩ := bind_eq_ok_iff.mp h
    cases h
    obtain ⟨hf, hm, ho⟩ := moves_of_read hr hw
    exact ⟨hf, hm, ho, fun _ _ => rfl⟩
  | invert =>
    have hs := of_bind_vector (of_bind_vector h)
    by_cases hz : e.memory.element o.bLength o.b = 0
    · rw [if_pos hz] at hs
      cases hs
    · rw [if_neg hz] at hs
      have hp := Nat.pos_of_ne_zero hz
      have hi := Residue.getD_inverse?_lt hp (e.memory.element o.aLength o.a)
      exact ⟨hz, _, stores_of_lt hs (by omega), Residue.getD_inverse?_eq_zero_iff hp,
        Residue.mul_getD_inverse? hp⟩
  | pointAdd =>
    obtain ⟨r, hr, h⟩ := bind_eq_ok_iff.mp h
    rw [← of_pointSum? hr] at h
    refine storesPoint_of_storePoint h fun x y => lt_of_reduced (m := e.memory) (b := o.b) ?_
    intro R hR
    obtain ⟨hP, hQ, rfl⟩ := Weierstrass.sum?_eq_some_iff.mp hR
    exact Weierstrass.reduced_add _ hP hQ
  | pointMul =>
    obtain ⟨r, hr, h⟩ := bind_eq_ok_iff.mp h
    rw [← of_pointMultiple? hr] at h
    refine storesPoint_of_storePoint h fun x y => lt_of_reduced (m := e.memory) (b := o.b) ?_
    intro R hR
    obtain ⟨hQ, rfl⟩ := Weierstrass.multiple?_eq_some_iff.mp hR
    exact Weierstrass.reduced_smul _ _ hQ

/-- **writing the run flag**: the function register takes the word without it, and what the function
makes of the memory and the other registers is exact -/
theorem writeRegister_exact {v : Word} (hv : Opcode.starts v = true)
    (h : (e.writeRegister .function v).2 = .ok ()) :
    ∃ f, Opcode.decode? v = some f ∧ (e.setRegister .function (v &&& ~~~Opcode.run)).contents.Exact
      (e.writeRegister .function v).1.contents f := by
  rw [writeRegister, if_neg (by decide), if_pos ⟨rfl, hv⟩] at h ⊢
  unfold start at h ⊢
  split at h
  · cases h
  split at h
  · cases h
  split at h
  · cases h
  rename_i hp hb _ f hf
  rw [if_neg hp, if_neg hb]
  unfold launch at h ⊢
  split at h
  · rename_i e₁ he
    have hx := execute_exact he
    exact ⟨f, hf, hx⟩
  · cases h

/-- one word, the largest there is, as both operands and as the lower half of the result -/
def overlapping : Engine :=
  { (new 0).init with
    memory := Memory.zero.put 0 0xffffffff
    registers := { RegisterFile.zero with aLength := 1, bLength := 1 } }

/-- its square takes two words, the first of which was the operand -/
theorem writeRegister_exact_overlapping :
    Opcode.starts 0x8001 = true ∧ (overlapping.writeRegister .function 0x8001).2 = .ok () ∧
      (overlapping.setRegister .function 1).contents.Stores
        (overlapping.writeRegister .function 0x8001).1.contents 0 2 (0xffffffff * 0xffffffff) := by
  have hr : (overlapping.writeRegister .function 0x8001).2 = .ok () := rfl
  refine ⟨rfl, hr, ?_⟩
  obtain ⟨f, hf, hx⟩ := writeRegister_exact rfl hr
  cases hf
  have hv : (0x8001 : Word) &&& ~~~Opcode.run = 1 := by decide
  have ho : (overlapping.setRegister .function 1).contents.registers.operands =
    ⟨0, 0, 0, 0, 1, 1⟩ := by decide
  have ha : (overlapping.setRegister .function 1).contents.memory.element 1 0 = 0xffffffff := by
    decide +kernel
  simp only [hv, Contents.Exact, ho, ha] at hx
  exact hx

end Engine
end CurveEngine
