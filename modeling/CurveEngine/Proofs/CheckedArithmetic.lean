import CurveEngine.Proofs.Functions

/-!
# Functions that check every difference and every remainder

The engine's functions are stated with differences that stop at 0 and remainders that any number has.
Here they are stated again with operations that refuse instead: a difference below 0, a remainder
modulo 0.

* `Panic`               a misuse of the engine, or one of these;
* `Panic.difference`, `Panic.remainder`, `Panic.inverse?`   the operations that refuse;
* `Weierstrass.checkedAdd`, `Weierstrass.checkedSmul`       sums and multiples of points with them;
* `Engine.checked`      all functions with them;
* `checked_eq`          whatever the engine holds, none of them ever refuses.
-/

namespace CurveEngine

/-- what ends a computation with natural numbers -/
inductive Panic where
  | misuse (f : Fault)
  | underflow
  | divisionByZero
  deriving DecidableEq

namespace Panic

def difference (x y : Nat) : Except Panic Nat := if y ≤ x then .ok (x - y) else .error .underflow

def remainder (x m : Nat) : Except Panic Nat :=
  if m = 0 then .error .divisionByZero else .ok (x % m)

/-- an inverse modulo 0 is a misuse of its own kind -/
def inverse? (a m : Nat) : Except Panic (Option Nat) :=
  if m = 0 then .error (.misuse .zeroModulus) else .ok (Residue.inverse? a m)

theorem difference_of_le {x y : Nat} (h : y ≤ x) : difference x y = .ok (x - y) := if_pos h

theorem remainder_of_pos {m : Nat} (h : 0 < m) (x : Nat) : remainder x m = .ok (x % m) :=
  if_neg (Nat.ne_of_gt h)

theorem inverse?_of_pos {m : Nat} (h : 0 < m) (a : Nat) :
    inverse? a m = .ok (Residue.inverse? a m) := if_neg (Nat.ne_of_gt h)

end Panic

open Panic

/-! ## Points -/

namespace Weierstrass

variable (C : Weierstrass)

def checkedSub (x y : Nat) : Except Panic Nat := do remainder (← difference (x + C.p) y) C.p

def checkedMul (x y : Nat) : Except Panic Nat := remainder (x * y) C.p

def checkedDiv? (x y : Nat) : Except Panic (Option Nat) := do
  match ← inverse? y C.p with
  | none => return none
  | some i => return some (← C.checkedMul x i)

def checkedSlope? (x₁ y₁ x₂ y₂ : Nat) : Except Panic (Option Nat) :=
  if x₁ = x₂ then do
    if (← remainder (y₁ + y₂) C.p) = 0 then return none
    let triple ← C.checkedMul 3 (← C.checkedMul x₁ x₁)
    C.checkedDiv? (← remainder (triple + C.a) C.p) (← remainder (y₁ + y₁) C.p)
  else do
    C.checkedDiv? (← C.checkedSub y₂ y₁) (← C.checkedSub x₂ x₁)

def checkedThird (s x₁ y₁ x₂ : Nat) : Except Panic Point := do
  let x₃ ← C.checkedSub (← C.checkedSub (← C.checkedMul s s) x₁) x₂
  return .affine x₃ (← C.checkedSub (← C.checkedMul s (← C.checkedSub x₁ x₃)) y₁)

def checkedAdd : Point → Point → Except Panic Point
  | .infinity, Q => return Q
  | P, .infinity => return P
  | .affine x₁ y₁, .affine x₂ y₂ => do
    match ← C.checkedSlope? x₁ y₁ x₂ y₂ with
    | none => return .infinity
    | some s => C.checkedThird s x₁ y₁ x₂

def checkedSmul (k : Nat) (P : Point) : Except Panic Point :=
  if k = 0 then return .infinity
  else do
    let half ← checkedSmul (k / 2) P
    let double ← C.checkedAdd half half
    if k % 2 = 1 then C.checkedAdd double P else return double
termination_by k
decreasing_by exact Nat.div_lt_self (Nat.pos_of_ne_zero ‹_›) (by decide)

variable {C}

theorem checkedSub_eq {y : Nat} (hy : y < C.p) (x : Nat) : C.checkedSub x y = .ok (C.sub x y) := by
  have hp : 0 < C.p := Nat.zero_lt_of_lt hy
  unfold checkedSub
  rw [difference_of_le (by omega)]
  exact remainder_of_pos hp _

theorem checkedMul_eq (hp : 0 < C.p) (x y : Nat) : C.checkedMul x y = .ok (C.mul x y) :=
  remainder_of_pos hp _

theorem checkedDiv?_eq (hp : 0 < C.p) (x y : Nat) : C.checkedDiv? x y = .ok (C.div? x y) := by
  unfold checkedDiv? div?
  rw [inverse?_of_pos hp]
  cases Residue.inverse? y C.p with
  | none => rfl
  | some i =>
    show (C.checkedMul x i >>= fun z => pure (some z)) = _
    rw [checkedMul_eq hp]
    rfl

variable {x₁ y₁ x₂ y₂ : Nat}

theorem checkedSlope?_eq (hP : C.Reduced (.affine x₁ y₁)) :
    C.checkedSlope? x₁ y₁ x₂ y₂ = .ok (C.slope? x₁ y₁ x₂ y₂) := by
  have hp : 0 < C.p := Nat.zero_lt_of_lt hP.1
  unfold checkedSlope? slope?
  by_cases hx : x₁ = x₂
  · rw [if_pos hx, if_pos hx, remainder_of_pos hp]
    show (if (y₁ + y₂) % C.p = 0 then pure none else _) = _
    by_cases hy : (y₁ + y₂) % C.p = 0
    · rw [if_pos hy, if_pos hy]
      rfl
    · rw [if_neg hy, if_neg hy, checkedMul_eq hp]
      show (C.checkedMul 3 (C.mul x₁ x₁) >>= _) = _
      rw [checkedMul_eq hp]
      show (remainder (C.mul 3 (C.mul x₁ x₁) + C.a) C.p >>= _) = _
      rw [remainder_of_pos hp, remainder_of_pos hp]
      exact checkedDiv?_eq hp _ _
  · rw [if_neg hx, if_neg hx, checkedSub_eq hP.2, checkedSub_eq hP.1]
    exact checkedDiv?_eq hp _ _

theorem checkedThird_eq (hP : C.Reduced (.affine x₁ y₁)) (hx : x₂ < C.p) (s : Nat) :
    C.checkedThird s x₁ y₁ x₂ = .ok (C.third s x₁ y₁ x₂) := by
  have hp : 0 < C.p := Nat.zero_lt_of_lt hx
  unfold checkedThird third
  rw [checkedMul_eq hp]
  show (C.checkedSub (C.mul s s) x₁ >>= _) = _
  rw [checkedSub_eq hP.1]
  show (C.checkedSub (C.sub (C.mul s s) x₁) x₂ >>= _) = _
  rw [checkedSub_eq hx]
  -- the abscissa of the third point is a remainder
  have h₃ : C.sub (C.sub (C.mul s s) x₁) x₂ < C.p := Nat.mod_lt _ hp
  generalize C.sub (C.sub (C.mul s s) x₁) x₂ = x₃ at h₃
  show (C.checkedSub x₁ x₃ >>= _) = _
  rw [checkedSub_eq h₃]
  show (C.checkedMul s (C.sub x₁ x₃) >>= _) = _
  rw [checkedMul_eq hp]
  show (C.checkedSub (C.mul s (C.sub x₁ x₃)) y₁ >>= _) = _
  rw [checkedSub_eq hP.2]
  rfl

theorem checkedAdd_eq {P Q : Point} (hP : C.Reduced P) (hQ : C.Reduced Q) :
    C.checkedAdd P Q = .ok (C.add P Q) := by
  match P, Q with
  | .infinity, Q =>
    rw [infinity_add]
    cases Q <;> rfl
  | .affine x y, .infinity => rfl
  | .affine x₁ y₁, .affine x₂ y₂ =>
    rw [affine_add, checkedAdd, checkedSlope?_eq hP]
    cases C.slope? x₁ y₁ x₂ y₂ with
    | none => rfl
    | some s => exact checkedThird_eq hP hQ.1 s

theorem checkedSmul_eq {P : Point} (hP : C.Reduced P) (k : Nat) :
    C.checkedSmul k P = .ok (C.smul k P) := by
  induction k using Nat.strongRecOn with
  | ind k ih =>
    rw [checkedSmul]
    by_cases h : k = 0
    · subst h
      rw [if_pos rfl, zero_smul]
      rfl
    · have hh := C.reduced_smul (k / 2) hP
      have hd := C.reduced_add hh hh
      rw [if_neg h, smul_of_ne_zero C h, ih _ (Nat.div_lt_self (Nat.pos_of_ne_zero h) (by decide))]
      show (C.checkedAdd (C.smul (k / 2) P) (C.smul (k / 2) P) >>= _) = _
      rw [checkedAdd_eq hh hh]
      show (if k % 2 = 1 then C.checkedAdd _ P else _) = _
      by_cases hk : k % 2 = 1
      · rw [if_pos hk, if_pos hk, checkedAdd_eq hd hP]
      · rw [if_neg hk, if_neg hk]
        rfl

end Weierstrass

/-! ## Functions -/

namespace Engine

/-- a misuse among the things that end a computation -/
def misuse {α : Type} (x : Except Fault α) : Except Panic α := x.mapError .misuse

def checkedSum? (e : Engine) (o : Operands) : Except Panic (Option Point) := do
  let C ← misuse (e.curve o)
  let Q ← misuse (e.point o.c o.bLength)
  let P ← misuse (e.point o.a o.bLength)
  if C.Reduced P ∧ C.Reduced Q then return some (← C.checkedAdd P Q) else return none

def checkedMultiple? (e : Engine) (o : Operands) : Except Panic (Option Point) := do
  let C ← misuse (e.curve o)
  let Q ← misuse (e.point o.c o.bLength)
  let k ← misuse (e.vector o.a o.aLength)
  if C.Reduced Q then return some (← C.checkedSmul k Q) else return none

/-- one function, on the operands the registers point at -/
def checked (e : Engine) (f : Opcode) : Except Panic Engine :=
  let o := e.registers.operands
  match f with
  | .subtract => do
    let a ← misuse (e.vector o.a o.aLength)
    let b ← misuse (e.vector o.b o.bLength)
    let n := max o.aLength o.bLength
    misuse (e.store o.c n (← difference (1 <<< (32 * n) + a) b))
  | .modulo => do
    let m ← misuse (e.vector o.b o.bLength)
    let r ← if m = 0 then pure 0 else do remainder (← misuse (e.vector o.a o.aLength)) m
    misuse (e.store o.c (o.bLength + 1) r)
  | .invert => do
    let m ← misuse (e.vector o.b o.bLength)
    let a ← misuse (e.vector o.a o.aLength)
    misuse (e.store o.d o.bLength ((← inverse? a m).getD 0))
  | .pointAdd => do misuse (e.storePoint o (← e.checkedSum? o))
  | .pointMul => do misuse (e.storePoint o (← e.checkedMultiple? o))
  -- no differences and no remainders
  | .multiply | .add | .compare | .copy => misuse (e.execute f)

@[simp] theorem misuse_ok {α : Type} (a : α) : misuse (.ok a) = .ok a := rfl

@[simp] theorem misuse_error {α : Type} (f : Fault) :
    misuse (.error f : Except Fault α) = .error (.misuse f) := rfl

/-- whatever comes after the same computation, it is enough to compare it after a success -/
theorem misuse_bind {α β : Type} (x : Except Fault α) {g : α → Except Panic β}
    {g' : α → Except Fault β} (h : ∀ a, x = .ok a → g a = misuse (g' a)) :
    misuse x >>= g = misuse (x >>= g') := by
  cases x with
  | error f => rfl
  | ok a => exact h a rfl

theorem vector_lt {e : Engine} {o n v : Nat} (h : e.vector o n = .ok v) : v < 2 ^ (32 * n) := by
  unfold vector Memory.read at h
  split at h
  · cases h
    have hv := Words.value_lt (e.memory.window o n)
    rwa [Memory.length_window] at hv
  · cases h

theorem checkedSum?_eq (e : Engine) (o : Operands) :
    e.checkedSum? o = misuse (e.pointSum? o) := by
  refine misuse_bind _ fun C _ => misuse_bind _ fun Q _ => misuse_bind _ fun P _ => ?_
  by_cases h : C.Reduced P ∧ C.Reduced Q
  · rw [if_pos h, if_pos h, Weierstrass.checkedAdd_eq h.1 h.2]
    rfl
  · rw [if_neg h, if_neg h]
    rfl

theorem checkedMultiple?_eq (e : Engine) (o : Operands) :
    e.checkedMultiple? o = misuse (e.pointMultiple? o) := by
  refine misuse_bind _ fun C _ => misuse_bind _ fun Q _ => misuse_bind _ fun k _ => ?_
  by_cases h : C.Reduced Q
  · rw [if_pos h, if_pos h, Weierstrass.checkedSmul_eq h]
    rfl
  · rw [if_neg h, if_neg h]
    rfl

/-- **no function ever takes a difference below 0 or a remainder modulo 0**, whatever memory and
registers hold: with checks for both it does what it does without -/
theorem checked_eq (e : Engine) (f : Opcode) : e.checked f = misuse (e.execute f) := by
  cases f with
  | multiply | add | compare | copy => rfl
  | subtract =>
    refine misuse_bind _ fun a _ => misuse_bind _ fun b hb => ?_
    have hn : 2 ^ (32 * e.registers.operands.bLength) ≤
        2 ^ (32 * max e.registers.operands.aLength e.registers.operands.bLength) :=
      Nat.pow_le_pow_right (by decide) (by omega)
    have := vector_lt hb
    dsimp only
    rw [difference_of_le (by rw [Nat.one_shiftLeft]; omega)]
    rfl
  | modulo =>
    refine misuse_bind _ fun m _ => ?_
    by_cases hm : m = 0
    · rw [if_pos hm, if_pos hm]
      rfl
    · rw [if_neg hm, if_neg hm]
      cases e.vector e.registers.operands.a e.registers.operands.aLength with
      | error f => rfl
      | ok a =>
        show (remainder a m >>= _) = _
        rw [remainder_of_pos (Nat.pos_of_ne_zero hm)]
        rfl
  | invert =>
    refine misuse_bind _ fun m _ => misuse_bind _ fun a _ => ?_
    by_cases hm : m = 0
    · subst hm
      rfl
    · rw [inverse?_of_pos (Nat.pos_of_ne_zero hm), if_neg hm]
      rfl
  | pointAdd =>
    show (e.checkedSum? _ >>= _) = _
    rw [checkedSum?_eq]
    exact misuse_bind _ fun r _ => rfl
  | pointMul =>
    show (e.checkedMultiple? _ >>= _) = _
    rw [checkedMultiple?_eq]
    exact misuse_bind _ fun r _ => rfl

end Engine
end CurveEngine
