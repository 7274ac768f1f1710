/-!
# Word lists as numbers, least significant word first

The engine's memory holds numbers as sequences of 32-bit words, the least significant word first.

* `Words.value`   the number a word list stands for;
* `Words.ofNat`   the `k` lowest words of a number, whatever does not fit is dropped;
* `Words.top?`    the index of the highest non-zero word.

`ofNat_value` says that the words of a number give back the list, `top?_eq_none_iff` when there is no
such index.
-/

namespace CurveEngine

abbrev Word := UInt32

namespace Words

/-- the number of a word list, least significant word first -/
def value : List Word → Nat
  | [] => 0
  | w :: ws => w.toNat + UInt32.size * value ws

def ofNat : Nat → Nat → List Word
  | 0, _ => []
  | k + 1, n => UInt32.ofNat n :: ofNat k (n / UInt32.size)

def top? : List Word → Option Nat
  | [] => none
  | w :: ws =>
    match top? ws with
    | some i => some (i + 1)
    | none => if w = 0 then none else some 0

@[simp] theorem value_nil : value [] = 0 := rfl

@[simp] theorem value_cons (w : Word) (ws : List Word) :
    value (w :: ws) = w.toNat + UInt32.size * value ws := rfl

@[simp] theorem ofNat_zero (n : Nat) : ofNat 0 n = [] := rfl

@[simp] theorem ofNat_succ (k n : Nat) :
    ofNat (k + 1) n = UInt32.ofNat n :: ofNat k (n / UInt32.size) := rfl

@[simp] theorem length_ofNat (k n : Nat) : (ofNat k n).length = k := by
  induction k generalizing n with
  | zero => rfl
  | succ k ih => rw [ofNat_succ, List.length_cons, ih]

/-- a word list is the words of its number -/
theorem ofNat_value (ws : List Word) : ofNat ws.length (value ws) = ws := by
  induction ws with
  | nil => rfl
  | cons w ws ih =>
    have hw : w.toNat < 2 ^ 32 := w.toNat_lt
    have hq : (w.toNat + UInt32.size * value ws) / UInt32.size = value ws := by
      rw [UInt32.size]
      omega
    have hr : UInt32.ofNat (w.toNat + UInt32.size * value ws) = w := by
      apply UInt32.toNat_inj.mp
      rw [UInt32.toNat_ofNat', UInt32.size]
      omega
    rw [List.length_cons, value_cons, ofNat_succ, hq, hr, ih]

@[simp] theorem value_replicate_zero (k : Nat) : value (List.replicate k 0) = 0 := by
  induction k with
  | zero => rfl
  | succ k ih => rw [List.replicate_succ, value_cons, ih]; rfl

/-! ## The highest non-zero word -/

@[simp] theorem top?_nil : top? [] = none := rfl

theorem top?_cons (w : Word) (ws : List Word) :
    top? (w :: ws) =
      match top? ws with
      | some i => some (i + 1)
      | none => if w = 0 then none else some 0 := rfl

/-- there is no highest non-zero word exactly when the number is zero -/
theorem top?_eq_none_iff (ws : List Word) : top? ws = none ↔ value ws = 0 := by
  induction ws with
  | nil => exact ⟨fun _ => rfl, fun _ => rfl⟩
  | cons w ws ih =>
    rw [top?_cons, value_cons, UInt32.size]
    cases h : top? ws with
    | some i =>
      have hne : value ws ≠ 0 := fun e => by rw [ih.mpr e] at h; cases h
      simp only [reduceCtorEq, false_iff]
      omega
    | none =>
      have hz := ih.mp h
      by_cases hw : w = 0
      · subst hw
        rw [hz]
        simp
      · have hn : w.toNat ≠ 0 := fun e => hw (UInt32.toNat_inj.mp e)
        simp only [if_neg hw, reduceCtorEq, false_iff]
        omega

theorem getD_of_top?_eq_none {ws : List Word} (h : top? ws = none) (i : Nat) :
    ws.getD i 0 = 0 := by
  induction ws generalizing i with
  | nil => rfl
  | cons w ws ih =>
    rw [top?_cons] at h
    cases ht : top? ws with
    | some k =>
      rw [ht] at h
      cases h
    | none =>
      cases i with
      | zero =>
        by_cases hw : w = 0
        · exact hw
        · simp only [ht, if_neg hw, reduceCtorEq] at h
      | succ i => exact ih ht i

/-- the word that `top?` finds is not zero, and all words above it are -/
theorem getD_of_top?_eq_some {ws : List Word} {i : Nat} (h : top? ws = some i) :
    i < ws.length ∧ ws.getD i 0 ≠ 0 ∧ ∀ j, i < j → ws.getD j 0 = 0 := by
  induction ws generalizing i with
  | nil => cases h
  | cons w ws ih =>
    rw [top?_cons] at h
    cases ht : top? ws with
    | some k =>
      rw [ht] at h
      cases h
      obtain ⟨hl, hn, hz⟩ := ih ht
      refine ⟨Nat.succ_lt_succ hl, hn, ?_⟩
      intro j hj
      cases j with
      | zero => omega
      | succ j => exact hz j (by omega)
    | none =>
      by_cases hw : w = 0
      · simp only [ht, if_pos hw, reduceCtorEq] at h
      · simp only [ht, if_neg hw, Option.some.injEq] at h
        subst h
        refine ⟨Nat.succ_pos _, hw, ?_⟩
        intro j hj
        cases j with
        | zero => omega
        | succ j => exact getD_of_top?_eq_none ht j

end Words
end CurveEngine
