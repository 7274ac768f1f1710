import CurveEngine.Layout
import CurveEngine.Fault

/-!
# The engine's memory

* `Memory`             512 words;
* `Memory.word`        one word, 0 outside of the memory;
* `Memory.window`      some words in a row;
* `Memory.overwrite`   some words in a row replaced;
* `Memory.read`, `Memory.write`   the same, refused when they leave the memory.

`word_overwrite` says what an overwrite changes; all other laws follow from it.
-/

namespace CurveEngine

structure Memory where
  words : Vector Word Layout.memoryWords
  deriving DecidableEq

namespace Memory

def zero : Memory := ⟨Vector.replicate _ 0⟩

/-- the word at an offset, 0 outside of the memory -/
def word (m : Memory) (i : Nat) : Word := m.words[i]?.getD 0

def window (m : Memory) : Nat → Nat → List Word
  | _, 0 => []
  | offset, n + 1 => m.word offset :: m.window (offset + 1) n

def put (m : Memory) (i : Nat) (w : Word) : Memory := ⟨m.words.setIfInBounds i w⟩

def overwrite (m : Memory) : Nat → List Word → Memory
  | _, [] => m
  | offset, w :: ws => (m.put offset w).overwrite (offset + 1) ws

/-- `n` words from `offset` on lie in the memory -/
def Fits (offset n : Nat) : Prop := offset + n ≤ Layout.memoryWords

instance (offset n : Nat) : Decidable (Fits offset n) := inferInstanceAs (Decidable (_ ≤ _))

/-- `n` words in a row, if they lie in the memory -/
def read (m : Memory) (offset n : Nat) : Except Fault (List Word) :=
  if Fits offset n then .ok (m.window offset n) else .error .outOfBounds

/-- some words in a row replaced, if they lie in the memory -/
def write (m : Memory) (offset : Nat) (ws : List Word) : Except Fault Memory :=
  if Fits offset ws.length then .ok (m.overwrite offset ws) else .error .outOfBounds

/-! ## Words -/

@[simp] theorem word_zero (i : Nat) : zero.word i = 0 := by
  unfold word zero
  rw [Vector.getElem?_replicate]
  split <;> rfl

theorem word_put (m : Memory) (i j : Nat) (w : Word) :
    (m.put i w).word j = if i = j ∧ i < Layout.memoryWords then w else m.word j := by
  unfold word put
  rw [Vector.getElem?_setIfInBounds]
  by_cases h : i = j
  · subst h
    by_cases hi : i < Layout.memoryWords
    · rw [if_pos rfl, if_pos hi, if_pos ⟨rfl, hi⟩]
      rfl
    · rw [if_pos rfl, if_neg hi, if_neg (fun c => hi c.2), Vector.getElem?_eq_none (by omega)]
  · rw [if_neg h, if_neg (fun c => h c.1)]

theorem ext_word {m m' : Memory} (h : ∀ i, i < Layout.memoryWords → m.word i = m'.word i) :
    m = m' := by
  cases m with
  | mk v =>
    cases m' with
    | mk v' =>
      congr 1
      apply Vector.ext
      intro i hi
      have := h i hi
      simpa [word, Vector.getElem?_eq_getElem hi] using this

@[simp] theorem overwrite_nil (m : Memory) (offset : Nat) : m.overwrite offset [] = m := rfl

@[simp] theorem overwrite_cons (m : Memory) (offset : Nat) (w : Word) (ws : List Word) :
    m.overwrite offset (w :: ws) = (m.put offset w).overwrite (offset + 1) ws := rfl

/-- an overwrite replaces exactly the words it gives -/
theorem word_overwrite (m : Memory) (offset : Nat) (ws : List Word) (i : Nat) :
    (m.overwrite offset ws).word i =
      if offset ≤ i ∧ i < offset + ws.length ∧ i < Layout.memoryWords then ws.getD (i - offset) 0
      else m.word i := by
  induction ws generalizing m offset with
  | nil =>
    rw [overwrite_nil, if_neg]
    intro h
    simp only [List.length_nil] at h
    omega
  | cons w ws ih =>
    rw [overwrite_cons, ih, word_put]
    simp only [List.length_cons]
    by_cases h₀ : offset = i
    · subst h₀
      rw [if_neg (by omega)]
      by_cases hm : offset < Layout.memoryWords
      · rw [if_pos ⟨rfl, hm⟩, if_pos (by omega), Nat.sub_self, List.getD_cons_zero]
      · rw [if_neg (by omega), if_neg (by omega)]
    · have hp : ¬(offset = i ∧ offset < Layout.memoryWords) := fun h => h₀ h.1
      rw [if_neg hp]
      by_cases h : offset + 1 ≤ i ∧ i < offset + 1 + ws.length ∧ i < Layout.memoryWords
      · have e : i - offset = (i - (offset + 1)) + 1 := by omega
        rw [if_pos h, if_pos (by omega), e, List.getD_cons_succ]
      · rw [if_neg h, if_neg (by omega)]

/-- words outside of the overwritten ones stay -/
theorem word_overwrite_of_lt {m : Memory} {offset : Nat} {ws : List Word} {i : Nat}
    (h : i < offset ∨ offset + ws.length ≤ i) : (m.overwrite offset ws).word i = m.word i := by
  rw [word_overwrite, if_neg (by omega)]

/-! ## Windows -/

@[simp] theorem window_zero (m : Memory) (offset : Nat) : m.window offset 0 = [] := rfl

@[simp] theorem window_succ (m : Memory) (offset n : Nat) :
    m.window offset (n + 1) = m.word offset :: m.window (offset + 1) n := rfl

@[simp] theorem length_window (m : Memory) (offset n : Nat) : (m.window offset n).length = n := by
  induction n generalizing offset with
  | zero => rfl
  | succ n ih => rw [window_succ, List.length_cons, ih]

theorem getD_window (m : Memory) (offset n i : Nat) (h : i < n) :
    (m.window offset n).getD i 0 = m.word (offset + i) := by
  induction n generalizing offset i with
  | zero => omega
  | succ n ih =>
    cases i with
    | zero => rfl
    | succ i =>
      rw [window_succ, List.getD_cons_succ, ih _ _ (by omega), Nat.add_right_comm, Nat.add_assoc]

theorem window_congr {m m' : Memory} {offset n : Nat}
    (h : ∀ i, offset ≤ i → i < offset + n → m.word i = m'.word i) :
    m.window offset n = m'.window offset n := by
  induction n generalizing offset with
  | zero => rfl
  | succ n ih =>
    rw [window_succ, window_succ, h offset (by omega) (by omega),
      ih fun i hl hu => h i (by omega) (by omega)]

theorem window_append (m : Memory) (offset k n : Nat) :
    m.window offset (k + n) = m.window offset k ++ m.window (offset + k) n := by
  induction k generalizing offset with
  | zero => rw [Nat.zero_add, window_zero, List.nil_append, Nat.add_zero]
  | succ k ih =>
    rw [Nat.add_right_comm, window_succ, window_succ, ih, List.cons_append, Nat.add_right_comm,
      Nat.add_assoc offset k 1]

theorem window_overwrite_self {m : Memory} {offset : Nat} {ws : List Word}
    (h : Fits offset ws.length) : (m.overwrite offset ws).window offset ws.length = ws := by
  unfold Fits at h
  apply List.ext_getElem
  · rw [length_window]
  · intro i hi hi'
    have hw : i < ws.length := hi'
    have e := getD_window (m.overwrite offset ws) offset ws.length i hw
    rw [word_overwrite, if_pos (by omega), Nat.add_sub_cancel_left] at e
    simpa [List.getD_eq_getElem?_getD, hi, hw] using e

/-- windows beside the overwritten words stay -/
theorem window_overwrite_disjoint {m : Memory} {offset n o : Nat} {ws : List Word}
    (h : o + n ≤ offset ∨ offset + ws.length ≤ o) :
    (m.overwrite offset ws).window o n = m.window o n :=
  window_congr fun _ hl hu => word_overwrite_of_lt (by omega)

/-! ## Reads and writes -/

theorem read_of_fits {m : Memory} {offset n : Nat} (h : Fits offset n) :
    m.read offset n = .ok (m.window offset n) := if_pos h

theorem write_of_fits {m : Memory} {offset : Nat} {ws : List Word} (h : Fits offset ws.length) :
    m.write offset ws = .ok (m.overwrite offset ws) := if_pos h

end Memory
end CurveEngine
