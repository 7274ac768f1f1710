import CurveEngine.Bytes
import CurveEngine.Curve
import CurveEngine.Memory
import CurveEngine.Point
import CurveEngine.Proofs.Words

/-!
# Elements and points in memory

* `Memory.element`    the number in `w` words;
* `Memory.point`      the point whose coordinates lie a coordinate's space apart;
* `Memory.law`        the curve whose prime and coefficient lie a coordinate's space apart;
* `Bytes.ofNat`       a number as a byte string;
* `Bytes.point`       the point written in a byte string, `x` and then `y`.

`word_overwrite` of `Memory` decides everything here: an element is known once its words are.
-/

namespace CurveEngine

/-- every curve's elements fit into the widest one -/
theorem NamedCurve.words_le (c : NamedCurve) : c.words ≤ 8 := by
  cases c <;> decide

theorem NamedCurve.words_pos (c : NamedCurve) : 0 < c.words := by
  cases c <;> decide

/-- a point takes no more than the widest one -/
theorem Layout.coordinateSpace_le {w : Nat} (hw : w ≤ elementSlot) :
    coordinateSpace w + w ≤ pointSpace w ∧ pointSpace w ≤ pointSlot := by
  have h8 : w ≤ 8 := hw
  have h20 : pointSlot = 20 := by decide
  unfold pointSpace coordinateSpace
  omega

namespace Memory

/-- the number in `w` words from `offset` on -/
def element (m : Memory) (w offset : Nat) : Nat := Words.value (m.window offset w)

/-- the point at `offset`, with coordinates of `w` words -/
def point (m : Memory) (w offset : Nat) : Point :=
  .affine (m.element w offset) (m.element w (offset + Layout.coordinateSpace w))

/-- the curve at `offset`, as functions on points read it -/
def law (m : Memory) (w offset : Nat) : Weierstrass :=
  ⟨m.element w offset, m.element w (offset + Layout.coordinateSpace w)⟩

theorem Fits.mono {o n k : Nat} (hf : Fits o n) (hk : k ≤ n) : Fits o k := by
  unfold Fits at hf ⊢
  omega

theorem Fits.le {o n : Nat} (hf : Fits o n) : o ≤ Layout.memoryWords := by
  unfold Fits at hf
  omega

theorem element_lt (m : Memory) (w offset : Nat) : m.element w offset < 2 ^ (32 * w) := by
  have h := Words.value_lt (m.window offset w)
  rwa [length_window] at h

/-- equal words in two places make equal windows -/
theorem window_ext {m m' : Memory} {o o' n : Nat}
    (h : ∀ i, i < n → m.word (o + i) = m'.word (o' + i)) : m.window o n = m'.window o' n := by
  induction n generalizing o o' with
  | zero => rfl
  | succ n ih =>
    have h0 : m.word o = m'.word o' := h 0 (by omega)
    have hs : ∀ i, i < n → m.word (o + 1 + i) = m'.word (o' + 1 + i) := by
      intro i hi
      have e := h (i + 1) (by omega)
      rwa [show o + (i + 1) = o + 1 + i by omega, show o' + (i + 1) = o' + 1 + i by omega] at e
    rw [window_succ, window_succ, h0, ih hs]

theorem element_ext {m m' : Memory} {w o o' : Nat}
    (h : ∀ i, i < w → m.word (o + i) = m'.word (o' + i)) : m.element w o = m'.element w o' :=
  congrArg Words.value (window_ext h)

theorem word_overwrite_of_le {m : Memory} {o i : Nat} {ws : List Word} (hf : Fits o ws.length)
    (hi : i < ws.length) : (m.overwrite o ws).word (o + i) = ws.getD i 0 := by
  unfold Fits at hf
  rw [word_overwrite, if_pos (by omega), Nat.add_sub_cancel_left]

/-- the words a window keeps when another window is copied over it -/
theorem element_overwrite_window {m : Memory} {o a n w i : Nat} (hf : Fits o n) (hi : i + w ≤ n) :
    (m.overwrite o (m.window a n)).element w (o + i) = m.element w (a + i) := by
  apply element_ext
  intro j hj
  have hl : (m.window a n).length = n := length_window m a n
  rw [Nat.add_assoc, word_overwrite_of_le (by rwa [hl]) (by omega), getD_window _ _ _ _ (by omega),
    Nat.add_assoc]

theorem element_overwrite_window_zero {m : Memory} {o a w : Nat} (hf : Fits o w) :
    (m.overwrite o (m.window a w)).element w o = m.element w a :=
  element_overwrite_window (i := 0) hf (Nat.le_of_eq (Nat.zero_add w))

theorem take_ofNat {w n : Nat} (h : w ≤ n) (v : Nat) :
    (Words.ofNat n v).take w = Words.ofNat w v := by
  induction w generalizing n v with
  | zero => rfl
  | succ w ih =>
    cases n with
    | zero => omega
    | succ n => rw [Words.ofNat_succ, List.take_succ_cons, ih (by omega), Words.ofNat_succ]

theorem window_overwrite_take {m : Memory} {o w : Nat} {ws : List Word} (hf : Fits o ws.length)
    (hw : w ≤ ws.length) : (m.overwrite o ws).window o w = ws.take w := by
  have e := window_overwrite_self (m := m) hf
  obtain ⟨k, hk⟩ := Nat.exists_eq_add_of_le hw
  have hl : ((m.overwrite o ws).window o w).length = w := length_window _ _ _
  rw [hk, window_append] at e
  have ht := congrArg (List.take w) e
  rwa [List.take_append_of_le_length (by omega), List.take_of_length_le (by omega)] at ht

/-- a number stored in `n` words, read back from the first `w` of them -/
theorem element_overwrite_ofNat {m : Memory} {o w n : Nat} (hf : Fits o n) (hw : w ≤ n) (v : Nat) :
    (m.overwrite o (Words.ofNat n v)).element w o = v % 2 ^ (32 * w) := by
  have hl : (Words.ofNat n v).length = n := Words.length_ofNat n v
  unfold element
  rw [window_overwrite_take (by rwa [hl]) (by rwa [hl]), take_ofNat hw, Words.value_ofNat]

theorem element_overwrite_of_lt {m : Memory} {o w n v : Nat} (hf : Fits o n) (hw : w ≤ n)
    (hv : v < 2 ^ (32 * w)) : (m.overwrite o (Words.ofNat n v)).element w o = v := by
  rw [element_overwrite_ofNat hf hw, Nat.mod_eq_of_lt hv]

theorem element_overwrite_disjoint {m : Memory} {o o' w : Nat} {ws : List Word}
    (h : o' + w ≤ o ∨ o + ws.length ≤ o') : (m.overwrite o ws).element w o' = m.element w o' :=
  congrArg Words.value (window_overwrite_disjoint h)

/-- the lowest word of an element decides its parity -/
theorem element_mod_two {m : Memory} {w o : Nat} (hw : 0 < w) :
    m.element w o % 2 = (m.word o).toNat % 2 := by
  obtain ⟨n, rfl⟩ := Nat.exists_eq_succ_of_ne_zero (Nat.ne_of_gt hw)
  unfold element
  rw [window_succ, Words.value_cons, Words.size_eq]
  omega

end Memory

namespace Bytes

/-- the point of a byte string, `x` in the first `n` bytes and `y` behind them -/
def point (n : Nat) (bs : Bytes) : Point := .affine (value (bs.take n)) (value (bs.drop n))

def ofNat (w v : Nat) : Bytes := ofWords (Words.ofNat w v)

theorem length_ofNat (w v : Nat) : (ofNat w v).length = 4 * w := by
  rw [ofNat, length_ofWords, Words.length_ofNat]

theorem ofWords_window (m : Memory) (w o : Nat) :
    ofWords (m.window o w) = ofNat w (m.element w o) := by
  have e := Words.ofNat_value (m.window o w)
  rw [Memory.length_window] at e
  unfold ofNat Memory.element
  rw [e]

theorem value_ofWords (ws : List Word) : value (ofWords ws) = Words.value ws := by
  have h : 4 ∣ (ofWords ws).length := by
    rw [length_ofWords]
    exact Nat.dvd_mul_right 4 ws.length
  rw [← value_words _ h, words_ofWords]

theorem value_ofNat {w v : Nat} (h : v < 2 ^ (32 * w)) : value (ofNat w v) = v := by
  rw [ofNat, value_ofWords, Words.value_ofNat_of_lt h]

theorem ofNat_value {w : Nat} {bs : Bytes} (hl : bs.length = 4 * w) : ofNat w (value bs) = bs := by
  have hd : 4 ∣ bs.length := hl ▸ Nat.dvd_mul_right 4 w
  have e := Words.ofNat_value (words bs)
  rw [length_words, value_words bs hd, hl, Nat.mul_div_cancel_left w (by decide)] at e
  rw [ofNat, e, ofWords_words bs hd]

theorem length_take_drop {n : Nat} {bs : Bytes} (hl : bs.length = 2 * n) :
    (bs.take n).length = n ∧ (bs.drop n).length = n := by
  rw [List.length_take, List.length_drop]
  omega

end Bytes
end CurveEngine
