import CurveEngine.Words

/-!
# Big-endian byte strings and their words

Keys, signatures and hashes cross the boundary as byte strings, most significant byte first.

* `Bytes.value`       the number of a byte string;
* `Bytes.words`       the words of a byte string, cut from its end;
* `Bytes.ofWords`     the byte string of a word list;
* `Bytes.overWords`, `Bytes.overBytes`   the same conversions into a destination of any length:
                      only the part both sides have is replaced;
* `Bytes.fit`         a string of any length fitted to `n` bytes.

All four conversions count from the least significant end, so they are defined on reversed strings
(`Bytes.littleValue`, `Bytes.littleWords`, `Bytes.littleBytes`) by recursion on the data.
-/

namespace CurveEngine

/-- byte strings, most significant byte first -/
abbrev Bytes := List UInt8

namespace Bytes

/-! ## Least significant byte first -/

/-- the number of a byte list, least significant byte first -/
def littleValue : List UInt8 → Nat
  | [] => 0
  | b :: bs => b.toNat + 256 * littleValue bs

/-- the word of four bytes, least significant byte first -/
def word (b₀ b₁ b₂ b₃ : UInt8) : Word :=
  UInt32.ofNat (b₀.toNat + 256 * (b₁.toNat + 256 * (b₂.toNat + 256 * b₃.toNat)))

/-- the words of a byte list, least significant byte first; an incomplete last group is dropped -/
def littleWords : List UInt8 → List Word
  | b₀ :: b₁ :: b₂ :: b₃ :: bs => word b₀ b₁ b₂ b₃ :: littleWords bs
  | _ => []

/-- the `i`-th byte of a word, byte 0 is the least significant -/
def byteOf (w : Word) (i : Nat) : UInt8 := UInt8.ofNat (w.toNat >>> (8 * i))

/-- the bytes of a word list, least significant byte first -/
def littleBytes : List Word → List UInt8
  | [] => []
  | w :: ws => byteOf w 0 :: byteOf w 1 :: byteOf w 2 :: byteOf w 3 :: littleBytes ws

@[simp] theorem littleValue_nil : littleValue [] = 0 := rfl

@[simp] theorem littleValue_cons (b : UInt8) (bs : List UInt8) :
    littleValue (b :: bs) = b.toNat + 256 * littleValue bs := rfl

@[simp] theorem littleWords_nil : littleWords [] = [] := rfl

@[simp] theorem littleWords_cons (b₀ b₁ b₂ b₃ : UInt8) (bs : List UInt8) :
    littleWords (b₀ :: b₁ :: b₂ :: b₃ :: bs) = word b₀ b₁ b₂ b₃ :: littleWords bs := rfl

@[simp] theorem littleBytes_nil : littleBytes [] = [] := rfl

@[simp] theorem littleBytes_cons (w : Word) (ws : List Word) :
    littleBytes (w :: ws) =
      byteOf w 0 :: byteOf w 1 :: byteOf w 2 :: byteOf w 3 :: littleBytes ws := rfl

theorem toNat_word (b₀ b₁ b₂ b₃ : UInt8) :
    (word b₀ b₁ b₂ b₃).toNat =
      b₀.toNat + 256 * (b₁.toNat + 256 * (b₂.toNat + 256 * b₃.toNat)) := by
  have h₀ : b₀.toNat < 256 := b₀.toNat_lt
  have h₁ : b₁.toNat < 256 := b₁.toNat_lt
  have h₂ : b₂.toNat < 256 := b₂.toNat_lt
  have h₃ : b₃.toNat < 256 := b₃.toNat_lt
  rw [word, UInt32.toNat_ofNat']
  omega

theorem toNat_byteOf (w : Word) (i : Nat) : (byteOf w i).toNat = (w.toNat >>> (8 * i)) % 256 := by
  rw [byteOf, UInt8.toNat_ofNat']

theorem word_byteOf (w : Word) : word (byteOf w 0) (byteOf w 1) (byteOf w 2) (byteOf w 3) = w := by
  have hw : w.toNat < 2 ^ 32 := w.toNat_lt
  apply UInt32.toNat_inj.mp
  rw [toNat_word, toNat_byteOf, toNat_byteOf, toNat_byteOf, toNat_byteOf]
  omega

theorem byteOf_word (b₀ b₁ b₂ b₃ : UInt8) :
    byteOf (word b₀ b₁ b₂ b₃) 0 = b₀ ∧ byteOf (word b₀ b₁ b₂ b₃) 1 = b₁ ∧
      byteOf (word b₀ b₁ b₂ b₃) 2 = b₂ ∧ byteOf (word b₀ b₁ b₂ b₃) 3 = b₃ := by
  have h₀ : b₀.toNat < 256 := b₀.toNat_lt
  have h₁ : b₁.toNat < 256 := b₁.toNat_lt
  have h₂ : b₂.toNat < 256 := b₂.toNat_lt
  have h₃ : b₃.toNat < 256 := b₃.toNat_lt
  refine ⟨?_, ?_, ?_, ?_⟩ <;> apply UInt8.toNat_inj.mp <;> rw [toNat_byteOf, toNat_word] <;> omega

theorem length_littleBytes (ws : List Word) : (littleBytes ws).length = 4 * ws.length := by
  induction ws with
  | nil => rfl
  | cons w ws ih =>
    simp only [littleBytes_cons, List.length_cons, ih]
    omega

/-- a byte list that is no longer cut into words has less than four bytes -/
theorem length_lt_four {bs : List UInt8}
    (h : ∀ b₀ b₁ b₂ b₃ rest, bs = b₀ :: b₁ :: b₂ :: b₃ :: rest → False) : bs.length < 4 := by
  match bs, h with
  | [], _ | [_], _ | [_, _], _ | [_, _, _], _ => simp
  | b₀ :: b₁ :: b₂ :: b₃ :: bs, h => exact absurd rfl (h b₀ b₁ b₂ b₃ bs)

theorem length_littleWords (bs : List UInt8) : (littleWords bs).length = bs.length / 4 := by
  fun_induction littleWords bs with
  | case1 b₀ b₁ b₂ b₃ bs ih =>
    simp only [List.length_cons, ih]
    omega
  | case2 bs h =>
    have := length_lt_four h
    rw [List.length_nil]
    omega

theorem littleWords_littleBytes (ws : List Word) : littleWords (littleBytes ws) = ws := by
  induction ws with
  | nil => rfl
  | cons w ws ih => rw [littleBytes_cons, littleWords_cons, word_byteOf, ih]

theorem littleBytes_littleWords (bs : List UInt8) (h : 4 ∣ bs.length) :
    littleBytes (littleWords bs) = bs := by
  fun_induction littleWords bs with
  | case1 b₀ b₁ b₂ b₃ bs ih =>
    obtain ⟨e₀, e₁, e₂, e₃⟩ := byteOf_word b₀ b₁ b₂ b₃
    have hd : 4 ∣ bs.length := by
      simp only [List.length_cons] at h
      omega
    rw [littleBytes_cons, e₀, e₁, e₂, e₃, ih hd]
  | case2 bs hb =>
    have := length_lt_four hb
    obtain rfl : bs = [] := List.length_eq_zero_iff.mp (by omega)
    rfl

theorem value_littleWords (bs : List UInt8) (h : 4 ∣ bs.length) :
    Words.value (littleWords bs) = littleValue bs := by
  fun_induction littleWords bs with
  | case1 b₀ b₁ b₂ b₃ bs ih =>
    have hd : 4 ∣ bs.length := by
      simp only [List.length_cons] at h
      omega
    rw [Words.value_cons, ih hd, toNat_word, UInt32.size]
    simp only [littleValue_cons]
    omega
  | case2 bs hb =>
    have := length_lt_four hb
    obtain rfl : bs = [] := List.length_eq_zero_iff.mp (by omega)
    rfl

/-! ## Most significant byte first -/

def value (bs : Bytes) : Nat := littleValue bs.reverse

/-- the words of a byte string, cut from its end, least significant word first -/
def words (bs : Bytes) : List Word := littleWords bs.reverse

def ofWords (ws : List Word) : Bytes := (littleBytes ws).reverse

@[simp] theorem length_words (bs : Bytes) : (words bs).length = bs.length / 4 := by
  rw [words, length_littleWords, List.length_reverse]

@[simp] theorem length_ofWords (ws : List Word) : (ofWords ws).length = 4 * ws.length := by
  rw [ofWords, List.length_reverse, length_littleBytes]

@[simp] theorem words_ofWords (ws : List Word) : words (ofWords ws) = ws := by
  rw [words, ofWords, List.reverse_reverse, littleWords_littleBytes]

theorem ofWords_words (bs : Bytes) (h : 4 ∣ bs.length) : ofWords (words bs) = bs := by
  rw [words, ofWords, littleBytes_littleWords _ (by rwa [List.length_reverse]),
    List.reverse_reverse]

theorem value_words (bs : Bytes) (h : 4 ∣ bs.length) : Words.value (words bs) = value bs :=
  value_littleWords _ (by rwa [List.length_reverse])

/-! ## Conversion into a destination -/

/-- the leading entries of `old` replaced by `new`, as far as both go -/
def overlay {α : Type} (new old : List α) : List α := new.take old.length ++ old.drop new.length

/-- the words of `bs` written over the least significant words of `old` -/
def overWords (bs : Bytes) (old : List Word) : List Word := overlay (words bs) old

/-- the bytes of `ws` written over the last bytes of `old`, whole words only -/
def overBytes (ws : List Word) (old : Bytes) : Bytes :=
  (overlay (littleBytes (ws.take (old.length / 4))) old.reverse).reverse

@[simp] theorem length_overlay {α : Type} (new old : List α) :
    (overlay new old).length = old.length := by
  rw [overlay, List.length_append, List.length_take, List.length_drop]
  omega

theorem overlay_of_length_eq {α : Type} {new old : List α} (h : new.length = old.length) :
    overlay new old = new := by
  rw [overlay, ← h, List.take_length, List.drop_of_length_le (Nat.le_of_eq h.symm),
    List.append_nil]

theorem overWords_eq_words {bs : Bytes} {old : List Word} (h : bs.length = 4 * old.length) :
    overWords bs old = words bs := by
  apply overlay_of_length_eq
  rw [length_words]
  omega

theorem overBytes_eq_ofWords {ws : List Word} {old : Bytes} (h : old.length = 4 * ws.length) :
    overBytes ws old = ofWords ws := by
  have hq : old.length / 4 = ws.length := by omega
  rw [overBytes, hq, List.take_length, overlay_of_length_eq, ofWords]
  rw [length_littleBytes, List.length_reverse, h]

/-! ## Hashes -/

/-- the leftmost `n` bytes of a string, or the string with zeros in front to make `n` bytes -/
def fit (n : Nat) (bs : Bytes) : Bytes := List.replicate (n - bs.length) 0 ++ bs.take n

@[simp] theorem length_fit (n : Nat) (bs : Bytes) : (fit n bs).length = n := by
  rw [fit, List.length_append, List.length_replicate, List.length_take]
  omega

theorem fit_of_le {n : Nat} {bs : Bytes} (h : n ≤ bs.length) : fit n bs = bs.take n := by
  rw [fit, Nat.sub_eq_zero_of_le h, List.replicate_zero, List.nil_append]

theorem fit_of_ge {n : Nat} {bs : Bytes} (h : bs.length ≤ n) :
    fit n bs = List.replicate (n - bs.length) 0 ++ bs := by
  rw [fit, List.take_of_length_le h]

end Bytes
end CurveEngine
