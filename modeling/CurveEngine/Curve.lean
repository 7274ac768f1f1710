import CurveEngine.Words

/-!
# The supported curves

* `NamedCurve`    the two curves, each with the number that selects it;
* `CurveData`     the constants of a curve `y ^ 2 = x ^ 3 + a x + b` over the field of `p` elements,
                  with a generator of order `n`;
* `CurveData.digit`   the digits of `p + 1`, from a table of its words;
* `NamedCurve.data`   the constants of P-256 and P-192.

Both primes are 3 modulo 4 (`prime_mod_four`), so a square root is a power with exponent
`(p + 1) / 4`.
-/

namespace CurveEngine

structure CurveData where
  /-- what messages call the curve -/
  title : String
  words : Nat
  p : Nat
  a : Nat
  b : Nat
  /-- the generator's abscissa -/
  gx : Nat
  /-- the generator's ordinate -/
  gy : Nat
  /-- the generator's order -/
  n : Nat
  /-- the words of `p + 1`, with zeros behind them -/
  pPlusOne : List Word
  /-- binary digits of `p + 1` -/
  bits : Nat

/-- digit `i` of `p + 1`, by a mask for its word -/
def CurveData.digit (d : CurveData) (i : Nat) : Bool :=
  d.pPlusOne.getD (i >>> 5) 0 &&& 1 <<< UInt32.ofNat (i &&& 0x1f) ≠ 0

/-- a curve that can be enabled -/
inductive NamedCurve where
  | p256
  | p192
  deriving DecidableEq

namespace NamedCurve

def id : NamedCurve → Nat
  | p256 => 0
  | p192 => 1

/-- the curve with a number -/
def ofId? : Nat → Option NamedCurve
  | 0 => some p256
  | 1 => some p192
  | _ => none

theorem ofId?_eq_some_iff (i : Nat) (c : NamedCurve) : ofId? i = some c ↔ i = c.id := by
  match i, c with
  | 0, p256 | 1, p192 => exact ⟨fun _ => rfl, fun _ => rfl⟩
  | 0, p192 | 1, p256 | i + 2, p256 | i + 2, p192 => simp [ofId?, id]

def data : NamedCurve → CurveData
  | p256 =>
    { title := "NIST P-256"
      words := 8
      p := 0xffffffff00000001000000000000000000000000ffffffffffffffffffffffff
      a := 0xffffffff00000001000000000000000000000000fffffffffffffffffffffffc
      b := 0x5ac635d8aa3a93e7b3ebbd55769886bc651d06b0cc53b0f63bce3c3e27d2604b
      gx := 0x6b17d1f2e12c4247f8bce6e563a440f277037d812deb33a0f4a13945d898c296
      gy := 0x4fe342e2fe1a7f9b8ee7eb4a7c0f9e162bce33576b315ececbb6406837bf51f5
      n := 0xffffffff00000000ffffffffffffffffbce6faada7179e84f3b9cac2fc632551
      pPlusOne := [0x00000000, 0x00000000, 0x00000000, 0x00000001, 0x00000000, 0x00000000,
        0x00000001, 0xffffffff]
      bits := 256 }
  | p192 =>
    { title := "NIST P-192"
      words := 6
      p := 0xfffffffffffffffffffffffffffffffeffffffffffffffff
      a := 0xfffffffffffffffffffffffffffffffefffffffffffffffc
      b := 0x64210519e59c80e70fa7e9ab72243049feb8deecc146b9b1
      gx := 0x188da80eb03090f67cbf20eb43a18800f4ff0afd82ff1012
      gy := 0x07192b95ffc8da78631011ed6b24cdd573f977a11e794811
      n := 0xffffffffffffffffffffffff99def836146bc9b1b4d22831
      pPlusOne := [0x00000000, 0x00000000, 0xffffffff, 0xffffffff, 0xffffffff, 0xffffffff, 0, 0]
      bits := 192 }

def words (c : NamedCurve) : Nat := c.data.words

def elementBytes (c : NamedCurve) : Nat := 4 * c.words

@[simp] theorem words_p256 : words p256 = 8 := rfl

@[simp] theorem words_p192 : words p192 = 6 := rfl

/-- the square root is a power -/
theorem prime_mod_four (c : NamedCurve) : c.data.p % 4 = 3 := by
  cases c <;> decide

end NamedCurve
end CurveEngine
