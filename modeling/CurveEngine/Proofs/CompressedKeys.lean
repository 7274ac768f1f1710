import CurveEngine.Proofs.Cubics
import CurveEngine.Proofs.Validation

/-!
# What decompression makes of any bytes

Decompression never fails on bytes of the right length, whether they are those of a point or not.

* `PublicKey.ordinate_mod_two`   the ordinate it finds has the parity that was asked for;
* `PublicKey.IsAbscissa`     the abscissas whose right-hand side is a square and not zero;
* `PublicKey.Encodes`        the bytes that stand for a point of the curve;
* `valid_ordinate_iff`       validation accepts the outcome for these abscissas only;
* `isAbscissa_iff_encodes`   they are the abscissas of points, zero apart;
* `validate_decompressed`    decompression, and then validation;
* `compress_decompressed`    decompression, and then compression.

Where the right-hand side is not a square, the ladder takes the root of its negative, and the outcome
is off the curve.  Nothing has to be known about that root: a point that passes validation shows that
its right-hand side is a square.
-/

namespace CurveEngine

namespace PublicKey

/-! ## Ordinates -/

variable (c : NamedCurve) {parity x : Nat}

/-- the ordinate has the parity that was asked for, since the prime is odd: a root and what is missing
of the prime have different ones -/
theorem ordinate_mod_two (h : parity < 2) (x : Nat) :
    ordinate c c.data.values parity x % 2 = parity := by
  have hr := root_lt c x
  have h4 := c.prime_mod_four
  rw [ordinate_values]
  split <;> omega

theorem ordinate_lt_two_pow (parity x : Nat) :
    ordinate c c.data.values parity x < 2 ^ (32 * c.words) := by
  have hr := root_lt c x
  have hp := c.p_lt_two_pow
  rw [ordinate_values]
  split <;> omega

/-! ## Abscissas -/

theorem isSquare_and_ne_zero_iff {p R : Nat} (hp : p.Prime) (h2 : p % 2 = 1) (h : parity < 2) :
    (IsSquare (R : ZMod p) ∧ (R : ZMod p) ≠ 0) ↔
      ∃ y, (0 < y ∧ y < p) ∧ y % 2 = parity ∧ y ^ 2 % p = R % p := by
  have : Fact p.Prime := ⟨hp⟩
  constructor
  · rintro ⟨⟨r, hr⟩, h0⟩
    have hr0 : r ≠ 0 := by
      rintro rfl
      exact h0 (hr.trans (mul_zero 0))
    have hpos : 0 < r.val := Nat.pos_of_ne_zero ((ZMod.val_ne_zero r).mpr hr0)
    have hneg : (-r).val = p - r.val := by rw [ZMod.neg_val, if_neg hr0]
    have hlt := ZMod.val_lt r
    -- the prime is odd, so `r` and its negative differ in parity
    by_cases hpar : r.val % 2 = parity
    · refine ⟨r.val, ⟨hpos, hlt⟩, hpar, sq_mod_eq_iff.mpr ?_⟩
      rw [ZMod.natCast_zmod_val, hr, sq]
    · refine ⟨(-r).val, by omega, by omega, sq_mod_eq_iff.mpr ?_⟩
      rw [ZMod.natCast_zmod_val, hr, neg_sq, sq]
  · rintro ⟨y, hy, -, hR⟩
    rw [sq_mod_eq_iff.mp hR]
    exact ⟨⟨y, sq _⟩, pow_ne_zero 2 (Residue.cast_ne_zero hy.1 hy.2)⟩

/-- in range and not zero, with a right-hand side that is a square and not zero -/
def IsAbscissa (c : NamedCurve) (x : Nat) : Prop :=
  (0 < x ∧ x < c.data.p) ∧
    IsSquare ((x ^ 3 + c.data.a * x + c.data.b : Nat) : ZMod c.data.p) ∧
    ((x ^ 3 + c.data.a * x + c.data.b : Nat) : ZMod c.data.p) ≠ 0

theorem isAbscissa_iff (h : parity < 2) : IsAbscissa c x ↔ (0 < x ∧ x < c.data.p) ∧
    ∃ y, (0 < y ∧ y < c.data.p) ∧ y % 2 = parity ∧
      y ^ 2 % c.data.p = (x ^ 3 + c.data.a * x + c.data.b) % c.data.p := by
  have h4 := c.prime_mod_four
  exact and_congr_right fun _ => isSquare_and_ne_zero_iff c.prime (by omega) h

/-- **validation accepts the ordinate that decompression finds** where there is one to be found -/
theorem valid_ordinate_iff (h : parity < 2) :
    Valid c.data.values x (ordinate c c.data.values parity x) ↔ IsAbscissa c x := by
  rw [isAbscissa_iff c h]
  constructor
  · rintro ⟨hx, hy, he⟩
    exact ⟨hx, _, hy, ordinate_mod_two c h x, he⟩
  · rintro ⟨hx, y, hy, rfl, he⟩
    -- the root of that parity is the one that the ladder finds
    rw [ordinate_eq c hy he]
    exact ⟨hx, hy, he⟩

instance (x : Nat) : Decidable (IsAbscissa c x) :=
  decidable_of_iff _ (valid_ordinate_iff c (by decide : 0 < 2))

/-! ## Bytes of points -/

/-- behind a byte with the parity of its ordinate, the abscissa of a point of the curve -/
structure Encodes (c : NamedCurve) (compressed : Bytes) (x y : Nat) : Prop where
  parity : (compressed.headD 0 &&& 1).toNat = y % 2
  abscissa : Bytes.value (compressed.drop 1) = x
  reduced : x < c.data.p ∧ y < c.data.p
  equation : y ^ 2 % c.data.p = (x ^ 3 + c.data.a * x + c.data.b) % c.data.p

variable {c} {compressed : Bytes} {y : Nat}

theorem Encodes.ordinate_range (h : Encodes c compressed x y) : 0 < y ∧ y < c.data.p := by
  refine ⟨Nat.pos_of_ne_zero ?_, h.reduced.2⟩
  rintro rfl
  exact c.rightSide_ne_zero x (h.equation.symm.trans (Nat.zero_mod _))

theorem isAbscissa_iff_encodes (hx : Bytes.value (compressed.drop 1) = x) :
    IsAbscissa c x ↔ 0 < x ∧ ∃ y, Encodes c compressed x y := by
  rw [isAbscissa_iff c (Bytes.toNat_and_one_lt _)]
  constructor
  · rintro ⟨⟨h0, hp⟩, y, hy, hpar, he⟩
    exact ⟨h0, y, hpar.symm, hx, ⟨hp, hy.2⟩, he⟩
  · rintro ⟨h0, y, h⟩
    exact ⟨⟨h0, h.reduced.1⟩, y, h.ordinate_range, h.parity.symm, h.equation⟩

/-- what decompression makes of a first byte and the bytes behind it -/
def decompressed (c : NamedCurve) (b : UInt8) (bs : Bytes) : Bytes :=
  KeyAgreement.pointBytes c.words
    (Bytes.value bs, ordinate c c.data.values (b &&& 1).toNat (Bytes.value bs))

theorem length_decompressed (c : NamedCurve) (b : UInt8) (bs : Bytes) :
    (decompressed c b bs).length = 2 * c.elementBytes := KeyAgreement.length_pointBytes _ _

theorem halves_decompressed {b : UInt8} {bs : Bytes} (hl : bs.length = c.elementBytes) :
    (decompressed c b bs).take c.elementBytes = bs ∧
      Bytes.value ((decompressed c b bs).drop c.elementBytes) =
        ordinate c c.data.values (b &&& 1).toNat (Bytes.value bs) := by
  have hx := Bytes.ofNat_value hl
  have hy := ordinate_lt_two_pow c (b &&& 1).toNat (Bytes.value bs)
  unfold decompressed KeyAgreement.pointBytes
  rw [hx, List.take_left' hl, List.drop_left' hl, Bytes.value_ofNat hy]
  exact ⟨rfl, rfl⟩

end PublicKey

theorem Bytes.compress_eq {n : Nat} {key : Bytes} (hl : key.length = 2 * n) (hn : 0 < n) {b : UInt8}
    (hb : value (key.drop n) % 2 = (b &&& 1).toNat) : compress key = (b &&& 1) :: key.take n := by
  have hlast : key.getLastD 0 &&& 1 &&& 1 = b &&& 1 :=
    UInt8.toNat_inj.mp ((parity_compress hl hn).trans hb)
  rw [UInt8.and_assoc, UInt8.and_self] at hlast
  rw [← drop_compress hl, ← hlast]
  rfl

/-! ## The operations -/

namespace Session

open KeyAgreement PublicKey

variable {s : Session} {c : NamedCurve} {b : UInt8} {bs out : Bytes}

section
variable (hl : bs.length = c.elementBytes)
include hl

theorem Equipped.decompress (h : s.Equipped c) (ho : out.length = 2 * c.elementBytes) :
    s.Answers (.decompress (b :: bs) out) (.ok [decompressed c b bs]) ∧
      ∀ d r, (s.run (.decompress (b :: bs) out) d).1 = .ready r →
        (s.after (s.run (.decompress (b :: bs) out) d).2).Equipped c := by
  have hcons : (b :: bs).length = c.elementBytes + 1 := by rw [List.length_cons, hl]
  obtain ⟨h', hw, he⟩ := decompress_delivers h.idle h.curve h.constants rfl hcons ho
  refine ⟨answers_of_delivers he, fun d r hr => ?_⟩
  obtain ⟨-, rfl⟩ := (ends_of_run hr).unique he.1
  exact ⟨Idle.after h.curve hw.ready, h.curve,
    (hw.constants c.words_le (Nat.le_refl _)).trans h.constants⟩

theorem Equipped.validate (h : s.Equipped c) :
    s.Answers (.validate (decompressed c b bs))
      (if IsAbscissa c (Bytes.value bs) then .ok [] else .error .failed) := by
  obtain ⟨hx, hy⟩ := halves_decompressed hl (b := b)
  have hv := answers_validate h.idle h.curve h.constants rfl (length_decompressed c b bs)
  rwa [hx, hy, if_congr (valid_ordinate_iff c (Bytes.toNat_and_one_lt b)) rfl rfl] at hv

/-- **decompression, and then validation**, for any first byte and any bytes behind it: decompression
always ends well, and validation accepts its outcome if the bytes are an abscissa whose right-hand
side is a square and not zero, and otherwise fails plainly.  So the two accept the bytes exactly if
they stand for a point with an abscissa that is not zero, and what they accept is that point. -/
theorem validate_decompressed (h : s.Equipped c) (ho : out.length = 2 * c.elementBytes) {x : Nat}
    (hx : Bytes.value bs = x) :
    ∃ key, s.Answers (.decompress (b :: bs) out) (.ok [key]) ∧
      (∀ d r, (s.run (.decompress (b :: bs) out) d).1 = .ready r →
        (s.after (s.run (.decompress (b :: bs) out) d).2).Equipped c) ∧
      (∀ s' : Session, s'.Equipped c → s'.Answers (.validate key)
        (if IsAbscissa c x then .ok [] else .error .failed)) ∧
      (IsAbscissa c x ↔ 0 < x ∧ ∃ y, Encodes c (b :: bs) x y) ∧
      ∀ y, Encodes c (b :: bs) x y → key = pointBytes c.words (x, y) := by
  subst hx
  obtain ⟨ha, hafter⟩ := h.decompress hl ho (b := b)
  refine ⟨_, ha, hafter, fun s' h' => h'.validate hl, isAbscissa_iff_encodes rfl, fun y hy => ?_⟩
  have hpar : (b &&& 1).toNat = y % 2 := hy.parity
  unfold decompressed
  rw [hpar, ordinate_eq c hy.ordinate_range hy.equation]

end

/-- on P-192 the generator's abscissa is accepted behind any byte with the parity of the ordinate, and
the prime is not -/
theorem validate_decompressed_p192 :
    let s := (new 0 {} []).enable .p192
    ∃ key key', s.Answers (.decompress (0xa7 :: Bytes.ofNat 6 NamedCurve.p192.data.gx) (blank none 48))
        (.ok [key]) ∧ s.Answers (.validate key) (.ok []) ∧
      s.Answers (.decompress (2 :: Bytes.ofNat 6 NamedCurve.p192.data.p) (blank none 48))
        (.ok [key']) ∧ s.Answers (.validate key') (.error .failed) := by
  intro s
  have h := equipped_enable (new 0 {} []) .p192
  have ho : (blank none 48).length = 2 * NamedCurve.p192.elementBytes := by decide
  have hl (x : Nat) : (Bytes.ofNat 6 x).length = NamedCurve.p192.elementBytes :=
    Bytes.length_ofNat 6 x
  have hx (x : Nat) (hx : x < 2 ^ 192) : Bytes.value (Bytes.ofNat 6 x) = x := Bytes.value_ofNat hx
  obtain ⟨key, ha, -, hv, -⟩ :=
    validate_decompressed (b := 0xa7) (hl _) h ho (hx NamedCurve.p192.data.gx (by decide))
  obtain ⟨key', ha', -, hv', -⟩ :=
    validate_decompressed (b := 2) (hl _) h ho (hx NamedCurve.p192.data.p (by decide))
  have hok := hv s h
  have hfail := hv' s h
  rw [if_pos (by decide +kernel)] at hok
  rw [if_neg (by decide +kernel)] at hfail
  exact ⟨key, key', ha, hok, ha', hfail⟩

/-- **compression undoes decompression**, for any bytes: of the first byte the lowest bit is left, and
the others come back as they were -/
theorem compress_decompressed (h : s.Equipped c) (hl : bs.length = c.elementBytes)
    (ho : out.length = 2 * c.elementBytes) :
    ∃ key : Bytes, key.length = 2 * c.elementBytes ∧
      s.Answers (.decompress (b :: bs) out) (.ok [key]) ∧
      key.take c.elementBytes = bs ∧
      Bytes.value (key.drop c.elementBytes) % 2 = (b &&& 1).toNat ∧
      ∀ s' : Session, s'.curve = some c → ∀ out' : Bytes, out'.length = c.elementBytes + 1 →
        s'.Answers (.compress key out') (.ok [(b &&& 1) :: bs]) := by
  have hlen := length_decompressed c b bs
  obtain ⟨hx, hy⟩ := halves_decompressed hl (b := b)
  have hpar := ordinate_mod_two c (Bytes.toNat_and_one_lt b) (Bytes.value bs)
  rw [← hy] at hpar
  refine ⟨decompressed c b bs, hlen, (h.decompress hl ho).1, hx, hpar, fun s' hc out' ho' => ?_⟩
  have hc := answers_compress hc hlen ho'
  rwa [Bytes.compress_eq hlen (Nat.mul_pos (by decide) c.words_pos) hpar, hx] at hc

theorem compress_decompressed_p192 :
    let s := (new 0 {} []).enable .p192
    ∃ key, s.Answers (.decompress (0xa7 :: List.replicate 24 0xff) (blank none 48)) (.ok [key]) ∧
      s.Answers (.compress key (blank none 25)) (.ok [1 :: List.replicate 24 0xff]) := by
  intro s
  have h := equipped_enable (new 0 {} []) .p192
  have hl : (List.replicate 24 (0xff : UInt8)).length = NamedCurve.p192.elementBytes := by decide
  have ho : (blank none 48).length = 2 * NamedCurve.p192.elementBytes := by decide
  obtain ⟨key, -, ha, -, -, hc⟩ := compress_decompressed (b := 0xa7) h hl ho
  exact ⟨key, ha, hc s rfl (blank none 25) (by decide)⟩

end Session
end CurveEngine
