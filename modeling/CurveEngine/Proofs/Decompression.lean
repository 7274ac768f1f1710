import CurveEngine.Proofs.Checks
import CurveEngine.Proofs.Inward
import CurveEngine.Proofs.NamedCurves

/-!
# Decompression computes a square root

* `PublicKey.rightSide`   `x ^ 3 + a x + b` as the program computes it;
* `PublicKey.opening`, `PublicKey.conclusion`   what decompression does before the ladder and behind it;
* `PublicKey.ordinate`    the ordinate that decompression finds for an abscissa and a parity;
* `expand_computes`       the program computes it, for any constants in memory;
* `ordinate_eq`           for a point of the curve it is the ordinate with that parity;
* `Bytes.compress`        what compression writes;
* `decompress_compress`   compression, and then decompression.

The ladder of `Proofs.Powers` takes the root, so a step of the program is compared with a step of
the ladder and the rest is about powers.
-/

namespace CurveEngine

open Program Arithmetic
open Layout (Place PointPlace Within)

namespace PublicKey

/-! ## The right-hand side -/

/-- `x ^ 3 + a x + b`, with the second copies of the coefficients -/
def rightSide (K : Constants) (x : Nat) : Nat :=
  let p := K.law.p
  Residue.total (Residue.total (Residue.total (Residue.total (x * x) p + K.coefficientA) p * x) p
    + K.coefficientB) p

theorem rightSide_eq {K : Constants} (hp : 0 < K.law.p) (x : Nat) :
    rightSide K x = (x ^ 3 + K.coefficientA * x + K.coefficientB) % K.law.p := by
  unfold rightSide
  simp only [Residue.total_of_pos hp]
  have h₁ : x * x % K.law.p ≡ x * x [MOD K.law.p] := Nat.mod_modEq _ _
  have h₂ := (Nat.mod_modEq (x * x % K.law.p + K.coefficientA) K.law.p).trans
    (h₁.add_right K.coefficientA)
  have h₃ := (Nat.mod_modEq ((x * x % K.law.p + K.coefficientA) % K.law.p * x) K.law.p).trans
    (h₂.mul_right x)
  have e : (x * x + K.coefficientA) * x + K.coefficientB =
      x ^ 3 + K.coefficientA * x + K.coefficientB := by ring
  rw [← e]
  exact h₃.add_right K.coefficientB

section
variable {w : Nat} {K : Constants} {h : Host} (hL : h.Loaded w K)
include hL

theorem rightHandSide_computes {x v t : Nat} (hxv : h.element w x = v)
    (hs : Place x ∧ Place t ∧ Memory.Fits t Layout.remainderSlot)
    (hc : Layout.Clear t Layout.remainderSlot x Layout.elementSlot) (hv : Layout.variables ≤ t) :
    (rightHandSide w x t).Computes h t Layout.remainderSlot (.ok (rightSide K v))
      (Stored w t) := by
  have hw := hL.words
  obtain ⟨hx, ht, hf⟩ := hs
  refine (hL.fieldMultiply hxv hxv ⟨hx, hx, hf⟩ hv).bind_ok (.refl _ _) fun _ h₁ w₁ t₁ => ?_
  have L₁ := hL.writes w₁ hv
  have x₁ := (w₁.element hw hc).trans hxv
  refine (L₁.fieldAdd t₁ L₁.coefficientA_element ⟨ht, by decide, hf⟩ hv).bind_ok (.refl _ _)
    fun _ h₂ w₂ t₂ => ?_
  have L₂ := L₁.writes w₂ hv
  have x₂ := (w₂.element hw hc).trans x₁
  refine (L₂.fieldMultiply t₂ x₂ ⟨ht, hx, hf⟩ hv).bind_ok (.refl _ _) fun _ h₃ w₃ t₃ => ?_
  have L₃ := L₂.writes w₃ hv
  exact L₃.fieldAdd t₃ L₃.coefficientB_element ⟨ht, by decide, hf⟩ hv

/-! ## The ladder -/

theorem rootStep_computes {R v : Nat} (hs : h.element w Layout.Decompression.square = R)
    (hv : h.element w Layout.Decompression.root = v) (d : Bool) :
    (rootStep w d).Computes h Layout.Decompression.root Layout.remainderSlot
      (.ok (Residue.powerStep K.law.p R v d)) (Stored w Layout.Decompression.root) := by
  have hw := hL.words
  refine (hL.fieldMultiply hv hv (by decide) (by decide)).bind_ok (by decide)
    fun _ h₁ w₁ v₁ => ?_
  cases d with
  | false => exact .of_done w₁.ready v₁
  | true =>
    have L₁ := hL.writes w₁ (by decide)
    have s₁ := (w₁.element hw (by decide)).trans hs
    exact L₁.fieldMultiply v₁ s₁ (by decide) (by decide)

omit hL in
/-- every step keeps the square and multiplies the root by what its digit says -/
theorem rootSteps_computes (ds : List Bool) {h : Host} (hL : h.Loaded w K) {R v : Nat}
    (hs : h.element w Layout.Decompression.square = R)
    (hv : h.element w Layout.Decompression.root = v) :
    (rootSteps w ds).Computes h Layout.Decompression.root Layout.remainderSlot
      (.ok (ds.foldl (Residue.powerStep K.law.p R) v)) (Stored w Layout.Decompression.root) := by
  induction ds generalizing h v with
  | nil => exact .of_done hL.ready hv
  | cons d ds ih =>
    refine (rootStep_computes hL hs hv d).bind_ok (by decide) fun _ h₁ w₁ v₁ => ?_
    exact ih (hL.writes w₁ (by decide)) ((w₁.element hL.words (by decide)).trans hs) v₁

end

/-! ## Decompression -/

/-- the root that the ladder finds for the abscissa `x` -/
def root (c : NamedCurve) (K : Constants) (x : Nat) : Nat :=
  (exponentDigits c).foldl (Residue.powerStep K.law.p (rightSide K x)) K.one

/-- the ordinate of the given parity, a difference of `c.words` words if the root has the other one -/
def ordinate (c : NamedCurve) (K : Constants) (parity x : Nat) : Nat :=
  if root c K x % 2 ≠ parity then
    (2 ^ (32 * c.words) + K.law.p - root c K x) % 2 ^ (32 * c.words)
  else root c K x

/-- words of all variables of decompression -/
def decompressionSpace : Nat := Layout.Decompression.stop - Layout.variables

section
variable {h : Host} {K : Constants}

/-- the ladder starts with 1 -/
theorem copyOne_ends {w : Nat} (hL : h.Loaded w K) :
    ∃ h', (copy Layout.one Layout.Decompression.root w).Ends h (.ok ()) h' ∧
      h.Writes h' Layout.Decompression.root Layout.elementSlot ∧
      h'.element w Layout.Decompression.root = K.one := by
  have hw := hL.words
  have hroot : Memory.Fits Layout.Decompression.root w :=
    Memory.Fits.mono (by decide : Memory.Fits _ Layout.elementSlot) hw
  obtain ⟨h', he, hr, hm⟩ := ends_copy hL.ready
    (Memory.Fits.mono (by decide : Memory.Fits Layout.one Layout.elementSlot) hw) hroot
  refine ⟨h', he, .of_overwrite hr hm (by rwa [Memory.length_window]), ?_⟩
  show h'.engine.memory.element w _ = K.one
  rw [hm, Memory.element_overwrite_window_zero hroot]
  exact hL.one_element

/-- what comes before the ladder: the abscissa, the right-hand side and 1 as root -/
def opening (w : Nat) (bs : Bytes) : Program Unit :=
  (load w bs Layout.Decompression.x).bind fun _ =>
    (rightHandSide w Layout.Decompression.x Layout.Decompression.square).bind fun _ =>
      copy Layout.one Layout.Decompression.root w

/-- what comes behind the ladder: the root is replaced by its negative if the parity asks for it -/
def conclusion (w parity : Nat) : Program Unit :=
  (lowWord Layout.Decompression.root).bind fun low =>
    if low.toNat % 2 ≠ parity then
      subtract w Layout.field Layout.Decompression.root Layout.Decompression.root
    else done ()

theorem expand_eq (c : NamedCurve) (compressed : Bytes) :
    expand c compressed = (opening c.words (compressed.drop 1)).bind fun _ =>
      (rootSteps c.words (exponentDigits c)).bind fun _ =>
        conclusion c.words (compressed.headD 0 &&& 1).toNat := by
  unfold opening
  simp only [bind_assoc]
  rfl

/-- the ladder finds the abscissa, the right-hand side and 1 in their places -/
theorem opening_ends {w : Nat} (hL : h.Loaded w K) {bs : Bytes} (hl : bs.length = 4 * w) :
    ∃ k, (opening w bs).Ends h (.ok ()) k ∧ h.Writes k Layout.variables decompressionSpace ∧
      k.element w Layout.Decompression.x = Bytes.value bs ∧
      k.element w Layout.Decompression.square = rightSide K (Bytes.value bs) ∧
      k.element w Layout.Decompression.root = K.one := by
  have hw := hL.words
  obtain ⟨h₁, w₁, _, e₁, x₁⟩ :=
    load_computes hw hL.ready hl (by decide : Place Layout.Decompression.x)
  have L₁ := hL.writes w₁ (by decide)
  obtain ⟨h₂, w₂, _, e₂, s₂⟩ := rightHandSide_computes (t := Layout.Decompression.square) L₁ x₁
    (by decide) (by decide) (by decide)
  have L₂ := L₁.writes w₂ (by decide)
  have x₂ := (w₂.element hw (by decide)).trans x₁
  obtain ⟨h₃, e₃, w₃, v₃⟩ := copyOne_ends L₂
  exact ⟨h₃, e₁.bind (e₂.bind e₃),
    (w₁.mono (by decide)).trans ((w₂.mono (by decide)).trans (w₃.mono (by decide))),
    (w₃.element hw (by decide)).trans x₂, (w₃.element hw (by decide)).trans s₂, v₃⟩

/-- the coordinates of the result lie in their places -/
def Expanded (w : Nat) (_ : Unit) (v : Nat × Nat) (h : Host) : Prop :=
  h.element w Layout.Decompression.x = v.1 ∧ h.element w Layout.Decompression.root = v.2

theorem conclusion_computes {w : Nat} (hL : h.Loaded w K) (hpos : 0 < w) {x v : Nat}
    (hx : h.element w Layout.Decompression.x = x) (hv : h.element w Layout.Decompression.root = v)
    (parity : Nat) :
    (conclusion w parity).Computes h Layout.variables decompressionSpace
      (.ok (x, if v % 2 ≠ parity then (2 ^ (32 * w) + K.law.p - v) % 2 ^ (32 * w) else v))
      (Expanded w) := by
  have hw := hL.words
  have hlow := lowWord_computes hL.ready hpos (by decide : Place Layout.Decompression.root)
    Layout.variables
  rw [hv] at hlow
  refine hlow.bind_ok (by decide) fun low h₁ w₁ e₁ => ?_
  have x₁ := (w₁.element_of_none hw (by decide)).trans hx
  have v₁ := (w₁.element_of_none hw (by decide)).trans hv
  have p₁ := (w₁.element_of_none hw (by decide)).trans hL.field_element
  rw [← e₁]
  by_cases hne : low.toNat % 2 ≠ parity
  · rw [if_pos hne, if_pos hne]
    obtain ⟨h₂, w₂, u, he, v₂⟩ := subtract_computes hw w₁.ready (by decide : Place Layout.field)
      (by decide : Place Layout.Decompression.root) (by decide : Place Layout.Decompression.root)
    rw [v₁, p₁] at v₂
    exact .of_ok he (w₂.mono (by decide)) ⟨(w₂.element hw (by decide)).trans x₁, v₂⟩
  · rw [if_neg hne, if_neg hne]
    exact .of_done w₁.ready ⟨x₁, v₁⟩

/-- **decompression computes** the abscissa as it was given, and an ordinate -/
theorem expand_computes {c : NamedCurve} (hL : h.Loaded c.words K) {compressed : Bytes}
    (hl : compressed.length = 4 * c.words + 1) :
    (expand c compressed).Computes h Layout.variables decompressionSpace
      (.ok (Bytes.value (compressed.drop 1), ordinate c K (compressed.headD 0 &&& 1).toNat
        (Bytes.value (compressed.drop 1)))) (Expanded c.words) := by
  have ld : (compressed.drop 1).length = 4 * c.words := by
    rw [List.length_drop]
    omega
  rw [expand_eq]
  obtain ⟨h₁, e₁, w₁, x₁, s₁, v₁⟩ := opening_ends hL ld
  have L₁ := hL.writes w₁ (by decide)
  refine .after e₁ w₁ ?_
  refine (rootSteps_computes _ L₁ s₁ v₁).bind_ok (by decide) fun _ h₂ w₂ v₂ => ?_
  exact conclusion_computes (L₁.writes w₂ (by decide)) c.words_pos
    ((w₂.element hL.words (by decide)).trans x₁) v₂ _

end

/-! ## The square root -/

theorem sq_mod_eq_iff {p R y : Nat} :
    y ^ 2 % p = R % p ↔ (R : ZMod p) = (y : ZMod p) ^ 2 := by
  rw [← ZMod.natCast_eq_natCast_iff', Nat.cast_pow, eq_comm]

/-- a root of a square, for a prime that is 3 modulo 4: the number itself or its negative -/
theorem pow_eq_or {p : Nat} (hp : p.Prime) (h4 : p % 4 = 3) {R y : Nat} (hy : 0 < y ∧ y < p)
    (hR : y ^ 2 % p = R % p) :
    R ^ ((p + 1) / 4) % p = y ∨ R ^ ((p + 1) / 4) % p = p - y := by
  have : Fact p.Prime := ⟨hp⟩
  have hfermat : (y : ZMod p) ^ (p + 1) = (y : ZMod p) ^ 2 := by
    rw [pow_succ, ZMod.pow_card, sq]
  have hsquare : ((R : ZMod p) ^ ((p + 1) / 4)) ^ 2 = (y : ZMod p) ^ 2 := by
    rw [sq_mod_eq_iff.mp hR, ← pow_mul, ← pow_mul, ← hfermat]
    congr 1
    omega
  rcases sq_eq_sq_iff_eq_or_eq_neg.mp hsquare with h | h
  · left
    rw [← Nat.mod_eq_of_lt hy.2]
    refine (ZMod.natCast_eq_natCast_iff' _ _ p).mp ?_
    rw [Nat.cast_pow, h]
  · right
    rw [← Nat.mod_eq_of_lt (show p - y < p by omega)]
    refine (ZMod.natCast_eq_natCast_iff' _ _ p).mp ?_
    rw [Nat.cast_pow, h, Nat.cast_sub (Nat.le_of_lt hy.2), ZMod.natCast_self, zero_sub]

theorem exponentDigits_eq (c : NamedCurve) :
    exponentDigits c = Residue.digits (c.data.p + 1) 2 (c.data.bits - 2) := by
  unfold exponentDigits
  simp only [c.digit_eq]
  rfl

/-- what the ladder leaves out of `p + 1` are its lowest two digits -/
theorem exponent_lt (c : NamedCurve) : (c.data.p + 1) / 2 ^ 2 < 2 ^ (c.data.bits - 2) := by
  cases c <;> decide

/-- the digits of the ladder spell `(p + 1) / 4` -/
theorem exponent_exponentDigits (c : NamedCurve) :
    Residue.exponent 0 (exponentDigits c) = (c.data.p + 1) / 4 := by
  have h := Residue.exponent_digits (c.data.p + 1) 2 (c.data.bits - 2) 0
  rw [Nat.zero_mul, Nat.zero_add, Nat.mod_eq_of_lt (exponent_lt c), ← exponentDigits_eq] at h
  exact h

theorem root_values (c : NamedCurve) (x : Nat) :
    root c c.data.values x = rightSide c.data.values x ^ ((c.data.p + 1) / 4) % c.data.p := by
  have hp := c.prime
  have h := Residue.foldl_powerStep hp.pos (rightSide c.data.values x) (exponentDigits c) 0
  rw [pow_zero, Nat.mod_eq_of_lt hp.one_lt, exponent_exponentDigits] at h
  exact h

theorem root_lt (c : NamedCurve) (x : Nat) : root c c.data.values x < c.data.p := by
  rw [root_values]
  exact Nat.mod_lt _ c.prime.pos

/-- the words hold the difference of the prime and a root -/
theorem ordinate_values (c : NamedCurve) (parity x : Nat) :
    ordinate c c.data.values parity x =
      if root c c.data.values x % 2 ≠ parity then c.data.p - root c c.data.values x
      else root c c.data.values x := by
  have hr := root_lt c x
  have hp := c.p_lt_two_pow
  have hsub : (2 ^ (32 * c.words) + c.data.p - root c c.data.values x) % 2 ^ (32 * c.words) =
      c.data.p - root c c.data.values x := by
    rw [Nat.add_sub_assoc (Nat.le_of_lt hr), Nat.add_mod_left, Nat.mod_eq_of_lt (by omega)]
  rw [← hsub]
  rfl

/-- **on the curve, the ordinate is found again** from its parity -/
theorem ordinate_eq (c : NamedCurve) {x y : Nat} (hy : 0 < y ∧ y < c.data.p)
    (hxy : y ^ 2 % c.data.p = (x ^ 3 + c.data.a * x + c.data.b) % c.data.p) :
    ordinate c c.data.values (y % 2) x = y := by
  have h4 := c.prime_mod_four
  have hR : y ^ 2 % c.data.p = rightSide c.data.values x % c.data.p := by
    rw [hxy, rightSide_eq (K := c.data.values) c.prime.pos]
    exact (Nat.mod_mod _ _).symm
  rw [ordinate_values, root_values]
  rcases pow_eq_or c.prime h4 hy hR with h | h
  · rw [h, if_neg (not_not_intro rfl)]
  · have hne : (c.data.p - y) % 2 ≠ y % 2 := by omega
    rw [h, if_pos hne, Nat.sub_sub_self (Nat.le_of_lt hy.2)]

end PublicKey

/-! ## Bytes -/

namespace Bytes

theorem toNat_and_one (b : UInt8) : (b &&& 1).toNat = b.toNat % 2 := by
  rw [UInt8.toNat_and]
  exact Nat.and_one_is_mod b.toNat

theorem toNat_and_one_lt (b : UInt8) : (b &&& 1).toNat < 2 := by
  rw [toNat_and_one]
  exact Nat.mod_lt _ (by decide)

/-- the last byte decides the parity -/
theorem value_mod_two (bs : Bytes) : value bs % 2 = (bs.getLastD 0 &&& 1).toNat := by
  rw [toNat_and_one]
  rcases List.eq_nil_or_concat bs with rfl | ⟨as, b, rfl⟩
  · rfl
  · rw [value, List.concat_eq_append, List.reverse_append]
    show (b.toNat + 256 * littleValue as.reverse) % 2 = _
    rw [List.getLastD_concat]
    omega

/-- the parity of `y` in one byte, followed by `x`, for a point written as `x` and then `y` -/
def compress (point : Bytes) : Bytes :=
  (point.getLastD 0 &&& 1) :: point.take (point.length / 2)

variable {n : Nat} {key : Bytes} (hl : key.length = 2 * n)
include hl

theorem drop_compress : (compress key).drop 1 = key.take n := by
  show key.take (key.length / 2) = _
  rw [hl, Nat.mul_div_cancel_left n (by decide)]

/-- the first byte of a compressed point has the parity of the ordinate -/
theorem parity_compress (hn : 0 < n) :
    ((compress key).headD 0 &&& 1).toNat = value (key.drop n) % 2 := by
  have hlast : (key.drop n).getLastD 0 = key.getLastD 0 := by
    rw [List.getLastD_eq_getLast?, List.getLastD_eq_getLast?, List.getLast?_drop, if_neg (by omega)]
  rw [value_mod_two, hlast]
  show (key.getLastD 0 &&& 1 &&& 1).toNat = _
  rw [UInt8.and_assoc, UInt8.and_self]

end Bytes

/-- **compression writes** the compressed point, whatever the buffer held -/
theorem PublicKey.ends_compress {h : Host} {n : Nat} {key out : Bytes} (hl : key.length = 2 * n)
    (ho : h.outputs = [out]) (hn : out.length = n + 1) :
    (compress key).Ends h (.ok ()) { h with outputs := [Bytes.compress key] } := by
  obtain ⟨lx, -⟩ := Bytes.length_take_drop hl
  have hhalf : key.length / 2 = n := by omega
  obtain ⟨o, os, rfl⟩ : ∃ o os, out = o :: os := List.exists_cons_of_length_eq_add_one hn
  have hos : os.length = n := Nat.succ.inj hn
  have hlast : key.getD (2 * n - 1) 0 = key.getLastD 0 := by
    rw [List.getLastD_eq_getLast?, List.getLast?_eq_getElem?, hl, List.getD_eq_getElem?_getD]
  show ((output ⟨0, 1, key.length / 2⟩ (.bytes (key.take (key.length / 2)))).bind fun _ =>
    output ⟨0, 0, 1⟩ (.bytes [key.getD (2 * (key.length / 2) - 1) 0 &&& 1])).Ends h (.ok ()) _
  rw [Bytes.compress, hhalf, hlast]
  -- the abscissa goes behind the first byte, and then the parity into it
  have hx : h.outputs.getD 0 [] = [o] ++ os ++ [] := by
    rw [ho, List.append_nil]
    rfl
  have ex := ends_outputBytes hx (lx.trans hos.symm)
  rw [lx, ho, List.append_nil] at ex
  have hy : [o :: key.take n].getD 0 [] = [] ++ [o] ++ key.take n := rfl
  exact ex.bind (ends_outputBytes (c := [key.getLastD 0 &&& 1])
    (h := { h with outputs := [o :: key.take n] }) hy rfl)

/-! ## The operations -/

namespace Session

variable {s : Session} {c : NamedCurve} {compressed key out : Bytes}

theorem answers_compress (hc : s.curve = some c)
    (hl : key.length = 2 * c.elementBytes) (ho : out.length = c.elementBytes + 1) :
    s.Answers (.compress key out) (.ok [Bytes.compress key]) := by
  refine answers_of_delivers (h := { s.host (.compress key out) with
    outputs := [Bytes.compress key] }) ?_
  rw [program_eq_work hc (.compress key out) ⟨hl, ho⟩]
  exact ⟨PublicKey.ends_compress hl rfl ho, rfl⟩

section
variable (hs : s.Idle) (hc : s.curve = some c) {K : Constants}
  (hK : s.engine.memory.constants c.words = K) (h0 : K.null = 0)
  (hl : compressed.length = c.elementBytes + 1) (ho : out.length = 2 * c.elementBytes)
include hs hc hK h0 hl ho

theorem decompress_delivers :
    ∃ h', (s.host (.decompress compressed out)).Writes h' Layout.variables
        PublicKey.decompressionSpace ∧
      ((Operation.decompress compressed out).program s.settings).Delivers
        (s.host (.decompress compressed out))
        (.ok [Bytes.ofNat c.words (Bytes.value (compressed.drop 1)) ++
          Bytes.ofNat c.words (PublicKey.ordinate c K (compressed.headD 0 &&& 1).toNat
            (Bytes.value (compressed.drop 1)))]) h' := by
  rw [program_eq_work hc (.decompress compressed out) ⟨hl, ho⟩]
  have hi : (PublicKey.expand c compressed).Inward (fun _ => True) (fun _ => False) :=
    PublicKey.inward_expand c compressed
  refine (PublicKey.expand_computes ⟨hs.ready hc _, c.words_le, hK, h0⟩ hl).delivers
    (g := fun v => [Bytes.ofNat c.words v.1 ++ Bytes.ofNat c.words v.2]) hi
    fun _ v k _ hv _ hbuf => ?_
  have hi : k.outputs[0]? = some out := by rw [hbuf]; rfl
  have hf := ends_fetchBoth (w := c.words) (o := Layout.Decompression.x)
    (t := Layout.Decompression.root) (Memory.Fits.mono (by decide) c.words_le)
    (Memory.Fits.mono (by decide) c.words_le) hi ho
  rw [hv.1, hv.2, hbuf] at hf
  exact hf

/-- **decompression, as an operation** -/
theorem answers_decompress :
    s.Answers (.decompress compressed out)
      (.ok [Bytes.ofNat c.words (Bytes.value (compressed.drop 1)) ++
        Bytes.ofNat c.words (PublicKey.ordinate c K (compressed.headD 0 &&& 1).toNat
          (Bytes.value (compressed.drop 1)))]) := by
  obtain ⟨_, -, he⟩ := decompress_delivers hs hc hK h0 hl ho
  exact answers_of_delivers he

end

/-- **compress and decompress**: for a point of the curve whose ordinate is not zero, decompression
finds the bytes that were compressed, in any session and from any first byte with the parity in its
lowest bit -/
theorem decompress_compress (hc : s.curve = some c) {x y : Nat}
    (hl : key.length = 2 * c.elementBytes)
    (hP : Bytes.point c.elementBytes key = .affine x y) (hy : 0 < y ∧ y < c.data.p)
    (hxy : y ^ 2 % c.data.p = (x ^ 3 + c.data.a * x + c.data.b) % c.data.p)
    (ho : out.length = c.elementBytes + 1) :
    s.Answers (.compress key out) (.ok [Bytes.compress key]) ∧
      ∀ s' : Session, s'.Idle → s'.curve = some c →
        s'.engine.memory.constants c.words = c.data.values →
        ∀ out' : Bytes, out'.length = 2 * c.elementBytes →
          s'.Answers (.decompress (Bytes.compress key) out') (.ok [key]) ∧
          ∀ b : UInt8, b &&& 1 = (Bytes.compress key).headD 0 &&& 1 →
            s'.Answers (.decompress (b :: (Bytes.compress key).drop 1) out') (.ok [key]) := by
  refine ⟨answers_compress hc hl ho, ?_⟩
  intro s' hs' hc' hK' out' ho'
  unfold Bytes.point at hP
  rw [Point.affine.injEq] at hP
  obtain ⟨hx, hy'⟩ := hP
  obtain ⟨htake, hdrop⟩ := Bytes.length_take_drop hl
  have hkey : Bytes.ofNat c.words x ++ Bytes.ofNat c.words y = key := by
    rw [← hx, ← hy', Bytes.ofNat_value htake, Bytes.ofNat_value hdrop, List.take_append_drop]
  have hall : ∀ b : UInt8, b &&& 1 = (Bytes.compress key).headD 0 &&& 1 →
      s'.Answers (.decompress (b :: (Bytes.compress key).drop 1) out') (.ok [key]) := by
    intro b hb
    have hpos : 0 < c.elementBytes := Nat.mul_pos (by decide) c.words_pos
    have hparity : (b &&& 1).toNat = y % 2 := by
      rw [hb, Bytes.parity_compress hl hpos, hy']
    have hcons : (b :: key.take c.elementBytes).length = c.elementBytes + 1 := by
      rw [List.length_cons, htake]
    have ha := answers_decompress hs' hc' hK' rfl hcons ho'
    rw [List.drop_one, List.tail_cons, List.headD_cons, hx, hparity,
      PublicKey.ordinate_eq c hy hxy, hkey] at ha
    rw [Bytes.drop_compress hl]
    exact ha
  exact ⟨hall _ rfl, hall⟩

theorem decompress_compress_generator :
    let s := (new 0 {} []).enable .p192
    let key := Bytes.ofNat 6 NamedCurve.p192.data.gx ++ Bytes.ofNat 6 NamedCurve.p192.data.gy
    s.Answers (.compress key (blank none 25)) (.ok [Bytes.compress key]) ∧
      s.Answers (.decompress (Bytes.compress key) (blank none 48)) (.ok [key]) ∧
      s.Answers (.decompress (3 :: (Bytes.compress key).drop 1) (blank none 48)) (.ok [key]) := by
  intro s key
  have hP : Bytes.point 24 key = .affine NamedCurve.p192.data.gx NamedCurve.p192.data.gy := by
    decide_cbv
  have ho : (blank none 25).length = NamedCurve.p192.elementBytes + 1 := by decide
  have hc : s.curve = some .p192 := rfl
  obtain ⟨h₁, h₂⟩ := decompress_compress hc (by decide) hP (by decide)
    (NamedCurve.generator_on_curve .p192) ho
  obtain ⟨h₃, h₄⟩ := h₂ s ⟨rfl, rfl⟩ rfl (constants_enable _ .p192) (blank none 48) (by decide)
  exact ⟨h₁, h₃, h₄ 3 (by decide)⟩

end Session
end CurveEngine
