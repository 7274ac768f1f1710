import CurveEngine.Proofs.Runs
import CurveEngine.Proofs.Stages
import Mathlib.Data.Nat.Digits.Lemmas

/-!
# The ladder of decompression, and what it costs

* `Residue.ones`          how many binary digits of a number are 1;
* `Residue.ones_digits`   digits of a number that are 1, counted from the highest;
* `takes_opening`, `takes_rootSteps`, `conclusion_counts`   the functions of each part of
                          decompression; only the last part depends on what is in memory;
* `ladder_ends`           the ladder between the other parts;
* `Session.Climbs`        a state of a run in front of the ladder, and the state behind it;
* `Session.ladder_power`  between the two the ladder takes a power and leaves everything else, and the
                          whole run starts a number of functions that the exponent decides.

The invariant of the ladder is that of `Proofs.Powers`: behind some digits, the root is the power
that these digits spell.  It does not ask for a prime or for a right-hand side that is not zero.
-/

namespace CurveEngine

/-! ## Digits that are 1 -/

namespace Residue

/-- how many binary digits of a number are 1 -/
def ones (n : Nat) : Nat := (Nat.digits 2 n).sum

theorem ones_add (b : Bool) (q : Nat) : ones (b.toNat + 2 * q) = b.toNat + ones q := by
  unfold ones
  by_cases h : b.toNat ≠ 0 ∨ q ≠ 0
  · rw [Nat.digits_add 2 (by decide) b.toNat q b.toNat_lt h, List.sum_cons]
  · obtain ⟨hb, hq⟩ := not_or.mp h
    rw [not_not.mp hb, not_not.mp hq]
    rfl

/-- the lowest digit is the last one -/
theorem digits_concat (m s n : Nat) : digits m s (n + 1) = digits m (s + 1) n ++ [m.testBit s] := by
  unfold digits
  rw [List.range_succ_eq_map, List.reverse_cons, List.map_append, ← List.map_reverse, List.map_map]
  congr 1
  · refine List.map_congr_left fun i _ => ?_
    show m.testBit (i + 1 + s) = _
    rw [Nat.add_assoc, Nat.add_comm 1 s]
  · rw [List.map_singleton, Nat.zero_add]

theorem ones_digits (m s n : Nat) : (digits m s n).count true = ones (m / 2 ^ s % 2 ^ n) := by
  induction n generalizing s with
  | zero => rw [pow_zero, Nat.mod_one]; rfl
  | succ n ih =>
    have hsplit : m / 2 ^ s % 2 ^ (n + 1) =
        (m.testBit s).toNat + 2 * (m / 2 ^ (s + 1) % 2 ^ n) := by
      rw [pow_succ', Nat.mod_mul, Nat.toNat_testBit, Nat.div_div_eq_div_mul, ← pow_succ]
    rw [digits_concat, List.count_append, ih, hsplit, ones_add, Nat.add_comm]
    congr 1
    cases m.testBit s <;> rfl

end Residue

namespace PublicKey

open Program Arithmetic

/-- the digits of the ladder that are 1 are those of its exponent -/
theorem count_exponentDigits (c : NamedCurve) :
    (exponentDigits c).count true = Residue.ones ((c.data.p + 1) / 4) := by
  have h := Residue.ones_digits (c.data.p + 1) 2 (c.data.bits - 2)
  rw [Nat.mod_eq_of_lt (exponent_lt c), ← exponentDigits_eq] at h
  exact h

theorem length_exponentDigits (c : NamedCurve) :
    (exponentDigits c).length = c.data.bits - 2 := by
  rw [exponentDigits, List.length_map, List.length_reverse, List.length_range]

/-! ## Functions -/

theorem takes_rightHandSide (w x result : Nat) : (rightHandSide w x result).Takes 8 :=
  (takes_field w .multiply _ _ _).bind fun _ => (takes_field w .add _ _ _).bind fun _ =>
    (takes_field w .multiply _ _ _).bind fun _ => takes_field w .add _ _ _

theorem takes_opening (w : Nat) (bs : Bytes) : (opening w bs).Takes 9 :=
  (leaves_load w bs _).takes.bind fun _ => (takes_rightHandSide w _ _).bind fun _ =>
    (leaves_copy _ _ _).takes

theorem takes_rootStep (w : Nat) (d : Bool) : (rootStep w d).Takes (2 + 2 * d.toNat) := by
  refine (takes_field w .multiply _ _ _).bind fun _ => ?_
  cases d with
  | false => exact .of_done ()
  | true => exact takes_field w .multiply _ _ _

/-- two functions for every digit, and two more for every digit that is 1 -/
theorem takes_rootSteps (w : Nat) (ds : List Bool) :
    (rootSteps w ds).Takes (2 * ds.length + 2 * ds.count true) := by
  induction ds with
  | nil => exact .of_done ()
  | cons d ds ih =>
    have hn : 2 * (d :: ds).length + 2 * (d :: ds).count true =
        2 + 2 * d.toNat + (2 * ds.length + 2 * ds.count true) := by
      rw [List.length_cons, List.count_cons]
      cases d <;> simp <;> omega
    rw [hn]
    exact (takes_rootStep w d).bind fun _ => ih

/-- both coordinates are written to the output buffer -/
def coordinates (w : Nat) : Program Unit :=
  (fetch w Layout.Decompression.x 0 0).bind fun _ => fetch w Layout.Decompression.root 0 (4 * w)

theorem takes_coordinates (w : Nat) : (coordinates w).Takes 0 :=
  .of_closing ((closing_fetch w _ _ _).bind fun _ => closing_fetch w _ _ _)

/-- the root is subtracted from the prime, or nothing is started -/
theorem conclusion_counts {w : Nat} (hpos : 0 < w) {h h' : Host} {v parity : Nat}
    (hv : h.element w Layout.Decompression.root = v) {x : Except Failure Unit}
    (he : (conclusion w parity).Ends h x h') :
    h'.trace.size = h.trace.size + (if v % 2 ≠ parity then 2 else 0) ∧
      h'.engine.started = h.engine.started + (if v % 2 ≠ parity then 2 else 0) := by
  have hlow : (lowWord Layout.Decompression.root).Ends h
      (.ok (h.engine.memory.word Layout.Decompression.root)) h :=
    (ends_readMemory (by decide)).bind rfl
  have hbit : v % 2 = (h.engine.memory.word Layout.Decompression.root).toNat % 2 := by
    rw [← hv]
    exact Memory.element_mod_two hpos
  have hrest := hlow.rest he
  rw [hbit]
  by_cases hne : (h.engine.memory.word Layout.Decompression.root).toNat % 2 ≠ parity
  · rw [if_pos hne] at hrest ⊢
    exact (leaves_subtract w _ _ _).takes.ends hrest
  · rw [if_neg hne] at hrest ⊢
    exact (Takes.of_done ()).ends hrest

/-- what the three parts of decompression start together -/
theorem parts_count {c : NamedCurve} {bs : Bytes} {h k k' k'' h' : Host} {u u' : Unit}
    {v parity : Nat} {x y : Except Failure Unit} (ho : (opening c.words bs).Ends h (.ok u) k)
    (hs : (rootSteps c.words (exponentDigits c)).Ends k (.ok u') k')
    (hv : k'.element c.words Layout.Decompression.root = v)
    (hc : (conclusion c.words parity).Ends k' x k'') (hw : (coordinates c.words).Ends k'' y h') :
    let n := 9 + 2 * (c.data.bits - 2) + 2 * Residue.ones ((c.data.p + 1) / 4) +
      if v % 2 ≠ parity then 2 else 0
    h'.trace.size = h.trace.size + n ∧ h'.engine.started = h.engine.started + n := by
  intro n
  obtain ⟨t₁, s₁⟩ := (takes_opening c.words bs).ends ho
  obtain ⟨t₂, s₂⟩ := (takes_rootSteps c.words (exponentDigits c)).ends hs
  obtain ⟨t₃, s₃⟩ := conclusion_counts c.words_pos hv hc
  obtain ⟨t₄, s₄⟩ := (takes_coordinates c.words).ends hw
  rw [length_exponentDigits, count_exponentDigits] at t₂ s₂
  constructor
  · rw [t₄, t₃, t₂, t₁]
    omega
  · rw [s₄, s₃, s₂, s₁]
    omega

/-! ## The ladder -/

/-- between the other parts the ladder takes a power, and changes the root only -/
theorem ladder_ends {c : NamedCurve} {h : Host} {K : Constants} (hL : h.Loaded c.words K)
    (h1 : K.one = 1) (hp : 1 < K.law.p) {bs : Bytes} (hl : bs.length = 4 * c.words) {x R : Nat}
    (hx : Bytes.value bs = x)
    (hR : (x ^ 3 + K.coefficientA * x + K.coefficientB) % K.law.p = R) :
    ∃ k k', (opening c.words bs).Ends h (.ok ()) k ∧
      (rootSteps c.words (exponentDigits c)).Ends k (.ok ()) k' ∧
      k.Writes k' Layout.Decompression.root Layout.remainderSlot ∧ k'.Loaded c.words K ∧
      k'.element c.words Layout.Decompression.root = R ^ ((c.data.p + 1) / 4) % K.law.p ∧
      k'.element c.words Layout.Decompression.x = x ∧
      k'.element c.words Layout.Decompression.square = R := by
  have hpos := Nat.zero_lt_of_lt hp
  obtain ⟨k, ek, wk, xk, sk, vk⟩ := opening_ends hL hl
  rw [hx, rightSide_eq hpos, hR] at sk
  obtain ⟨k', w', _, e', v'⟩ :=
    rootSteps_computes (exponentDigits c) (hL.writes wk (by decide)) sk vk
  refine ⟨k, k', ek, e', w', (hL.writes wk (by decide)).writes w' (by decide), ?_,
    (w'.element c.words_le (by decide)).trans (xk.trans hx),
    (w'.element c.words_le (by decide)).trans sk⟩
  have hfold := Residue.foldl_powerStep hpos R (exponentDigits c) 0
  rw [pow_zero, Nat.mod_eq_of_lt hp, exponent_exponentDigits] at hfold
  rw [← hfold, ← h1]
  exact v'

end PublicKey

/-! ## Runs -/

namespace Session

open Program PublicKey

variable {s : Session} {c : NamedCurve} {compressed out : Bytes}

/-- a run of the operation comes to the ladder in `k`, the ladder ends in `k'`, and the run goes on
from there -/
def Climbs (s : Session) (c : NamedCurve) (op : Operation) (k k' : Host) : Prop :=
  ∃ rest : Unit → Program Unit,
    Passes (op.program s.settings) (s.host op) ((rootSteps c.words (exponentDigits c)).bind rest) k ∧
      (rootSteps c.words (exponentDigits c)).Ends k (.ok ()) k' ∧
      Passes (op.program s.settings) (s.host op) (rest ()) k'

theorem program_decompress (hc : s.curve = some c) (hl : compressed.length = c.elementBytes + 1)
    (ho : out.length = 2 * c.elementBytes) :
    (Operation.decompress compressed out).program s.settings =
      (opening c.words (compressed.drop 1)).bind fun _ =>
        (rootSteps c.words (exponentDigits c)).bind fun _ =>
          (conclusion c.words (compressed.headD 0 &&& 1).toNat).bind fun _ =>
            coordinates c.words := by
  rw [program_eq_work hc (.decompress compressed out) ⟨hl, ho⟩]
  show (expand c compressed).bind (fun _ => coordinates c.words) = _
  rw [expand_eq, bind_assoc]
  simp only [bind_assoc]

/-- **the ladder takes a power**: with any modulus above 1 and any coefficients, whatever the
right-hand side `R` is, the root behind the ladder is `R ^ ((p + 1) / 4)` for the prime `p` of the
enabled curve, the abscissa and the right-hand side are as they were, and the run starts two functions
for each digit of the exponent and for each digit that is 1, nine before them, and two behind them if
the root has the other parity -/
theorem ladder_power (hs : s.Idle) (hc : s.curve = some c) {K : Constants}
    (hK : s.engine.memory.constants c.words = K) (h0 : K.null = 0) (h1 : K.one = 1)
    (hp : 1 < K.law.p) (hl : compressed.length = c.elementBytes + 1)
    (ho : out.length = 2 * c.elementBytes) :
    let x := Bytes.value (compressed.drop 1)
    let R := (x ^ 3 + K.coefficientA * x + K.coefficientB) % K.law.p
    let E := (c.data.p + 1) / 4
    let n := 9 + 2 * (c.data.bits - 2) + 2 * Residue.ones E +
      if R ^ E % K.law.p % 2 ≠ (compressed.headD 0 &&& 1).toNat then 2 else 0
    (∃ k k', s.Climbs c (.decompress compressed out) k k' ∧
        k'.element c.words Layout.Decompression.root = R ^ E % K.law.p ∧
        k'.element c.words Layout.Decompression.x = x ∧
        k'.element c.words Layout.Decompression.square = R ∧
        k'.engine.memory.window Layout.Decompression.x Layout.elementSlot =
          k.engine.memory.window Layout.Decompression.x Layout.elementSlot ∧
        k'.engine.memory.window Layout.Decompression.square Layout.remainderSlot =
          k.engine.memory.window Layout.Decompression.square Layout.remainderSlot) ∧
      ∃ outs, ∀ d, (s.run (.decompress compressed out) d).1.settled = true →
        s.Yields (.decompress compressed out) d (.ok outs) ∧
        (s.run (.decompress compressed out) d).2.trace.size = n ∧
        (s.run (.decompress compressed out) d).2.engine.started = s.engine.started + n := by
  intro x R E n
  let parity := (compressed.headD 0 &&& 1).toNat
  let op : Operation := .decompress compressed out
  have hL : (s.host op).Loaded c.words K := ⟨hs.ready hc op, c.words_le, hK, h0⟩
  have ld : (compressed.drop 1).length = 4 * c.words := by
    rw [List.length_drop, hl]
    rfl
  have hprog : op.program s.settings = _ := program_decompress hc hl ho
  obtain ⟨k, k', ek, ek', wk', Lk', hroot, hx, hsquare⟩ := ladder_ends hL h1 hp ld rfl rfl
  constructor
  · let rest : Unit → Program Unit := fun _ =>
      (conclusion c.words parity).bind fun _ => coordinates c.words
    have hpass : Passes (op.program s.settings) (s.host op)
        ((rootSteps c.words (exponentDigits c)).bind rest) k := by
      rw [hprog]
      exact ek.passes _
    have hkept {o n : Nat} (hn : o + n ≤ Layout.Decompression.root)
        (hv : Layout.variables ≤ o) :
        k'.engine.memory.window o n = k.engine.memory.window o n :=
      Memory.window_congr fun i hlo hhi =>
        wk'.word i (.inr (hv.trans hlo)) (.inl (Nat.lt_of_lt_of_le hhi hn))
    exact ⟨k, k', ⟨rest, hpass, ek', hpass.trans (ek'.passes rest)⟩, hroot, hx, hsquare,
      hkept (by decide) (by decide), hkept (by decide) (by decide)⟩
  · obtain ⟨h', -, hends⟩ := decompress_delivers hs hc hK h0 hl ho
    obtain ⟨k'', -, u, ec, -⟩ := conclusion_computes Lk' c.words_pos hx hroot parity
    have hrest : (op.program s.settings).Ends (s.host op) (.ok ()) h' := hends.1
    rw [hprog] at hrest
    obtain ⟨htrace, hstarted⟩ :=
      parts_count ek ek' hroot ec (ec.rest (ek'.rest (ek.rest hrest)))
    have hcount {d : Drive} (hd : (s.run op d).1.settled = true) :
        (s.run op d).2.trace.size = n ∧
          (s.run op d).2.engine.started = s.engine.started + n := by
      rw [(yields_of_delivers hends hd).2]
      exact ⟨htrace.trans (Nat.zero_add n), hstarted⟩
    exact ⟨_, fun d hd => ⟨(yields_of_delivers hends hd).1, hcount hd⟩⟩

/-- on `y ^ 2 = x ^ 3 + 2 x + 7` over 11 elements, with the exponent of P-192 -/
theorem ladder_power_small :
    let op : Operation := .decompress (2 :: Bytes.ofNat 6 6) (blank none 48)
    (∃ k k', (small 1).Climbs .p192 op k k' ∧ k'.element 6 Layout.Decompression.x = 6 ∧
        k'.element 6 Layout.Decompression.square = 4 ∧
        k'.element 6 Layout.Decompression.root =
          k'.element 6 Layout.Decompression.square ^ ((NamedCurve.p192.data.p + 1) / 4) % 11) ∧
      ∃ outs, (small 1).Yields op .complete (.ok outs) := by
  intro op
  have hl : (2 :: Bytes.ofNat 6 6).length = NamedCurve.p192.elementBytes + 1 := by decide
  have ho : (blank none 48).length = 2 * NamedCurve.p192.elementBytes := by decide
  obtain ⟨⟨k, k', hclimbs, hroot, hx, hR, -⟩, outs, h⟩ :=
    ladder_power (idle_small 1) rfl (constants_small 1) rfl rfl (by decide) hl ho
  have hd : ((small 1).run op .complete).1.settled = true := settled_finish _ _
  rw [← hR] at hroot
  have hval : Bytes.value ((2 :: Bytes.ofNat 6 6).drop 1) = 6 := by decide
  rw [hval] at hx hR
  exact ⟨⟨k, k', hclimbs, hx, hR, hroot⟩, outs, (h .complete hd).1⟩

end Session
end CurveEngine
