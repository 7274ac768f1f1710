import CurveEngine.Proofs.Ecdsa
import CurveEngine.Proofs.Latency
import CurveEngine.Proofs.SignVerify

/-!
# Which nonces are accepted

For any constants in memory, so for any modulus as the order and any prime, prime or not:

* `Signature.Accepts`   the condition on a nonce under which a round accepts it, and the pair it gives;
* `Signature.Aborts`    the condition under which a round ends the whole run;
* `attempt_eq_accept_iff`, `attempt_eq_error_iff`   the verdict of a round says the same, although it
                        looks at raw products and sums on its way;
* `Signature.Judges`    a round of the program ends as these conditions say, from every host;
* `Session.sign_concludes`   signing answers with the first accepted block of the random source.
-/

namespace CurveEngine

open Program Sampling

/-! ## Modulo any number -/

namespace Residue

theorem inverted_eq_ok_iff {a m i : Nat} (hm : 1 < m) :
    inverted a m = .ok i ↔ Nat.Coprime a m ∧ i = ((a : ZMod m)⁻¹).val := by
  have : NeZero m := ⟨by omega⟩
  unfold inverted
  cases hi : inverse? a m with
  | none =>
    have hg : ¬ Nat.Coprime a m := (inverse?_eq_none_iff a m).mp hi
    rw [Option.getD_none, if_pos rfl]
    exact ⟨nofun, fun h => absurd h.1 hg⟩
  | some j =>
    have hg := coprime_of_inverse? hi
    have hj := mul_inverse? (by omega) hi
    have hinv : (j : ZMod m) = (a : ZMod m)⁻¹ := by
      have h₁ : (j : ZMod m) * a = 1 := by
        have := (ZMod.natCast_eq_natCast_iff' (j * a) 1 m).mpr hj
        rwa [Nat.cast_mul, Nat.cast_one] at this
      rw [← mul_one (j : ZMod m), ← ZMod.coe_mul_inv_eq_one a hg, ← mul_assoc, h₁, one_mul]
    have hval : ((a : ZMod m)⁻¹).val = j := by
      rw [← hinv, ZMod.val_natCast]
      exact Nat.mod_eq_of_lt (inverse?_lt (by omega) hi)
    have hj0 : j ≠ 0 := by
      rintro rfl
      rw [Nat.zero_mul, Nat.zero_mod, Nat.mod_eq_of_lt hm] at hj
      cases hj
    rw [Option.getD_some, if_neg hj0, Except.ok.injEq, hval]
    exact ⟨fun h => ⟨hg, h.symm⟩, fun h => h.2.symm⟩

theorem inv_mul_eq_zero_iff {a m : Nat} (h : Nat.Coprime a m) (x : ZMod m) :
    (a : ZMod m)⁻¹ * x = 0 ↔ x = 0 := by
  refine ⟨fun hx => ?_, fun hx => by rw [hx, mul_zero]⟩
  rw [← one_mul x, ← ZMod.coe_mul_inv_eq_one a h, mul_assoc, hx, mul_zero]

end Residue

namespace Signature

variable {K : Constants} {e d k : Nat}

/-- the nonce `k` is accepted for the hash `e` and the private key `d`, and gives the pair `v` -/
structure Accepts (K : Constants) (e d k : Nat) (v : Nat × Nat) : Prop where
  range : 0 < k ∧ k < K.order
  /-- the multiple of the generator is a point, and the first half is its abscissa -/
  point : ∃ y, K.law.multiple? k K.generator = some (.affine v.1 y)
  abscissa : v.1 ≠ 0
  product : d * v.1 ≠ 0
  hash : e ≠ d * v.1 % K.order
  invertible : Nat.Coprime k K.order
  sum : (e + d * v.1) % K.order ≠ 0
  second : v.2 = ((k : ZMod K.order)⁻¹ * ((e + d * v.1 : Nat) : ZMod K.order)).val

/-- the nonce `k` is in range, and the generator is no point over the field -/
def Aborts (K : Constants) (k : Nat) : Prop :=
  (0 < k ∧ k < K.order) ∧ ¬ K.law.Reduced K.generator

/-! ## The verdict -/

theorem secondHalf_eq_accept_iff {r : Nat} {v : Nat × Nat} (hn : 1 < K.order) :
    secondHalf K e d k r = .ok (.ok v) ↔ d * r ≠ 0 ∧ e ≠ d * r % K.order ∧
      Nat.Coprime k K.order ∧ (e + d * r) % K.order ≠ 0 ∧
        v = (r, ((k : ZMod K.order)⁻¹ * ((e + d * r : Nat) : ZMod K.order)).val) := by
  have hpos : 0 < K.order := by omega
  have : NeZero K.order := ⟨hpos.ne'⟩
  have hsum : (e + d * r % K.order) % K.order = (e + d * r) % K.order := Nat.add_mod_mod _ _ _
  have hcast : (((e + d * r) % K.order : Nat) : ZMod K.order) = ((e + d * r : Nat) : ZMod K.order) :=
    ZMod.natCast_mod _ _
  -- the last product modulo the order, for the inverse `i` of the nonce
  have hlast : ((k : ZMod K.order)⁻¹).val * ((e + d * r) % K.order) % K.order =
      ((k : ZMod K.order)⁻¹ * ((e + d * r : Nat) : ZMod K.order)).val := by
    rw [← ZMod.val_natCast, Nat.cast_mul, hcast, ZMod.natCast_zmod_val]
  have hzero (hk : Nat.Coprime k K.order) :
      ((k : ZMod K.order)⁻¹ * ((e + d * r : Nat) : ZMod K.order)).val = 0 ↔
        (e + d * r) % K.order = 0 := by
    rw [ZMod.val_eq_zero, Residue.inv_mul_eq_zero_iff hk, ZMod.natCast_eq_zero_iff,
      Nat.dvd_iff_mod_eq_zero]
  unfold secondHalf
  simp only [orReject_eq_accept_iff, reject_eq_accept_iff, Residue.reduced_eq_ok_iff hpos,
    Residue.inverted_eq_ok_iff hn]
  constructor
  · rintro ⟨_, ⟨hp, rfl⟩, he, _, ⟨-, rfl⟩, _, ⟨hk, rfl⟩, _, ⟨-, rfl⟩, hs, hv⟩
    rw [hsum, hlast] at hs hv
    refine ⟨hp, he, hk, fun h => hs ((hzero hk).mpr h), ?_⟩
    exact (Except.ok.inj (Except.ok.inj hv)).symm
  · rintro ⟨hp, he, hk, hs, rfl⟩
    have hne : e + d * r % K.order ≠ 0 := fun h => hs (by rw [← hsum, h, Nat.zero_mod])
    have hl := fun h => hs ((hzero hk).mp h)
    refine ⟨_, ⟨hp, rfl⟩, he, _, ⟨hne, rfl⟩, _, ⟨hk, rfl⟩, _, ⟨?_, rfl⟩, ?_, ?_⟩
    · rw [hsum]
      intro h
      rw [← hlast, h, Nat.zero_mod] at hl
      exact hl rfl
    · rw [hsum, hlast]
      exact hl
    · rw [hsum, hlast]

/-- **the verdict accepts a nonce exactly under the plain condition** -/
theorem attempt_eq_accept_iff {v : Nat × Nat} :
    attempt K e d k = .ok (.ok v) ↔ Accepts K e d k v := by
  unfold attempt
  by_cases hk : 0 < k ∧ k < K.order
  · have hn : 1 < K.order := by omega
    rw [if_pos hk]
    simp only [orReject_eq_accept_iff, reject_eq_accept_iff, Point.regular_eq_ok_iff,
      secondHalf_eq_accept_iff hn]
    constructor
    · rintro ⟨P, hP, hx, hp, he, hc, hs, rfl⟩
      exact ⟨hk, ⟨P.2, hP⟩, hx, hp, he, hc, hs, rfl⟩
    · rintro ⟨-, ⟨y, hP⟩, hx, hp, he, hc, hs, hv⟩
      exact ⟨(v.1, y), hP, hx, hp, he, hc, hs, Prod.ext rfl hv⟩
  · rw [if_neg hk]
    exact ⟨nofun, fun h => absurd h.range hk⟩

theorem secondHalf_ne_error (r : Nat) (f : Failure) : secondHalf K e d k r ≠ .error f := by
  have hor {β : Type} {x : Except Failure β} {reason : Rejection}
      {g : β → Except Failure (Except Rejection (Nat × Nat))}
      (hx : ∀ f, x = .error f → f.retryable = true) (hg : ∀ b, g b ≠ .error f) :
      orReject x reason g ≠ .error f := by
    cases x with
    | ok b => exact hg b
    | error f' =>
      rw [orReject, if_pos (hx f' rfl)]
      rintro ⟨⟩
  have hite {q : Prop} [Decidable q] {reason : Rejection}
      {x : Except Failure (Except Rejection (Nat × Nat))} (hx : x ≠ .error f) :
      (if q then .ok (.error reason) else x) ≠ .error f := by
    split
    · rintro ⟨⟩
    · exact hx
  have hred (raw : Nat) : ∀ f, Residue.reduced raw K.order = .error f → f.retryable = true := by
    unfold Residue.reduced
    split <;> rintro f ⟨⟩
    rfl
  have hinv : ∀ f, Residue.inverted k K.order = .error f → f.retryable = true := by
    unfold Residue.inverted
    dsimp only
    split <;> rintro f ⟨⟩
    rfl
  refine hor (hred _) fun _ => hite <| hor (hred _) fun _ => hor hinv fun _ =>
    hor (hred _) fun _ => hite ?_
  rintro ⟨⟩

/-- **the verdict ends the run exactly if the generator is no point**, and then plainly -/
theorem attempt_eq_error_iff {f : Failure} :
    attempt K e d k = .error f ↔ f = .failed ∧ Aborts K k := by
  unfold attempt Aborts
  by_cases hk : 0 < k ∧ k < K.order
  · rw [if_pos hk]
    unfold Weierstrass.multiple?
    by_cases hG : K.law.Reduced K.generator
    · rw [if_pos hG]
      refine ⟨fun h => ?_, fun h => absurd hG h.2.2⟩
      cases hP : K.law.smul k K.generator with
      | infinity =>
        rw [hP] at h
        cases h
      | affine x y =>
        rw [hP] at h
        change (if x = 0 then _ else _) = _ at h
        split at h
        · cases h
        · exact absurd h (secondHalf_ne_error x f)
    · rw [if_neg hG]
      exact ⟨fun h => ⟨(Except.error.inj h).symm, hk, hG⟩, fun h => congrArg Except.error h.1.symm⟩
  · rw [if_neg hk]
    exact ⟨nofun, fun h => absurd h.2.1 hk⟩

theorem tells (K : Constants) (e d : Nat) :
    Tells (fun block => Accepts K e d (Bytes.value block))
      (fun block f => f = .failed ∧ Aborts K (Bytes.value block))
      fun block => attempt K e d (Bytes.value block) where
  accepts_iff _ _ := attempt_eq_accept_iff.symm
  aborts_iff _ _ := attempt_eq_error_iff.symm

/-! ## The rounds of the program -/

/-- the round with this block ends as the conditions on its number say, and leaves the hash, the key
and the constants for the next one -/
def Judges (w : Nat) (K : Constants) (e d : Nat) (h : Host) (block : Bytes) : Prop :=
  ∃ x h', (attemptWith w block).Ends h x h' ∧ Prepared w K e d h' ∧
    (x = .ok (.ok ()) ↔ ∃ v, Accepts K e d (Bytes.value block) v) ∧
    (∀ v, Accepts K e d (Bytes.value block) v → Emitted w () v h') ∧
    ∀ f, x = .error f ↔ f = .failed ∧ Aborts K (Bytes.value block)

theorem exists_ends_of_computes {p : Program (Except Rejection Unit)} {h : Host} {o n : Nat}
    {z : Except Failure (Except Rejection (Nat × Nat))} {post : Unit → Nat × Nat → Host → Prop}
    (hp : p.Computes h o n z (Verdict post)) :
    ∃ x h', h.Writes h' o n ∧ p.Ends h x h' ∧ (x = .ok (.ok ()) ↔ ∃ v, z = .ok (.ok v)) ∧
      (∀ v, z = .ok (.ok v) → post () v h') ∧ ∀ f, x = .error f ↔ z = .error f := by
  obtain ⟨h', hw, hx⟩ := hp
  rcases z with f | reason | v
  · refine ⟨_, h', hw, hx, ⟨nofun, nofun⟩, nofun, fun f' => ?_⟩
    rw [Except.error.injEq, Except.error.injEq]
  · obtain ⟨y | u, he, hp⟩ := hx
    · exact ⟨_, h', hw, he, ⟨nofun, nofun⟩, nofun, fun f => ⟨nofun, nofun⟩⟩
    · cases hp
  · obtain ⟨y | u, he, hp⟩ := hx
    · cases hp
    · refine ⟨_, h', hw, he, ⟨fun _ => ⟨v, rfl⟩, fun _ => rfl⟩, fun v' hv => ?_,
        fun f => ⟨nofun, nofun⟩⟩
      cases hv
      exact hp

/-- **every round is judged by its block alone**, whatever the rounds before have left -/
theorem judges {w : Nat} {h : Host} (hv : Prepared w K e d h) {block : Bytes}
    (hb : block.length = 4 * w) : Judges w K e d h block := by
  obtain ⟨x, h', hw, he, hok, hpost, herror⟩ := exists_ends_of_computes (attemptWith_computes hv hb)
  simp only [attempt_eq_accept_iff, attempt_eq_error_iff] at hok hpost herror
  exact ⟨x, h', he, hv.writes hw (by decide), hok, hpost, herror⟩

end Signature

/-! ## The operation -/

namespace Session

variable {s : Session} {c : NamedCurve} {hash key out : Bytes}

/-- **what signing answers**, for any constants with a zero among them, any key of the right length,
any random source and any retry limit.  Every round is judged by its block alone, and the blocks are
drawn in order: the answer is the pair of the first accepted one, unless the run ends before, and in
all cases just the entries up to the end of the run are used up. -/
theorem sign_concludes (hs : s.Idle) (hc : s.curve = some c) {K : Constants}
    (hK : s.engine.memory.constants c.words = K) (h0 : K.null = 0) (hh : hash ≠ [])
    (hk : key.length = c.elementBytes) (ho : out.length = 2 * c.elementBytes) {e d : Nat}
    (he : Bytes.value (Bytes.fit c.elementBytes hash) = e) (hd : Bytes.value key = d) :
    (∀ h block, Signature.Prepared c.words K e d h → block.length = c.elementBytes →
      Signature.Judges c.words K e d h block) ∧
    ∃ r m, (∀ r' m', Concludes c.elementBytes
        (fun block => Signature.Accepts K e d (Bytes.value block))
        (fun block f => f = .failed ∧ Signature.Aborts K (Bytes.value block))
        s.config.retryLimit (s.source.drop s.drawn) r' m' ↔ r' = r ∧ m' = m) ∧
      s.Answers (.sign hash key out) (r.map fun v => [signatureBytes c.words v]) ∧
      ∀ dr, (s.run (.sign hash key out) dr).1.settled = true →
        (s.run (.sign hash key out) dr).2.drawn = s.drawn + m := by
  refine ⟨fun h block hv hb => Signature.judges hv hb, ?_⟩
  obtain ⟨h', -, hdrawn, hends⟩ := sign_delivers hs hc hK h0 hh hk ho
  rw [he, hd] at hdrawn hends
  refine ⟨_, _, fun r' m' => concludes_iff (Signature.tells K e d), answers_of_delivers hends,
    fun dr hset => ?_⟩
  rw [(yields_of_delivers hends hset).2, hdrawn]
  rfl

theorem accepts_small : Signature.Accepts CurveData.small.values 3 2 1 (6, 1) :=
  Signature.attempt_eq_accept_iff.mp (by decide_cbv)

theorem sign_concludes_small :
    (small 1).Idle ∧ (small 1).engine.memory.constants NamedCurve.p192.words =
        CurveData.small.values ∧
      (small 1).Answers smallSign (.ok [signatureBytes 6 (6, 1)]) ∧
      ((small 1).run smallSign .complete).2.drawn = 1 := by
  have he : Bytes.value (Bytes.fit NamedCurve.p192.elementBytes [3]) = 3 := by decide
  have hv : Bytes.value (Bytes.ofNat 6 1) = 1 := Bytes.value_ofNat (by decide)
  have ho : (blank none 48).length = 2 * NamedCurve.p192.elementBytes := by decide
  obtain ⟨-, r, m, hiff, ha, hdrawn⟩ := sign_concludes (idle_small 1) rfl (constants_small 1) rfl
    (by decide) (by decide) ho he (Bytes.value_ofNat (by decide : 2 < 2 ^ (32 * 6)))
  obtain ⟨rfl, rfl⟩ := (hiff (.ok (6, 1)) 1).mp <|
    .accepted [] [] nofun (fun _ _ => Nat.zero_le _) (Bytes.length_ofNat 6 1) (by
      rw [hv]
      exact accepts_small)
  have hs := hdrawn .complete (by rw [ha.complete.1]; rfl)
  rw [show (small 1).drawn = 0 from rfl, Nat.zero_add] at hs
  unfold smallSign
  exact ⟨idle_small 1, constants_small 1, ha, hs⟩

end Session
end CurveEngine
