import CurveEngine.Proofs.Arithmetic
import CurveEngine.Proofs.Checks
import CurveEngine.Proofs.Domain
import CurveEngine.Proofs.Sampling

/-!
# What signing computes

* `Signature.attempt`   the verdict on one nonce, for any constants in memory: the pair `r`, `s`, or
                        the reason to draw again; `Signature.secondHalf` is its part behind `r`;
* `round_computes`      one round of the program computes it;
* `draft_draws`         signing draws nonces until one is accepted, and nothing else;
* `sign_delivers`       the same for the operation of a session, with the bytes it writes.

The round writes to the nonce, `r` and `s` only, so it leaves the hash, the key and the constants for
the next round.
-/

namespace CurveEngine

open Program Arithmetic Sampling
open Layout (Place PointPlace Within)

namespace Signature

/-- the second half of a signature with the first half `r`, or the reason to draw again -/
def secondHalf (K : Constants) (e d k r : Nat) : Except Failure (Except Rejection (Nat × Nat)) :=
  orReject (Residue.reduced (d * r) K.order) .productZero fun s =>
  if e = s then .ok (.error .productIsHash) else
  orReject (Residue.reduced (e + s) K.order) .sumZero fun s =>
  orReject (Residue.inverted k K.order) .inverseZero fun i =>
  orReject (Residue.reduced (i * s) K.order) .sZero fun s =>
  if s = 0 then .ok (.error .sZero) else .ok (.ok (r, s))

/-- the verdict on the nonce `k`, for the hash `e` and the private key `d` -/
def attempt (K : Constants) (e d k : Nat) : Except Failure (Except Rejection (Nat × Nat)) :=
  if 0 < k ∧ k < K.order then
    orReject (Point.regular (K.law.multiple? k K.generator)) .nonceInfinity fun P =>
    if P.1 = 0 then .ok (.error .rZero) else secondHalf K e d k P.1
  else .ok (.error .nonceRange)

/-- both halves of a signature lie in their places -/
def Emitted (w : Nat) (_ : Unit) (v : Nat × Nat) (h : Host) : Prop :=
  h.element w Layout.Signing.r = v.1 ∧ h.element w Layout.Signing.s = v.2

/-- words of the nonce and of both halves of the signature -/
def roundSpace : Nat := Layout.Signing.stop - Layout.Signing.nonce

/-- what a round does once `r` is in its place -/
def complete (w : Nat) : Program (Except Rejection Unit) := do
  if ← degenerate
      (modular .multiply w Layout.Signing.key Layout.Signing.r Layout.order Layout.Signing.s) then
    return .error .productZero
  if (← compare w Layout.Signing.hash Layout.Signing.s) = .eq then
    return .error .productIsHash
  if ← degenerate
      (modular .add w Layout.Signing.hash Layout.Signing.s Layout.order Layout.Signing.s) then
    return .error .sumZero
  if ← degenerate (invert w Layout.Signing.nonce Layout.order Layout.Signing.nonce) then
    return .error .inverseZero
  if ← degenerate
      (modular .multiply w Layout.Signing.nonce Layout.Signing.s Layout.order
        Layout.Signing.s) then
    return .error .sZero
  if (← compare w Layout.null Layout.Signing.s) = .eq then
    return .error .sZero
  return .ok ()

theorem round_eq (w : Nat) :
    round w = (checkBetween w Layout.Signing.nonce Layout.null Layout.order).attempt.bind
      fun check => if check.isOk then
        (degenerate (point .pointMul w Layout.Signing.nonce Layout.generator
          Layout.Signing.r)).bind fun flag => if flag then done (.error .nonceInfinity) else
        (compare w Layout.null Layout.Signing.r).bind fun r =>
          if r = .eq then done (.error .rZero) else complete w
      else done (.error .nonceRange) := rfl

/-- words of the hash and the private key -/
def preparedSpace : Nat := Layout.Signing.nonce - Layout.variables

/-- the hash and the private key are in their places; every round finds them there and leaves them
for the next one -/
structure Prepared (w : Nat) (K : Constants) (e d : Nat) (h : Host) : Prop
    extends h.Loaded w K where
  hash : h.element w Layout.Signing.hash = e
  key : h.element w Layout.Signing.key = d

/-- words of the hash, the private key and the nonce -/
def drawnSpace : Nat := Layout.Signing.r - Layout.variables

/-- there is a nonce, too -/
structure Drawn (w : Nat) (K : Constants) (e d k : Nat) (h : Host) : Prop
    extends Prepared w K e d h where
  nonce : h.element w Layout.Signing.nonce = k

section
variable {w : Nat} {K : Constants} {h : Host} {e d k : Nat}

theorem Prepared.writes {h' : Host} {o n : Nat} (hv : Prepared w K e d h) (hw : h.Writes h' o n)
    (ho : Layout.variables ≤ o ∧ Layout.Clear o n Layout.variables preparedSpace) :
    Prepared w K e d h' where
  toLoaded := hv.toLoaded.writes hw ho.1
  hash := (hw.element hv.words (ho.2.part (by decide) (by decide))).trans hv.hash
  key := (hw.element hv.words (ho.2.part (by decide) (by decide))).trans hv.key

theorem Drawn.writes {h' : Host} {o n : Nat} (hv : Drawn w K e d k h) (hw : h.Writes h' o n)
    (ho : Layout.variables ≤ o ∧ Layout.Clear o n Layout.variables drawnSpace) :
    Drawn w K e d k h' where
  toPrepared := hv.toPrepared.writes hw ⟨ho.1, ho.2.part (by decide) (by decide)⟩
  nonce := (hw.element hv.words (ho.2.part (by decide) (by decide))).trans hv.nonce

/-- a comparison that rejects the draw if two elements are equal -/
theorem rejectEqual_computes (hL : h.Loaded w K) {a b x y : Nat} (hx : h.element w a = x)
    (hy : h.element w b = y) (hs : Place a ∧ Place b) {q : Prop} [Decidable q] (hq : x = y ↔ q)
    {reason : Rejection} {rest : Program (Except Rejection Unit)} {o n : Nat}
    {z : Except Failure (Except Rejection (Nat × Nat))} {post : Unit → Nat × Nat → Host → Prop}
    (hf : ∀ h', h.Writes h' o 0 → rest.Computes h' o n z (Verdict post)) :
    ((compare w a b).bind fun r => if r = .eq then done (.error reason) else rest).Computes h o n
      (if q then .ok (.error reason) else z) (Verdict post) := by
  refine (compare_computes hL.words hL.ready hs.1 hs.2 o).bind_ok
    ⟨Nat.le_refl o, Nat.le_add_right o n⟩ fun r h' hw' e => ?_
  subst e
  rw [hx, hy]
  by_cases h : q
  · rw [if_pos h, if_pos (Nat.compare_eq_eq.mpr (hq.mpr h))]
    exact .of_done hw'.ready rfl
  · rw [if_neg h, if_neg fun c => h (hq.mp (Nat.compare_eq_eq.mp c))]
    exact hf h' hw'

theorem complete_computes {r : Nat} (hv : Drawn w K e d k h) (hn : 0 < K.order)
    (hr : h.element w Layout.Signing.r = r) :
    (complete w).Computes h Layout.Signing.nonce roundSpace (secondHalf K e d k r)
      (Verdict (Emitted w)) := by
  have hw := hv.words
  refine degenerate_computes (hv.multiply hv.key hr (by decide)) (by decide) (fun _ _ => rfl)
    fun s h₁ w₁ s₁ => ?_
  have v₁ := hv.writes w₁ (by decide)
  have r₁ := (w₁.element hw (by decide)).trans hr
  refine rejectEqual_computes v₁.toLoaded v₁.hash s₁ (by decide) Iff.rfl fun h₂ w₂ => ?_
  have v₂ := v₁.writes w₂ (by decide)
  have r₂ := (w₂.element hw (by decide)).trans r₁
  have s₂ := (w₂.element hw (by decide)).trans s₁
  refine degenerate_computes (v₂.add v₂.hash s₂ (by decide)) (by decide) (fun _ _ => rfl)
    fun t h₃ w₃ s₃ => ?_
  have v₃ := v₂.writes w₃ (by decide)
  have r₃ := (w₃.element hw (by decide)).trans r₂
  refine degenerate_computes (v₃.invert v₃.nonce hn.ne' (by decide)) (by decide)
    (fun _ _ => rfl) fun i h₄ w₄ i₄ => ?_
  have L₄ := v₃.toLoaded.writes w₄ (by decide)
  have r₄ := (w₄.element hw (by decide)).trans r₃
  have s₄ := (w₄.element hw (by decide)).trans s₃
  refine degenerate_computes (L₄.multiply i₄ s₄ (by decide)) (by decide) (fun _ _ => rfl)
    fun u h₅ w₅ s₅ => ?_
  have L₅ := L₄.writes w₅ (by decide)
  have r₅ := (w₅.element hw (by decide)).trans r₄
  refine rejectEqual_computes L₅ L₅.null_element s₅ (by decide) eq_comm fun h₆ w₆ => ?_
  have r₆ := (w₆.element hw (by decide)).trans r₅
  have s₆ := (w₆.element hw (by decide)).trans s₅
  exact .of_done w₆.ready ⟨r₆, s₆⟩

theorem round_computes (hv : Drawn w K e d k h) :
    (round w).Computes h Layout.Signing.nonce roundSpace (attempt K e d k)
      (Verdict (Emitted w)) := by
  obtain ⟨h₁, w₁, flag, a₁, f₁⟩ := (hv.range hv.nonce (by decide) Layout.Signing.nonce).attempt
  rw [round_eq]
  refine .after a₁ (w₁.of_none _ _) ?_
  unfold attempt
  by_cases hrange : 0 < k ∧ k < K.order
  · rw [Residue.between, if_pos hrange] at f₁
    rw [if_pos hrange]
    cases flag with
    | error x => cases f₁
    | ok u =>
      have v₁ := hv.writes w₁ (by decide)
      refine degenerate_computes (v₁.pointMul v₁.nonce v₁.point_generator (by decide))
        (by decide) (fun _ _ => rfl) fun P h₂ w₂ s₂ => ?_
      have v₂ := v₁.writes w₂ (by decide)
      have r₂ : h₂.element w Layout.Signing.r = P.1 := (Point.affine.inj s₂).1
      refine rejectEqual_computes v₂.toLoaded v₂.null_element r₂ (by decide) eq_comm
        fun h₃ w₃ => ?_
      exact complete_computes (v₂.writes w₃ (by decide)) (by omega)
        ((w₃.element v₂.words (by decide)).trans r₂)
  · rw [Residue.between, if_neg hrange] at f₁
    rw [if_neg hrange]
    cases flag with
    | ok u => cases f₁
    | error x => exact .of_done w₁.ready rfl

end

/-- the signature of the hash `e` under the private key `d` -/
def signed (K : Constants) (w e d : Nat) (source : List Entry) (budget : Option Nat) :
    Except Failure (Nat × Nat) :=
  outcome (4 * w) (fun block => attempt K e d (Bytes.value block)) source budget

/-- words of all variables of signing -/
def signingSpace : Nat := Layout.Signing.stop - Layout.variables

theorem attemptWith_computes {w : Nat} {K : Constants} {e d : Nat} {h : Host}
    (hv : Prepared w K e d h) {block : Bytes} (hb : block.length = 4 * w) :
    (attemptWith w block).Computes h Layout.Signing.nonce roundSpace
      (attempt K e d (Bytes.value block)) (Verdict (Emitted w)) := by
  refine (load_computes hv.words hv.ready hb (by decide)).bind_ok (by decide)
    fun _ h' w' k' => ?_
  exact round_computes ⟨hv.writes w' (by decide), k'⟩

/-- the entries of the source that signing uses up -/
def entries (K : Constants) (w e d : Nat) (source : List Entry) (budget : Option Nat) : Nat :=
  consumed (4 * w) (fun block => attempt K e d (Bytes.value block)) source budget

/-- signing computes the first accepted pair and leaves it in its places; only its rounds draw -/
theorem draft_draws {w : Nat} {h : Host} {K : Constants} (hL : h.Loaded w K) (hash : Bytes)
    {key : Bytes} (hl : key.length = 4 * w) (source : List Entry) (budget : Option Nat) :
    (draft w hash key source budget).Draws h Layout.variables signingSpace
      (entries K w (Bytes.value (Bytes.fit (4 * w) hash)) (Bytes.value key) source budget)
      (signed K w (Bytes.value (Bytes.fit (4 * w) hash)) (Bytes.value key) source budget)
      (Emitted w) := by
  have hw := hL.words
  refine .bind_ok (load_computes hw hL.ready (Bytes.length_fit _ hash) (by decide))
    (candid_load w _ _) (by decide) fun _ h₁ w₁ e₁ => ?_
  have L₁ := hL.writes w₁ (by decide)
  refine .bind_ok (load_computes hw L₁.ready hl (by decide)) (candid_load w _ _) (by decide)
    fun _ h₂ w₂ d₂ => ?_
  have v₂ : Prepared w K _ _ h₂ :=
    ⟨L₁.writes w₂ (by decide), (w₂.element hw (by decide)).trans e₁, d₂⟩
  exact (sample_draws (fun _ _ w' v => v.writes w' (by decide))
    (fun _ v _ hb => attemptWith_computes v hb) (candid_attemptWith w) source budget v₂.ready
      v₂).mono (by decide)

end Signature

/-! ## The operation -/

namespace Session

variable {s : Session} {c : NamedCurve} {hash key out : Bytes}

def signatureBytes (w : Nat) (v : Nat × Nat) : Bytes := Bytes.ofNat w v.1 ++ Bytes.ofNat w v.2

/-- **signing, as an operation**: with inputs of the right lengths the program writes the bytes of the
pair that `signed` finds, or fails as it does -/
theorem sign_delivers (hs : s.Idle) (hc : s.curve = some c) {K : Constants}
    (hK : s.engine.memory.constants c.words = K) (h0 : K.null = 0) (hh : hash ≠ [])
    (hk : key.length = c.elementBytes) (ho : out.length = 2 * c.elementBytes) :
    ∃ h', (s.host (.sign hash key out)).Writes h' Layout.variables Signature.signingSpace ∧
      h'.drawn = s.drawn + Signature.entries K c.words (Bytes.value (Bytes.fit c.elementBytes hash))
        (Bytes.value key) (s.source.drop s.drawn) s.config.retryLimit ∧
      ((Operation.sign hash key out).program s.settings).Delivers (s.host (.sign hash key out))
        ((Signature.signed K c.words (Bytes.value (Bytes.fit c.elementBytes hash))
          (Bytes.value key) (s.source.drop s.drawn) s.config.retryLimit).map
            fun v => [signatureBytes c.words v]) h' := by
  rw [program_eq_work hc (.sign hash key out) ⟨hh, hk, ho⟩]
  refine (Signature.draft_draws ⟨hs.ready hc _, c.words_le, hK, h0⟩ hash hk
    (s.source.drop s.drawn) s.config.retryLimit).delivers fun _ v h' _ _ hv hout => ?_
  obtain ⟨hr, hsv⟩ := hv
  have hi : h'.outputs[0]? = some out := by rw [hout]; rfl
  have hf := ends_fetchBoth (w := c.words) (o := Layout.Signing.r) (t := Layout.Signing.s)
    (Memory.Fits.mono (by decide) c.words_le) (Memory.Fits.mono (by decide) c.words_le) hi ho
  rw [hr, hsv, hout] at hf
  exact hf

theorem answers_sign (hs : s.Idle) (hc : s.curve = some c) {K : Constants}
    (hK : s.engine.memory.constants c.words = K) (h0 : K.null = 0) (hh : hash ≠ [])
    (hk : key.length = c.elementBytes) (ho : out.length = 2 * c.elementBytes) :
    s.Answers (.sign hash key out)
      ((Signature.signed K c.words (Bytes.value (Bytes.fit c.elementBytes hash))
        (Bytes.value key) (s.source.drop s.drawn) s.config.retryLimit).map
          fun v => [signatureBytes c.words v]) := by
  obtain ⟨_, -, -, he⟩ := sign_delivers hs hc hK h0 hh hk ho
  exact answers_of_delivers he

/-- what is known once signing has answered with a signature -/
theorem of_sign_ok (hs : s.Idle) (hc : s.curve = some c) {K : Constants}
    (hK : s.engine.memory.constants c.words = K) (h0 : K.null = 0) {d : Drive}
    {outs : List Bytes} (hr : s.Yields (.sign hash key out) d (.ok outs)) :
    hash ≠ [] ∧ key.length = c.elementBytes ∧
      (s.host (.sign hash key out)).Writes (s.run (.sign hash key out) d).2 Layout.variables
        Signature.signingSpace ∧
      ∃ v block, Signature.attempt K (Bytes.value (Bytes.fit c.elementBytes hash))
          (Bytes.value key) (Bytes.value block) = .ok (.ok v) ∧
        outs = [signatureBytes c.words v] := by
  obtain ⟨hh, hk, ho⟩ : (Operation.sign hash key out).Sized c.elementBytes := sized_of_run hc hr.1
  obtain ⟨h', hw, -, he⟩ := sign_delivers hs hc hK h0 hh hk ho
  obtain ⟨h1, rfl⟩ := hr.delivers.unique he
  cases hv : Signature.signed K c.words (Bytes.value (Bytes.fit c.elementBytes hash))
      (Bytes.value key) (s.source.drop s.drawn) s.config.retryLimit with
  | error e =>
    rw [hv] at h1
    cases h1
  | ok v =>
    rw [hv] at h1
    cases h1
    obtain ⟨block, -, hb⟩ := exists_of_outcome hv
    exact ⟨hh, hk, hw, v, block, hb, rfl⟩

end Session
end CurveEngine
