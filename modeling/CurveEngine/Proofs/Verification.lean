import CurveEngine.Proofs.Arithmetic
import CurveEngine.Proofs.Checks
import CurveEngine.Proofs.Domain
import CurveEngine.Proofs.Inward

/-!
# What verification computes

* `Signature.checked`    the check on plain numbers, for any constants in memory and any public key;
* `check_computes`       the program computes it;
* `answers_verify`       the operation answers `Ok` or a plain failure, as the check does.
-/

namespace CurveEngine

open Program Arithmetic
open Layout (Place PointPlace Within)

namespace Signature

/-- fails unless `r` and `s` sign the hash `e` under the public key `Q` -/
def checked (K : Constants) (e r s : Nat) (Q : Point) : Except Failure Unit := do
  Residue.between r 0 K.order
  Residue.between s 0 K.order
  let i ← Residue.inverted s K.order
  let u₁ ← Residue.reduced (i * e) K.order
  let P₁ ← Point.regular (K.law.multiple? u₁ K.generator)
  let u₂ ← Residue.reduced (i * r) K.order
  let P₂ ← Point.regular (K.law.multiple? u₂ Q)
  let P ← Point.regular (K.law.sum? (.affine P₁.1 P₁.2) (.affine P₂.1 P₂.2))
  if P.1 = r then .ok () else .error .failed

/-- words of all variables of verification -/
def verificationSpace : Nat := Layout.Verification.stop - Layout.variables

/-- what the check does once the signature, the hash and the public key are in their places -/
def recover (w : Nat) : Program Unit := do
  checkBetween w Layout.Verification.r Layout.null Layout.order
  checkBetween w Layout.Verification.s Layout.null Layout.order
  invert w Layout.Verification.s Layout.order Layout.Verification.s
  modular .multiply w Layout.Verification.s Layout.Verification.hash Layout.order
    Layout.Verification.u₁
  point .pointMul w Layout.Verification.u₁ Layout.generator Layout.Verification.p₁
  modular .multiply w Layout.Verification.s Layout.Verification.r Layout.order
    Layout.Verification.u₂
  point .pointMul w Layout.Verification.u₂ Layout.Verification.key Layout.Verification.p₂
  point .pointAdd w Layout.Verification.p₁ Layout.Verification.p₂ Layout.Verification.p₁
  if (← compare w Layout.Verification.p₁ Layout.Verification.r) ≠ .eq then fail .failed

theorem check_eq (w : Nat) (signature hash publicKey : Bytes) :
    check w signature hash publicKey =
      (loadPoint w publicKey Layout.Verification.key).bind fun _ =>
      (load w (signature.take (4 * w)) Layout.Verification.r).bind fun _ =>
      (load w (signature.drop (4 * w)) Layout.Verification.s).bind fun _ =>
      (load w (Bytes.fit (4 * w) hash) Layout.Verification.hash).bind fun _ => recover w := rfl

/-- words of the inputs of verification -/
def inputSpace : Nat := Layout.Verification.u₁ - Layout.variables

/-- the inputs of verification, or the inverse of `s` later on, are in their places -/
structure Inputs (w : Nat) (K : Constants) (e r s : Nat) (Q : Point) (h : Host) : Prop
    extends h.Loaded w K where
  hash : h.element w Layout.Verification.hash = e
  first : h.element w Layout.Verification.r = r
  second : h.element w Layout.Verification.s = s
  key : h.engine.memory.point w Layout.Verification.key = Q

namespace Inputs

variable {w : Nat} {K : Constants} {e r s : Nat} {Q : Point} {h h' : Host}

/-- the other variables of verification lie behind the inputs -/
theorem writes {o n : Nat} (hv : Inputs w K e r s Q h) (hw : h.Writes h' o n)
    (ho : Layout.variables ≤ o ∧ Layout.Clear o n Layout.variables inputSpace) :
    Inputs w K e r s Q h' where
  toLoaded := hv.toLoaded.writes hw ho.1
  hash := (hw.element hv.words (ho.2.part (by decide) (by decide))).trans hv.hash
  first := (hw.element hv.words (ho.2.part (by decide) (by decide))).trans hv.first
  second := (hw.element hv.words (ho.2.part (by decide) (by decide))).trans hv.second
  key := (hw.point hv.words (ho.2.part (by decide) (by decide))).trans hv.key

/-- the inverse of `s` replaces it -/
theorem invert_second {i : Nat} (hv : Inputs w K e r s Q h)
    (hw : h.Writes h' Layout.Verification.s Layout.elementSlot)
    (hi : h'.element w Layout.Verification.s = i) : Inputs w K e r i Q h' where
  toLoaded := hv.toLoaded.writes hw (by decide)
  hash := (hw.element hv.words (by decide)).trans hv.hash
  first := (hw.element hv.words (by decide)).trans hv.first
  second := hi
  key := (hw.point hv.words (by decide)).trans hv.key

end Inputs

theorem recover_computes {w : Nat} {K : Constants} {e r s : Nat} {Q : Point} {h : Host}
    (hv : Inputs w K e r s Q h) :
    (recover w).Computes h Layout.variables verificationSpace (checked K e r s Q)
      fun _ _ _ => True := by
  have hw := hv.words
  refine (hv.range hv.first (by decide) Layout.variables).bind (by decide)
    fun _ _ h₁ w₁ hn => ?_
  have v₁ := hv.writes w₁ (by decide)
  refine (v₁.range v₁.second (by decide) Layout.variables).bind (by decide)
    fun _ _ h₂ w₂ _ => ?_
  have v₂ := v₁.writes w₂ (by decide)
  -- s = 1 / s
  refine (v₂.invert v₂.second (by omega) (by decide)).bind (by decide) fun _ i h₃ w₃ s₃ => ?_
  have v₃ := v₂.invert_second w₃ s₃
  -- p₁ = e / s times the generator
  refine (v₃.multiply v₃.second v₃.hash (by decide)).bind (by decide) fun _ u₁ h₄ w₄ u₄ => ?_
  have v₄ := v₃.writes w₄ (by decide)
  refine (v₄.pointMul u₄ v₄.point_generator (by decide)).bind (by decide)
    fun _ P₁ h₅ w₅ p₅ => ?_
  have v₅ := v₄.writes w₅ (by decide)
  -- p₂ = r / s times the public key
  refine (v₅.multiply v₅.second v₅.first (by decide)).bind (by decide) fun _ u₂ h₆ w₆ u₆ => ?_
  have v₆ := v₅.writes w₆ (by decide)
  have p₆ := (w₆.point hw (by decide)).trans p₅
  refine (v₆.pointMul u₆ v₆.key (by decide)).bind (by decide) fun _ P₂ h₇ w₇ p₇ => ?_
  have v₇ := v₆.writes w₇ (by decide)
  have p₇' := (w₇.point hw (by decide)).trans p₆
  -- p₁ = p₁ + p₂
  refine (v₇.pointAdd p₇' p₇ (by decide)).bind (by decide) fun _ P h₈ w₈ p₈ => ?_
  have v₈ := v₇.writes w₈ (by decide)
  have x₈ : h₈.element w Layout.Verification.p₁ = P.1 := (Point.affine.inj p₈).1
  refine (compare_computes hw w₈.ready (by decide) (by decide) Layout.variables).bind_ok
    (by decide) fun _ h₉ w₉ c => ?_
  subst c
  rw [x₈, v₈.first]
  by_cases heq : P.1 = r
  · rw [if_pos heq, if_neg (not_not_intro (Nat.compare_eq_eq.mpr heq))]
    exact .of_done w₉.ready trivial
  · rw [if_neg heq, if_pos fun h => heq (Nat.compare_eq_eq.mp h)]
    exact .of_fail w₉.ready

theorem check_computes {w : Nat} {K : Constants} {h : Host} (hL : h.Loaded w K)
    {signature publicKey : Bytes} (hs : signature.length = 2 * (4 * w)) (hash : Bytes)
    (hq : publicKey.length = 2 * (4 * w)) :
    (check w signature hash publicKey).Computes h Layout.variables verificationSpace
      (checked K (Bytes.value (Bytes.fit (4 * w) hash)) (Bytes.value (signature.take (4 * w)))
        (Bytes.value (signature.drop (4 * w))) (Bytes.point (4 * w) publicKey))
      fun _ _ _ => True := by
  have hw := hL.words
  have lr : (signature.take (4 * w)).length = 4 * w := by
    rw [List.length_take]
    omega
  have ls : (signature.drop (4 * w)).length = 4 * w := by
    rw [List.length_drop]
    omega
  rw [check_eq]
  refine (loadPoint_computes hw hL.ready hq (by decide)).bind_ok (by decide)
    fun _ h₁ w₁ q₁ => ?_
  have L₁ := hL.writes w₁ (by decide)
  refine (load_computes hw L₁.ready lr (by decide)).bind_ok (by decide) fun _ h₂ w₂ r₂ => ?_
  have L₂ := L₁.writes w₂ (by decide)
  have q₂ := (w₂.point hw (by decide)).trans q₁
  refine (load_computes hw L₂.ready ls (by decide)).bind_ok (by decide) fun _ h₃ w₃ s₃ => ?_
  have L₃ := L₂.writes w₃ (by decide)
  have q₃ := (w₃.point hw (by decide)).trans q₂
  have r₃ := (w₃.element hw (by decide)).trans r₂
  refine (load_computes hw L₃.ready (Bytes.length_fit _ hash) (by decide)).bind_ok (by decide)
    fun _ h₄ w₄ e₄ => ?_
  exact recover_computes
    { toLoaded := L₃.writes w₄ (by decide)
      hash := e₄
      first := (w₄.element hw (by decide)).trans r₃
      second := (w₄.element hw (by decide)).trans s₃
      key := (w₄.point hw (by decide)).trans q₃ }

/-- every failure is a plain one to the caller -/
def Plain {β : Type} (x : Except Failure β) : Prop := ∀ e, x = .error e → e.hard = .failed

theorem Plain.bind {β γ : Type} {x : Except Failure β} {g : β → Except Failure γ} (hx : Plain x)
    (hg : ∀ b, Plain (g b)) : Plain (x >>= g) := by
  intro e h
  cases x with
  | error e' =>
    cases h
    exact hx e rfl
  | ok b => exact hg b e h

theorem plain_between (x low high : Nat) : Plain (Residue.between x low high) := by
  intro e h
  unfold Residue.between at h
  split at h
  · cases h
  · cases h
    rfl

theorem plain_reduced (raw m : Nat) : Plain (Residue.reduced raw m) := by
  intro e h
  unfold Residue.reduced at h
  split at h
  · cases h
    rfl
  · cases h

theorem plain_inverted (a m : Nat) : Plain (Residue.inverted a m) := by
  intro e h
  unfold Residue.inverted at h
  dsimp only at h
  split at h
  · cases h
    rfl
  · cases h

theorem plain_regular (R : Option Point) : Plain (Point.regular R) := by
  intro e h
  match R, h with
  | none, h | some .infinity, h =>
    cases h
    rfl

theorem plain_checked (K : Constants) (e r s : Nat) (Q : Point) : Plain (checked K e r s Q) := by
  refine (plain_between _ _ _).bind fun _ => (plain_between _ _ _).bind fun _ =>
    (plain_inverted _ _).bind fun _ => (plain_reduced _ _).bind fun _ =>
    (plain_regular _).bind fun _ => (plain_reduced _ _).bind fun _ =>
    (plain_regular _).bind fun _ => (plain_regular _).bind fun P => ?_
  intro x h
  split at h
  · cases h
  · cases h
    rfl

/-- the check as the caller sees it -/
def verdict (K : Constants) (e r s : Nat) (Q : Point) : Except Failure Unit :=
  match checked K e r s Q with
  | .ok () => .ok ()
  | .error _ => .error .failed

theorem verdict_of_ok {K : Constants} {e r s : Nat} {Q : Point}
    (h : checked K e r s Q = .ok ()) : verdict K e r s Q = .ok () := by
  unfold verdict
  rw [h]

theorem verdict_of_ne {K : Constants} {e r s : Nat} {Q : Point}
    (h : checked K e r s Q ≠ .ok ()) : verdict K e r s Q = .error .failed := by
  unfold verdict
  split
  · rename_i h'
    exact absurd h' h
  · rfl

theorem verify_computes {w : Nat} {h : Host} {K : Constants} (hL : h.Loaded w K)
    {signature publicKey : Bytes} (hs : signature.length = 2 * (4 * w)) (hash : Bytes)
    (hq : publicKey.length = 2 * (4 * w)) :
    (verify w signature hash publicKey).Computes h Layout.variables verificationSpace
      (verdict K (Bytes.value (Bytes.fit (4 * w) hash)) (Bytes.value (signature.take (4 * w)))
        (Bytes.value (signature.drop (4 * w))) (Bytes.point (4 * w) publicKey))
      fun _ _ _ => True := by
  obtain ⟨h', hw', hx⟩ := check_computes hL hs hash hq
  unfold verdict
  cases hc : checked K (Bytes.value (Bytes.fit (4 * w) hash))
      (Bytes.value (signature.take (4 * w))) (Bytes.value (signature.drop (4 * w)))
      (Bytes.point (4 * w) publicKey) with
  | ok u =>
    rw [hc] at hx
    obtain ⟨_, he, -⟩ := hx
    exact .after he.attempt hw' (.of_done hw'.ready trivial)
  | error x =>
    rw [hc] at hx
    refine .after hx.attempt hw' ?_
    show (refuse (.signatureRejected x) x.hard).Computes _ _ _ _ _
    rw [plain_checked _ _ _ _ _ x hc]
    exact .of_refuse hw'.ready

end Signature

/-! ## The operation -/

namespace Session

variable {s : Session} {c : NamedCurve} {signature hash publicKey : Bytes}

/-- **verification, as an operation**: in whatever way it is run, it answers as the check does -/
theorem answers_verify (hs : s.Idle) (hc : s.curve = some c) {K : Constants}
    (hK : s.engine.memory.constants c.words = K) (h0 : K.null = 0) (hh : hash ≠ [])
    (hl : signature.length = 2 * c.elementBytes) (hq : publicKey.length = 2 * c.elementBytes) :
    s.Answers (.verify signature hash publicKey)
      ((Signature.verdict K (Bytes.value (Bytes.fit c.elementBytes hash))
        (Bytes.value (signature.take c.elementBytes)) (Bytes.value (signature.drop c.elementBytes))
        (Bytes.point c.elementBytes publicKey)).map fun _ => []) := by
  obtain ⟨h', -, he⟩ := Computes.delivers_same (Signature.verify_computes
    ⟨hs.ready hc (.verify signature hash publicKey), c.words_le, hK, h0⟩ hl hash hq)
      (Signature.inward_verify _ _ _ _)
  refine answers_of_delivers (h := h') ?_
  rw [program_eq_work hc (.verify signature hash publicKey) ⟨hl, hh, hq⟩]
  exact he

end Session
end CurveEngine
