import CurveEngine.Proofs.Ecdsa
import CurveEngine.Proofs.Faults
import CurveEngine.Proofs.NamedCurves

/-!
# Key pairs and shared secrets

* `KeyAgreement.attempt`, `KeyAgreement.secret`   what a draw of a private key and a derivation
                            compute, for any constants in memory;
* `sample_draws`, `product_computes`              the programs compute it;
* `of_generate_ok`, `answers_agree`               the same for operations of a session;
* `Session.Serves`          an idle session with a curve enabled, whatever operations ran on it;
* `secrets_agree`           the secret of one private key and the other public key is the same on both
                            sides.

Both sides multiply the generator by both private keys, only in different orders.
-/

namespace CurveEngine

open Program Arithmetic Sampling

namespace KeyAgreement

/-- a point as two elements of `w` words -/
def pointBytes (w : Nat) (v : Nat × Nat) : Bytes := Bytes.ofNat w v.1 ++ Bytes.ofNat w v.2

theorem length_pointBytes (w : Nat) (v : Nat × Nat) :
    (pointBytes w v).length = 2 * (4 * w) := by
  unfold pointBytes
  rw [List.length_append, Bytes.length_ofNat, Bytes.length_ofNat]
  omega

theorem point_pointBytes {w : Nat} {v : Nat × Nat} (hx : v.1 < 2 ^ (32 * w))
    (hy : v.2 < 2 ^ (32 * w)) : Bytes.point (4 * w) (pointBytes w v) = .affine v.1 v.2 := by
  have hl := Bytes.length_ofNat w v.1
  unfold Bytes.point pointBytes
  rw [List.take_left' hl, List.drop_left' hl, Bytes.value_ofNat hx, Bytes.value_ofNat hy]

/-! ## Private keys -/

/-- the verdict on a block as private key: the block and its multiple of the generator, or the reason
to draw again -/
def attempt (K : Constants) (block : Bytes) :
    Except Failure (Except Rejection (Bytes × Nat × Nat)) :=
  if 0 < Bytes.value block ∧ Bytes.value block < K.order then
    orReject (Point.regular (K.law.multiple? (Bytes.value block) K.generator)) .keyInfinity
      fun P => .ok (.ok (block, P))
  else .ok (.error .keyRange)

/-- the private key is handed out, and the public key lies in its place -/
def Emitted (w : Nat) (block : Bytes) (v : Bytes × Nat × Nat) (h : Host) : Prop :=
  block = v.1 ∧ StoredPoint w Layout.KeyPair.publicKey () v.2 h

/-- words of both keys -/
def keySpace : Nat := Layout.KeyPair.stop - Layout.variables

section
variable {w : Nat} {K : Constants} {h : Host}

theorem attemptWith_computes (hL : h.Loaded w K) {block : Bytes} (hb : block.length = 4 * w) :
    (attemptWith w block).Computes h Layout.variables keySpace (attempt K block)
      (Verdict (Emitted w)) := by
  refine (load_computes hL.words hL.ready hb (by decide)).bind_ok (by decide) fun _ h₁ w₁ k₁ => ?_
  have L₁ := hL.writes w₁ (by decide)
  obtain ⟨h₂, w₂, flag, a₂, f₂⟩ := (L₁.range k₁ (by decide) Layout.variables).attempt
  have L₂ := L₁.writes w₂ (by decide)
  have k₂ := (w₂.element hL.words (by decide)).trans k₁
  refine .after a₂ (w₂.of_none _ _) ?_
  unfold attempt
  by_cases hr : 0 < Bytes.value block ∧ Bytes.value block < K.order
  · rw [Residue.between, if_pos hr] at f₂
    rw [if_pos hr]
    cases flag with
    | error x => cases f₂
    | ok u =>
      exact degenerate_computes (L₂.pointMul k₂ L₂.point_generator (by decide)) (by decide)
        (fun _ _ => rfl) fun P h₃ w₃ p₃ => .of_done w₃.ready ⟨rfl, p₃⟩
  · rw [Residue.between, if_neg hr] at f₂
    rw [if_neg hr]
    cases flag with
    | ok u => cases f₂
    | error x => exact .of_done w₂.ready rfl

/-- the first accepted key pair -/
def generated (K : Constants) (w : Nat) (source : List Entry) (budget : Option Nat) :
    Except Failure (Bytes × Nat × Nat) :=
  outcome (4 * w) (attempt K) source budget

/-- the entries of the source that generating uses up -/
def entries (K : Constants) (w : Nat) (source : List Entry) (budget : Option Nat) : Nat :=
  consumed (4 * w) (attempt K) source budget

theorem length_of_generated {source : List Entry} {budget : Option Nat} {v : Bytes × Nat × Nat}
    (h : generated K w source budget = .ok v) : v.1.length = 4 * w := by
  obtain ⟨block, hl, hb⟩ := exists_of_outcome h
  unfold attempt at hb
  by_cases hr : 0 < Bytes.value block ∧ Bytes.value block < K.order
  · rw [if_pos hr, orReject_eq_accept_iff] at hb
    obtain ⟨P, -, hP⟩ := hb
    cases hP
    exact hl
  · rw [if_neg hr] at hb
    cases hb

/-- **sampling computes** the first accepted key pair; only its rounds draw -/
theorem sample_draws (hL : h.Loaded w K) (source : List Entry) (budget : Option Nat) :
    (sample (4 * w) (attemptWith w) source budget).Draws h Layout.variables keySpace
      (entries K w source budget) (generated K w source budget) (Emitted w) :=
  Program.sample_draws (fun _ _ w' L => L.writes w' (by decide))
    (fun _ L _ hb => attemptWith_computes L hb) (candid_attemptWith w) source budget hL.ready hL

/-- both keys fill their buffers, whatever these held -/
theorem ends_outputs (hw : w ≤ Layout.elementSlot) {block key publicKey : Bytes}
    (hl : block.length = 4 * w) (ho : h.outputs = [key, publicKey]) (hk : key.length = 4 * w)
    (hq : publicKey.length = 2 * (4 * w)) :
    ((output ⟨0, 0, 4 * w⟩ (.bytes block)).bind fun _ =>
        fetchPoint w Layout.KeyPair.publicKey 1).Ends h (.ok ())
      { h with outputs := [block, pointBytes w (h.element w Layout.KeyPair.publicKey,
        h.element w (Layout.KeyPair.publicKey + Layout.coordinateSpace w))] } := by
  have hfits : Memory.Fits Layout.KeyPair.publicKey Layout.pointSlot := by decide
  obtain ⟨hx, hy⟩ := fits_coordinates hw hfits
  have hbuf : h.outputs.getD 0 [] = [] ++ key ++ [] := by
    rw [ho, List.append_nil]
    rfl
  have hkey := ends_outputBytes hbuf (hl.trans hk.symm)
  rw [hl, ho, List.append_nil] at hkey
  exact hkey.bind (ends_fetchBoth (h := { h with outputs := [block, publicKey] }) (i := 1) hx hy
    rfl hq)

end

/-! ## Secrets -/

/-- the abscissa of the multiple of a point -/
def secret (K : Constants) (k : Nat) (P : Point) : Except Failure Nat :=
  match Point.regular (K.law.multiple? k P) with
  | .ok v => .ok v.1
  | .error e => .error e.hard

/-- words of both keys and their product -/
def agreementSpace : Nat := Layout.Agreement.stop - Layout.variables

/-- **deriving computes** the secret -/
theorem product_computes {w : Nat} {K : Constants} {h : Host} (hL : h.Loaded w K)
    {privateKey publicKey : Bytes} (hk : privateKey.length = 4 * w)
    (hq : publicKey.length = 2 * (4 * w)) :
    (product w privateKey publicKey).Computes h Layout.variables agreementSpace
      (secret K (Bytes.value privateKey) (Bytes.point (4 * w) publicKey))
      (Stored w Layout.Agreement.product) := by
  have hw := hL.words
  refine (load_computes hw hL.ready hk (by decide)).bind_ok (by decide) fun _ h₁ w₁ k₁ => ?_
  have L₁ := hL.writes w₁ (by decide)
  refine (loadPoint_computes hw L₁.ready hq (by decide)).bind_ok (by decide) fun _ h₂ w₂ q₂ => ?_
  have L₂ := L₁.writes w₂ (by decide)
  have k₂ := (w₂.element hw (by decide)).trans k₁
  obtain ⟨h₃, w₃, hx⟩ := L₂.pointMul (t := Layout.Agreement.product) k₂ q₂ (by decide)
  have w₃' := w₃.mono (by decide : Layout.Within _ _ Layout.variables agreementSpace)
  unfold secret Bytes.point
  cases hr : Point.regular (K.law.multiple? (Bytes.value privateKey)
      (.affine (Bytes.value (publicKey.take (4 * w))) (Bytes.value (publicKey.drop (4 * w))))) with
  | ok v =>
    rw [hr] at hx
    obtain ⟨_, he, p₃⟩ := hx
    exact .after he.attempt w₃' (.of_done w₃.ready (Point.affine.inj p₃).1)
  | error e =>
    rw [hr] at hx
    exact .after (Ends.attempt hx) w₃' (.of_refuse w₃.ready)

/-! ## In the group of the curve -/

section
variable {D : Domain} {K : Constants} (hK : D.Describes K)
include hK

/-- **an accepted private key**: it is handed out as it is, it is in range, and the public key is its
multiple of the generator -/
theorem of_attempt {block : Bytes} {v : Bytes × Nat × Nat} (h : attempt K block = .ok (.ok v)) :
    v.1 = block ∧ (0 < Bytes.value block ∧ Bytes.value block < D.order) ∧
      D.curve.coords (Bytes.value block • D.generator) = .affine v.2.1 v.2.2 := by
  unfold attempt at h
  rw [hK.order, hK.generator] at h
  by_cases hk : 0 < Bytes.value block ∧ Bytes.value block < D.order
  · rw [if_pos hk, orReject_eq_accept_iff] at h
    obtain ⟨P, hP, h⟩ := h
    cases h
    rw [Domain.multiple?_eq hK, Point.regular_eq_ok_iff, Option.some.injEq] at hP
    exact ⟨rfl, hk, hP⟩
  · rw [if_neg hk] at h
    cases h

/-- the secret of a private key in range and the other side's public key -/
theorem secret_eq {j k : Nat} (hj : 0 < j ∧ j < D.order) (hk : 0 < k ∧ k < D.order) :
    ∃ x y, D.curve.coords (j • k • D.generator) = .affine x y ∧
      secret K j (D.curve.coords (k • D.generator)) = .ok x := by
  have hne := D.smul_ne_zero (D.addOrderOf_smul hk.1 hk.2) (Residue.cast_ne_zero hj.1 hj.2)
  obtain ⟨x, y, hxy⟩ := PrimeCurve.exists_coords_of_ne_zero hne
  refine ⟨x, y, hxy, ?_⟩
  have hr : Point.regular (K.law.multiple? j (D.curve.coords (k • D.generator))) = .ok (x, y) :=
    Point.regular_eq_ok_iff.mpr ((Domain.multiple?_eq hK j _).trans (congrArg some hxy))
  unfold secret
  rw [hr]

/-- **both sides derive the same secret** -/
theorem secret_comm {j k : Nat} (hj : 0 < j ∧ j < D.order) (hk : 0 < k ∧ k < D.order) :
    ∃ x, secret K j (D.curve.coords (k • D.generator)) = .ok x ∧
      secret K k (D.curve.coords (j • D.generator)) = .ok x := by
  obtain ⟨x, y, hxy, hx⟩ := secret_eq hK hj hk
  obtain ⟨x', y', hxy', hx'⟩ := secret_eq hK hk hj
  rw [smul_comm, hxy, Point.affine.injEq] at hxy'
  exact ⟨x, hx, hxy'.1 ▸ hx'⟩

end

end KeyAgreement

/-! ## The operations -/

namespace Session

open KeyAgreement

variable {s : Session} {c : NamedCurve} {key publicKey out : Bytes}

section
variable (hs : s.Idle) (hc : s.curve = some c) {K : Constants}
  (hK : s.engine.memory.constants c.words = K) (h0 : K.null = 0)
include hs hc hK h0

theorem generate_delivers (hk : key.length = c.elementBytes)
    (hq : publicKey.length = 2 * c.elementBytes) :
    ∃ h', (s.host (.generate key publicKey)).Writes h' Layout.variables keySpace ∧
      h'.drawn = s.drawn +
        KeyAgreement.entries K c.words (s.source.drop s.drawn) s.config.retryLimit ∧
      ((Operation.generate key publicKey).program s.settings).Delivers
        (s.host (.generate key publicKey))
        ((generated K c.words (s.source.drop s.drawn) s.config.retryLimit).map
          fun v => [v.1, pointBytes c.words v.2]) h' := by
  rw [program_eq_work hc (.generate key publicKey) ⟨hk, hq⟩]
  refine (KeyAgreement.sample_draws ⟨hs.ready hc _, c.words_le, hK, h0⟩ (s.source.drop s.drawn)
    s.config.retryLimit).delivers fun block v h' hv _ hp ho => ?_
  obtain ⟨rfl, hp⟩ := hp
  obtain ⟨ex, ey⟩ := Point.affine.inj hp
  have he := ends_outputs c.words_le (length_of_generated hv) ho hk hq
  rw [show h'.element _ _ = _ from ex, show h'.element _ _ = _ from ey] at he
  exact he

theorem answers_generate (hk : key.length = c.elementBytes)
    (hq : publicKey.length = 2 * c.elementBytes) :
    s.Answers (.generate key publicKey)
      ((generated K c.words (s.source.drop s.drawn) s.config.retryLimit).map
        fun v => [v.1, pointBytes c.words v.2]) := by
  obtain ⟨_, -, -, he⟩ := generate_delivers hs hc hK h0 hk hq
  exact answers_of_delivers he

/-- what is known once generating has answered with a key pair -/
theorem of_generate_ok {d : Drive} {outs : List Bytes}
    (hr : s.Yields (.generate key publicKey) d (.ok outs)) :
    (s.host (.generate key publicKey)).Writes (s.run (.generate key publicKey) d).2
        Layout.variables keySpace ∧
      ∃ block v, block.length = 4 * c.words ∧ attempt K block = .ok (.ok v) ∧
        outs = [v.1, pointBytes c.words v.2] := by
  obtain ⟨hk, hq⟩ : (Operation.generate key publicKey).Sized c.elementBytes :=
    sized_of_run hc hr.1
  obtain ⟨h', hw, -, he⟩ := generate_delivers hs hc hK h0 hk hq
  obtain ⟨h1, rfl⟩ := hr.delivers.unique he
  cases hv : generated K c.words (s.source.drop s.drawn) s.config.retryLimit with
  | error e =>
    rw [hv] at h1
    cases h1
  | ok v =>
    rw [hv] at h1
    cases h1
    obtain ⟨block, hl, hb⟩ := exists_of_outcome hv
    exact ⟨hw, block, v, hl, hb, rfl⟩

/-- **deriving a secret, as an operation** -/
theorem answers_agree (hk : key.length = c.elementBytes)
    (hq : publicKey.length = 2 * c.elementBytes) (ho : out.length = c.elementBytes) :
    s.Answers (.agree key publicKey out)
      ((secret K (Bytes.value key) (Bytes.point c.elementBytes publicKey)).map
        fun v => [Bytes.ofNat c.words v]) := by
  obtain ⟨h', -, he⟩ := (product_computes
    ⟨hs.ready hc (.agree key publicKey out), c.words_le, hK, h0⟩ hk hq).delivers
      (inward_product c.words key publicKey) (g := fun v => [Bytes.ofNat c.words v])
      (f := fun _ => fetch c.words Layout.Agreement.product 0 0) fun _ v k _ hv _ hbuf => by
        have hb : k.outputs.getD 0 [] = [] ++ out ++ [] := by rw [hbuf, List.append_nil]; rfl
        have hf := ends_fetch (w := c.words) (o := Layout.Agreement.product)
          (Memory.Fits.mono (by decide) c.words_le) hb ho
        rw [show k.element c.words _ = v from hv, hbuf, List.append_nil] at hf
        exact hf
  refine answers_of_delivers (h := h') ?_
  rw [program_eq_work hc (.agree key publicKey out) ⟨hk, hq, ho⟩]
  exact he

end

/-! ## Agreement -/

/-- nothing is running in the session, the curve was enabled at some time, and since then there were
harmless steps only: operations, run in any way and perhaps dropped, and accesses that start no
function and write no constant -/
def Serves (s : Session) (c : NamedCurve) : Prop :=
  s.engine.busy = 0 ∧ ∃ (s₀ : Session) (steps : List Step), (∀ i ∈ steps, i.Harmless) ∧
    (Transcript.of step (s₀.enable c) steps).fault = none ∧
    (Transcript.of step (s₀.enable c) steps).final = s

theorem Serves.ready (h : s.Serves c) : s.Equipped c := by
  obtain ⟨hb, s₀, steps, hi, hf, rfl⟩ := h
  obtain ⟨hF, hc⟩ := Follows.of_steps (s := s₀.enable c) rfl hi hf
  refine ⟨⟨hc, hb⟩, hF.curve, ?_⟩
  rw [Memory.constants_congr c.words_le hF.constants]
  exact constants_enable s₀ c

/-- the key pairs that generating answers with -/
theorem Serves.of_generate (h : s.Serves c) {d : Drive} {a A : Bytes}
    (hr : s.Yields (.generate key publicKey) d (.ok [a, A])) :
    a.length = c.elementBytes ∧ A.length = 2 * c.elementBytes ∧
      (0 < Bytes.value a ∧ Bytes.value a < c.standard.order) ∧
      Bytes.point c.elementBytes A =
        c.standard.curve.coords (Bytes.value a • c.standard.generator) := by
  obtain ⟨hs, hc, hK⟩ := h.ready
  have hD := c.describes_values
  obtain ⟨-, block, v, hl, hv, hout⟩ := of_generate_ok hs hc hK hD.null hr
  obtain ⟨rfl, hk, hxy⟩ := of_attempt hD hv
  cases hout
  have hp := (Domain.lt_two_pow (hK.symm ▸ hD)).1
  have hx := c.standard.curve.reduced_coords (Bytes.value v.1 • c.standard.generator)
  rw [hxy] at hx ⊢
  exact ⟨hl, length_pointBytes c.words v.2, hk,
    point_pointBytes (hx.1.trans hp) (hx.2.trans hp)⟩

/-- **the shared secrets agree**: for any two key pairs that generating answers with in sessions of
one curve, deriving a secret from the first private key and the second public key succeeds, deriving
it from the second private key and the first public key succeeds as well, and both write the same
bytes; the four sessions may be the same one at four times, or different ones -/
theorem secrets_agree {s₁ s₂ s₃ s₄ : Session} (h₁ : s₁.Serves c) (h₂ : s₂.Serves c)
    (h₃ : s₃.Serves c) (h₄ : s₄.Serves c) {key₁ point₁ key₂ point₂ a A b B out out' : Bytes}
    {d₁ d₂ : Drive} (hA : s₁.Yields (.generate key₁ point₁) d₁ (.ok [a, A]))
    (hB : s₂.Yields (.generate key₂ point₂) d₂ (.ok [b, B]))
    (ho : out.length = c.elementBytes) (ho' : out'.length = c.elementBytes) :
    ∃ secret : Bytes, secret.length = c.elementBytes ∧
      s₃.Answers (.agree a B out) (.ok [secret]) ∧
      s₄.Answers (.agree b A out') (.ok [secret]) := by
  obtain ⟨la, lA, ha, pA⟩ := h₁.of_generate hA
  obtain ⟨lb, lB, hb, pB⟩ := h₂.of_generate hB
  obtain ⟨i₃, c₃, K₃⟩ := h₃.ready
  obtain ⟨i₄, c₄, K₄⟩ := h₄.ready
  have hD := c.describes_values
  obtain ⟨x, hx, hx'⟩ := secret_comm hD ha hb
  have r₃ := answers_agree i₃ c₃ K₃ hD.null la lB ho
  have r₄ := answers_agree i₄ c₄ K₄ hD.null lb lA ho'
  rw [pB, hx] at r₃
  rw [pA, hx'] at r₄
  exact ⟨Bytes.ofNat c.words x, Bytes.length_ofNat c.words x, r₃, r₄⟩

/-- P-192 enabled, and one random block with the number `k` to come -/
def keyed (k : Nat) : Session := (new 2 {} [some (Bytes.ofNat 6 k)]).enable .p192

/-- the generator and its double, the public keys of the private keys 1 and 2 -/
def publicOne : Nat × Nat := (NamedCurve.p192.data.gx, NamedCurve.p192.data.gy)

def publicTwo : Nat × Nat :=
  (0xdafebf5828783f2ad35534631588a3f629a70fb16982a888,
    0xdd6bda0d993da0fa46b27bbc141b868f59331afa5c7e93ab)

theorem serves_keyed (k : Nat) : (keyed k).Serves .p192 :=
  ⟨rfl, new 2 {} [some (Bytes.ofNat 6 k)], [], fun _ h => absurd h List.not_mem_nil, rfl, rfl⟩

theorem serves_fresh_givenUp : (Transcript.of step fresh givenUp).final.Serves .p192 :=
  ⟨by decide +kernel, new 2 {} [], givenUp, by simp [givenUp, Step.Harmless], by decide +kernel, rfl⟩

theorem generate_keyed {k : Nat} {v : Nat × Nat}
    (h : generated NamedCurve.p192.data.values 6 [some (Bytes.ofNat 6 k)] none =
      .ok (Bytes.ofNat 6 k, v)) :
    (keyed k).Yields (.generate (List.replicate 24 0) (List.replicate 48 0)) .complete
      (.ok [Bytes.ofNat 6 k, pointBytes 6 v]) := by
  obtain ⟨hs, hc, hK⟩ := (serves_keyed k).ready
  have ha : (keyed k).Answers (.generate (List.replicate 24 0) (List.replicate 48 0)) _ :=
    answers_generate hs hc hK rfl (by decide) (by decide)
  have hv : generated NamedCurve.p192.data.values NamedCurve.p192.words
      ((keyed k).source.drop (keyed k).drawn) (keyed k).config.retryLimit = .ok _ := h
  rw [hv] at ha
  exact ha.complete

theorem secrets_agree_keyed :
    ∃ secret : Bytes, secret.length = 24 ∧
      (Transcript.of step fresh givenUp).final.Answers
        (.agree (Bytes.ofNat 6 1) (pointBytes 6 publicTwo) (List.replicate 24 0))
        (.ok [secret]) ∧
      (keyed 1).Answers
        (.agree (Bytes.ofNat 6 2) (pointBytes 6 publicOne) (List.replicate 24 0))
        (.ok [secret]) := by
  have h₁ : generated NamedCurve.p192.data.values 6 [some (Bytes.ofNat 6 1)] none =
      .ok (Bytes.ofNat 6 1, publicOne) := by decide +kernel
  have h₂ : generated NamedCurve.p192.data.values 6 [some (Bytes.ofNat 6 2)] none =
      .ok (Bytes.ofNat 6 2, publicTwo) := by decide +kernel
  exact secrets_agree (serves_keyed 1) (serves_keyed 2) serves_fresh_givenUp (serves_keyed 1)
    (generate_keyed h₁) (generate_keyed h₂) (by decide) (by decide)

end Session
end CurveEngine
