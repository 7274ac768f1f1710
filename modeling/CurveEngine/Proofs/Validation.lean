import CurveEngine.Proofs.Cancellation

/-!
# Which public keys pass validation

* `PublicKey.Valid`         both coordinates are in range and not zero, and the point is on the curve;
* `validate_computes`       the program decides it, for any constants in memory;
* `answers_validate`        the same for the operation, and `validate_decides` in terms of the memory;
* `Domain.valid_iff`        in a group of odd order, a point other than infinity fails for a zero
                            abscissa only;
* `idle_of_generate`        a session that answered with a key pair was idle, since every round starts
                            a function;
* `validate_generated`      what generating answers passes validation, a zero abscissa apart.

The check of the equation is by functions of the field, and the generated point comes from functions on
points.  The two meet in the equation of the curve: `rightSide_eq` gives it for the first, and
`PrimeCurve.equation_of_coords` for the second.
-/

namespace CurveEngine

open Program Arithmetic Sampling

namespace PublicKey

/-! ## Validation -/

/-- `0 < x < p`, `0 < y < p` and `y ^ 2 = x ^ 3 + a x + b` modulo `p` -/
def Valid (K : Constants) (x y : Nat) : Prop :=
  (0 < x ∧ x < K.law.p) ∧ (0 < y ∧ y < K.law.p) ∧
    y ^ 2 % K.law.p = (x ^ 3 + K.coefficientA * x + K.coefficientB) % K.law.p

instance (K : Constants) (x y : Nat) : Decidable (Valid K x y) :=
  inferInstanceAs (Decidable (_ ∧ _))

/-- validation on plain numbers -/
def validated (K : Constants) (x y : Nat) : Except Failure Unit := do
  Residue.between x 0 K.law.p
  Residue.between y 0 K.law.p
  if Residue.total (y * y) K.law.p = rightSide K x then .ok () else .error .failed

theorem validated_eq (K : Constants) (x y : Nat) :
    validated K x y = if Valid K x y then .ok () else .error .failed := by
  unfold validated Residue.between
  by_cases hx : 0 < x ∧ x < K.law.p
  · by_cases hy : 0 < y ∧ y < K.law.p
    · have hp : 0 < K.law.p := by omega
      rw [if_pos hx, if_pos hy, rightSide_eq hp, Residue.total_of_pos hp, ← sq]
      show (if _ then _ else _) = _
      unfold Valid
      simp only [hx, hy, and_self, true_and]
    · have hv : ¬ Valid K x y := fun h => hy h.2.1
      rw [if_pos hx, if_neg hy, if_neg hv]
      rfl
  · have hv : ¬ Valid K x y := fun h => hx h.1
    rw [if_neg hx, if_neg hv]
    rfl

/-- words of all variables of validation -/
def validationSpace : Nat := Layout.Validation.stop - Layout.variables

/-- **validation computes** whether the public key is valid -/
theorem validate_computes {w : Nat} {K : Constants} {h : Host} (hL : h.Loaded w K) {key : Bytes}
    (hl : key.length = 2 * (4 * w)) :
    (validate w key).Computes h Layout.variables validationSpace
      (validated K (Bytes.value (key.take (4 * w))) (Bytes.value (key.drop (4 * w))))
      fun _ _ _ => True := by
  have hw := hL.words
  obtain ⟨lx, ly⟩ := Bytes.length_take_drop hl
  refine (load_computes hw hL.ready lx (by decide)).bind_ok (by decide) fun _ h₁ w₁ x₁ => ?_
  have L₁ := hL.writes w₁ (by decide)
  refine (load_computes hw L₁.ready ly (by decide)).bind_ok (by decide) fun _ h₂ w₂ y₂ => ?_
  have L₂ := L₁.writes w₂ (by decide)
  have x₂ := (w₂.element hw (by decide)).trans x₁
  -- both coordinates are in range
  refine (L₂.fieldRange x₂ (by decide) Layout.variables).bind (by decide) fun _ _ h₃ w₃ _ => ?_
  have L₃ := L₂.writes w₃ (by decide)
  have x₃ := (w₃.element_of_none hw (by decide)).trans x₂
  have y₃ := (w₃.element_of_none hw (by decide)).trans y₂
  refine (L₃.fieldRange y₃ (by decide) Layout.variables).bind (by decide) fun _ _ h₄ w₄ _ => ?_
  have L₄ := L₃.writes w₄ (by decide)
  have x₄ := (w₄.element_of_none hw (by decide)).trans x₃
  have y₄ := (w₄.element_of_none hw (by decide)).trans y₃
  -- both sides of the equation
  refine (L₄.fieldMultiply y₄ y₄ (by decide) (by decide)).bind_ok (by decide)
    fun _ h₅ w₅ l₅ => ?_
  have L₅ := L₄.writes w₅ (by decide)
  have x₅ := (w₅.element hw (by decide)).trans x₄
  refine (rightHandSide_computes L₅ x₅ (by decide) (by decide) (by decide)).bind_ok (by decide)
    fun _ h₆ w₆ r₆ => ?_
  have l₆ : h₆.element w Layout.Validation.left = _ := (w₆.element hw (by decide)).trans l₅
  have r₆' : h₆.element w Layout.Validation.right = _ := r₆
  refine (compare_computes hw w₆.ready (by decide) (by decide) Layout.variables).bind_ok
    (by decide) fun _ h₇ w₇ c => ?_
  subst c
  rw [l₆, r₆']
  by_cases heq : Residue.total (Bytes.value (key.drop (4 * w)) * Bytes.value (key.drop (4 * w)))
      K.law.p = rightSide K (Bytes.value (key.take (4 * w)))
  · rw [if_pos heq, if_neg (not_not_intro (Nat.compare_eq_eq.mpr heq))]
    exact .of_done w₇.ready trivial
  · rw [if_neg heq, if_pos fun h => heq (Nat.compare_eq_eq.mp h)]
    exact .of_fail w₇.ready

end PublicKey

/-! ## In the group of the curve -/

namespace PrimeCurve

variable {C : PrimeCurve} {P : C.Group} {x y : Nat}

theorem equation_of_coords (h : C.coords P = .affine x y) :
    y ^ 2 % C.p = (x ^ 3 + C.a * x + C.b) % C.p := by
  cases P with
  | zero => cases h
  | some X Y hP =>
    rw [coords_some] at h
    cases h
    have e := (C.nonsingular_iff X Y).mp hP
    refine (ZMod.natCast_eq_natCast_iff' _ _ C.p).mp ?_
    push_cast
    rw [ZMod.natCast_zmod_val, ZMod.natCast_zmod_val, e]

theorem two_smul_of_coords (h : C.coords P = .affine x 0) : 2 • P = 0 := by
  rw [two_nsmul, ← C.coords_eq_infinity_iff, ← coords_add, h]
  have hs : C.law.slope? x 0 x 0 = none := by
    unfold Weierstrass.slope?
    rw [if_pos rfl, if_pos (Nat.zero_mod _)]
  rw [Weierstrass.affine_add, hs]

end PrimeCurve

namespace Domain

/-- the second copies of the coefficients are those of the curve -/
structure Copied (D : Domain) (K : Constants) : Prop where
  coefficientA : K.coefficientA = D.curve.a
  coefficientB : K.coefficientB = D.curve.b

variable {D : Domain} {K : Constants} (hD : D.Describes K) (hC : D.Copied K)
include hD hC

/-- **in a group of odd order a zero abscissa is the only reason to fail** -/
theorem valid_iff (h2 : 2 < D.order) {P : D.curve.Group} (hP : addOrderOf P = D.order) {x y : Nat}
    (h : D.curve.coords P = .affine x y) : PublicKey.Valid K x y ↔ x ≠ 0 := by
  have hr := D.curve.reduced_coords P
  rw [h] at hr
  have hy : y ≠ 0 := by
    rintro rfl
    have hd := addOrderOf_dvd_iff_nsmul_eq_zero.mpr (PrimeCurve.two_smul_of_coords h)
    rw [hP] at hd
    have := Nat.le_of_dvd (by decide) hd
    omega
  have hp : K.law.p = D.curve.p := congrArg Weierstrass.p hD.law
  unfold PublicKey.Valid
  rw [hp, hC.coefficientA, hC.coefficientB]
  constructor
  · rintro ⟨⟨hx, -⟩, -⟩
    exact Nat.ne_of_gt hx
  · intro hx
    exact ⟨⟨Nat.pos_of_ne_zero hx, hr.1⟩, ⟨Nat.pos_of_ne_zero hy, hr.2⟩,
      PrimeCurve.equation_of_coords h⟩

end Domain

theorem NamedCurve.copied_values (c : NamedCurve) : c.standard.Copied c.data.values := ⟨rfl, rfl⟩

/-! ## The operations -/

namespace KeyAgreement

theorem started_of_attemptWith {w : Nat} {block : Bytes} {h h' : Host} {r : Except Rejection Bytes}
    (he : (attemptWith w block).Ends h (.ok r) h') : 0 < h'.trace.size := by
  obtain ⟨e, hr, -⟩ | ⟨u, h₁, -, he⟩ := Ends.parts he
  · cases hr
  obtain ⟨e, hr, -⟩ | ⟨check, h₂, hk, he⟩ := Ends.parts he
  · cases hr
  -- the range check compares at least once
  obtain ⟨ms, ⟨y, -, -, hms⟩, hm⟩ := (imprints_checkBetween w _ _ _).attempt.ends hk
  refine Nat.lt_of_lt_of_le ?_ he.trace_le
  rw [hm.trace]
  rcases hms with rfl | rfl
  · exact Nat.succ_pos _
  · exact Nat.succ_pos _

end KeyAgreement

namespace Session

open KeyAgreement PublicKey

variable {s : Session} {c : NamedCurve} {D : Domain} {key publicKey : Bytes}

theorem answers_validate (hs : s.Idle) (hc : s.curve = some c) {K : Constants}
    (hK : s.engine.memory.constants c.words = K) (h0 : K.null = 0)
    (hl : publicKey.length = 2 * c.elementBytes) :
    s.Answers (.validate publicKey)
      (if Valid K (Bytes.value (publicKey.take c.elementBytes))
          (Bytes.value (publicKey.drop c.elementBytes)) then .ok [] else .error .failed) := by
  obtain ⟨h', -, he⟩ := (validate_computes ⟨hs.ready hc (.validate publicKey), c.words_le, hK, h0⟩
    hl).delivers_same (inward_validate c.words publicKey)
  refine answers_of_delivers (h := h') ?_
  rw [program_eq_work hc (.validate publicKey) hl]
  rw [validated_eq, apply_ite (Except.map fun _ => (s.host (.validate publicKey)).outputs)] at he
  exact he

/-- **what validation answers**, whatever the places of the prime and of the coefficients hold, reduced
or not, with a zero in the null element: it succeeds for a point of the curve with coordinates in range
and not zero, and fails plainly otherwise.  Values that vanish on the way are no exception, be they zero
or a multiple of the prime. -/
theorem validate_decides (hs : s.Idle) (hc : s.curve = some c) {p a b x y : Nat}
    (h0 : s.engine.memory.element c.words Layout.null = 0)
    (hp : s.engine.memory.element c.words Layout.field = p)
    (ha : s.engine.memory.element c.words Layout.coefficientA = a)
    (hb : s.engine.memory.element c.words Layout.coefficientB = b)
    (hl : publicKey.length = 2 * c.elementBytes)
    (hx : Bytes.value (publicKey.take c.elementBytes) = x)
    (hy : Bytes.value (publicKey.drop c.elementBytes) = y) :
    s.Answers (.validate publicKey)
      (if (0 < x ∧ x < p) ∧ (0 < y ∧ y < p) ∧ y ^ 2 % p = (x ^ 3 + a * x + b) % p then .ok []
        else .error .failed) := by
  subst hp ha hb hx hy
  exact answers_validate hs hc rfl h0 hl

/-- P-192 enabled with the constants of the small domain, but with a coefficient above the prime -/
def unreduced : Session :=
  let d : CurveData := { CurveData.small with a := 13, b := 5 }
  { small 1 with engine := { (small 1).engine with memory := d.load .zero } }

/-- for the abscissa 3 the square and the coefficient add up to 22, a multiple of the prime, and the
next product is zero; the ordinate 4 passes, and 5 does not -/
theorem validate_decides_unreduced :
    unreduced.Answers (.validate (pointBytes 6 (3, 4))) (.ok []) ∧
      unreduced.Answers (.validate (pointBytes 6 (3, 5))) (.error .failed) := by
  have hs : unreduced.Idle := ⟨rfl, rfl⟩
  have hK : unreduced.engine.memory.constants 6 = ⟨0, 1, ⟨11, 13⟩, .affine 6 2, 7, 13, 5⟩ :=
    CurveData.constants_load (by decide) .zero
  have h0 := congrArg Constants.null hK
  have hp := congrArg (fun K => K.law.p) hK
  have ha := congrArg Constants.coefficientA hK
  have hb := congrArg Constants.coefficientB hK
  have h₁ : unreduced.Answers (.validate (pointBytes 6 (3, 4))) _ :=
    validate_decides (x := 3) (y := 4) hs rfl h0 hp ha hb (by decide) (by decide) (by decide)
  have h₂ : unreduced.Answers (.validate (pointBytes 6 (3, 5))) _ :=
    validate_decides (x := 3) (y := 5) hs rfl h0 hp ha hb (by decide) (by decide) (by decide)
  rw [if_pos (by decide)] at h₁
  rw [if_neg (by decide)] at h₂
  exact ⟨h₁, h₂⟩

theorem idle_of_generate (hc : s.curve = some c) {d : Drive}
    (hr : (s.run (.generate key publicKey) d).1 = .ready (.ok ())) : s.Idle := by
  have he := ends_of_run hr
  rw [program_eq_work hc (.generate key publicKey) (sized_of_run hc hr)] at he
  obtain ⟨e, hn, -⟩ | ⟨a, k, hk, hrest⟩ := Ends.parts he
  · cases hn
  obtain ⟨blocks, hcourse⟩ := sample_course hk
  obtain ⟨block, k₀, hround⟩ := hcourse.exists_accepted
  have hpos := Nat.lt_of_lt_of_le (started_of_attemptWith hround) hrest.trace_le
  have hready := ready_of_run hr fun e => by rw [e] at hpos; cases hpos
  refine ⟨?_, hready.idle⟩
  show s.engine.powered = s.curve.isSome
  rw [hc]
  exact hready.powered

theorem validate_of_generate (hc : s.curve = some c)
    (hD : D.Describes (s.engine.memory.constants c.words)) {d : Drive} {outs : List Bytes}
    (hr : s.Yields (.generate key publicKey) d (.ok outs)) :
    ∃ a x y, outs = [a, pointBytes c.words (x, y)] ∧
      (0 < Bytes.value a ∧ Bytes.value a < D.order) ∧
      D.curve.coords (Bytes.value a • D.generator) = .affine x y ∧
      Bytes.point c.elementBytes (pointBytes c.words (x, y)) = .affine x y ∧
      (s.after (s.run (.generate key publicKey) d).2).Answers
        (.validate (pointBytes c.words (x, y)))
        (if Valid (s.engine.memory.constants c.words) x y then .ok [] else .error .failed) := by
  have hs := idle_of_generate hc hr.1
  obtain ⟨hw, block, ⟨a, x, y⟩, -, hv, hout⟩ := of_generate_ok hs hc rfl hD.null hr
  obtain ⟨rfl, ha, hxy⟩ := of_attempt hD hv
  have hp := (Domain.lt_two_pow hD).1
  have hx := D.curve.reduced_coords (Bytes.value a • D.generator)
  rw [hxy] at hx
  have hpoint : Bytes.point c.elementBytes (pointBytes c.words (x, y)) = .affine x y :=
    point_pointBytes (hx.1.trans hp) (hx.2.trans hp)
  obtain ⟨ex, ey⟩ := Point.affine.inj hpoint
  have hv := answers_validate (Idle.after hc hw.ready) hc (hw.constants c.words_le (Nat.le_refl _))
    hD.null (length_pointBytes c.words (x, y))
  rw [ex, ey] at hv
  exact ⟨a, x, y, hout, ha, hxy, hpoint, hv⟩

/-- **generated keys pass validation, a zero abscissa apart**: whenever generating answers with a
key pair, for constants that describe a curve with a generator of odd prime order, validation of the
public key succeeds in the session that follows if its abscissa is not zero; if it is zero, validation
fails, since it refuses zero coordinates -/
theorem validate_generated (hc : s.curve = some c)
    (hD : D.Describes (s.engine.memory.constants c.words))
    (hC : D.Copied (s.engine.memory.constants c.words)) (h2 : 2 < D.order) {d : Drive}
    {outs : List Bytes} (hr : s.Yields (.generate key publicKey) d (.ok outs)) :
    ∃ a A, outs = [a, A] ∧ (s.after (s.run (.generate key publicKey) d).2).Answers (.validate A)
      (if Bytes.value (A.take c.elementBytes) = 0 then .error .failed else .ok []) := by
  obtain ⟨a, x, y, hout, ha, hxy, hpoint, hv⟩ := validate_of_generate hc hD hr
  have hvalid := Domain.valid_iff hD hC h2 (D.addOrderOf_smul ha.1 ha.2) hxy
  refine ⟨a, _, hout, ?_⟩
  rw [(Point.affine.inj hpoint).1]
  by_cases hx : x = 0
  · rw [if_neg fun h => hvalid.mp h hx] at hv
    rw [if_pos hx]
    exact hv
  · rw [if_pos (hvalid.mpr hx)] at hv
    rw [if_neg hx]
    exact hv

/-- generating a key pair, with buffers as P-192 needs them -/
def keys : Operation := .generate (List.replicate 24 0) (List.replicate 48 0)

theorem validate_generated_keyed :
    (keyed 1).Yields keys .complete (.ok [Bytes.ofNat 6 1, pointBytes 6 publicOne]) ∧
      2 < NamedCurve.p192.standard.order ∧
      ((keyed 1).after ((keyed 1).run keys .complete).2).Answers (.validate (pointBytes 6 publicOne))
        (.ok []) := by
  obtain ⟨-, hc, hK⟩ := (serves_keyed 1).ready
  have hg : generated NamedCurve.p192.data.values 6 [some (Bytes.ofNat 6 1)] none =
      .ok (Bytes.ofNat 6 1, publicOne) := by decide +kernel
  have h2 : 2 < NamedCurve.p192.standard.order := by
    show 2 < NamedCurve.p192.data.n
    decide
  refine ⟨generate_keyed hg, h2, ?_⟩
  obtain ⟨a, A, hout, hv⟩ := validate_generated (D := NamedCurve.p192.standard) hc
    (hK ▸ NamedCurve.p192.describes_values) (hK ▸ NamedCurve.p192.copied_values) h2
    (generate_keyed hg)
  cases hout
  rw [if_neg (by decide)] at hv
  exact hv

/-! ### A zero abscissa -/

theorem generate_tiny :
    (tiny 2).Yields keys .complete (.ok [Bytes.ofNat 6 2, pointBytes 6 (0, 1)]) := by
  have hg : generated CurveData.tiny.values 6 [some (Bytes.ofNat 6 2)] none =
      .ok (Bytes.ofNat 6 2, 0, 1) := by decide_cbv
  have hs : (tiny 2).Idle := ⟨rfl, rfl⟩
  have ha : (tiny 2).Answers keys _ :=
    answers_generate hs rfl (constants_tiny 2) rfl (by decide) (by decide)
  have hv : generated CurveData.tiny.values NamedCurve.p192.words
      ((tiny 2).source.drop (tiny 2).drawn) (tiny 2).config.retryLimit = .ok _ := hg
  rw [hv] at ha
  exact ha.complete

/-- the private key 2 is generated, and its public key `(0, 1)` does not pass validation -/
theorem validate_tiny_fails :
    (Domain.tiny.Describes ((tiny 2).engine.memory.constants NamedCurve.p192.words) ∧
      Domain.tiny.Copied ((tiny 2).engine.memory.constants NamedCurve.p192.words) ∧
      2 < Domain.tiny.order) ∧
    (tiny 2).Yields keys .complete (.ok [Bytes.ofNat 6 2, pointBytes 6 (0, 1)]) ∧
    (((tiny 2).after ((tiny 2).run keys .complete).2).run
      (.validate (pointBytes 6 (0, 1))) .complete).1 = .ready (.error .failed) := by
  have hD : Domain.tiny.Describes CurveData.tiny.values := ⟨rfl, rfl, rfl, rfl⟩
  have hC : Domain.tiny.Copied CurveData.tiny.values := ⟨rfl, rfl⟩
  have hK := constants_tiny 2
  refine ⟨⟨hK ▸ hD, hK ▸ hC, by decide⟩, generate_tiny, ?_⟩
  obtain ⟨a, x, y, hout, -, -, hpoint, hv⟩ :=
    validate_of_generate (D := .tiny) rfl (hK ▸ hD) generate_tiny
  have hA : pointBytes 6 (0, 1) = pointBytes NamedCurve.p192.words (x, y) :=
    (List.cons.inj (List.cons.inj hout).2).1
  have h0 : Bytes.point NamedCurve.p192.elementBytes (pointBytes 6 (0, 1)) = .affine 0 1 := by
    decide
  rw [hA, hpoint] at h0
  obtain ⟨rfl, rfl⟩ := Point.affine.inj h0
  have hn : ¬ Valid ((tiny 2).engine.memory.constants NamedCurve.p192.words) 0 1 :=
    fun h => Nat.lt_irrefl 0 h.1.1
  rw [if_neg hn] at hv
  exact hv.complete.1

end Session
end CurveEngine
