import CurveEngine.Proofs.Arithmetic
import CurveEngine.Proofs.Twins

/-!
# The arithmetic programs on twins

For each program of `Arithmetic`: which windows must be known, which ones may be written, and which
ones are known afterwards.  Whatever else is in memory or in the registers makes no difference.

* `keeps_load` … `keeps_lowWord`         byte strings to and from memory;
* `keeps_compare`, `keeps_checkBetween`   an element below another one shows that the other one is not
                                         zero, which is what an inversion needs of its modulus;
* `keeps_copy` … `keeps_point`           what is stored is known.
-/

namespace CurveEngine.Arithmetic

open Program
open Host (Twins Abreast Refused)
open Window (Covered Free Agree)

variable {a b : Host} {ws : List Window} {w : Nat}

/-- whatever is known of `a` below the scratchpad is known of the first twin -/
theorem element_twins {h₁ h₂ : Host} (hT : Twins a b ws h₁ h₂) {o : Nat}
    (ho : o + w ≤ Layout.scratchpad) : h₁.element w o = a.element w o :=
  Memory.element_ext fun i _ => hT.constants (o + i) (by omega)

theorem covered_le {o n : Nat} (h : Covered ws (o, n)) :
    o ≤ Layout.memoryWords ∧ n ≤ Layout.memoryWords := by
  have hf := h.1
  unfold Memory.Fits at hf
  omega

theorem free_le {o n : Nat} (h : Free (o, n)) :
    o ≤ Layout.memoryWords ∧ n ≤ Layout.memoryWords := by
  have hf := h.2
  unfold Memory.Fits at hf
  omega

/-! ## Byte strings in memory -/

theorem keeps_load {o : Nat} (bs : Bytes) (ho : Free (o, w)) :
    Keeps a b ws (load w bs o) (fun _ => [(o, w)]) Any := by
  have hl : (Bytes.overWords (bs.take (4 * w)) (List.replicate w 0)).length = w := by
    unfold Bytes.overWords
    rw [Bytes.length_overlay, List.length_replicate]
  unfold load
  generalize Bytes.overWords (bs.take (4 * w)) (List.replicate w 0) = vs at hl
  subst hl
  exact keeps_writeMemory ho

theorem keeps_loadPoint {o : Nat} (bs : Bytes) (ho : ∀ r ∈ Opcode.coordinates o w, Free r) :
    Keeps a b ws (loadPoint w bs o) (fun _ => Opcode.coordinates o w) Any := by
  simp only [Opcode.coordinates, List.forall_mem_cons] at ho
  refine (keeps_load _ ho.1).bind fun _ _ => (keeps_load _ ho.2.1).imp (fun _ => ?_) fun _ h => h
  simp only [Opcode.coordinates, List.forall_mem_cons]
  exact ⟨Window.covered_self ho.1.2 (by simp), Window.covered_self ho.2.1.2 (by simp), by simp⟩

theorem keeps_fetch {o i start : Nat} (ho : Covered ws (o, w))
    (hi : start + 4 * w ≤ (a.outputs.map List.length).getD i 0) :
    Keeps a b ws (fetch w o i start) (fun _ => []) Any :=
  (keeps_readMemory ho).bind fun _ _ => keeps_output hi nofun

/-- two elements, one behind the other in an output buffer -/
theorem keeps_fetchBoth {o o' i : Nat} (ho : Covered ws (o, w)) (ho' : Covered ws (o', w))
    (hi : 2 * (4 * w) ≤ (a.outputs.map List.length).getD i 0) :
    Keeps a b ws ((fetch w o i 0).bind fun _ => fetch w o' i (4 * w)) (fun _ => []) Any :=
  (keeps_fetch ho (by omega)).bind fun _ _ => keeps_fetch ho' (by omega)

theorem keeps_lowWord {o : Nat} (ho : Covered ws (o, 1)) :
    Keeps a b ws (lowWord o) (fun _ => []) Any :=
  (keeps_readMemory ho).bind fun _ _ => .of_done (by simp) trivial

/-! ## Without reduction -/

section
variable {l : List (Register × Nat)} {f : Opcode} {u : Operands}
  (hl : ∀ rn ∈ l, rn.1.isOperand = true ∧ rn.2 ≤ Layout.memoryWords)
  (hu : ∀ o : Operands, f.trim (o.setAll l) = f.trim u)
  (hr : ∀ r ∈ f.reads u, Covered ws r) (ht : ∀ r ∈ f.targets u, Free r)
include hl hu hr ht

/-- a function whose operands are all set just before -/
theorem keeps_invoke (hf : f ≠ .invert) {new : List Window}
    (hn : ∀ x : Effect, x.Form f u → ∀ m m', (∀ r ∈ x.stretches ++ ws, Agree r m m') →
      ∀ r ∈ new, Agree r m m') :
    Keeps a b ws (invoke l f) (fun _ => new) Any := by
  intro h₁ h₂ hT
  refine lockstep_invoke hT hl (hu _) (hu _) hr ht (fun e => absurd e hf) ?_
  intro _ x k₁ k₂ _ _ _ _ _ hform hT' _ _ _ _
  refine ⟨{ hT' with agree := fun r h => ?_ }, trivial⟩
  obtain h | h := List.mem_append.mp h
  · exact hn x hform _ _ hT'.agree r h
  · exact hT'.agree r (List.mem_append_right _ h)

/-- a function and what a status register says about it -/
theorem keeps_status (hm : f = .invert →
      u.b + u.bLength ≤ Layout.scratchpad ∧ a.element u.bLength u.b ≠ 0)
    {r : Register} (hf : r ≠ .function) {new : Word → List Window}
    (hn : ∀ x : Effect, x.Form f u → ∃ v, (∀ g, (x.onRegisters g).get r = v) ∧
      ∀ m m', (∀ r ∈ x.stretches ++ ws, Agree r m m') → ∀ r ∈ new v, Agree r m m') :
    Keeps a b ws ((invoke l f).bind fun _ => readRegister r) new Any := by
  intro h₁ h₂ hT
  apply Lockstep.bind
  refine lockstep_invoke hT hl (hu _) (hu _) hr ht (fun e => ?_) ?_
  · rw [element_twins hT (hm e).1]
    exact (hm e).2
  · intro _ x k₁ k₂ g₁ g₂ _ _ _ hform hT' _ _ r₁ r₂
    obtain ⟨v, hv, hw⟩ := hn x hform
    refine lockstep_readRegister hf (v := v) (by rw [r₁, hv]) (by rw [r₂, hv]) ?_
    refine ⟨{ hT' with agree := fun r h => ?_ }, trivial⟩
    obtain h | h := List.mem_append.mp h
    · exact hw _ _ hT'.agree r h
    · exact hT'.agree r (List.mem_append_right _ h)

end

theorem keeps_copy {source target n : Nat} (hs : Covered ws (source, n)) (ht : Free (target, n)) :
    Keeps a b ws (copy source target n) (fun _ => [(target, n)]) Any := by
  have ls := covered_le hs
  have lt := free_le ht
  refine keeps_invoke (l := [(.aPtr, source), (.aLength, n), (.cPtr, target)]) (f := .copy)
    (u := ⟨source, 0, target, 0, n, 0⟩) ?_ (fun _ => rfl)
    (List.forall_mem_singleton.mpr hs) (List.forall_mem_singleton.mpr ht) (by simp) ?_
  · simp [Register.isOperand, ls, lt]
  · intro x hx m m' h
    obtain ⟨vs, hl, rfl⟩ := hx
    obtain rfl : vs.length = n := hl
    exact List.forall_mem_singleton.mpr (h _ (by simp [Effect.stretches]))

theorem keeps_compare {x y : Nat} (hx : Covered ws (x, w)) (hy : Covered ws (y, w)) :
    Keeps a b ws (compare w x y) (fun _ => [])
      fun r => y + w ≤ Layout.scratchpad → r = .lt → a.element w y ≠ 0 := by
  intro h₁ h₂ hT
  have lx := covered_le hx
  have ly := covered_le hy
  have hr : ∀ r ∈ Opcode.compare.reads ⟨x, y, 0, 0, w, 0⟩, Covered ws r := by
    simp only [Opcode.reads, List.forall_mem_cons]
    exact ⟨hx, hy, by simp⟩
  show ((invoke [(.aPtr, x), (.aLength, w), (.bPtr, y)] .compare).bind fun _ =>
    (readRegister .compare).bind fun v => done (Status.ordering v)).Lockstep _ _ _ _ _
  apply Lockstep.bind
  refine lockstep_invoke hT (u := ⟨x, y, 0, 0, w, 0⟩) ?_ rfl rfl hr (by simp [Opcode.targets])
    (by simp) ?_
  · simp [Register.isOperand, lx, ly]
  · intro e v k₁ k₂ g₁ g₂ hm ho hv _ hT' _ _ r₁ r₂
    rw [Engine.effect_compare ho fun r h => (hr r h).1, hm] at hv
    obtain rfl := Except.ok.inj hv
    apply Lockstep.bind
    refine lockstep_readRegister (by simp)
      (v := Status.ofOrdering (Ord.compare (h₁.element w x) (h₁.element w y)))
      (by rw [r₁]; rfl) (by rw [r₂]; rfl) ⟨hT', fun hs hlt => ?_⟩
    rw [Status.ordering_ofOrdering, Nat.compare_eq_lt] at hlt
    rw [← element_twins hT hs]
    exact Nat.ne_zero_of_lt hlt

/-- a range check that succeeds shows that the upper bound is not zero -/
theorem keeps_checkBetween {x low high : Nat} (hx : Covered ws (x, w)) (hl : Covered ws (low, w))
    (hh : Covered ws (high, w)) :
    Keeps a b ws (checkBetween w x low high) (fun _ => [])
      fun _ => high + w ≤ Layout.scratchpad → a.element w high ≠ 0 := by
  refine (keeps_compare hx hl).bind fun r _ => .ite (fun _ => .of_fail) fun _ => ?_
  refine (keeps_compare hx hh).bind fun r hr => .ite (fun _ => .of_fail) fun h => ?_
  exact .of_done (by simp) fun hs => hr hs (not_not.mp h)

theorem keeps_subtract {x y result : Nat} (hx : Covered ws (x, w)) (hy : Covered ws (y, w))
    (hs : Free (Layout.scratchpad, w)) (ht : Free (result, w)) :
    Keeps a b ws (subtract w x y result) (fun _ => [(result, w)]) Any := by
  have lx := covered_le hx
  have ly := covered_le hy
  have ls := free_le hs
  have hd : Keeps a b ws (invoke [(.aPtr, x), (.aLength, w), (.bPtr, y), (.bLength, w),
      (.cPtr, Layout.scratchpad)] .subtract) (fun _ => [(Layout.scratchpad, w)]) Any := by
    refine keeps_invoke (u := ⟨x, y, Layout.scratchpad, 0, w, w⟩) ?_ (fun _ => rfl) ?_ ?_
      (by simp) ?_
    · simp [Register.isOperand, lx, ly, ls]
    · simp only [Opcode.reads, List.forall_mem_cons]
      exact ⟨hx, hy, by simp⟩
    · simpa [Opcode.targets] using hs
    · intro e he m m' h
      obtain ⟨v, rfl⟩ := he
      rw [Effect.stretches_stored, Nat.max_self] at h
      exact List.forall_mem_singleton.mpr (h _ (by simp))
  exact hd.bind fun _ _ => keeps_copy (Window.covered_self hs.2 (by simp)) ht

/-! ## Modulo a number -/

theorem keeps_invert {x m result : Nat} (hx : Covered ws (x, w)) (hm : Covered ws (m, w))
    (hs : Free (Layout.scratchpad, w)) (ht : Free (result, w)) (hc : m + w ≤ Layout.scratchpad)
    (h0 : a.element w m ≠ 0) :
    Keeps a b ws (invert w x m result) (fun _ => [(result, w)]) Any := by
  have lx := covered_le hx
  have lm := covered_le hm
  have ls := free_le hs
  have hi : Keeps a b ws ((invoke [(.aPtr, x), (.aLength, w), (.bPtr, m), (.bLength, w),
      (.dPtr, Layout.scratchpad)] .invert).bind fun _ => readRegister .msw)
      (fun _ => [(Layout.scratchpad, w)]) Any := by
    refine keeps_status (u := ⟨x, m, 0, Layout.scratchpad, w, w⟩) ?_ (fun _ => rfl) ?_ ?_
      (fun _ => ⟨hc, h0⟩) (by simp) ?_
    · simp [Register.isOperand, lx, lm, ls]
    · simp only [Opcode.reads, List.forall_mem_cons]
      exact ⟨hx, hm, by simp⟩
    · simpa [Opcode.targets] using hs
    · intro e he
      obtain ⟨v, rfl⟩ := he
      refine ⟨_, fun _ => rfl, fun m m' h => ?_⟩
      rw [Effect.stretches_stored] at h
      exact List.forall_mem_singleton.mpr (h _ (by simp))
  exact hi.bind fun v _ =>
    .ite (fun _ => .of_fail) fun _ => keeps_copy (Window.covered_self hs.2 (by simp)) ht

/-- a raw result in the scratchpad, reduced; the length of the modulus is still in its register -/
theorem lockstep_reduce {k₁ k₂ : Host} (hT : Twins a b ws k₁ k₂) {m result n : Nat}
    (h₁ : k₁.engine.registers.operands.bLength = w) (h₂ : k₂.engine.registers.operands.bLength = w)
    (hn : Covered ws (Layout.scratchpad, n)) (hm : Covered ws (m, w)) (ht : Free (result, w + 1)) :
    (invoke [(.aPtr, Layout.scratchpad), (.aLength, n), (.bPtr, m), (.cPtr, result)]
      .modulo).Lockstep (Abreast a b) (Refused a) k₁ k₂ fun r k₁ k₂ =>
        match r with
        | .ok _ => Twins a b ((result, w + 1) :: ws) k₁ k₂ ∧ True
        | .error _ => Twins a b ws k₁ k₂ := by
  have ln := covered_le hn
  have lm := covered_le hm
  have lt := free_le ht
  refine lockstep_invoke hT (u := ⟨Layout.scratchpad, m, result, 0, n, w⟩) ?_ ?_ ?_ ?_
    (List.forall_mem_singleton.mpr ht) (by simp) ?_
  · simp [Register.isOperand, ln, lm, lt]
  · rw [← h₁]
    rfl
  · rw [← h₂]
    rfl
  · simp only [Opcode.reads, List.forall_mem_cons]
    exact ⟨hn, hm, by simp⟩
  · intro _ e k₁ k₂ _ _ _ _ _ he hT' _ _ _ _
    obtain ⟨v, rfl⟩ := he
    rw [Effect.stretches_stored] at hT'
    exact ⟨hT', trivial⟩

/-- the words that are reduced are among those of the raw result -/
theorem covered_rawLength {vs : List Word} {n : Nat} (hl : vs.length = n)
    (hfit : Layout.scratchpad + n ≤ Layout.memoryWords) (hw : w ≤ n)
    (hz : ¬ Status.isZero (Status.msw Layout.scratchpad vs) = true) :
    Covered [(Layout.scratchpad, n)]
      (Layout.scratchpad, rawLength w (Status.address (Status.msw Layout.scratchpad vs))) := by
  have hv : Words.value vs ≠ 0 := fun h0 => hz (Status.isZero_msw_of_zero h0)
  have hlen : Layout.scratchpad + vs.length ≤ 0x800 := by
    rw [hl]
    exact Nat.le_trans hfit (by decide)
  obtain ⟨-, i, hi, hadr, -⟩ := Status.msw_of_ne_zero hlen hv
  have hle : rawLength w (Status.address (Status.msw Layout.scratchpad vs)) ≤ n := by
    unfold rawLength
    omega
  exact ⟨Nat.le_trans (Nat.add_le_add_left hle _) hfit, _, List.mem_singleton_self _,
    Nat.le_refl _, Nat.add_le_add_left hle _⟩

/-- a raw result of `n` words in the scratchpad, and its remainder -/
theorem keeps_modular {f : Opcode} {x y m result n : Nat} (hx : Covered ws (x, w))
    (hy : Covered ws (y, w)) (hm : Covered ws (m, w)) (hs : Free (Layout.scratchpad, n))
    (ht : Free (result, w + 1)) (hw : w ≤ n) (hf : f ≠ .invert)
    (hu : ∀ o : Operands, f.trim (o.setAll [(.aPtr, x), (.aLength, w), (.bPtr, y), (.bLength, w),
      (.cPtr, Layout.scratchpad)]) = f.trim ⟨x, y, Layout.scratchpad, 0, w, w⟩)
    (hr : f.reads ⟨x, y, Layout.scratchpad, 0, w, w⟩ = [(x, w), (y, w)])
    (hg : f.targets ⟨x, y, Layout.scratchpad, 0, w, w⟩ = [(Layout.scratchpad, n)])
    (hform : ∀ e : Effect, e.Form f ⟨x, y, Layout.scratchpad, 0, w, w⟩ →
      ∃ v, e = .stored Layout.scratchpad n v) :
    Keeps a b ws (modular f w x y m result) (fun _ => [(result, w + 1)]) Any := by
  intro h₁ h₂ hT
  have lx := covered_le hx
  have ly := covered_le hy
  have ls := free_le hs
  show ((invoke [(.aPtr, x), (.aLength, w), (.bPtr, y), (.bLength, w), (.cPtr, Layout.scratchpad)]
    f).bind fun _ => (readRegister .msw).bind fun v => if Status.isZero v then fail .zeroResult
      else invoke [(.aPtr, Layout.scratchpad), (.aLength, rawLength w (Status.address v)),
        (.bPtr, m), (.cPtr, result)] .modulo).Lockstep _ _ _ _ _
  apply Lockstep.bind
  refine lockstep_invoke hT (u := ⟨x, y, Layout.scratchpad, 0, w, w⟩) ?_ (hu _) (hu _) ?_ ?_
    (fun e => absurd e hf) ?_
  · simp [Register.isOperand, lx, ly, ls]
  · rw [hr]
    simp only [List.forall_mem_cons]
    exact ⟨hx, hy, by simp⟩
  · rw [hg]
    exact List.forall_mem_singleton.mpr hs
  · intro _ e k₁ k₂ g₁ g₂ _ _ _ he hT' o₁ o₂ r₁ r₂
    obtain ⟨v, rfl⟩ := hform e he
    rw [Effect.stretches_stored] at hT'
    have b₁ : k₁.engine.registers.operands.bLength = w := by
      rw [r₁]
      exact congrArg Operands.bLength o₁
    have b₂ : k₂.engine.registers.operands.bLength = w := by
      rw [r₂]
      exact congrArg Operands.bLength o₂
    apply Lockstep.bind
    refine lockstep_readRegister (by simp)
      (v := Status.msw Layout.scratchpad (Words.ofNat n v)) (by rw [r₁]; rfl) (by rw [r₂]; rfl) ?_
    have hlen : (Words.ofNat n v).length = n := Words.length_ofNat n v
    generalize Words.ofNat n v = vs at hlen
    show (if Status.isZero (Status.msw Layout.scratchpad vs) = true then fail .zeroResult
      else invoke _ _).Lockstep _ _ _ _ _
    by_cases hz : Status.isZero (Status.msw Layout.scratchpad vs) = true
    · rw [if_pos hz]
      exact hT'.subset (by simp)
    · rw [if_neg hz]
      have hraw := covered_rawLength hlen hs.2 hw hz
      refine (lockstep_reduce hT' b₁ b₂ (hraw.mono (by simp)) (hm.mono (by simp)) ht).imp ?_
      intro r k₁ k₂ h
      cases r with
      | error e => exact h.subset (by simp)
      | ok _ =>
        refine ⟨h.1.subset ?_, h.2⟩
        intro r hr
        simp only [List.mem_append, List.mem_cons, List.not_mem_nil, or_false] at hr ⊢
        tauto

theorem keeps_multiply {x y m result : Nat} (hr : ∀ r ∈ [(x, w), (y, w), (m, w)], Covered ws r)
    (ht : ∀ r ∈ [(Layout.scratchpad, w + w), (result, w + 1)], Free r) :
    Keeps a b ws (modular .multiply w x y m result) (fun _ => [(result, w + 1)]) Any := by
  simp only [List.forall_mem_cons] at hr ht
  obtain ⟨hx, hy, hm, -⟩ := hr
  exact keeps_modular hx hy hm ht.1 ht.2.1 (Nat.le_add_left w w) (by simp) (fun _ => rfl) rfl rfl
    fun _ h => h

theorem keeps_add {x y m result : Nat} (hr : ∀ r ∈ [(x, w), (y, w), (m, w)], Covered ws r)
    (ht : ∀ r ∈ [(Layout.scratchpad, w + w), (result, w + 1)], Free r) (h0 : 0 < w) :
    Keeps a b ws (modular .add w x y m result) (fun _ => [(result, w + 1)]) Any := by
  simp only [List.forall_mem_cons] at hr ht
  obtain ⟨hx, hy, hm, -⟩ := hr
  have hs : Free (Layout.scratchpad, w + 1) := by
    obtain ⟨⟨hl, hf⟩, -⟩ := ht
    exact ⟨hl, Nat.le_trans (Nat.add_le_add_left (by omega : w + 1 ≤ w + w) _) hf⟩
  refine keeps_modular hx hy hm hs ht.2.1 (Nat.le_succ w) (by simp) (fun _ => rfl) rfl ?_ ?_
  · show [(Layout.scratchpad, max w w + 1)] = _
    rw [Nat.max_self]
  · intro e he
    have he : ∃ v, e = Effect.stored Layout.scratchpad (max w w + 1) v := he
    rwa [Nat.max_self] at he

theorem keeps_field {f : Opcode} {x y result : Nat}
    (hm : Keeps a b ws (modular f w x y Layout.field result) (fun _ => [(result, w + 1)]) Any)
    (h0 : Covered ws (Layout.null, w)) (ht : Free (result, w)) :
    Keeps a b ws (field f w x y result) (fun _ => [(result, w)]) Any := by
  refine hm.attempt.bind fun r _ => ?_
  cases r with
  | ok _ =>
    refine .of_done (List.forall_mem_singleton.mpr ?_) trivial
    exact ⟨ht.2, (result, w + 1), by simp, Nat.le_refl _, Nat.le_succ _⟩
  | error e => exact keeps_copy h0 ht

/-! ## Points -/

/-- what both functions on points have in common -/
theorem point_forms {f : Opcode} (hf : f = .pointMul ∨ f = .pointAdd) (x y w : Nat) :
    let u : Operands := ⟨x, Layout.field, y, Layout.scratchpad, w, w⟩
    f ≠ .invert ∧ (∀ o : Operands, f.trim (o.setAll (pointOperands w x y)) = f.trim u) ∧
      ((x, w) ∈ f.reads u ∧ (y, w) ∈ f.reads u) ∧
      f.targets u = [(Layout.scratchpad, Layout.coordinateSpace w),
        (Layout.scratchpad + Layout.coordinateSpace w, Layout.coordinateSpace w)] ∧
      ∀ e : Effect, e.Form f u → (∃ v, v ≠ Status.pointDone ∧ e = .state .shift v) ∨
        ∃ p q, e = .storedPoint Layout.scratchpad (Layout.coordinateSpace w) p q := by
  obtain rfl | rfl := hf
  all_goals
    refine ⟨by simp, fun _ => rfl, ⟨?_, ?_⟩, rfl, fun _ h => h⟩
    · simp [Opcode.reads, Opcode.coordinates]
    · simp [Opcode.reads, Opcode.coordinates]

/-- a function on points: if its result is regular, both coordinates lie in the scratchpad -/
theorem keeps_point {f : Opcode} {x y result : Nat} (hf : f = .pointMul ∨ f = .pointAdd)
    (hr : ∀ r ∈ f.reads ⟨x, Layout.field, y, Layout.scratchpad, w, w⟩, Covered ws r)
    (hs : ∀ r ∈ [(Layout.scratchpad, Layout.pointSpace w), (result, Layout.pointSpace w)], Free r) :
    Keeps a b ws (point f w x y result) (fun _ => [(result, Layout.pointSpace w)]) Any := by
  simp only [List.forall_mem_cons] at hs
  obtain ⟨hs, ht, -⟩ := hs
  have e2 : Layout.pointSpace w = Layout.coordinateSpace w + Layout.coordinateSpace w := by
    unfold Layout.pointSpace
    omega
  obtain ⟨hi, hu, ⟨hx, hy⟩, htargets, hform⟩ := point_forms hf x y w
  have lx := covered_le (hr _ hx)
  have ly := covered_le (hr _ hy)
  have hd : ∀ r ∈ f.targets ⟨x, Layout.field, y, Layout.scratchpad, w, w⟩, Free r := by
    obtain ⟨hl, hfit⟩ := hs
    unfold Memory.Fits at hfit
    rw [htargets]
    simp only [List.forall_mem_cons, Free, Memory.Fits]
    refine ⟨⟨hl, by omega⟩, ⟨by omega, by omega⟩, by simp⟩
  have hp : Keeps a b ws ((invoke (pointOperands w x y) f).bind fun _ => readRegister .shift)
      (fun v => if v = Status.pointDone then [(Layout.scratchpad, Layout.pointSpace w)] else [])
      Any := by
    refine keeps_status ?_ hu hr hd (fun e => absurd e hi) (by simp) ?_
    · simp [pointOperands, Register.isOperand, lx, ly]
      decide
    · intro e he
      obtain ⟨v, hv, rfl⟩ | ⟨p, q, rfl⟩ := hform e he
      · refine ⟨v, fun _ => rfl, ?_⟩
        rw [if_neg hv]
        exact fun _ _ _ r h => absurd h List.not_mem_nil
      · refine ⟨Status.pointDone, fun _ => rfl, fun m m' h => ?_⟩
        rw [Effect.stretches_storedPoint] at h
        rw [if_pos rfl, e2]
        exact List.forall_mem_singleton.mpr (.join (h _ (by simp)) (h _ (by simp)))
  refine hp.bind fun v _ => ?_
  refine .ite (fun _ => .of_fail) fun _ => .ite (fun _ => .of_refuse) fun h => ?_
  rw [not_not] at h
  rw [if_pos h]
  exact keeps_copy (Window.covered_self hs.2 (by simp)) ht

end CurveEngine.Arithmetic
