import CurveEngine.Proofs.Computes

/-!
# What the arithmetic programs compute

For elements of at most `Layout.elementSlot` words, each program of `Arithmetic` is compared with a
computation on plain numbers:

* `Residue.between`     `low < x < high`, or a failure;
* `Residue.total`       a raw result modulo a number, where everything is 0 modulo 0;
* `Residue.reduced`     the same, refusing a raw result that is zero;
* `Residue.inverted`    the inverse, refusing zero;
* `Point.regular`       a point's coordinates, refusing infinity and failed operations;
* `Arithmetic.raw`, `Arithmetic.rawWords`   the raw result of a product or a sum, and its words.

The raw result of a product or a sum stays in the scratchpad until it is reduced, so the modulus must
lie outside of it; the operands are read before anything is written.
-/

namespace CurveEngine

namespace Residue

/-- fails unless `low < x < high` -/
def between (x low high : Nat) : Except Failure Unit :=
  if low < x ∧ x < high then .ok () else .error .failed

/-- a raw result modulo `m`, 0 modulo 0 -/
def total (raw m : Nat) : Nat := if m = 0 then 0 else raw % m

/-- a raw result modulo `m`, refusing a raw zero -/
def reduced (raw m : Nat) : Except Failure Nat :=
  if raw = 0 then .error .zeroResult else .ok (total raw m)

/-- the inverse of `a` modulo `m`, refusing zero -/
def inverted (a m : Nat) : Except Failure Nat :=
  let i := (inverse? a m).getD 0
  if i = 0 then .error .zeroResult else .ok i

theorem total_of_pos {m : Nat} (hm : 0 < m) (raw : Nat) : total raw m = raw % m :=
  if_neg (Nat.ne_of_gt hm)

theorem total_zero (m : Nat) : total 0 m = 0 := by
  unfold total
  split
  · rfl
  · exact Nat.zero_mod m

theorem reduced_eq_ok_iff {raw m v : Nat} (hm : 0 < m) :
    reduced raw m = .ok v ↔ raw ≠ 0 ∧ v = raw % m := by
  unfold reduced
  rw [total_of_pos hm]
  by_cases h : raw = 0
  · rw [if_pos h]
    exact ⟨fun e => (by cases e), fun e => absurd h e.1⟩
  · rw [if_neg h, Except.ok.injEq]
    exact ⟨fun e => ⟨h, e.symm⟩, fun e => e.2.symm⟩

theorem total_lt {raw m k : Nat} (hk : 0 < k) (hm : m < k) : total raw m < k := by
  unfold total
  split
  · exact hk
  · exact Nat.lt_trans (Nat.mod_lt raw (by omega)) hm

end Residue

/-- the coordinates of a point, refusing infinity and failed operations -/
def Point.regular : Option Point → Except Failure (Nat × Nat)
  | none => .error .failed
  | some .infinity => .error .infinity
  | some (.affine x y) => .ok (x, y)

/-- an element with this value lies at `o` -/
def Program.Stored (w o : Nat) (_ : Unit) (v : Nat) (h : Host) : Prop := h.element w o = v

/-- a point with these coordinates lies at `o` -/
def Program.StoredPoint (w o : Nat) (_ : Unit) (v : Nat × Nat) (h : Host) : Prop :=
  h.engine.memory.point w o = .affine v.1 v.2

namespace Arithmetic

open Program
open Memory (Fits)
open Layout (Place PointPlace Within)

theorem le_memoryWords {w : Nat} (hw : w ≤ Layout.elementSlot) : w ≤ Layout.memoryWords :=
  Nat.le_trans hw (by decide)

/-- words moved, with what becomes of the memory -/
theorem ends_copy {h : Host} (hr : h.Ready) {source target n : Nat} (hs : Fits source n)
    (ht : Fits target n) :
    ∃ h', (copy source target n).Ends h (.ok ()) h' ∧ h'.Ready ∧ h'.engine.memory =
      h.engine.memory.overwrite target (h.engine.memory.window source n) := by
  obtain ⟨h', he, hr', hm⟩ := ends_invoke hr
    (l := [(.aPtr, source), (.aLength, n), (.cPtr, target)]) (f := .copy)
    (Q := fun m _ => m = h.engine.memory.overwrite target (h.engine.memory.window source n))
    (by
      unfold Memory.Fits at hs
      simp [Register.isOperand, ht.le]
      omega)
    (fun e hm ho => by
      refine ⟨_, e.registers, Engine.execute_copy ho hs ht, ?_⟩
      rw [hm]
      rfl)
  exact ⟨h', he, hr', hm⟩

/-! ## Raw results -/

/-- the raw result of a product or a sum -/
def raw (f : Opcode) (x y : Nat) : Nat := if f = .multiply then x * y else x + y

/-- the words that a raw result of two elements is written to -/
def rawWords (f : Opcode) (w : Nat) : Nat := if f = .multiply then w + w else w + 1

section
variable {w : Nat} (hw : w ≤ Layout.elementSlot) {f : Opcode} (hf : f = .multiply ∨ f = .add)

include hw in
theorem rawWords_bounds (f : Opcode) : w ≤ rawWords f w ∧ rawWords f w ≤ 16 := by
  unfold Layout.elementSlot Layout.elementWords at hw
  unfold rawWords
  split <;> omega

include hf in
theorem raw_lt {x y : Nat} (hx : x < 2 ^ (32 * w)) (hy : y < 2 ^ (32 * w)) :
    raw f x y < 2 ^ (32 * rawWords f w) := by
  obtain rfl | rfl := hf
  · show x * y < 2 ^ (32 * (w + w))
    rw [Nat.mul_add, Nat.pow_add]
    exact Nat.mul_lt_mul'' hx hy
  · show x + y < 2 ^ (32 * (w + 1))
    rw [Words.pow_succ_words]
    omega

include hw hf in
theorem execute_raw {e : Engine} {a b d : Nat}
    (ho : e.registers.operands = ⟨a, b, Layout.scratchpad, d, w, w⟩) (ha : Fits a w)
    (hb : Fits b w) :
    e.execute f = e.store Layout.scratchpad (rawWords f w)
      (raw f (e.memory.element w a) (e.memory.element w b)) := by
  have hs : Fits Layout.scratchpad (rawWords f w) :=
    Memory.Fits.mono (by decide : Fits _ 16) (rawWords_bounds hw f).2
  obtain rfl | rfl := hf
  · exact Engine.execute_multiply ho ha hb hs
  · rw [Engine.execute_add ho ha hb]
    show e.store _ (max w w + 1) _ = _
    rw [Nat.max_self]
    rfl

/-- the operands of a product or a sum whose result goes to the scratchpad -/
def rawSettings (w a b : Nat) : List (Register × Nat) :=
  [(.aPtr, a), (.aLength, w), (.bPtr, b), (.bLength, w), (.cPtr, Layout.scratchpad)]

include hw in
theorem rawSettings_le {a b : Nat} (ha : a ≤ Layout.memoryWords) (hb : b ≤ Layout.memoryWords) :
    ∀ rn ∈ rawSettings w a b, rn.1.isOperand = true ∧ rn.2 ≤ Layout.memoryWords := by
  simp [rawSettings, Register.isOperand, ha, hb, le_memoryWords hw]
  decide

end

/-! ## Results in the scratchpad -/

/-- a function whose result goes to the scratchpad and is refused if it is zero: what follows finds
the result there, and in the status register how many words it takes -/
theorem refuseZero_computes {α β : Type} {h : Host} (hr : h.Ready) {l : List (Register × Nat)}
    {f : Opcode} {n v : Nat} {k : Word → Program α} {o n' : Nat} {y : Except Failure β}
    {post : α → β → Host → Prop}
    (hl : ∀ rn ∈ l, rn.1.isOperand = true ∧ rn.2 ≤ Layout.memoryWords) (hn : n ≤ 16)
    (hv : v < 2 ^ (32 * n))
    (hx : ∀ e : Engine, e.memory = h.engine.memory →
      e.registers.operands = h.engine.registers.operands.setAll l →
      e.execute f = e.store Layout.scratchpad n v)
    (hk : v ≠ 0 → ∀ h₁ status, (invoke l f).Ends h (.ok ()) h₁ → h₁.Ready → h.Writes h₁ o n' →
      h₁.engine.memory = h.engine.memory.overwrite Layout.scratchpad (Words.ofNat n v) →
      h₁.engine.registers.operands = h.engine.registers.operands.setAll l →
      (∃ i, i < n ∧ Status.address status = Layout.scratchpad + i ∧ v < 2 ^ (32 * (i + 1))) →
      (k status).Computes h₁ o n' y post) :
    ((invoke l f).bind fun _ => (readRegister .msw).bind fun status =>
      if Status.isZero status then fail .zeroResult else k status).Computes h o n'
        (if v = 0 then .error .zeroResult else y) post := by
  have hs : Fits Layout.scratchpad n := Memory.Fits.mono (by decide : Fits _ 16) hn
  have hlen : (Words.ofNat n v).length = n := Words.length_ofNat n v
  obtain ⟨h₁, he, hr₁, hm, hg, ho⟩ := ends_invoke hr (l := l) (f := f)
    (Q := fun m g => m = h.engine.memory.overwrite Layout.scratchpad (Words.ofNat n v) ∧
      g.msw = Status.msw Layout.scratchpad (Words.ofNat n v) ∧
      g.operands = h.engine.registers.operands.setAll l) hl
    (fun e hmem ho => ⟨_, _, (hx e hmem ho).trans (Engine.store_eq hs v), by rw [hmem], rfl, ho⟩)
  have w₁ : h.Writes h₁ o n' :=
    .of_scratchpad hr₁ hm (by rw [hlen]; exact Nat.le_trans hn (by decide)) o n'
  have hread : (readRegister .msw).Ends h₁ (.ok h₁.engine.registers.msw) h₁ :=
    ends_readRegister (by decide)
  have hval : Words.value (Words.ofNat n v) = v := Words.value_ofNat_of_lt hv
  refine .after he w₁ (.after hread (.refl hr₁ _ _) ?_)
  by_cases h0 : v = 0
  · have hz : Status.isZero h₁.engine.registers.msw = true := by
      rw [hg]
      exact Status.isZero_msw_of_zero (hval.trans h0)
    rw [if_pos h0, if_pos hz]
    exact .of_fail hr₁
  · have hne : Words.value (Words.ofNat n v) ≠ 0 := fun c => h0 (hval.symm.trans c)
    have hfit : Layout.scratchpad + (Words.ofNat n v).length ≤ 0x800 := by
      rw [hlen]
      exact Nat.le_trans (Nat.add_le_add_left hn _) (by decide)
    obtain ⟨hz, i, hi, ha, hu⟩ := Status.msw_of_ne_zero hfit hne
    rw [hlen] at hi
    rw [hval] at hu
    rw [← hg] at hz ha
    rw [if_neg h0, if_neg (by rw [hz]; decide)]
    exact hk h0 h₁ _ he hr₁ w₁ hm ho ⟨i, hi, ha, hu⟩

/-- the words that are reduced are words of the raw result, and they hold all of it -/
theorem rawLength_bounds {w n v i : Nat} {status : Word} (hwn : w ≤ n) (hi : i < n)
    (ha : Status.address status = Layout.scratchpad + i) (hv : v < 2 ^ (32 * (i + 1))) :
    rawLength w (Status.address status) ≤ n ∧
      v < 2 ^ (32 * rawLength w (Status.address status)) := by
  unfold rawLength
  exact ⟨by omega, hv.trans_le (Nat.pow_le_pow_right (by decide) (by omega))⟩

/-- the operands of the reduction of `n` words, but for the length of the modulus -/
def remainderSettings (n modulus result : Nat) : List (Register × Nat) :=
  [(.aPtr, Layout.scratchpad), (.aLength, n), (.bPtr, modulus), (.cPtr, result)]

theorem remainderSettings_le {n m result : Nat} (hn : n ≤ Layout.memoryWords)
    (hm : m ≤ Layout.memoryWords) (ht : result ≤ Layout.memoryWords) :
    ∀ rn ∈ remainderSettings n m result, rn.1.isOperand = true ∧ rn.2 ≤ Layout.memoryWords := by
  simp only [remainderSettings, List.forall_mem_cons, List.not_mem_nil, false_implies, implies_true,
    and_true]
  exact ⟨⟨rfl, by decide⟩, ⟨rfl, hn⟩, ⟨rfl, hm⟩, rfl, ht⟩

/-- a raw result in the scratchpad, reduced; the length of the modulus is that of the operand before -/
theorem ends_remainder {h : Host} (hr : h.Ready) {w n v i m result : Nat} {status : Word}
    {mem : Memory} (hn : n ≤ 16) (hwn : w ≤ n) (hm : Fits m w) (ht : Fits result (w + 1))
    (hmem : h.engine.memory = mem.overwrite Layout.scratchpad (Words.ofNat n v))
    (hb : h.engine.registers.operands.bLength = w) (hi : i < n)
    (ha : Status.address status = Layout.scratchpad + i) (hv : v < 2 ^ (32 * (i + 1))) :
    ∃ h', (invoke (remainderSettings (rawLength w (Status.address status)) m result)
        .modulo).Ends h (.ok ()) h' ∧ h'.Ready ∧ h'.engine.memory = h.engine.memory.overwrite result
          (Words.ofNat (w + 1) (Residue.total v (h.element w m))) := by
  obtain ⟨hle, hlt⟩ := rawLength_bounds (w := w) hwn hi ha hv
  generalize rawLength w (Status.address status) = k at hle hlt
  have hs : Fits Layout.scratchpad n := Memory.Fits.mono (by decide : Fits _ 16) hn
  have hel : h.engine.memory.element k Layout.scratchpad = v := by
    rw [hmem, Memory.element_overwrite_of_lt hs hle hlt]
  have hset : h.engine.registers.operands.setAll (remainderSettings k m result) =
      ⟨Layout.scratchpad, m, result, h.engine.registers.operands.d, k, w⟩ := by
    rw [← hb]
    rfl
  obtain ⟨h', he, hr', hm'⟩ := ends_invoke hr (l := remainderSettings k m result) (f := .modulo)
    (Q := fun m' _ => m' = h.engine.memory.overwrite result
      (Words.ofNat (w + 1) (Residue.total v (h.element w m))))
    (remainderSettings_le (Nat.le_trans hle (Nat.le_trans hn (by decide))) hm.le ht.le)
    (fun e heq ho => by
      rw [hset] at ho
      refine ⟨_, _, (Engine.execute_modulo ho (hs.mono hle) hm).trans (Engine.store_eq ht _), ?_⟩
      show e.memory.overwrite result (Words.ofNat (w + 1) (Residue.total
        (e.memory.element k Layout.scratchpad) (e.memory.element w m))) = _
      rw [heq, hel]
      rfl)
  exact ⟨h', he, hr', hm'⟩

/-- the operands of a function on points -/
def pointOperands (w a c : Nat) : List (Register × Nat) :=
  [(.aPtr, a), (.aLength, w), (.bPtr, Layout.field), (.bLength, w), (.cPtr, c),
    (.dPtr, Layout.scratchpad)]

section
variable {w : Nat} (hw : w ≤ Layout.elementSlot) {h : Host} (hr : h.Ready)
include hw hr

/-! ## Byte strings in memory -/

theorem load_computes {bs : Bytes} (hl : bs.length = 4 * w) {o : Nat} (ho : Place o) :
    (load w bs o).Computes h o Layout.elementSlot (.ok (Bytes.value bs)) (Stored w o) := by
  have ht : bs.take (4 * w) = bs := List.take_of_length_le (Nat.le_of_eq hl)
  have hws : Bytes.overWords (bs.take (4 * w)) (List.replicate w 0) = Bytes.words bs := by
    rw [ht]
    exact Bytes.overWords_eq_words (by rw [List.length_replicate, hl])
  have hlen : (Bytes.words bs).length = w := by
    rw [Bytes.length_words, hl]
    omega
  have hf : Fits o (Bytes.words bs).length := by
    rw [hlen]
    exact ho.1.mono hw
  unfold load
  rw [hws]
  refine .of_ok (ends_writeMemory hf) (.of_overwrite ⟨hr.powered, hr.idle⟩ rfl (by omega)) ?_
  show Words.value ((h.engine.memory.overwrite o (Bytes.words bs)).window o w) = _
  have e := Memory.window_overwrite_self (m := h.engine.memory) hf
  rw [hlen] at e
  rw [e, Bytes.value_words bs (by rw [hl]; exact Nat.dvd_mul_right 4 w)]

omit hw hr in
/-- an element fills its part of an output buffer, whatever that held -/
theorem ends_fetch {o i : Nat} (ho : Fits o w) {a b d : Bytes}
    (hb : h.outputs.getD i [] = a ++ b ++ d) (hl : b.length = 4 * w) :
    (fetch w o i a.length).Ends h (.ok ())
      { h with outputs := h.outputs.set i (a ++ Bytes.ofNat w (h.element w o) ++ d) } := by
  have hc : (Content.words (h.engine.memory.window o w)).onto b =
      .ok (Bytes.ofNat w (h.element w o)) := by
    show Except.ok (Bytes.overBytes _ b) = _
    rw [Bytes.overBytes_eq_ofWords (by rw [hl, Memory.length_window]), Bytes.ofWords_window]
    rfl
  have hw := Slice.write_of_parts hb hc
  rw [hl] at hw
  exact (ends_readMemory ho).bind (ends_output hw)

omit hw hr in
/-- two elements, one behind the other, fill an output buffer -/
theorem ends_fetchBoth {o t i : Nat} (ho : Fits o w) (ho' : Fits t w) {bs : Bytes}
    (hi : h.outputs[i]? = some bs) (hl : bs.length = 2 * (4 * w)) :
    ((fetch w o i 0).bind fun _ => fetch w t i (4 * w)).Ends h (.ok ())
      { h with outputs :=
          h.outputs.set i (Bytes.ofNat w (h.element w o) ++ Bytes.ofNat w (h.element w t)) } := by
  obtain ⟨lx, ly⟩ := Bytes.length_take_drop hl
  obtain ⟨hlt, -⟩ := List.getElem?_eq_some_iff.mp hi
  -- behind the first element the second half is still the old one
  let half : Bytes := Bytes.ofNat w (h.element w o) ++ bs.drop (4 * w)
  let k : Host := { h with outputs := h.outputs.set i half }
  have hx : (fetch w o i 0).Ends h (.ok ()) k := by
    refine ends_fetch (a := []) ho ?_ lx
    rw [List.getD_eq_getElem?_getD, hi, List.nil_append, List.take_append_drop, Option.getD_some]
  have hk : k.outputs.getD i [] = Bytes.ofNat w (h.element w o) ++ bs.drop (4 * w) ++ [] := by
    rw [List.getD_eq_getElem?_getD, List.getElem?_set_self hlt, List.append_nil, Option.getD_some]
  have hy := ends_fetch ho' hk ly
  rw [Bytes.length_ofNat, List.append_nil, List.set_set] at hy
  exact hx.bind hy

/-! ## Without reduction -/

theorem compare_computes {a b : Nat} (ha : Place a) (hb : Place b) (o : Nat) :
    (compare w a b).Computes h o 0 (.ok (Ord.compare (h.element w a) (h.element w b)))
      fun r s _ => r = s := by
  obtain ⟨h', he, hr', hm, hc⟩ := ends_invoke hr
    (l := [(.aPtr, a), (.aLength, w), (.bPtr, b)]) (f := .compare)
    (Q := fun m g => m = h.engine.memory ∧
      g.compare = Status.ofOrdering (Ord.compare (h.element w a) (h.element w b)))
    (by simp [Register.isOperand, ha.1.le, hb.1.le, le_memoryWords hw])
    (fun e hm ho => by
      refine ⟨e.memory, _, Engine.execute_compare ho (ha.1.mono hw) (hb.1.mono hw), hm, ?_⟩
      rw [hm]
      rfl)
  have hs : (readRegister .compare).Ends h' (.ok h'.engine.registers.compare) h' :=
    ends_readRegister (by decide)
  refine .of_ok (he.bind (hs.bind rfl)) (.of_eq hr' hm o 0) ?_
  rw [hc, Status.ordering_ofOrdering]

theorem checkBetween_computes {x low high : Nat} (hx : Place x) (hl : Place low)
    (hh : Place high) (o : Nat) :
    (checkBetween w x low high).Computes h o 0
      (Residue.between (h.element w x) (h.element w low) (h.element w high))
      fun _ _ _ => h.element w low < h.element w x ∧ h.element w x < h.element w high := by
  show ((compare w x low).bind fun r => if r ≠ .gt then fail .failed else
    (compare w x high).bind fun r => if r ≠ .lt then fail .failed else done ()).Computes _ _ _ _ _
  refine (compare_computes hw hr hx hl o).bind_ok (.refl o 0) fun r h₁ hw₁ hr₁ => ?_
  subst hr₁
  by_cases hlow : h.element w low < h.element w x
  · have e₁ : Ord.compare (h.element w x) (h.element w low) = .gt := Nat.compare_eq_gt.mpr hlow
    rw [if_neg (not_not_intro e₁)]
    refine (compare_computes hw hw₁.ready hx hh o).bind_ok (.refl o 0) fun r h₂ hw₂ hr₂ => ?_
    subst hr₂
    rw [hw₁.element_of_none hw hx, hw₁.element_of_none hw hh]
    by_cases hhigh : h.element w x < h.element w high
    · have e₂ : Ord.compare (h.element w x) (h.element w high) = .lt := Nat.compare_eq_lt.mpr hhigh
      rw [if_neg (not_not_intro e₂), Residue.between, if_pos ⟨hlow, hhigh⟩]
      exact .of_done hw₂.ready ⟨hlow, hhigh⟩
    · have e₂ : Ord.compare (h.element w x) (h.element w high) ≠ .lt :=
        fun c => hhigh (Nat.compare_eq_lt.mp c)
      rw [if_pos e₂, Residue.between, if_neg fun c => hhigh c.2]
      exact .of_fail hw₂.ready
  · have e₁ : Ord.compare (h.element w x) (h.element w low) ≠ .gt :=
      fun c => hlow (Nat.compare_eq_gt.mp c)
    rw [if_pos e₁, Residue.between, if_neg fun c => hlow c.1]
    exact .of_fail hw₁.ready

/-- the difference, wrapped around if it is negative -/
theorem subtract_computes {a b result : Nat} (ha : Place a) (hb : Place b) (ht : Place result) :
    (subtract w a b result).Computes h result Layout.elementSlot
      (.ok ((2 ^ (32 * w) + h.element w a - h.element w b) % 2 ^ (32 * w))) (Stored w result) := by
  have hs : Fits Layout.scratchpad (max w w) := by
    rw [Nat.max_self]
    exact Memory.Fits.mono (by decide : Fits Layout.scratchpad Layout.elementSlot) hw
  obtain ⟨h₁, he₁, hr₁, hm₁⟩ := ends_invoke hr
    (l := [(.aPtr, a), (.aLength, w), (.bPtr, b), (.bLength, w), (.cPtr, Layout.scratchpad)])
    (f := .subtract)
    (Q := fun m _ => m = h.engine.memory.overwrite Layout.scratchpad
      (Words.ofNat w (2 ^ (32 * w) + h.element w a - h.element w b)))
    (by simp [Register.isOperand, ha.1.le, hb.1.le, le_memoryWords hw]; decide)
    (fun e hm ho => by
      refine ⟨_, _, (Engine.execute_subtract ho (ha.1.mono hw) (hb.1.mono hw)).trans
        (Engine.store_eq hs _), ?_⟩
      show e.memory.overwrite _ (Words.ofNat (max w w) (2 ^ (32 * max w w) +
        e.memory.element w a - e.memory.element w b)) = _
      rw [Nat.max_self, hm]
      rfl)
  rw [Nat.max_self] at hs
  obtain ⟨h₂, he₂, hr₂, hm₂⟩ := ends_copy hr₁ hs (ht.1.mono hw)
  have w₁ : h.Writes h₁ result Layout.elementSlot :=
    .of_scratchpad hr₁ hm₁ (by rw [Words.length_ofNat]; exact Nat.le_trans hw (by decide)) _ _
  have w₂ : h₁.Writes h₂ result Layout.elementSlot :=
    .of_overwrite hr₂ hm₂ (by rwa [Memory.length_window])
  refine .of_ok (he₁.bind he₂) (w₁.trans w₂) ?_
  show h₂.engine.memory.element w result = _
  rw [hm₂, Memory.element_overwrite_window_zero (ht.1.mono hw), hm₁,
    Memory.element_overwrite_ofNat hs (Nat.le_refl w)]

/-! ## Modulo a number -/

theorem invert_computes {a m result : Nat} (ha : Place a) (hm : Place m) (ht : Place result)
    (hne : h.element w m ≠ 0) :
    (invert w a m result).Computes h result Layout.elementSlot
      (Residue.inverted (h.element w a) (h.element w m)) (Stored w result) := by
  have hs : Fits Layout.scratchpad w :=
    Memory.Fits.mono (by decide : Fits Layout.scratchpad Layout.elementSlot) hw
  have hi := Nat.lt_trans
    (Residue.getD_inverse?_lt (Nat.pos_of_ne_zero hne) (h.element w a))
    (Memory.element_lt h.engine.memory w m)
  refine refuseZero_computes hr
    (l := [(.aPtr, a), (.aLength, w), (.bPtr, m), (.bLength, w), (.dPtr, Layout.scratchpad)])
    (by simp [Register.isOperand, ha.1.le, hm.1.le, le_memoryWords hw]; decide)
    (Nat.le_trans hw (by decide)) hi ?_ ?_
  · intro e hmem ho
    have hne' : e.memory.element w m ≠ 0 := by
      rw [hmem]
      exact hne
    rw [Engine.execute_invert ho (ha.1.mono hw) (hm.1.mono hw) hne']
    show e.store _ w ((Residue.inverse? (e.memory.element w a) (e.memory.element w m)).getD 0) = _
    rw [hmem]
    rfl
  · intro _ h₁ _ _ hr₁ _ hm₁ _ _
    obtain ⟨h₂, he₂, hr₂, hm₂⟩ := ends_copy hr₁ hs (ht.1.mono hw)
    refine .of_ok he₂ (.of_overwrite hr₂ hm₂ (by rwa [Memory.length_window])) ?_
    show h₂.engine.memory.element w result = _
    rw [hm₂, Memory.element_overwrite_window_zero (ht.1.mono hw), hm₁,
      Memory.element_overwrite_of_lt hs (Nat.le_refl w) hi]

/-- a product or a sum, reduced -/
theorem modular_computes {f : Opcode} (hf : f = .multiply ∨ f = .add) {a b m result : Nat}
    (ha : Place a) (hb : Place b) (hm : Place m) (ht : Fits result Layout.remainderSlot) :
    (modular f w a b m result).Computes h result Layout.remainderSlot
      (Residue.reduced (raw f (h.element w a) (h.element w b)) (h.element w m))
      (Stored w result) := by
  have ht' : Fits result (w + 1) := ht.mono (Nat.succ_le_succ hw)
  obtain ⟨hwn, hn⟩ := rawWords_bounds hw f
  refine refuseZero_computes hr (rawSettings_le hw ha.1.le hb.1.le) hn
    (raw_lt hf (Memory.element_lt _ _ _) (Memory.element_lt _ _ _)) (fun e hmem ho => ?_)
    fun _ h₁ status _ hr₁ _ hm₁ ho₁ hi => ?_
  · rw [execute_raw hw hf ho (ha.1.mono hw) (hb.1.mono hw), hmem]
    rfl
  · obtain ⟨i, hi, hadr, hu⟩ := hi
    have hmod : h₁.element w m = h.element w m :=
      Host.Writes.element_of_none (o := 0)
        (.of_scratchpad hr₁ hm₁ (by rw [Words.length_ofNat]; exact Nat.le_trans hn (by decide)) 0 0)
        hw hm
    have hlt {raw : Nat} : Residue.total raw (h.element w m) < 2 ^ (32 * w) :=
      Residue.total_lt (Nat.two_pow_pos _) (Memory.element_lt h.engine.memory w m)
    obtain ⟨h₂, he₂, hr₂, hm₂⟩ :=
      ends_remainder hr₁ hn hwn (hm.1.mono hw) ht' hm₁ (by rw [ho₁]; rfl) hi hadr hu
    refine .of_ok he₂ (.of_overwrite hr₂ hm₂ ?_) ?_
    · rw [Words.length_ofNat]
      exact Nat.succ_le_succ hw
    · show h₂.engine.memory.element w result = _
      rw [hm₂, hmod, Memory.element_overwrite_of_lt ht' (Nat.le_succ w) hlt]

theorem multiply_computes {a b m result : Nat} (ha : Place a) (hb : Place b) (hm : Place m)
    (ht : Fits result Layout.remainderSlot) :
    (modular .multiply w a b m result).Computes h result Layout.remainderSlot
      (Residue.reduced (h.element w a * h.element w b) (h.element w m)) (Stored w result) :=
  modular_computes hw hr (.inl rfl) ha hb hm ht

theorem add_computes {a b m result : Nat} (ha : Place a) (hb : Place b) (hm : Place m)
    (ht : Fits result Layout.remainderSlot) :
    (modular .add w a b m result).Computes h result Layout.remainderSlot
      (Residue.reduced (h.element w a + h.element w b) (h.element w m)) (Stored w result) :=
  modular_computes hw hr (.inr rfl) ha hb hm ht

omit hr in
/-- modulo the field's prime no result is refused, since a raw zero is replaced by the constant -/
theorem field_computes {f : Opcode} {a b result raw : Nat} (h0 : h.element w Layout.null = 0)
    (ht : Fits result Layout.remainderSlot)
    (hc : Layout.Clear result Layout.remainderSlot Layout.null Layout.elementSlot)
    (hf : (modular f w a b Layout.field result).Computes h result Layout.remainderSlot
      (Residue.reduced raw (h.element w Layout.field)) (Stored w result)) :
    (field f w a b result).Computes h result Layout.remainderSlot
      (.ok (Residue.total raw (h.element w Layout.field))) (Stored w result) := by
  obtain ⟨h₁, hw₁, hx⟩ := hf
  by_cases hz : raw = 0
  · subst hz
    rw [Residue.total_zero]
    obtain ⟨h₂, he₂, hr₂, hm₂⟩ := ends_copy hw₁.ready
      (Memory.Fits.mono (by decide : Fits Layout.null Layout.elementSlot) hw)
      (ht.mono (Nat.le_trans hw (by decide)))
    refine .after hx.attempt hw₁ (.of_ok he₂ (.of_overwrite hr₂ hm₂ ?_) ?_)
    · rw [Memory.length_window]
      exact Nat.le_trans hw (by decide)
    · show h₂.engine.memory.element w result = _
      rw [hm₂, Memory.element_overwrite_window_zero (ht.mono (Nat.le_trans hw (by decide)))]
      exact (hw₁.element hw hc).trans h0
  · rw [Residue.reduced, if_neg hz] at hx
    obtain ⟨_, he, hv⟩ := hx
    exact .after he.attempt hw₁ (.of_done hw₁.ready hv)

theorem fieldMultiply_computes {a b result : Nat} (h0 : h.element w Layout.null = 0) (ha : Place a)
    (hb : Place b) (ht : Fits result Layout.remainderSlot)
    (hc : Layout.Clear result Layout.remainderSlot Layout.null Layout.elementSlot) :
    (field .multiply w a b result).Computes h result Layout.remainderSlot
      (.ok (Residue.total (h.element w a * h.element w b) (h.element w Layout.field)))
      (Stored w result) :=
  field_computes hw h0 ht hc (multiply_computes hw hr ha hb (by decide) ht)

theorem fieldAdd_computes {a b result : Nat} (h0 : h.element w Layout.null = 0) (ha : Place a)
    (hb : Place b) (ht : Fits result Layout.remainderSlot)
    (hc : Layout.Clear result Layout.remainderSlot Layout.null Layout.elementSlot) :
    (field .add w a b result).Computes h result Layout.remainderSlot
      (.ok (Residue.total (h.element w a + h.element w b) (h.element w Layout.field)))
      (Stored w result) :=
  field_computes hw h0 ht hc (add_computes hw hr ha hb (by decide) ht)

/-! ## Points -/

omit hw hr in
theorem lt_of_reduced {m : Memory} {o x y : Nat} (hxy : (m.law w o).Reduced (.affine x y)) :
    x < 2 ^ (32 * w) ∧ y < 2 ^ (32 * w) := by
  obtain ⟨hx, hy⟩ := hxy
  exact ⟨Nat.lt_trans hx (Memory.element_lt m w o), Nat.lt_trans hy (Memory.element_lt m w o)⟩

omit hr in
/-- both coordinates of a point lie in memory -/
theorem fits_coordinates {o : Nat} (ho : Fits o Layout.pointSlot) :
    Fits o w ∧ Fits (o + Layout.coordinateSpace w) w := by
  obtain ⟨h₁, h₂⟩ := Layout.coordinateSpace_le hw
  unfold Memory.Fits at ho ⊢
  omega

/-- a point from the scratchpad, or why there is none -/
theorem point_computes {f : Opcode} {a c result : Nat} {R : Option Point}
    (ha : a ≤ Layout.memoryWords) (hc : c ≤ Layout.memoryWords) (ht : PointPlace result)
    (hR : ∀ x y, R = some (.affine x y) → x < 2 ^ (32 * w) ∧ y < 2 ^ (32 * w))
    (hx : ∀ e : Engine, e.memory = h.engine.memory →
      e.registers.operands = h.engine.registers.operands.setAll (pointOperands w a c) →
      e.execute f = e.storePoint (h.engine.registers.operands.setAll (pointOperands w a c)) R) :
    (point f w a c result).Computes h result Layout.pointSlot (Point.regular R)
      (StoredPoint w result) := by
  obtain ⟨hsp, hsl⟩ := Layout.coordinateSpace_le hw
  have hs : Fits Layout.scratchpad (Layout.pointSpace w) :=
    Memory.Fits.mono (by decide : Fits _ Layout.pointSlot) hsl
  obtain ⟨h₁, he₁, hr₁, hg, hout, hin⟩ := ends_invoke hr
    (l := pointOperands w a c) (f := f)
    (Q := fun m g => g.shift = Status.ofPoint R ∧
      (∀ i, i < Layout.scratchpad ∨ Layout.scratchpad + Layout.pointSpace w ≤ i →
        m.word i = h.engine.memory.word i) ∧
      ∀ x y, R = some (.affine x y) → m.point w Layout.scratchpad = .affine x y)
    (by simp [pointOperands, Register.isOperand, ha, hc, le_memoryWords hw]; decide)
    (fun e hm ho => by
      obtain ⟨m, g, he, hg, hout, hin⟩ := Engine.storePoint_eq (e := e)
        (o := h.engine.registers.operands.setAll (pointOperands w a c)) hs R
      refine ⟨m, g, (hx e hm ho).trans he, hg, ?_, ?_⟩
      · rw [← hm]
        exact hout
      · intro x y hxy
        obtain ⟨lx, ly⟩ := hR x y hxy
        exact hin x y hxy lx ly)
  have w₁ : h.Writes h₁ result Layout.pointSlot := by
    refine ⟨hr₁, fun i hi _ => hout i ?_⟩
    have : Layout.scratchpad + Layout.pointSlot ≤ Layout.variables := by decide
    omega
  have hread : (readRegister .shift).Ends h₁ (.ok h₁.engine.registers.shift) h₁ :=
    ends_readRegister (by decide)
  show ((invoke (pointOperands w a c) f).bind fun _ => (readRegister .shift).bind fun shift =>
    if shift = Status.pointInfinity then fail .infinity
    else if shift ≠ Status.pointDone then refuse (.pointFailed shift) .failed
    else copy Layout.scratchpad result (Layout.pointSpace w)).Computes _ _ _ _ _
  refine .after he₁ w₁ (.after hread (.refl hr₁ _ _) ?_)
  rw [hg]
  match R with
  | none =>
    rw [if_neg (by decide), if_pos (by decide)]
    exact .of_refuse hr₁
  | some .infinity =>
    rw [if_pos (by rfl)]
    exact .of_fail hr₁
  | some (.affine x y) =>
    rw [show Status.ofPoint (some (.affine x y)) = Status.pointDone from rfl,
      if_neg (by decide), if_neg (not_not_intro rfl)]
    obtain ⟨h₂, he₂, hr₂, hm₂⟩ := ends_copy hr₁ hs (ht.1.mono hsl)
    refine .of_ok he₂ (.of_overwrite hr₂ hm₂ (by rwa [Memory.length_window])) ?_
    have hp := hin x y rfl
    rw [Memory.point, Point.affine.injEq] at hp
    obtain ⟨px, py⟩ := hp
    have ex := Memory.element_overwrite_window (m := h₁.engine.memory) (a := Layout.scratchpad)
      (i := 0) (w := w) (ht.1.mono hsl) (by omega)
    have ey := Memory.element_overwrite_window (m := h₁.engine.memory) (a := Layout.scratchpad)
      (i := Layout.coordinateSpace w) (w := w) (ht.1.mono hsl) hsp
    rw [Nat.add_zero, Nat.add_zero, px] at ex
    rw [py] at ey
    show h₂.engine.memory.point w result = _
    rw [hm₂, Memory.point, ex, ey]

theorem pointMul_computes {a c result : Nat} (ha : Place a) (hc : PointPlace c)
    (ht : PointPlace result) :
    (point .pointMul w a c result).Computes h result Layout.pointSlot
      (Point.regular ((h.engine.memory.law w Layout.field).multiple? (h.element w a)
        (h.engine.memory.point w c))) (StoredPoint w result) := by
  obtain ⟨hb, hb'⟩ := fits_coordinates hw (by decide : Fits Layout.field Layout.pointSlot)
  obtain ⟨hcx, hcy⟩ := fits_coordinates hw hc.1
  refine point_computes hw hr ha.1.le hc.1.le ht ?_ ?_
  · intro x y hxy
    obtain ⟨hr, he⟩ := Weierstrass.multiple?_eq_some_iff.mp hxy
    exact lt_of_reduced (he ▸ Weierstrass.reduced_smul _ _ hr)
  · intro e hm ho
    rw [Engine.execute_pointMul ho (ha.1.mono hw) hb hb' hcx hcy, hm]
    rfl

theorem pointAdd_computes {a c result : Nat} (ha : PointPlace a) (hc : PointPlace c)
    (ht : PointPlace result) :
    (point .pointAdd w a c result).Computes h result Layout.pointSlot
      (Point.regular ((h.engine.memory.law w Layout.field).sum? (h.engine.memory.point w a)
        (h.engine.memory.point w c))) (StoredPoint w result) := by
  obtain ⟨hb, hb'⟩ := fits_coordinates hw (by decide : Fits Layout.field Layout.pointSlot)
  obtain ⟨hax, hay⟩ := fits_coordinates hw ha.1
  obtain ⟨hcx, hcy⟩ := fits_coordinates hw hc.1
  refine point_computes hw hr ha.1.le hc.1.le ht ?_ ?_
  · intro x y hxy
    obtain ⟨hP, hQ, he⟩ := Weierstrass.sum?_eq_some_iff.mp hxy
    exact lt_of_reduced (he ▸ Weierstrass.reduced_add _ hP hQ)
  · intro e hm ho
    rw [Engine.execute_pointAdd ho hax hay hb hb' hcx hcy, hm]
    rfl

omit hr in
/-- both coordinates of a point have a place -/
theorem place_coordinates {o : Nat} (ho : PointPlace o) :
    Place o ∧ Place (o + Layout.coordinateSpace w) ∧ w ≤ Layout.coordinateSpace w ∧
      Layout.coordinateSpace w + Layout.elementSlot ≤ Layout.pointSlot := by
  obtain ⟨hf, hout⟩ := ho
  have h8 : w ≤ 8 := hw
  have h20 : Layout.pointSlot = 20 := by decide
  unfold Memory.Fits at hf
  unfold Layout.Outside at hout
  unfold Place Memory.Fits Layout.Outside Layout.coordinateSpace Layout.elementSlot
    Layout.elementWords
  omega

theorem loadPoint_computes {bs : Bytes} (hl : bs.length = 2 * (4 * w)) {o : Nat}
    (ho : PointPlace o) :
    (loadPoint w bs o).Computes h o Layout.pointSlot
      (.ok (Bytes.value (bs.take (4 * w)), Bytes.value (bs.drop (4 * w)))) (StoredPoint w o) := by
  obtain ⟨hx, hy, hcw, hcs⟩ := place_coordinates hw ho
  have lx : (bs.take (4 * w)).length = 4 * w := by
    rw [List.length_take]
    omega
  have ly : (bs.drop (4 * w)).length = 4 * w := by
    rw [List.length_drop]
    omega
  refine (load_computes hw hr lx hx).bind_ok ⟨Nat.le_refl o, by omega⟩ fun _ h₁ hw₁ e₁ => ?_
  obtain ⟨h₂, hw₂, _, he₂, e₂⟩ := load_computes hw hw₁.ready ly hy
  refine .of_ok he₂ (hw₂.mono ⟨Nat.le_add_right o _, by omega⟩) ?_
  have hc : Layout.Clear (o + Layout.coordinateSpace w) Layout.elementSlot o w := by
    obtain ⟨-, hout⟩ := hx
    unfold Layout.Outside at hout
    unfold Layout.Clear Layout.Outside
    omega
  have ex : h₂.element w o = Bytes.value (bs.take (4 * w)) :=
    (hw₂.element (Nat.le_refl w) hc).trans e₁
  show Point.affine (h₂.element w o) (h₂.element w _) = _
  rw [ex, e₂]

omit hw in
theorem lowWord_computes (hpos : 0 < w) {o : Nat} (ho : Place o) (o' : Nat) :
    (lowWord o).Computes h o' 0 (.ok (h.element w o % 2)) fun v b _ => v.toNat % 2 = b := by
  have he : (lowWord o).Ends h (.ok (h.engine.memory.word o)) h :=
    (ends_readMemory (ho.1.mono (by decide))).bind rfl
  exact .of_ok he (.refl hr o' 0) (Memory.element_mod_two hpos).symm

end

end Arithmetic
end CurveEngine
