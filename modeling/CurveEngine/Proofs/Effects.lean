import CurveEngine.Host
import CurveEngine.Proofs.Functions

/-!
# What a function reads and what it writes

* `Effect`                           words for the memory and for the status registers;
* `Engine.effect`                    the effect of a function, from its operands and what they name;
* `Opcode.trim`                      the operands that a function uses, the others made zero;
* `Opcode.reads`, `Opcode.targets`   the words it reads, and those it may write;
* `Effect.Form`                      what the effects of a function look like;
* `Host.started`                     a host right after it started a function with some effect.

`execute_eq` says that executing a function is applying its effect, and `effect_congr` that nothing
but the words it reads decides the effect.  `exists_effect` says when there is one.
-/

namespace CurveEngine

open Memory (Fits)

/-- some words in a row: where they start, and how many they are -/
abbrev Window := Nat × Nat

/-- words written one stretch after the other, and status registers set in order -/
structure Effect where
  writes : List (Nat × List Word)
  status : List (Register × Word)

namespace Effect

def onMemory (x : Effect) (m : Memory) : Memory :=
  x.writes.foldl (fun m w => m.overwrite w.1 w.2) m

def onRegisters (x : Effect) (g : RegisterFile) : RegisterFile :=
  x.status.foldl (fun g s => g.set s.1 s.2) g

def apply (x : Effect) (e : Engine) : Engine :=
  e.update (x.onMemory e.memory) (x.onRegisters e.registers)

def append (x y : Effect) : Effect := ⟨x.writes ++ y.writes, x.status ++ y.status⟩

/-- where the written stretches lie -/
def stretches (x : Effect) : List Window := x.writes.map fun w => (w.1, w.2.length)

def state (r : Register) (v : Word) : Effect := ⟨[], [(r, v)]⟩

/-- `value` in `n` words from `offset` on, with its status -/
def stored (offset n value : Nat) : Effect :=
  ⟨[(offset, Words.ofNat n value)], [(.msw, Status.msw offset (Words.ofNat n value))]⟩

/-- a point with coordinates in `space` words each -/
def storedPoint (offset space x y : Nat) : Effect :=
  ((stored offset space x).append (stored (offset + space) space y)).append
    (state .shift Status.pointDone)

/-- a number stored, if there is place for it -/
def store (offset n value : Nat) : Except Fault Effect :=
  if Fits offset n then .ok (stored offset n value) else .error .outOfBounds

/-- the outcome of a function on points -/
def storePoint (offset space : Nat) : Option Point → Except Fault Effect
  | none => .ok (state .shift Status.pointFailed)
  | some .infinity => .ok (state .shift Status.pointInfinity)
  | some (.affine x y) => do
    let _ ← store offset space x
    let _ ← store (offset + space) space y
    return storedPoint offset space x y

theorem store_of_fits {o n : Nat} (h : Fits o n) (v : Nat) : store o n v = .ok (stored o n v) :=
  if_pos h

end Effect

/-! ## Operands -/

namespace Opcode

/-- the operands that a function uses, the others made zero -/
def trim (f : Opcode) (o : Operands) : Operands :=
  match f with
  | multiply | add | subtract | modulo => { o with d := 0 }
  | compare => { o with c := 0, d := 0, bLength := 0 }
  | copy => { o with b := 0, d := 0, bLength := 0 }
  | invert => { o with c := 0 }
  | pointAdd | pointMul => o

/-- the words of two coordinates, or of a prime and a coefficient -/
def coordinates (offset w : Nat) : List Window :=
  [(offset, w), (offset + Layout.coordinateSpace w, w)]

def reads (f : Opcode) (o : Operands) : List Window :=
  match f with
  | multiply | add | subtract | modulo | invert => [(o.a, o.aLength), (o.b, o.bLength)]
  | compare => [(o.a, o.aLength), (o.b, o.aLength)]
  | copy => [(o.a, o.aLength)]
  | pointAdd => coordinates o.b o.bLength ++ (coordinates o.c o.bLength ++ coordinates o.a o.bLength)
  | pointMul => coordinates o.b o.bLength ++ (coordinates o.c o.bLength ++ [(o.a, o.aLength)])

def targets (f : Opcode) (o : Operands) : List Window :=
  match f with
  | multiply => [(o.c, o.aLength + o.bLength)]
  | add => [(o.c, max o.aLength o.bLength + 1)]
  | subtract => [(o.c, max o.aLength o.bLength)]
  | modulo => [(o.c, o.bLength + 1)]
  | compare => []
  | copy => [(o.c, o.aLength)]
  | invert => [(o.d, o.bLength)]
  | pointAdd | pointMul =>
    [(o.d, Layout.coordinateSpace o.bLength),
      (o.d + Layout.coordinateSpace o.bLength, Layout.coordinateSpace o.bLength)]

theorem reads_trim (f : Opcode) (o : Operands) : f.reads (f.trim o) = f.reads o := by
  cases f <;> rfl

theorem targets_trim (f : Opcode) (o : Operands) : f.targets (f.trim o) = f.targets o := by
  cases f <;> rfl

end Opcode

/-- what the trace shows of a function are the operands it uses -/
theorem Invocation.text_trim (f : Opcode) (o : Operands) :
    Invocation.text ⟨f, f.trim o⟩ = Invocation.text ⟨f, o⟩ := by
  cases f <;> rfl

/-! ## Effects -/

namespace Engine

/-- the effect of a function with the operands in the registers -/
def effect (e : Engine) (f : Opcode) : Except Fault Effect :=
  let o := e.registers.operands
  match f with
  | .multiply => do
    let a ← e.vector o.a o.aLength
    let b ← e.vector o.b o.bLength
    Effect.store o.c (o.aLength + o.bLength) (a * b)
  | .add => do
    let a ← e.vector o.a o.aLength
    let b ← e.vector o.b o.bLength
    Effect.store o.c (max o.aLength o.bLength + 1) (a + b)
  | .subtract => do
    let a ← e.vector o.a o.aLength
    let b ← e.vector o.b o.bLength
    let n := max o.aLength o.bLength
    Effect.store o.c n (1 <<< (32 * n) + a - b)
  | .modulo => do
    let m ← e.vector o.b o.bLength
    let r ← if m = 0 then pure 0 else (· % m) <$> e.vector o.a o.aLength
    Effect.store o.c (o.bLength + 1) r
  | .compare => do
    let a ← e.vector o.a o.aLength
    let b ← e.vector o.b o.aLength
    return .state .compare (Status.ofOrdering (compare a b))
  | .copy => do
    let ws ← e.memory.read o.a o.aLength
    if Fits o.c ws.length then .ok ⟨[(o.c, ws)], []⟩ else .error .outOfBounds
  | .invert => do
    let m ← e.vector o.b o.bLength
    let a ← e.vector o.a o.aLength
    if m = 0 then .error .zeroModulus
    else Effect.store o.d o.bLength ((Residue.inverse? a m).getD 0)
  | .pointAdd => do Effect.storePoint o.d (Layout.coordinateSpace o.bLength) (← e.pointSum? o)
  | .pointMul => do Effect.storePoint o.d (Layout.coordinateSpace o.bLength) (← e.pointMultiple? o)

theorem store_eq_apply (e : Engine) (offset n v : Nat) :
    e.store offset n v = (Effect.store offset n v).map fun x => x.apply e := by
  unfold store Effect.store
  split
  · rfl
  · rfl

theorem storePoint_eq_apply (e : Engine) (o : Operands) (r : Option Point) :
    e.storePoint o r =
      (Effect.storePoint o.d (Layout.coordinateSpace o.bLength) r).map fun x => x.apply e := by
  match r with
  | none => rfl
  | some .infinity => rfl
  | some (.affine x y) =>
    simp only [storePoint, Effect.storePoint, store, Effect.store]
    generalize Layout.coordinateSpace o.bLength = n
    by_cases hx : Fits o.d n
    · by_cases hy : Fits (o.d + n) n
      · simp only [if_pos hx, if_pos hy]
        rfl
      · simp only [if_pos hx, if_neg hy]
        rfl
    · simp only [if_neg hx]
      rfl

/-- what follows a read applies the effect that follows it -/
theorem bind_eq_map_bind {ε α β γ : Type} {x : Except ε α} {g : α → Except ε β}
    {h : α → Except ε γ} {k : γ → β} (hg : ∀ a, g a = (h a).map k) :
    x >>= g = (x >>= h).map k := by
  cases x with
  | error f => rfl
  | ok a => exact hg a

/-- **executing a function is applying its effect** -/
theorem execute_eq (e : Engine) (f : Opcode) :
    e.execute f = (e.effect f).map fun x => x.apply e := by
  cases f with
  | multiply | add | subtract =>
    refine bind_eq_map_bind fun a => bind_eq_map_bind fun b => ?_
    exact e.store_eq_apply _ _ _
  | modulo =>
    refine bind_eq_map_bind fun m => ?_
    by_cases hm : m = 0
    · simp only [if_pos hm]
      exact e.store_eq_apply _ _ _
    · simp only [if_neg hm]
      exact bind_eq_map_bind fun r => e.store_eq_apply _ _ _
  | compare => exact bind_eq_map_bind fun a => bind_eq_map_bind fun b => rfl
  | copy =>
    refine bind_eq_map_bind fun ws => ?_
    unfold Memory.write
    split
    · rfl
    · rfl
  | invert =>
    refine bind_eq_map_bind fun m => bind_eq_map_bind fun a => ?_
    by_cases hm : m = 0
    · simp only [if_pos hm]
      rfl
    · simp only [if_neg hm]
      exact e.store_eq_apply _ _ _
  | pointAdd | pointMul => exact bind_eq_map_bind fun r => e.storePoint_eq_apply _ _

/-! ## What decides an effect -/

theorem vector_congr {e e' : Engine} {o n : Nat}
    (h : e.memory.window o n = e'.memory.window o n) : e.vector o n = e'.vector o n := by
  unfold vector Memory.read
  rw [h]

section
variable {e e' : Engine} {w : Nat}

theorem point_congr {o : Nat}
    (h : ∀ r ∈ Opcode.coordinates o w, e.memory.window r.1 r.2 = e'.memory.window r.1 r.2) :
    e.point o w = e'.point o w := by
  simp only [Opcode.coordinates, List.forall_mem_cons] at h
  unfold point
  rw [vector_congr h.1, vector_congr h.2.1]

theorem curve_congr {o : Operands}
    (h : ∀ r ∈ Opcode.coordinates o.b o.bLength,
      e.memory.window r.1 r.2 = e'.memory.window r.1 r.2) : e.curve o = e'.curve o := by
  simp only [Opcode.coordinates, List.forall_mem_cons] at h
  unfold curve
  rw [vector_congr h.1, vector_congr h.2.1]

end

/-- **the words that a function reads decide its effect** -/
theorem effect_congr {e e' : Engine} {f : Opcode}
    (ho : f.trim e.registers.operands = f.trim e'.registers.operands)
    (h : ∀ r ∈ f.reads e.registers.operands,
      e.memory.window r.1 r.2 = e'.memory.window r.1 r.2) :
    e.effect f = e'.effect f := by
  unfold effect
  generalize e.registers.operands = o at ho h ⊢
  generalize e'.registers.operands = o' at ho ⊢
  cases f with
  | multiply | add | subtract | modulo =>
    simp only [Opcode.reads, List.forall_mem_cons] at h
    obtain ⟨ha, hb, -⟩ := h
    obtain ⟨⟩ := o
    obtain ⟨⟩ := o'
    simp only [Opcode.trim, Operands.mk.injEq] at ho
    obtain ⟨rfl, rfl, rfl, -, rfl, rfl⟩ := ho
    simp only [vector_congr ha, vector_congr hb]
  | invert =>
    simp only [Opcode.reads, List.forall_mem_cons] at h
    obtain ⟨ha, hb, -⟩ := h
    obtain ⟨⟩ := o
    obtain ⟨⟩ := o'
    simp only [Opcode.trim, Operands.mk.injEq] at ho
    obtain ⟨rfl, rfl, -, rfl, rfl, rfl⟩ := ho
    simp only [vector_congr ha, vector_congr hb]
  | compare =>
    simp only [Opcode.reads, List.forall_mem_cons] at h
    obtain ⟨ha, hb, -⟩ := h
    obtain ⟨⟩ := o
    obtain ⟨⟩ := o'
    simp only [Opcode.trim, Operands.mk.injEq] at ho
    obtain ⟨rfl, rfl, -, -, rfl, -⟩ := ho
    simp only [vector_congr ha, vector_congr hb]
  | copy =>
    simp only [Opcode.reads, List.forall_mem_cons] at h
    obtain ⟨⟩ := o
    obtain ⟨⟩ := o'
    simp only [Opcode.trim, Operands.mk.injEq] at ho
    obtain ⟨rfl, -, rfl, -, rfl, -⟩ := ho
    simp only [Memory.read, h.1]
  | pointAdd =>
    obtain rfl : o = o' := ho
    simp only [Opcode.reads, List.forall_mem_append] at h
    obtain ⟨hb, hc, ha⟩ := h
    simp only [pointSum?, curve_congr hb, point_congr hc, point_congr ha]
  | pointMul =>
    obtain rfl : o = o' := ho
    simp only [Opcode.reads, List.forall_mem_append, List.forall_mem_singleton] at h
    obtain ⟨hb, hc, ha⟩ := h
    simp only [pointMultiple?, curve_congr hb, point_congr hc, vector_congr ha]

end Engine

/-! ## What effects look like -/

namespace Effect

/-- what the effects of a function with some operands look like -/
def Form (f : Opcode) (o : Operands) (x : Effect) : Prop :=
  match f with
  | .multiply => ∃ v, x = stored o.c (o.aLength + o.bLength) v
  | .add => ∃ v, x = stored o.c (max o.aLength o.bLength + 1) v
  | .subtract => ∃ v, x = stored o.c (max o.aLength o.bLength) v
  | .modulo => ∃ v, x = stored o.c (o.bLength + 1) v
  | .compare => ∃ v, x = state .compare v
  | .copy => ∃ ws, ws.length = o.aLength ∧ x = ⟨[(o.c, ws)], []⟩
  | .invert => ∃ v, x = stored o.d o.bLength v
  | .pointAdd | .pointMul =>
    (∃ v, v ≠ Status.pointDone ∧ x = state .shift v) ∨
      ∃ a b, x = storedPoint o.d (Layout.coordinateSpace o.bLength) a b

theorem of_store {o n v : Nat} {x : Effect} (h : store o n v = .ok x) : x = stored o n v := by
  unfold store at h
  split at h
  · cases h
    rfl
  · cases h

theorem of_storePoint {o n : Nat} {r : Option Point} {x : Effect} (h : storePoint o n r = .ok x) :
    (∃ v, v ≠ Status.pointDone ∧ x = state .shift v) ∨ ∃ a b, x = storedPoint o n a b := by
  match r, h with
  | none, h =>
    cases h
    exact .inl ⟨_, by decide, rfl⟩
  | some .infinity, h =>
    cases h
    exact .inl ⟨_, by decide, rfl⟩
  | some (.affine a b), h =>
    obtain ⟨_, -, h⟩ := bind_eq_ok_iff.mp h
    obtain ⟨_, -, h⟩ := bind_eq_ok_iff.mp h
    cases h
    exact .inr ⟨a, b, rfl⟩

variable {f : Opcode} {o : Operands} {x : Effect}

theorem form_trim_iff : x.Form f (f.trim o) ↔ x.Form f o := by
  cases f <;> exact Iff.rfl

theorem form_of_trim {o' : Operands} (ho : f.trim o = f.trim o') (h : x.Form f o) :
    x.Form f o' := by
  rw [← form_trim_iff, ← ho]
  exact form_trim_iff.mpr h

theorem stretches_stored (o n v : Nat) : (stored o n v).stretches = [(o, n)] := by
  unfold stretches stored
  rw [List.map_singleton, Words.length_ofNat]

theorem stretches_storedPoint (o n a b : Nat) :
    (storedPoint o n a b).stretches = [(o, n), (o + n, n)] := by
  simp [stretches, storedPoint, append, stored, state]

/-- a function writes all its targets, or none if a point operation has no regular result -/
theorem Form.stretches (h : x.Form f o) : x.stretches = [] ∨ x.stretches = f.targets o := by
  cases f with
  | multiply | add | subtract | modulo | invert =>
    obtain ⟨v, rfl⟩ := h
    exact .inr (stretches_stored _ _ v)
  | compare =>
    obtain ⟨v, rfl⟩ := h
    exact .inl rfl
  | copy =>
    obtain ⟨ws, hl, rfl⟩ := h
    right
    rw [Opcode.targets, ← hl]
    rfl
  | pointAdd | pointMul =>
    obtain ⟨v, -, rfl⟩ | ⟨a, b, rfl⟩ := h
    · exact .inl rfl
    · exact .inr (stretches_storedPoint _ _ a b)

/-- no effect changes an operand -/
theorem Form.operands (h : x.Form f o) (g : RegisterFile) :
    (x.onRegisters g).operands = g.operands := by
  cases f with
  | multiply | add | subtract | modulo | invert | compare =>
    obtain ⟨v, rfl⟩ := h
    rfl
  | copy =>
    obtain ⟨ws, -, rfl⟩ := h
    rfl
  | pointAdd | pointMul =>
    obtain ⟨v, -, rfl⟩ | ⟨a, b, rfl⟩ := h
    · rfl
    · rfl

/-! ### Words -/

theorem word_onMemory_of_outside {i : Nat}
    (h : ∀ r ∈ x.stretches, i < r.1 ∨ r.1 + r.2 ≤ i) (m : Memory) :
    (x.onMemory m).word i = m.word i := by
  unfold onMemory
  unfold Effect.stretches at h
  generalize x.writes = l at h ⊢
  induction l generalizing m with
  | nil => rfl
  | cons w l ih =>
    simp only [List.map_cons, List.forall_mem_cons] at h
    rw [List.foldl_cons, ih _ h.2, Memory.word_overwrite_of_lt h.1]

/-- where an effect writes, two memories agree afterwards, and where they agreed they still do -/
theorem word_onMemory_congr {i : Nat} {m m' : Memory}
    (h : m.word i = m'.word i ∨ (i < Layout.memoryWords ∧
      ∃ r ∈ x.stretches, r.1 ≤ i ∧ i < r.1 + r.2)) :
    (x.onMemory m).word i = (x.onMemory m').word i := by
  unfold onMemory
  unfold Effect.stretches at h
  generalize x.writes = l at h ⊢
  induction l generalizing m m' with
  | nil =>
    obtain h | ⟨-, _, h, -⟩ := h
    · exact h
    · cases h
  | cons w l ih =>
    rw [List.foldl_cons, List.foldl_cons]
    apply ih
    by_cases hi : w.1 ≤ i ∧ i < w.1 + w.2.length ∧ i < Layout.memoryWords
    · left
      rw [Memory.word_overwrite, Memory.word_overwrite, if_pos hi, if_pos hi]
    · obtain h | ⟨hm, r, hr, h⟩ := h
      · left
        rw [Memory.word_overwrite, Memory.word_overwrite, if_neg hi, if_neg hi, h]
      · right
        simp only [List.map_cons, List.mem_cons] at hr
        obtain rfl | hr := hr
        · exact absurd ⟨h.1, h.2, hm⟩ hi
        · exact ⟨hm, r, hr, h⟩

end Effect

namespace Engine

theorem effect_form {e : Engine} {f : Opcode} {x : Effect} (h : e.effect f = .ok x) :
    x.Form f e.registers.operands := by
  cases f with
  | multiply | add | subtract =>
    obtain ⟨a, -, h⟩ := bind_eq_ok_iff.mp h
    obtain ⟨b, -, h⟩ := bind_eq_ok_iff.mp h
    exact ⟨_, Effect.of_store h⟩
  | modulo =>
    obtain ⟨m, -, h⟩ := bind_eq_ok_iff.mp h
    by_cases hm : m = 0
    · rw [if_pos hm] at h
      exact ⟨_, Effect.of_store h⟩
    · rw [if_neg hm] at h
      obtain ⟨r, -, h⟩ := bind_eq_ok_iff.mp h
      exact ⟨_, Effect.of_store h⟩
  | compare =>
    obtain ⟨a, -, h⟩ := bind_eq_ok_iff.mp h
    obtain ⟨b, -, h⟩ := bind_eq_ok_iff.mp h
    cases h
    exact ⟨_, rfl⟩
  | copy =>
    obtain ⟨ws, hr, h⟩ := bind_eq_ok_iff.mp h
    have hl : ws.length = e.registers.operands.aLength := by
      unfold Memory.read at hr
      split at hr
      · cases hr
        exact Memory.length_window _ _ _
      · cases hr
    split at h
    · cases h
      exact ⟨ws, hl, rfl⟩
    · cases h
  | invert =>
    obtain ⟨m, -, h⟩ := bind_eq_ok_iff.mp h
    obtain ⟨a, -, h⟩ := bind_eq_ok_iff.mp h
    split at h
    · cases h
    · exact ⟨_, Effect.of_store h⟩
  | pointAdd | pointMul =>
    obtain ⟨r, -, h⟩ := bind_eq_ok_iff.mp h
    exact Effect.of_storePoint h

/-! ## When there is an effect -/

section
variable {e : Engine} {w : Nat}

theorem exists_point {o : Nat} (h : ∀ r ∈ Opcode.coordinates o w, Fits r.1 r.2) :
    ∃ P, e.point o w = .ok P := by
  simp only [Opcode.coordinates, List.forall_mem_cons] at h
  unfold point
  rw [vector_eq h.1, vector_eq h.2.1]
  exact ⟨_, rfl⟩

theorem exists_curve {o : Operands} (h : ∀ r ∈ Opcode.coordinates o.b o.bLength, Fits r.1 r.2) :
    ∃ C, e.curve o = .ok C := by
  simp only [Opcode.coordinates, List.forall_mem_cons] at h
  unfold curve
  rw [vector_eq h.1, vector_eq h.2.1]
  exact ⟨_, rfl⟩

end

theorem exists_storePoint {o n : Nat} (h : Fits o n) (h' : Fits (o + n) n) (r : Option Point) :
    ∃ x, Effect.storePoint o n r = .ok x := by
  match r with
  | none | some .infinity => exact ⟨_, rfl⟩
  | some (.affine a b) =>
    refine ⟨Effect.storedPoint o n a b, ?_⟩
    simp only [Effect.storePoint, Effect.store_of_fits h, Effect.store_of_fits h']
    rfl

/-- **a function whose operands lie in memory has an effect**, an inversion if the modulus is not
zero -/
theorem exists_effect {e : Engine} {f : Opcode}
    (hr : ∀ r ∈ f.reads e.registers.operands, Fits r.1 r.2)
    (ht : ∀ r ∈ f.targets e.registers.operands, Fits r.1 r.2)
    (hm : f = .invert →
      e.memory.element e.registers.operands.bLength e.registers.operands.b ≠ 0) :
    ∃ x, e.effect f = .ok x := by
  unfold effect
  generalize e.registers.operands = o at hr ht hm ⊢
  cases f with
  | multiply | add | subtract =>
    simp only [Opcode.reads, Opcode.targets, List.forall_mem_cons] at hr ht
    simp only [vector_eq hr.1, vector_eq hr.2.1]
    exact ⟨_, Effect.store_of_fits ht.1 _⟩
  | modulo =>
    simp only [Opcode.reads, Opcode.targets, List.forall_mem_cons] at hr ht
    simp only [vector_eq hr.1, vector_eq hr.2.1]
    by_cases hz : e.memory.element o.bLength o.b = 0
    · exact ⟨_, (if_pos hz).trans (Effect.store_of_fits ht.1 _)⟩
    · exact ⟨_, (if_neg hz).trans (Effect.store_of_fits ht.1 _)⟩
  | compare =>
    simp only [Opcode.reads, List.forall_mem_cons] at hr
    simp only [vector_eq hr.1, vector_eq hr.2.1]
    exact ⟨_, rfl⟩
  | copy =>
    simp only [Opcode.reads, Opcode.targets, List.forall_mem_cons] at hr ht
    simp only [Memory.read_of_fits hr.1]
    refine ⟨_, if_pos ?_⟩
    rw [Memory.length_window]
    exact ht.1
  | invert =>
    simp only [Opcode.reads, Opcode.targets, List.forall_mem_cons] at hr ht
    simp only [vector_eq hr.1, vector_eq hr.2.1]
    exact ⟨_, (if_neg (hm rfl)).trans (Effect.store_of_fits ht.1 _)⟩
  | pointAdd =>
    simp only [Opcode.reads, List.forall_mem_append] at hr
    simp only [Opcode.targets, List.forall_mem_cons] at ht
    obtain ⟨C, hC⟩ := exists_curve (e := e) hr.1
    obtain ⟨Q, hQ⟩ := exists_point (e := e) hr.2.1
    obtain ⟨P, hP⟩ := exists_point (e := e) hr.2.2
    simp only [pointSum?, hC, hQ, hP]
    exact exists_storePoint ht.1 ht.2.1 _
  | pointMul =>
    simp only [Opcode.reads, List.forall_mem_append, List.forall_mem_singleton] at hr
    simp only [Opcode.targets, List.forall_mem_cons] at ht
    obtain ⟨C, hC⟩ := exists_curve (e := e) hr.1
    obtain ⟨Q, hQ⟩ := exists_point (e := e) hr.2.1
    simp only [pointMultiple?, hC, hQ, vector_eq hr.2.2]
    exact exists_storePoint ht.1 ht.2.1 _

/-- the effect of a comparison is its outcome -/
theorem effect_compare {e : Engine} {u : Operands}
    (hu : Opcode.compare.trim e.registers.operands = Opcode.compare.trim u)
    (hr : ∀ r ∈ Opcode.compare.reads u, Fits r.1 r.2) :
    e.effect .compare = .ok (.state .compare (Status.ofOrdering
      (compare (e.memory.element u.aLength u.a) (e.memory.element u.aLength u.b)))) := by
  simp only [Opcode.reads, List.forall_mem_cons] at hr
  simp only [Opcode.trim, Operands.mk.injEq] at hu
  obtain ⟨ha, hb, -, -, hl, -⟩ := hu
  simp only [effect, ha, hb, hl, vector_eq hr.1, vector_eq hr.2.1]
  rfl

/-! ## Starting a function -/

/-- a write that starts nothing -/
theorem writeRegister_of_not_starts {r : Register} {v : Word}
    (h : ¬ (r = .function ∧ Opcode.starts v = true)) (e : Engine) :
    e.writeRegister r v = (if r.isStatus then e else e.setRegister r v, .ok ()) := by
  unfold writeRegister
  cases r.isStatus with
  | true => rfl
  | false => exact if_neg h

end Engine

namespace Host

/-- the host after a function with the effect `x` was started -/
def started (h : Host) (f : Opcode) (x : Effect) : Host :=
  { h with
    engine := (x.apply (h.engine.accept (f.code ||| Opcode.run))).hold
    log := h.log.push (.started f)
    trace := h.trace.push ⟨f, h.engine.registers.operands⟩ }

variable {h : Host} {f : Opcode}

theorem writeRegister_start (e : Engine) (f : Opcode) :
    e.writeRegister .function (f.code ||| Opcode.run) = e.start (f.code ||| Opcode.run) := by
  unfold Engine.writeRegister
  rw [if_neg (by decide), if_pos ⟨rfl, Opcode.starts_code_run f⟩]

theorem answer_start (hp : h.engine.powered = true) (hb : h.engine.busy = 0) {x : Effect}
    (hx : h.engine.effect f = .ok x) : h.answer (.start f) = (h.started f x, .ok ()) := by
  have hx' : (h.engine.accept (f.code ||| Opcode.run)).effect f = .ok x := by
    rw [← hx]
    cases f <;> rfl
  have he : (h.engine.accept (f.code ||| Opcode.run)).execute f =
      .ok (x.apply (h.engine.accept (f.code ||| Opcode.run))) := by
    rw [Engine.execute_eq, hx']
    rfl
  rw [answer, writeRegister_start, Engine.start_of_accepted hp hb (Opcode.decode?_code_run f),
    Engine.launch_of_ok he]
  rfl

theorem answer_start_of_running (hp : h.engine.powered = true) (hb : h.engine.busy ≠ 0) :
    h.answer (.start f) =
      ({ h with
          log := h.log.push (.started f)
          trace := h.trace.push ⟨f, h.engine.registers.operands⟩ }, .error .busy) := by
  rw [answer, writeRegister_start, Engine.start_of_running hp hb]

end Host
end CurveEngine
