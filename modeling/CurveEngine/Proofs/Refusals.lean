import CurveEngine.Proofs.CheckedArithmetic
import CurveEngine.Proofs.Effects

/-!
# When a function is refused

A function word with the run flag is refused for one of five reasons, and the reasons are looked at
in a fixed order.  Which one it is can be told from the engine before the write, without carrying
anything out:

* `Window.require`      a computation that is refused when some words lie outside of the memory;
* `Engine.sources`      the words that a function reads, with what the memory holds;
* `Engine.sinks`        the words that it writes, with what it computes;
* `exists_effect_eq`    what a function refuses: words to read, the modulus 0 of an inversion, words
                        to write, in this order;
* `writeRegister_refuses`   the reasons in order, for any engine and any word with the run flag.

Two functions read or write less than their operands name: a remainder modulo 0 does not read its
dividend, and a function on points writes regular points only.
-/

namespace CurveEngine

open Memory (Fits)

namespace Window

variable {α β : Type}

/-- a computation, refused if one of the windows leaves the memory -/
def require (ws : List Window) (x : Except Fault α) : Except Fault α :=
  if ∃ r ∈ ws, ¬ Fits r.1 r.2 then .error .outOfBounds else x

theorem require_nil (x : Except Fault α) : require [] x = x := by
  apply if_neg
  rintro ⟨r, hr, -⟩
  exact List.not_mem_nil hr

/-- the windows are looked at one after the other, but the refusal is the same -/
theorem require_append (ws ws' : List Window) (x : Except Fault α) :
    require (ws ++ ws') x = require ws (require ws' x) := by
  unfold require
  by_cases h : ∃ r ∈ ws, ¬ Fits r.1 r.2
  · rw [if_pos h]
    obtain ⟨r, hr, hn⟩ := h
    exact if_pos ⟨r, List.mem_append_left ws' hr, hn⟩
  · rw [if_neg h]
    have e : (∃ r ∈ ws ++ ws', ¬ Fits r.1 r.2) ↔ ∃ r ∈ ws', ¬ Fits r.1 r.2 := by
      constructor
      · rintro ⟨r, hr, hn⟩
        obtain hr | hr := List.mem_append.mp hr
        · exact absurd ⟨r, hr, hn⟩ h
        · exact ⟨r, hr, hn⟩
      · rintro ⟨r, hr, hn⟩
        exact ⟨r, List.mem_append_right ws hr, hn⟩
    rw [if_congr e rfl rfl]

/-- and so is their order -/
theorem require_comm (ws ws' : List Window) (x : Except Fault α) :
    require ws (require ws' x) = require ws' (require ws x) := by
  unfold require
  split
  · split
    · rfl
    · rfl
  · rfl

theorem require_cons (r r' : Window) (ws : List Window) (x : Except Fault α) :
    require (r :: r' :: ws) x = require [r] (require (r' :: ws) x) :=
  require_append [r] (r' :: ws) x

/-- what follows a refused computation does not matter -/
theorem require_bind (ws : List Window) (x : Except Fault α) (k : α → Except Fault β) :
    require ws x >>= k = require ws (x >>= k) := by
  unfold require
  split
  · rfl
  · rfl

theorem require_ok_bind (ws : List Window) (a : α) (k : α → Except Fault β) :
    require ws (.ok a) >>= k = require ws (k a) :=
  require_bind ws (.ok a) k

theorem map_require (ws : List Window) (x : Except Fault α) (g : α → β) :
    g <$> require ws x = require ws (g <$> x) := by
  unfold require
  split
  · rfl
  · rfl

theorem require_of_fits {ws : List Window} (h : ∀ r ∈ ws, Fits r.1 r.2) (x : Except Fault α) :
    require ws x = x := by
  apply if_neg
  rintro ⟨r, hr, hn⟩
  exact hn (h r hr)

theorem require_singleton (o n : Nat) (x : Except Fault α) :
    require [(o, n)] x = if Fits o n then x else .error .outOfBounds := by
  by_cases h : Fits o n
  · rw [if_pos h]
    exact require_of_fits (List.forall_mem_singleton.mpr h) x
  · rw [if_neg h]
    exact if_pos ⟨(o, n), List.mem_singleton_self _, h⟩

end Window

open Window (require require_cons require_append require_bind require_ok_bind require_comm
  require_singleton)

/-- a point is written if it is a regular one -/
def Point.kept (ws : List Window) : Option Point → List Window
  | some (.affine _ _) => ws
  | _ => []

namespace Effect

theorem store_require (o n v : Nat) : store o n v = require [(o, n)] (.ok (stored o n v)) :=
  (require_singleton o n _).symm

/-- only a regular point needs its words -/
theorem storePoint_require (o n : Nat) (r : Option Point) :
    ∃ x, storePoint o n r = require (Point.kept [(o, n), (o + n, n)] r) (.ok x) := by
  match r with
  | none | some .infinity => exact ⟨_, (Window.require_nil _).symm⟩
  | some (.affine x y) =>
    refine ⟨storedPoint o n x y, ?_⟩
    show storePoint o n (some (.affine x y)) = require [(o, n), (o + n, n)] _
    rw [require_cons]
    simp only [storePoint, store_require, require_bind]
    rfl

end Effect

namespace Engine

variable (e : Engine)

/-! ## Words read and words written -/

/-- the number at B -/
def modulus : Nat := e.memory.element e.registers.operands.bLength e.registers.operands.b

theorem element_modulus :
    e.memory.element e.registers.operands.bLength e.registers.operands.b = e.modulus := rfl

/-- the words that a function reads; modulo 0 it does not read the dividend -/
def sources (f : Opcode) : List Window :=
  let o := e.registers.operands
  if f = .modulo ∧ e.modulus = 0 then [(o.b, o.bLength)] else f.reads o

/-- the sum of the points at A and C, if both are reduced -/
def sum? (o : Operands) : Option Point :=
  (e.memory.law o.bLength o.b).sum? (e.memory.point o.bLength o.a) (e.memory.point o.bLength o.c)

/-- the point at C times the scalar at A, if it is reduced -/
def multiple? (o : Operands) : Option Point :=
  (e.memory.law o.bLength o.b).multiple? (e.memory.element o.aLength o.a)
    (e.memory.point o.bLength o.c)

/-- the words that a function writes; infinity and failure are not written -/
def sinks (f : Opcode) : List Window :=
  let o := e.registers.operands
  match f with
  | .pointAdd => Point.kept (f.targets o) (e.sum? o)
  | .pointMul => Point.kept (f.targets o) (e.multiple? o)
  | _ => f.targets o

theorem sources_of_ne {f : Opcode} (hf : f ≠ .modulo) :
    e.sources f = f.reads e.registers.operands :=
  if_neg fun h => hf h.1

theorem sources_of_zero (hz : e.modulus = 0) :
    e.sources .modulo = [(e.registers.operands.b, e.registers.operands.bLength)] :=
  if_pos ⟨rfl, hz⟩

theorem sources_of_pos (hz : e.modulus ≠ 0) :
    e.sources .modulo = Opcode.modulo.reads e.registers.operands :=
  if_neg fun h => hz h.2

/-! ## Operands that may be refused -/

theorem vector_require (o n : Nat) :
    e.vector o n = require [(o, n)] (.ok (e.memory.element n o)) := by
  rw [require_singleton]
  by_cases h : Fits o n
  · rw [if_pos h, vector_eq h]
  · rw [if_neg h, vector, Memory.read, if_neg h]
    rfl

theorem point_require (o w : Nat) :
    e.point o w = require (Opcode.coordinates o w) (.ok (e.memory.point w o)) := by
  unfold point Opcode.coordinates
  simp only [vector_require, require_bind, require_cons]
  rfl

theorem curve_require (o : Operands) :
    e.curve o =
      require (Opcode.coordinates o.b o.bLength) (.ok (e.memory.law o.bLength o.b)) := by
  unfold curve Opcode.coordinates
  simp only [vector_require, require_bind, require_cons]
  rfl

theorem pointSum?_require (o : Operands) :
    e.pointSum? o = require (Opcode.pointAdd.reads o) (.ok (e.sum? o)) := by
  unfold pointSum? Opcode.reads
  simp only [curve_require, point_require, require_bind, require_append]
  rfl

theorem pointMultiple?_require (o : Operands) :
    e.pointMultiple? o = require (Opcode.pointMul.reads o) (.ok (e.multiple? o)) := by
  unfold pointMultiple? Opcode.reads
  simp only [curve_require, point_require, vector_require, require_bind, require_append]
  rfl

theorem read_require (o n : Nat) :
    e.memory.read o n = require [(o, n)] (.ok (e.memory.window o n)) :=
  (require_singleton o n _).symm

/-- **what a function refuses**: words to read that leave the memory, then the modulus 0 of an
inversion, then words to write -/
theorem exists_effect_eq (f : Opcode) :
    ∃ x, e.effect f = require (e.sources f)
      (if f = .invert ∧ e.modulus = 0 then .error .zeroModulus
        else require (e.sinks f) (.ok x)) := by
  cases f with
  | multiply | add | subtract =>
    rw [e.sources_of_ne (by decide), effect]
    unfold sinks Opcode.reads Opcode.targets
    simp only [vector_require, Effect.store_require, require_ok_bind, require_cons]
    exact ⟨_, rfl⟩
  | modulo =>
    unfold effect sinks Opcode.targets
    simp only [vector_require, Effect.store_require, require_ok_bind, Window.map_require,
      Except.map_ok, element_modulus]
    -- the modulus is read first, and 0 is enough to know
    by_cases hz : e.modulus = 0
    · rw [e.sources_of_zero hz, if_pos hz]
      exact ⟨_, rfl⟩
    · rw [e.sources_of_pos hz, if_neg hz, require_comm, ← require_cons]
      exact ⟨_, rfl⟩
  | compare =>
    rw [e.sources_of_ne (by decide), effect]
    unfold sinks Opcode.reads Opcode.targets
    simp only [vector_require, require_ok_bind, require_cons, Window.require_nil]
    exact ⟨_, rfl⟩
  | copy =>
    rw [e.sources_of_ne (by decide), effect]
    unfold sinks Opcode.reads Opcode.targets
    simp only [read_require, require_ok_bind, Memory.length_window, ← require_singleton]
    exact ⟨_, rfl⟩
  | invert =>
    rw [e.sources_of_ne (by decide), effect]
    unfold sinks Opcode.reads Opcode.targets
    simp only [vector_require, Effect.store_require, require_ok_bind, require_cons,
      element_modulus]
    by_cases hz : e.modulus = 0
    · refine ⟨.state .msw 0, ?_⟩
      rw [if_pos hz, if_pos ⟨trivial, hz⟩, require_comm]
    · rw [if_neg hz, require_comm]
      exact ⟨_, congrArg (require _) (congrArg (require _) (if_neg fun h => hz h.2).symm)⟩
  | pointAdd =>
    obtain ⟨x, hx⟩ := Effect.storePoint_require e.registers.operands.d
      (Layout.coordinateSpace e.registers.operands.bLength) (e.sum? e.registers.operands)
    refine ⟨x, ?_⟩
    show e.pointSum? e.registers.operands >>= _ = _
    rw [pointSum?_require, require_ok_bind, hx, e.sources_of_ne (by decide)]
    rfl
  | pointMul =>
    obtain ⟨x, hx⟩ := Effect.storePoint_require e.registers.operands.d
      (Layout.coordinateSpace e.registers.operands.bLength) (e.multiple? e.registers.operands)
    refine ⟨x, ?_⟩
    show e.pointMultiple? e.registers.operands >>= _ = _
    rw [pointMultiple?_require, require_ok_bind, hx, e.sources_of_ne (by decide)]
    rfl

/-! ## Writing the run flag -/

variable {e}

/-- only the function register changes before a function runs -/
theorem sources_accept (v : Word) (f : Opcode) : (e.accept v).sources f = e.sources f := rfl

theorem sinks_accept (v : Word) (f : Opcode) : (e.accept v).sinks f = e.sinks f := by
  cases f <;> rfl

/-- an accepted function answers what its effect does -/
theorem launch_answer (v : Word) (f : Opcode) :
    (e.launch v f).2 = (fun _ => ()) <$> (e.accept v).effect f := by
  unfold launch
  rw [execute_eq]
  cases (e.accept v).effect f with
  | error c => rfl
  | ok x => rfl

theorem launch_refuses (v : Word) (f : Opcode) :
    (e.launch v f).2 = require (e.sources f)
      (if f = .invert ∧ e.modulus = 0 then .error .zeroModulus
        else require (e.sinks f) (.ok ())) := by
  obtain ⟨x, hx⟩ := (e.accept v).exists_effect_eq f
  rw [launch_answer, hx, Window.map_require, sources_accept, sinks_accept]
  show require _ ((fun _ => ()) <$> (if f = .invert ∧ e.modulus = 0 then _ else _)) = _
  by_cases hz : f = .invert ∧ e.modulus = 0
  · rw [if_pos hz, if_pos hz]
    rfl
  · rw [if_neg hz, if_neg hz, Window.map_require]
    rfl

/-- **why a function word is refused**: no power, a function that is still running, a word that
names no function, words to read that leave the memory, an inversion modulo 0, words to write that
leave the memory, and in this order; for no other reason, since no difference ever goes below 0 and
no remainder is taken modulo 0 -/
theorem writeRegister_refuses {v : Word} (hv : Opcode.starts v = true) :
    (e.writeRegister .function v).2 =
        (if e.powered = false then .error .poweredDown
        else if e.busy ≠ 0 then .error .busy
        else
          match Opcode.decode? v with
          | none => .error (.unsupported v)
          | some f =>
            if ∃ r ∈ e.sources f, ¬ Fits r.1 r.2 then .error .outOfBounds
            else if f = .invert ∧ e.modulus = 0 then .error .zeroModulus
            else if ∃ r ∈ e.sinks f, ¬ Fits r.1 r.2 then .error .outOfBounds
            else .ok ()) ∧
      ∀ f, Opcode.decode? v = some f →
        (e.accept v).checked f = misuse ((e.accept v).execute f) := by
  refine ⟨?_, fun f _ => checked_eq _ f⟩
  rw [writeRegister, if_neg (by decide), if_pos ⟨rfl, hv⟩]
  by_cases hp : e.powered = false
  · rw [start_of_off hp, if_pos hp]
  rw [if_neg hp]
  rw [Bool.not_eq_false] at hp
  by_cases hb : e.busy ≠ 0
  · rw [start_of_running hp hb, if_pos hb]
  rw [if_neg hb]
  rw [not_not] at hb
  cases hf : Opcode.decode? v with
  | none => rw [start_of_unsupported hp hb hf]
  | some f =>
    rw [start_of_accepted hp hb hf]
    exact launch_refuses v f

/-- one word at the start of the memory to be inverted modulo another one, both of them 0, with no
place for the inverse -/
def singular : Engine :=
  { (new 0).init with
    registers := { RegisterFile.zero with dPtr := 600, aLength := 1, bLength := 1 } }

/-- the modulus is looked at before the place for the inverse -/
theorem writeRegister_refuses_singular :
    Opcode.starts 0xf000 = true ∧
      (singular.writeRegister .function 0xf000).2 = .error .zeroModulus := by
  have hv : Opcode.starts 0xf000 = true := rfl
  refine ⟨hv, (writeRegister_refuses hv).1.trans ?_⟩
  decide +kernel

/-- one word outside of the memory to be divided by one at its start, which is 0 -/
def dividing : Engine :=
  { (new 0).init with
    registers := { RegisterFile.zero with aPtr := 600, cPtr := 10, aLength := 1, bLength := 1 } }

/-- an operand that leaves the memory does not always matter: a remainder modulo 0 does not read its
dividend -/
theorem not_forall_operands_fit :
    ¬ ∀ (e : Engine) (v : Word) (f : Opcode), Opcode.starts v = true → e.powered = true →
      e.busy = 0 → Opcode.decode? v = some f →
      (∃ r ∈ f.reads e.registers.operands, ¬ Fits r.1 r.2) →
        (e.writeRegister .function v).2 = .error .outOfBounds := by
  intro h
  have hr := h dividing 0x8200 .modulo rfl rfl rfl rfl
    ⟨(600, 1), List.mem_cons_self, by decide⟩
  have hw : (dividing.writeRegister .function 0x8200).2 = .ok () := by decide +kernel
  rw [hw] at hr
  cases hr

end Engine
end CurveEngine
