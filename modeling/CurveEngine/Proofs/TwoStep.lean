import CurveEngine.Proofs.Domain
import CurveEngine.Proofs.Marks

/-!
# Arithmetic modulo a number takes two steps

A product or a sum modulo a number is two functions: the first one leaves a raw result in the
scratchpad, the second one the remainder of as many words as the status word of the first one says.

* `Ends.trace_invoke`     one function is one entry of the trace, with the operands that were set;
* `Arithmetic.Reduces`    the outcome of both: a refused zero, or a remainder, the trace of both
                          functions, and a dividend that is the whole raw result and nothing else;
* `modular_reduces`       the program has this outcome;
* `two_steps`             and modulo the field's prime a raw zero is a result like any other.

Operands are of `w` words and may lie anywhere, the result may lie over an operand, and none of the
numbers has to be reduced.  The second function is started without a length at B: it has the one that
was set for the first.
-/

namespace CurveEngine

open Memory (Fits)
open Layout (Outside)

namespace Memory

theorem element_succ (m : Memory) (w o : Nat) :
    m.element (w + 1) o = m.element w o + 2 ^ (32 * w) * (m.word (o + w)).toNat := by
  unfold element
  rw [window_append, Words.value_append, length_window]
  rfl

theorem word_eq_zero_of_lt {m : Memory} {w o : Nat} (h : m.element (w + 1) o < 2 ^ (32 * w)) :
    m.word (o + w) = 0 := by
  rw [element_succ] at h
  apply UInt32.toNat_inj.mp
  by_contra hne
  have := Nat.le_mul_of_pos_right (2 ^ (32 * w)) (Nat.pos_of_ne_zero hne)
  omega

end Memory

namespace Program

theorem Ends.trace_invoke {l : List (Register × Nat)} {f : Opcode} {h h' : Host}
    (hl : ∀ rn ∈ l, rn.1.isOperand = true ∧ rn.2 ≤ Layout.memoryWords)
    (he : (invoke l f).Ends h (.ok ()) h') :
    h'.trace = h.trace.push ⟨f, h.engine.registers.operands.setAll l⟩ := by
  induction l generalizing h with
  | nil =>
    unfold Ends at he
    rcases hq : h.answer (.start f) with ⟨k, g | u⟩
    · rw [show invoke [] f = run f from rfl, run, finish_ask_of_error hq] at he
      cases he
    · rw [show invoke [] f = run f from rfl, run, finish_ask_of_ok hq] at he
      cases he
      have hk : (h.answer (.start f)).1 = k := congrArg Prod.fst hq
      rw [Host.trace_await]
      subst hk
      rfl
  | cons rn l ih =>
    obtain ⟨hrn, hl⟩ := List.forall_mem_cons.mp hl
    have hs := Register.writable_of_isOperand hrn.1
    have hset := ends_writeRegister (h := h) hs.1 hs.2 (UInt32.ofNat rn.2)
    unfold Ends at he hset
    rw [show invoke (rn :: l) f = (writeRegister rn.1 (UInt32.ofNat rn.2)).bind fun _ =>
      invoke l f from rfl, finish_bind, hset] at he
    rw [ih hl he, operands_setRegister hrn.1 hrn.2]
    rfl

end Program

namespace Arithmetic

open Program

section
variable {w : Nat} (hw : w ≤ Layout.elementWords) {f : Opcode} (hf : f = .multiply ∨ f = .add)
variable {h : Host} {a b m result : Nat}

include hf in
theorem targets_raw (a b d : Nat) :
    f.targets ⟨a, b, Layout.scratchpad, d, w, w⟩ = [(Layout.scratchpad, rawWords f w)] := by
  obtain rfl | rfl := hf
  · rfl
  · show [(Layout.scratchpad, max w w + 1)] = _
    rw [Nat.max_self]
    rfl

/-! ## Both steps -/

/-- a program that started with `h` refused a raw zero and left the result's words, or it left the
remainder of the whole raw result in one word more than the modulus has -/
inductive Reduces (f : Opcode) (w a b m result : Nat) (h : Host) :
    Except Failure Unit → Host → Prop
  | refused {h' : Host} (hv : raw f (h.element w a) (h.element w b) = 0)
    (hw : h.Writes h' result 0)
    (hkept : h'.engine.memory.window result (w + 1) = h.engine.memory.window result (w + 1)) :
    Reduces f w a b m result h (.error .zeroResult) h'
  | reduced {h' : Host} {n d : Nat} (hv : raw f (h.element w a) (h.element w b) ≠ 0)
    (hw : h.Writes h' result (w + 1))
    (hres : h'.element (w + 1) result =
      Residue.total (raw f (h.element w a) (h.element w b)) (h.element w m))
    (htop : h'.engine.memory.word (result + w) = 0)
    (htrace : h'.trace.toList = h.trace.toList ++
      [⟨f, ⟨a, b, Layout.scratchpad, d, w, w⟩⟩,
        ⟨.modulo, ⟨Layout.scratchpad, m, result, d, n, w⟩⟩])
    (hcovers : raw f (h.element w a) (h.element w b) < 2 ^ (32 * n))
    (hwritten : ∃ k, f.targets ⟨a, b, Layout.scratchpad, d, w, w⟩ = [(Layout.scratchpad, k)] ∧
      n ≤ k) :
    Reduces f w a b m result h (.ok ()) h'

include hw hf in
theorem remainder_reduces {h₁ : Host} {v i : Nat} {status : Word} (ha : Fits a w) (hb : Fits b w)
    (hm : Fits m w ∧ Outside m w) (ht : Fits result (w + 1))
    (hv : raw f (h.element w a) (h.element w b) = v) (hne : v ≠ 0)
    (he₁ : (invoke (rawSettings w a b) f).Ends h (.ok ()) h₁) (hr₁ : h₁.Ready)
    (w₁ : h.Writes h₁ result (w + 1))
    (hm₁ : h₁.engine.memory =
      h.engine.memory.overwrite Layout.scratchpad (Words.ofNat (rawWords f w) v))
    (ho₁ : h₁.engine.registers.operands =
      ⟨a, b, Layout.scratchpad, h.engine.registers.operands.d, w, w⟩)
    (hi : i < rawWords f w) (hadr : Status.address status = Layout.scratchpad + i)
    (hu : v < 2 ^ (32 * (i + 1))) :
    ∃ h₂, (invoke (remainderSettings (rawLength w (Status.address status)) m result)
      .modulo).Ends h₁ (.ok ()) h₂ ∧ h₁.Writes h₂ result (w + 1) ∧
        Reduces f w a b m result h (.ok ()) h₂ := by
  obtain ⟨hwn, hn⟩ := rawWords_bounds hw f
  obtain ⟨h₂, he₂, hr₂, hm₂⟩ :=
    ends_remainder hr₁ hn hwn hm.1 ht hm₁ (by rw [ho₁]) hi hadr hu
  obtain ⟨hle, hcovers⟩ := rawLength_bounds (w := w) hwn hi hadr hu
  have w₂ : h₁.Writes h₂ result (w + 1) := .of_overwrite hr₂ hm₂ (Words.length_ofNat _ _).le
  have hmodulus : h₁.element w m = h.element w m := by
    refine Host.Writes.element (o := 0) (n := 0) ?_ (Nat.le_refl w) ⟨hm.2, .inl rfl⟩
    exact .of_scratchpad hr₁ hm₁ (by rw [Words.length_ofNat]; exact hn.trans (by decide)) 0 0
  have hsmall : Residue.total v (h.element w m) < 2 ^ (32 * w) :=
    Residue.total_lt (Nat.two_pow_pos _) (Memory.element_lt _ _ _)
  have hres : h₂.element (w + 1) result = Residue.total v (h.element w m) := by
    show h₂.engine.memory.element (w + 1) result = _
    rw [hm₂, hmodulus, Memory.element_overwrite_of_lt ht (Nat.le_refl _)]
    exact hsmall.trans (Nat.pow_lt_pow_right (by decide) (by omega))
  have hlength : rawLength w (Status.address status) ≤ Layout.memoryWords :=
    hle.trans (hn.trans (by decide))
  refine ⟨h₂, he₂, w₂, .reduced (hv ▸ hne) (w₁.trans w₂) (hv ▸ hres)
    (Memory.word_eq_zero_of_lt (lt_of_eq_of_lt hres hsmall)) ?_ (hv ▸ hcovers)
    ⟨rawWords f w, targets_raw hf a b h.engine.registers.operands.d, hle⟩⟩
  rw [he₂.trace_invoke (remainderSettings_le hlength hm.1.le ht.le),
    he₁.trace_invoke (rawSettings_le hw ha.le hb.le), ho₁, Array.toList_push, Array.toList_push,
    List.append_assoc]
  rfl

include hw hf in
/-- **a product or a sum modulo any number**, reduced or not -/
theorem modular_reduces (hr : h.Ready) (ha : Fits a w) (hb : Fits b w)
    (hm : Fits m w ∧ Outside m w) (ht : Fits result (w + 1) ∧ Outside result (w + 1)) :
    ∃ x h', (modular f w a b m result).Ends h x h' ∧ Reduces f w a b m result h x h' := by
  generalize hv : raw f (h.element w a) (h.element w b) = v
  have hlt : v < 2 ^ (32 * rawWords f w) :=
    hv ▸ raw_lt hf (Memory.element_lt _ _ _) (Memory.element_lt _ _ _)
  -- a refused zero leaves nothing but the scratchpad, and a remainder takes one word more
  have hc : (modular f w a b m result).Computes h result (if v = 0 then 0 else w + 1)
      (if v = 0 then .error .zeroResult else .ok ())
      fun _ (_ : Unit) => Reduces f w a b m result h (.ok ()) := by
    refine refuseZero_computes hr (rawSettings_le hw ha.le hb.le) (rawWords_bounds hw f).2 hlt
      (fun e hmem ho => ?_) fun hne h₁ status he₁ hr₁ w₁ hm₁ ho₁ hi => ?_
    · rw [execute_raw hw hf ho ha hb, hmem, ← hv]
      rfl
    · obtain ⟨i, hi, hadr, hu⟩ := hi
      rw [if_neg hne] at w₁ ⊢
      obtain ⟨h₂, he₂, w₂, hx⟩ :=
        remainder_reduces hw hf ha hb hm ht.1 hv hne he₁ hr₁ w₁ hm₁ ho₁ hi hadr hu
      exact .of_ok he₂ w₂ hx
  by_cases h0 : v = 0
  · rw [if_pos h0, if_pos h0] at hc
    obtain ⟨h', w', he⟩ := hc
    refine ⟨_, h', he, .refused (hv.trans h0) w' ?_⟩
    obtain ⟨-, hout⟩ := ht
    unfold Layout.Outside at hout
    exact Memory.window_congr fun i hl hu => w'.word i (by omega) (by omega)
  · rw [if_neg h0, if_neg h0] at hc
    obtain ⟨h', -, _, he, hx⟩ := hc
    exact ⟨_, h', he, hx⟩

include hw hf in
/-- modulo the field's prime, the constant 0 takes the place of a refused zero -/
theorem field_reduces (hr : h.Ready) (ha : Fits a w) (hb : Fits b w)
    (ht : Fits result (w + 1) ∧ Outside result (w + 1)) (h0 : h.element w Layout.null = 0) :
    ∃ h', (field f w a b result).Ends h (.ok ()) h' ∧ h.Writes h' result (w + 1) ∧
      h'.element w result = Residue.total (raw f (h.element w a) (h.element w b))
        (h.element w Layout.field) := by
  have hfield : Fits Layout.field w ∧ Outside Layout.field w := by
    unfold Layout.elementWords at hw
    unfold Memory.Fits Outside
    have : Layout.field + 8 ≤ Layout.scratchpad ∧ Layout.scratchpad ≤ Layout.memoryWords := by decide
    omega
  have hnull : Fits Layout.null w :=
    Memory.Fits.mono (by decide : Fits Layout.null Layout.elementWords) hw
  obtain ⟨x, h₁, he, hx⟩ := modular_reduces hw hf hr ha hb hfield ht
  cases hx with
  | refused hv w₁ =>
    have ht' : Fits result w := ht.1.mono (Nat.le_succ w)
    obtain ⟨h₂, he₂, hr₂, hm₂⟩ := ends_copy w₁.ready hnull ht'
    have w₂ : h₁.Writes h₂ result (w + 1) :=
      .of_overwrite hr₂ hm₂ (by rw [Memory.length_window]; exact Nat.le_succ w)
    refine ⟨h₂, he.attempt.bind he₂, (w₁.of_none _ _).trans w₂, ?_⟩
    have hn : h₁.element w Layout.null = 0 := by
      refine (w₁.element (Nat.le_refl w) ⟨.inl ?_, .inl rfl⟩).trans h0
      exact Nat.le_trans (Nat.add_le_add_left hw _) (by decide)
    rw [hv, Residue.total_zero]
    show h₂.engine.memory.element w result = 0
    rw [hm₂, Memory.element_overwrite_window_zero ht']
    exact hn
  | reduced hv w₁ hres htop =>
    refine ⟨h₁, he.attempt.bind rfl, w₁, ?_⟩
    have hsucc := h₁.engine.memory.element_succ w result
    rw [htop] at hsucc
    exact hsucc.symm.trans hres

include hw hf in
/-- **two steps are one**: in memory, whatever it holds, a product or a sum modulo any number is
refused if it is zero before it is reduced, and otherwise it is the remainder; modulo the field's
prime it is the remainder in any case, in two functions -/
theorem two_steps (hr : h.Ready) (ha : Fits a w) (hb : Fits b w)
    (hm : Fits m w ∧ Outside m w) (ht : Fits result (w + 1) ∧ Outside result (w + 1)) :
    (∃ x h', (modular f w a b m result).Ends h x h' ∧ Reduces f w a b m result h x h') ∧
      (h.element w Layout.null = 0 → ∃ h', (field f w a b result).Ends h (.ok ()) h' ∧
        h.Writes h' result (w + 1) ∧
        h'.element w result = Residue.total (raw f (h.element w a) (h.element w b))
          (h.element w Layout.field) ∧
        h'.trace.size = h.trace.size + 2 ∧ h'.engine.started = h.engine.started + 2) := by
  refine ⟨modular_reduces hw hf hr ha hb hm ht, fun h0 => ?_⟩
  obtain ⟨h', he, hwrites, hres⟩ := field_reduces hw hf hr ha hb ht h0
  exact ⟨h', he, hwrites, hres, (takes_field w f a b result).ends he⟩

/-- in the words of P-192, the square of the prime modulo the order, written over the prime, and the
product of two zeros modulo the prime -/
theorem two_steps_small :
    let h := (Session.small 1).host (.validate [])
    (∃ x h', (modular .multiply 6 Layout.field Layout.field Layout.order Layout.field).Ends h x h' ∧
        Reduces .multiply 6 Layout.field Layout.field Layout.order Layout.field h x h') ∧
      ∃ h', (field .multiply 6 Layout.null Layout.null Layout.field).Ends h (.ok ()) h' ∧
        h'.trace.size = h.trace.size + 2 := by
  intro h
  have hr : h.Ready := (Session.idle_small 1).ready (c := .p192) rfl _
  have hL : h.Loaded 6 CurveData.small.values := ⟨hr, by decide, Session.constants_small 1, rfl⟩
  obtain ⟨-, hfield⟩ := two_steps (by decide) (.inl rfl) hr (by decide : Fits Layout.null 6)
    (by decide : Fits Layout.null 6) (by decide : Fits Layout.order 6 ∧ Outside Layout.order 6)
    (by decide : Fits Layout.field 7 ∧ Outside Layout.field 7)
  obtain ⟨h', he, -, -, hsize, -⟩ := hfield hL.null_element
  exact ⟨(two_steps (by decide) (.inl rfl) hr (by decide) (by decide) (by decide) (by decide)).1,
    h', he, hsize⟩

end
end Arithmetic
end CurveEngine
