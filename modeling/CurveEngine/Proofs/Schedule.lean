import CurveEngine.Proofs.Runs

/-!
# Functions in a fixed order

What a program makes the engine do may depend on what is in memory.  Here programs are followed that
start their functions in an order that is fixed beforehand, round by round, where every random draw
begins a new round, and with operands that are fixed as well, but for one.

* `Invocation.outline`     a started function without the operands that may differ;
* `Words.Fewest`, `Host.Divides`   the one that may: the length of a dividend is that of the result
                           before it;
* `Program.Scheduled`      the functions that a program starts are those that are left of a round;
                           `Scheduled.bind`, `Scheduled.attempt` follow it part by part;
* `Program.Starts`         a part that starts these functions, or fails before it started them all;
* `starts_compare` … `starts_modular`   each primitive is one;
* `scheduled_sample`       sampling, if its rounds start the functions of a round;
* `Host.Rounds`            the functions that a host has started, round by round;
* `Passes.scheduled`, `Scheduled.drive`   these are as scheduled, wherever a run stands and however it
                           ends.
-/

namespace CurveEngine

/-- a started function with the operands that it uses; the length of a dividend is left out -/
def Invocation.outline (i : Invocation) : Invocation :=
  ⟨i.opcode,
    if i.opcode = .modulo then { i.opcode.trim i.operands with aLength := 0 }
    else i.opcode.trim i.operands⟩

/-- `n` words are the fewest that hold `v`, but at least `w` -/
structure Words.Fewest (w v n : Nat) : Prop where
  le : w ≤ n
  lt : v < 2 ^ (32 * n)
  least : w < n → 2 ^ (32 * (n - 1)) ≤ v

theorem Words.Fewest.le_max {w v n m : Nat} (h : Words.Fewest w v n) (hv : v < 2 ^ (32 * m)) :
    n ≤ max w m := by
  by_cases hw : w < n
  · have := Nat.lt_of_le_of_lt (h.least hw) hv
    have := (Nat.pow_lt_pow_iff_right (by decide : 1 < 2)).mp this
    omega
  · omega

namespace Host

/-- as far as the functions to come are concerned, only time has passed -/
structure Still (h h' : Host) : Prop where
  memory : h'.engine.memory = h.engine.memory
  registers : h'.engine.registers = h.engine.registers
  trace : h'.trace = h.trace
  drawn : h'.drawn = h.drawn

/-- the length at A is that of the result that the last function left in the scratchpad, but that of
an element if the result is shorter -/
def Divides (w : Nat) (h : Host) : Prop :=
  ∃ i n, h.trace.back? = some i ∧ i.opcode.targets i.operands = [(Layout.scratchpad, n)] ∧
    Words.Fewest w (h.element n Layout.scratchpad) h.engine.registers.operands.aLength

/-- the function is the next one of those that are left of the round -/
structure Due (w : Nat) (l : Option (List Invocation)) (f : Opcode) (h : Host) : Prop where
  outline : ∃ rest, l = some ((Invocation.mk f h.engine.registers.operands).outline :: rest)
  dividend : f = .modulo → h.Divides w

/-- the host with some operand registers set -/
def prepare (h : Host) (r : List (Register × Nat)) : Host :=
  r.foldl (fun h rn => h.setRegister rn.1 (UInt32.ofNat rn.2)) h

theorem prepare_frame (h : Host) (r : List (Register × Nat)) :
    (h.prepare r).engine.memory = h.engine.memory ∧ (h.prepare r).trace = h.trace ∧
      (h.prepare r).drawn = h.drawn := by
  induction r generalizing h with
  | nil => exact ⟨rfl, rfl, rfl⟩
  | cons rn r ih => exact ih (h.setRegister rn.1 (UInt32.ofNat rn.2))

theorem operands_prepare (h : Host) {r : List (Register × Nat)}
    (hr : ∀ rn ∈ r, rn.1.isOperand = true ∧ rn.2 ≤ Layout.memoryWords) :
    (h.prepare r).engine.registers.operands = h.engine.registers.operands.setAll r := by
  induction r generalizing h with
  | nil => rfl
  | cons rn r ih =>
    obtain ⟨hrn, hr⟩ := List.forall_mem_cons.mp hr
    show ((h.setRegister rn.1 (UInt32.ofNat rn.2)).prepare r).engine.registers.operands = _
    rw [ih _ hr, Program.operands_setRegister hrn.1 hrn.2]
    rfl

/-- a function that was started had its effect -/
theorem exists_started {h h' : Host} {f : Opcode} (hq : h.answer (.start f) = (h', .ok ())) :
    ∃ x, h.engine.effect f = .ok x ∧ h' = h.started f x := by
  have hw : h.answer (.start f) = ({ h with
      engine := (h.engine.start (f.code ||| Opcode.run)).1
      log := h.log.push (.started f)
      trace := h.trace.push ⟨f, h.engine.registers.operands⟩ },
      (h.engine.start (f.code ||| Opcode.run)).2) := by
    rw [answer, writeRegister_start]
  cases hp : h.engine.powered with
  | false =>
    rw [hw, Engine.start_of_off hp] at hq
    cases hq
  | true =>
    by_cases hb : h.engine.busy = 0
    · cases hx : h.engine.effect f with
      | ok x =>
        rw [answer_start hp hb hx] at hq
        cases hq
        exact ⟨x, rfl, rfl⟩
      | error c =>
        have hx' : (h.engine.accept (f.code ||| Opcode.run)).execute f = .error c := by
          rw [Engine.execute_eq, show (h.engine.accept (f.code ||| Opcode.run)).effect f = _ from
            (by cases f <;> exact hx)]
          rfl
        rw [hw, Engine.start_of_accepted hp hb (Opcode.decode?_code_run f),
          Engine.launch_of_error hx'] at hq
        cases hq
    · rw [answer_start_of_running hp hb] at hq
      cases hq

theorem Still.trans {h h' h'' : Host} (hh : h.Still h') (hh' : h'.Still h'') : h.Still h'' :=
  ⟨hh'.memory.trans hh.memory, hh'.registers.trans hh.registers, hh'.trace.trans hh.trace,
    hh'.drawn.trans hh.drawn⟩

end Host

/-- what is left of a round after a request; before the first one there is none, and a draw begins
the next one -/
def Request.left (S : List Invocation) (l : Option (List Invocation)) :
    Request → Option (List Invocation)
  | start _ => l.map List.tail
  | draw => some S
  | _ => l

namespace Program

open Arithmetic Sampling

variable {α β : Type} {w : Nat} {S : List Invocation} {l : Option (List Invocation)}

/-- with `l` left of a round, the program starts the functions that are due, and it ends well with
results and functions left as `Q` says -/
def Scheduled (w : Nat) (S : List Invocation) (Q : α → Option (List Invocation) → Prop) :
    Option (List Invocation) → Program α → Host → Prop
  | l, done a, _ => Q a l
  | _, fail _, _ => True
  | l, ask q next, h =>
    (∀ f, q = .start f → h.Due w l f) ∧
      ∀ h' r, h.answer q = (h', .ok r) → (next r).Scheduled w S Q (q.left S l) h'
  | l, wait next, h => ∀ h', h.Still h' → next.Scheduled w S Q l h'

variable {Q : α → Option (List Invocation) → Prop} {R : β → Option (List Invocation) → Prop}
  {p : Program α} {h : Host}

/-! ## Programs in parts -/

namespace Scheduled

theorem of_fail (e : Failure) : (fail e : Program α).Scheduled w S Q l h := trivial

theorem bind {f : α → Program β} (hp : p.Scheduled w S Q l h)
    (hf : ∀ a l h, Q a l → (f a).Scheduled w S R l h) : (p.bind f).Scheduled w S R l h := by
  induction p generalizing l h with
  | done a => exact hf a l h hp
  | fail e => trivial
  | ask q next ih => exact ⟨hp.1, fun h' r hq => ih r (hp.2 h' r hq)⟩
  | wait next ih => exact fun h' hs => ih (hp h' hs)

theorem attempt (hp : p.Scheduled w S Q l h) :
    p.attempt.Scheduled w S (fun r l => ∀ a, r = .ok a → Q a l) l h := by
  induction p generalizing l h with
  | done a =>
    rintro b hb
    cases hb
    exact hp
  | fail e =>
    rintro b hb
    cases hb
  | ask q next ih => exact ⟨hp.1, fun h' r hq => ih r (hp.2 h' r hq)⟩
  | wait next ih => exact fun h' hs => ih (hp h' hs)

theorem ite {c : Prop} [Decidable c] {q : Program α} (hp : p.Scheduled w S Q l h)
    (hq : q.Scheduled w S Q l h) : (if c then p else q).Scheduled w S Q l h := by
  split
  · exact hp
  · exact hq

end Scheduled

/-- the program starts the functions `is` of a round, or it fails before it started them all -/
def Starts (w : Nat) (S is : List Invocation) (p : Program α) : Prop :=
  ∀ rest h, p.Scheduled w S (fun _ l => l = some rest) (some (is ++ rest)) h

namespace Starts

variable {is js : List Invocation}

theorem of_done (a : α) : (done a).Starts w S [] := fun _ _ => rfl

theorem of_fail (e : Failure) : (fail e : Program α).Starts w S is := fun _ _ => trivial

theorem andThen (hp : p.Starts w S is) {f : α → Program β} {rest : List Invocation}
    (hf : ∀ a h, (f a).Scheduled w S R (some rest) h) :
    (p.bind f).Scheduled w S R (some (is ++ rest)) h := by
  apply (hp rest h).bind
  rintro a l h rfl
  exact hf a h

theorem bind (hp : p.Starts w S is) {f : α → Program β} (hf : ∀ a, (f a).Starts w S js) :
    (p.bind f).Starts w S (is ++ js) := by
  intro rest h
  rw [List.append_assoc]
  exact hp.andThen fun a h => hf a rest h

theorem ite {c : Prop} [Decidable c] {q : Program α} (hp : p.Starts w S is)
    (hq : q.Starts w S is) : (if c then p else q).Starts w S is :=
  fun rest h => .ite (hp rest h) (hq rest h)

/-- a program that goes on after a failure, with some functions not started -/
theorem tried (hp : p.Starts w S is) {f : Except Failure α → Program β} {rest : List Invocation}
    (hok : ∀ a h, (f (.ok a)).Scheduled w S R (some rest) h)
    (herr : ∀ e l h, (f (.error e)).Scheduled w S R l h) :
    (p.attempt.bind f).Scheduled w S R (some (is ++ rest)) h := by
  refine (hp rest h).attempt.bind fun r l h hr => ?_
  cases r with
  | ok a =>
    obtain rfl := hr a rfl
    exact hok a h
  | error e => exact herr e l h

end Starts

/-! ## Requests -/

/-- a request that starts no function and draws nothing -/
theorem scheduled_ask {q : Request} {next : q.Reply → Program α} (hs : q.starts = false)
    (hd : q ≠ .draw) (hn : ∀ r h, (next r).Scheduled w S Q l h) :
    (ask q next).Scheduled w S Q l h := by
  have hl : q.left S l = l := by
    cases q with
    | start f => cases hs
    | draw => exact absurd rfl hd
    | _ => rfl
  refine ⟨?_, fun h' r _ => ?_⟩
  · rintro f rfl
    cases hs
  · rw [hl]
    exact hn r h'

theorem scheduled_readRegister {r : Register} (hr : r ≠ .function) {f : Word → Program α}
    (hf : (f (h.engine.registers.get r)).Scheduled w S Q l h) :
    ((readRegister r).bind f).Scheduled w S Q l h := by
  refine ⟨fun g hg => (by cases hg), fun h' v hq => ?_⟩
  rw [Host.answer, Engine.readRegister_of_ne hr] at hq
  cases hq
  exact hf

theorem scheduled_draw {next : Unit → Program α}
    (hn : ∀ h, (next ()).Scheduled w S Q (some S) h) : (ask .draw next).Scheduled w S Q l h := by
  refine ⟨?_, fun h' r _ => hn h'⟩
  rintro f hf
  cases hf

theorem scheduled_refuse (e : Event) (cause : Failure) :
    (refuse e cause : Program α).Scheduled w S Q l h :=
  scheduled_ask rfl (by simp) fun _ _ => trivial

/-- a function with its operands, and the programs that follow it -/
theorem scheduled_invoke {r : List (Register × Nat)}
    (hr : ∀ rn ∈ r, rn.1.isOperand = true ∧ rn.2 ≤ Layout.memoryWords) {f : Opcode}
    {next : Unit → Program α} (hd : (h.prepare r).Due w l f)
    (hn : ∀ k k', (h.prepare r).answer (.start f) = (k, .ok ()) → k.Still k' →
      (next ()).Scheduled w S Q (l.map List.tail) k') :
    ((invoke r f).bind next).Scheduled w S Q l h := by
  induction r generalizing h with
  | nil =>
    refine ⟨?_, fun k u hk k' hs => hn k k' hk hs⟩
    rintro g hg
    cases hg
    exact hd
  | cons rn r ih =>
    obtain ⟨hrn, hr⟩ := List.forall_mem_cons.mp hr
    obtain ⟨hst, hf⟩ := Register.writable_of_isOperand hrn.1
    refine ⟨fun g hg => (by cases hg), fun h' u hq => ?_⟩
    have e : h.answer (.writeRegister rn.1 (UInt32.ofNat rn.2)) =
        (h.setRegister rn.1 (UInt32.ofNat rn.2), .ok ()) := by
      rw [Host.answer, Engine.writeRegister_of_not_starts (fun c => hf c.1), hst]
      rfl
    rw [e] at hq
    cases hq
    exact ih hr hd hn

/-- the same for a function with operands that are known beforehand -/
theorem starts_invoke {r : List (Register × Nat)}
    (hr : ∀ rn ∈ r, rn.1.isOperand = true ∧ rn.2 ≤ Layout.memoryWords) {f : Opcode}
    (hf : f ≠ .modulo) {i : Invocation}
    (hi : ∀ o : Operands, (Invocation.mk f (o.setAll r)).outline = i)
    {is : List Invocation} {next : Unit → Program α} (hn : (next ()).Starts w S is) :
    ((invoke r f).bind next).Starts w S (i :: is) := by
  intro rest h
  refine scheduled_invoke hr ⟨⟨is ++ rest, ?_⟩, fun c => absurd c hf⟩ fun k k' _ _ => hn rest k'
  rw [h.operands_prepare hr, hi]
  rfl

theorem starts_invoke_only {r : List (Register × Nat)}
    (hr : ∀ rn ∈ r, rn.1.isOperand = true ∧ rn.2 ≤ Layout.memoryWords) {f : Opcode}
    (hf : f ≠ .modulo) {i : Invocation}
    (hi : ∀ o : Operands, (Invocation.mk f (o.setAll r)).outline = i) :
    (invoke r f).Starts w S [i] := by
  rw [← bind_done (invoke r f)]
  exact starts_invoke hr hf hi (.of_done ())

theorem starts_ask {q : Request} {next : q.Reply → Program α} (hs : q.starts = false)
    (hd : q ≠ .draw) {is : List Invocation} (hn : ∀ r, (next r).Starts w S is) :
    (ask q next).Starts w S is :=
  fun rest _ => scheduled_ask hs hd fun r h => hn r rest h

end Program

/-! ## Primitives -/

namespace Invocation

def comparing (w a b : Nat) : Invocation := ⟨.compare, ⟨a, b, 0, 0, w, 0⟩⟩

def copying (source target n : Nat) : Invocation := ⟨.copy, ⟨source, 0, target, 0, n, 0⟩⟩

/-- a product or a sum, to the scratchpad -/
def combining (f : Opcode) (w a b : Nat) : Invocation := ⟨f, ⟨a, b, Layout.scratchpad, 0, w, w⟩⟩

/-- the remainder of the scratchpad -/
def reducing (w modulus result : Nat) : Invocation :=
  ⟨.modulo, ⟨Layout.scratchpad, modulus, result, 0, 0, w⟩⟩

/-- an inverse, to the scratchpad -/
def inverting (w number modulus : Nat) : Invocation :=
  ⟨.invert, ⟨number, modulus, 0, Layout.scratchpad, w, w⟩⟩

/-- a function on points of the curve, to the scratchpad -/
def onPoints (f : Opcode) (w a c : Nat) : Invocation :=
  ⟨f, ⟨a, Layout.field, c, Layout.scratchpad, w, w⟩⟩

end Invocation

/-- the length of a raw result in the scratchpad, from its status word -/
theorem Words.fewest_rawLength {w : Nat} {ws : List Word} (hl : ws.length ≤ 16)
    (hz : Status.isZero (Status.msw Layout.scratchpad ws) = false) :
    Words.Fewest w (Words.value ws)
      (Arithmetic.rawLength w (Status.address (Status.msw Layout.scratchpad ws))) := by
  unfold Status.msw at hz ⊢
  cases ht : Words.top? ws with
  | none =>
    rw [ht] at hz
    rw [Status.isZero_or] at hz
    cases hz
  | some i =>
    obtain ⟨hlow, hup⟩ := (Words.top?_eq_some_iff ws i).mp ht
    have hi : i < ws.length := by
      have hv := Words.value_lt ws
      have := Nat.lt_of_le_of_lt hlow hv
      have := (Nat.pow_lt_pow_iff_right (by decide : 1 < 2)).mp this
      omega
    have hs : Layout.scratchpad + i < 0x800 := by
      have : Layout.scratchpad ≤ 512 := by decide
      omega
    have hr : Arithmetic.rawLength w (Status.address (UInt32.ofNat (Layout.scratchpad + i))) =
        max w (i + 1) := by
      rw [Status.address_ofNat hs, Arithmetic.rawLength]
      omega
    show Words.Fewest w _ (Arithmetic.rawLength w
      (Status.address (UInt32.ofNat (Layout.scratchpad + i))))
    rw [hr]
    refine ⟨Nat.le_max_left _ _, ?_, fun hw => ?_⟩
    · exact Nat.lt_of_lt_of_le hup (Nat.pow_le_pow_right (by decide) (by omega))
    · rw [show max w (i + 1) - 1 = i by omega]
      exact hlow

/-- a product or a sum of elements was written to the scratchpad, and nothing was done since -/
structure Host.Holds (w : Nat) (ws : List Word) (h : Host) : Prop where
  length : ws.length ≤ 16
  bLength : h.engine.registers.operands.bLength = w
  last : ∃ i, h.trace.back? = some i ∧
    i.opcode.targets i.operands = [(Layout.scratchpad, ws.length)]
  msw : h.engine.registers.msw = Status.msw Layout.scratchpad ws
  window : h.engine.memory.window Layout.scratchpad ws.length = ws

theorem Host.Holds.divides {w n : Nat} {ws : List Word} {h : Host} (hh : h.Holds w ws)
    (hn : Words.Fewest w (Words.value ws) n) {r : List (Register × Nat)}
    (hr : (h.prepare r).engine.registers.operands.aLength = n) : (h.prepare r).Divides w := by
  obtain ⟨hm, ht, -⟩ := h.prepare_frame r
  obtain ⟨i, hi, htar⟩ := hh.last
  refine ⟨i, ws.length, ht ▸ hi, htar, ?_⟩
  show Words.Fewest w (Words.value (Memory.window _ _ _)) _
  rw [hm, hr, hh.window]
  exact hn

namespace Program

open Arithmetic Sampling Invocation

section
variable {w : Nat} {S : List Invocation} (hw : w ≤ Layout.elementWords)
include hw

theorem words_le_memoryWords : w ≤ Layout.memoryWords := Nat.le_trans hw (by decide)

theorem starts_compare {a b : Nat} (ha : a ≤ Layout.memoryWords) (hb : b ≤ Layout.memoryWords) :
    (Arithmetic.compare w a b).Starts w S [comparing w a b] := by
  have hm := words_le_memoryWords hw
  exact starts_invoke (r := [(.aPtr, a), (.aLength, w), (.bPtr, b)])
    (by simp [Register.isOperand, ha, hb, hm]) (by decide) (fun _ => rfl)
    (starts_ask rfl (by simp) fun _ => .of_done _)

theorem starts_checkBetween {x low high : Nat} (hx : x ≤ Layout.memoryWords)
    (hl : low ≤ Layout.memoryWords) (hh : high ≤ Layout.memoryWords) :
    (checkBetween w x low high).Starts w S [comparing w x low, comparing w x high] := by
  have hc : ((Arithmetic.compare w x high).bind fun v =>
      if v ≠ .lt then fail .failed else done ()).Starts w S [comparing w x high] :=
    (starts_compare hw hx hh).bind fun _ => .ite (.of_fail _) (.of_done _)
  exact (starts_compare hw hx hl).bind fun _ => .ite (.of_fail _) hc

omit hw in
theorem starts_copy {source target n : Nat} (hs : source ≤ Layout.memoryWords)
    (ht : target ≤ Layout.memoryWords) (hn : n ≤ Layout.memoryWords) :
    (copy source target n).Starts w S [copying source target n] :=
  starts_invoke_only (r := [(.aPtr, source), (.aLength, n), (.cPtr, target)])
    (by simp [Register.isOperand, hs, ht, hn]) (by decide) fun _ => rfl

theorem starts_invert {number modulus result : Nat} (ha : number ≤ Layout.memoryWords)
    (hb : modulus ≤ Layout.memoryWords) (ht : result ≤ Layout.memoryWords) :
    (invert w number modulus result).Starts w S
      [inverting w number modulus, copying Layout.scratchpad result w] := by
  have hm := words_le_memoryWords hw
  exact starts_invoke (r := [(.aPtr, number), (.aLength, w), (.bPtr, modulus), (.bLength, w),
    (.dPtr, Layout.scratchpad)]) (by simp [Register.isOperand, ha, hb, hm]; decide) (by decide)
    (fun _ => rfl) (starts_ask rfl (by simp) fun _ =>
      .ite (.of_fail _) (starts_copy (by decide) ht hm))

theorem starts_point {f : Opcode} (hf : f = .pointMul ∨ f = .pointAdd) {a c result : Nat}
    (ha : a ≤ Layout.memoryWords) (hc : c ≤ Layout.memoryWords)
    (ht : result ≤ Layout.memoryWords) :
    (point f w a c result).Starts w S
      [onPoints f w a c, copying Layout.scratchpad result (Layout.pointSpace w)] := by
  have hm := words_le_memoryWords hw
  have hs : Layout.pointSpace w ≤ Layout.memoryWords := by
    unfold Layout.pointSpace Layout.coordinateSpace Layout.memoryWords
    unfold Layout.elementWords at hw
    omega
  refine starts_invoke (r := [(.aPtr, a), (.aLength, w), (.bPtr, Layout.field), (.bLength, w),
    (.cPtr, c), (.dPtr, Layout.scratchpad)])
    (by simp [Register.isOperand, ha, hc, hm]; decide) ?_ ?_ ?_
  · obtain rfl | rfl := hf <;> decide
  · obtain rfl | rfl := hf <;> exact fun _ => rfl
  · have hcopy := starts_copy (w := w) (S := S) (by decide : Layout.scratchpad ≤ _) ht hs
    refine starts_ask rfl (by simp) fun shift => .ite (.of_fail _) (.ite ?_ hcopy)
    exact starts_ask rfl (by simp) fun _ => .of_fail _

omit hw in
/-- what a product or a sum does -/
theorem exists_raw {f : Opcode} (hf : f = .multiply ∨ f = .add) {o : Operands} (hw : w ≤ 8)
    (hc : o.c = Layout.scratchpad) (ha : o.aLength = w) (hb : o.bLength = w) {x : Effect}
    (hx : x.Form f o) : ∃ ws, ws.length ≤ 16 ∧ f.targets o = [(Layout.scratchpad, ws.length)] ∧
      x = ⟨[(Layout.scratchpad, ws)], [(.msw, Status.msw Layout.scratchpad ws)]⟩ := by
  have hform : ∃ n v, n ≤ 16 ∧ f.targets o = [(o.c, n)] ∧
      x = ⟨[(o.c, Words.ofNat n v)], [(.msw, Status.msw o.c (Words.ofNat n v))]⟩ := by
    obtain rfl | rfl := hf
    · obtain ⟨v, rfl⟩ := hx
      exact ⟨o.aLength + o.bLength, v, by omega, rfl, rfl⟩
    · obtain ⟨v, rfl⟩ := hx
      exact ⟨max o.aLength o.bLength + 1, v, by omega, rfl, rfl⟩
  obtain ⟨n, v, hn, htar, rfl⟩ := hform
  refine ⟨Words.ofNat n v, ?_, ?_, ?_⟩
  · rw [Words.length_ofNat]
    exact hn
  · rw [Words.length_ofNat, ← hc]
    exact htar
  · rw [← hc]

/-- a product or a sum is followed by its words in the scratchpad -/
theorem exists_holds {f : Opcode} (hf : f = .multiply ∨ f = .add) {a b : Nat} {h k k' : Host}
    (ho : ∃ o : Operands, h.engine.registers.operands =
      o.setAll [(.aPtr, a), (.aLength, w), (.bPtr, b), (.bLength, w), (.cPtr, Layout.scratchpad)])
    (hk : h.answer (.start f) = (k, .ok ())) (hs : k.Still k') : ∃ ws, k'.Holds w ws := by
  obtain ⟨o, ho⟩ := ho
  obtain ⟨x, hx, rfl⟩ := Host.exists_started hk
  have hform := Engine.effect_form hx
  have hops : k'.engine.registers.operands = h.engine.registers.operands := by
    rw [hs.registers]
    exact hform.operands (h.engine.accept _).registers
  obtain ⟨ws, hl, htar, rfl⟩ := exists_raw hf hw (by rw [ho]; rfl) (by rw [ho]; rfl)
    (by rw [ho]; rfl) hform
  refine ⟨ws, hl, ?_, ⟨⟨f, h.engine.registers.operands⟩, ?_, htar⟩, ?_, ?_⟩
  · rw [hops, ho]
    rfl
  · rw [hs.trace]
    exact Array.back?_push
  · rw [hs.registers]
    rfl
  · have hm : k'.engine.memory = h.engine.memory.overwrite Layout.scratchpad ws := by
      rw [hs.memory]
      rfl
    rw [hm, Memory.window_overwrite_self]
    exact Nat.le_trans (Nat.add_le_add_left hl _) (by decide)

/-- the words in the scratchpad are reduced, as many as the status tells -/
theorem scheduled_reduce {modulus result : Nat} (hm : modulus ≤ Layout.memoryWords)
    (ht : result ≤ Layout.memoryWords) {h : Host} {ws : List Word} (hh : h.Holds w ws)
    {rest : List Invocation} :
    ((readRegister .msw).bind fun status => if Status.isZero status = true then fail .zeroResult
      else invoke [(.aPtr, Layout.scratchpad), (.aLength, rawLength w (Status.address status)),
        (.bPtr, modulus), (.cPtr, result)] .modulo).Scheduled w S (fun _ l => l = some rest)
      (some (reducing w modulus result :: rest)) h := by
  apply scheduled_readRegister (by decide)
  have hmsw : h.engine.registers.get .msw = Status.msw Layout.scratchpad ws := hh.msw
  rw [hmsw]
  by_cases hz : Status.isZero (Status.msw Layout.scratchpad ws) = true
  · rw [if_pos hz]
    exact .of_fail _
  rw [if_neg hz, ← bind_done (invoke _ _)]
  have hfew := Words.fewest_rawLength (w := w) hh.length (Bool.eq_false_iff.mpr hz)
  generalize rawLength w (Status.address (Status.msw Layout.scratchpad ws)) = n at hfew
  have hn : n ≤ Layout.memoryWords := (hfew.le_max (Words.value_lt ws)).trans
    (Nat.max_le.mpr ⟨words_le_memoryWords hw, hh.length.trans (by decide)⟩)
  have hr : ∀ rn ∈ [(Register.aPtr, Layout.scratchpad), (.aLength, n), (.bPtr, modulus),
      (.cPtr, result)], rn.1.isOperand = true ∧ rn.2 ≤ Layout.memoryWords := by
    simp [Register.isOperand, hn, hm, ht]
    decide
  have ho := h.operands_prepare hr
  refine scheduled_invoke hr ⟨⟨rest, ?_⟩, fun _ => hh.divides hfew ?_⟩ fun _ _ _ _ => rfl
  · rw [ho, ← hh.bLength]
    rfl
  · rw [ho]
    rfl

/-- a raw result and its remainder, with the length that the status of the raw result tells -/
theorem starts_modular {f : Opcode} (hf : f = .multiply ∨ f = .add) {a b modulus result : Nat}
    (ha : a ≤ Layout.memoryWords) (hb : b ≤ Layout.memoryWords)
    (hm : modulus ≤ Layout.memoryWords) (ht : result ≤ Layout.memoryWords) :
    (modular f w a b modulus result).Starts w S [combining f w a b, reducing w modulus result] := by
  intro rest h
  have hwm := words_le_memoryWords hw
  have hr : ∀ rn ∈ [(Register.aPtr, a), (.aLength, w), (.bPtr, b), (.bLength, w),
      (.cPtr, Layout.scratchpad)], rn.1.isOperand = true ∧ rn.2 ≤ Layout.memoryWords := by
    simp [Register.isOperand, ha, hb, hwm]
    decide
  have ho := h.operands_prepare hr
  refine scheduled_invoke hr ⟨⟨reducing w modulus result :: rest, ?_⟩, fun c => ?_⟩ ?_
  · rw [ho]
    obtain rfl | rfl := hf <;> rfl
  · obtain rfl | rfl := hf <;> cases c
  · intro k k' hk hs
    obtain ⟨ws, hh⟩ := exists_holds hw hf ⟨_, ho⟩ hk hs
    exact scheduled_reduce hw hm ht hh

end

/-! ## Sampling -/

/-- a round that accepts leaves no function to start -/
def Whole {α : Type} (r : Except Rejection α) (l : Option (List Invocation)) : Prop :=
  ∀ a, r = .ok a → l = some []

section
variable {α : Type} {w : Nat} {S : List Invocation} {l : Option (List Invocation)} {h : Host}

theorem scheduled_reject (reason : Rejection) :
    (done (.error reason) : Program (Except Rejection α)).Scheduled w S Whole l h := by
  intro a ha
  cases ha

/-- a round that is over if the program met a value that another draw may avoid -/
theorem scheduled_degenerate {p : Program Unit} {is rest : List Invocation} (hp : p.Starts w S is)
    {reason : Rejection} {next : Program (Except Rejection α)}
    (hn : ∀ h, next.Scheduled w S Whole (some rest) h) :
    ((degenerate p).bind fun flag => if flag then done (.error reason) else next).Scheduled w S
      Whole (some (is ++ rest)) h := by
  unfold degenerate
  rw [bind_eq, bind_assoc]
  apply hp.tried
  · intro _ h
    exact hn h
  · intro e l h
    cases he : e.retryable with
    | true =>
      simp only [he]
      exact scheduled_reject reason
    | false =>
      simp only [he]
      exact .of_fail e

/-- rounds of sampling, each with a draw before it -/
theorem scheduled_sample {n : Nat} {round : Bytes → Program (Except Rejection α)}
    (hround : ∀ block h, (round block).Scheduled w S Whole (some S) h) (source : List Entry)
    (budget : Option Nat) :
    (sample n round source budget).Scheduled w S (fun _ l => l = some []) l h := by
  induction source generalizing budget l h with
  | nil => exact scheduled_refuse _ _
  | cons entry rest ih =>
    unfold sample
    apply scheduled_draw
    intro h
    cases entry.block? n with
    | none => exact scheduled_refuse _ _
    | some block =>
      refine (hround block h).bind fun r l h hr => ?_
      cases r with
      | ok a => exact hr a rfl
      | error reason =>
        refine scheduled_ask rfl (by simp) fun _ h => ?_
        rcases budget with - | - | k
        · exact ih none
        · exact scheduled_refuse _ _
        · exact ih (some k)

end
end Program

/-! ## Rounds -/

namespace Host

/-- what was started since the first draw, round by round: the rounds follow the order `S` as far as
they go, there is one for each of the draws after the first `n`, and `l` is left of the last one -/
structure Rounds (S : List Invocation) (n : Nat) (l : Option (List Invocation))
    (rounds : List (List Invocation)) (h : Host) : Prop where
  trace : h.trace.toList = rounds.flatten
  drawn : h.drawn = n + rounds.length
  order : ∀ t ∈ rounds, t.map Invocation.outline <+: S
  left : ∀ rest, l = some rest →
    ∃ before last, rounds = before ++ [last] ∧ last.map Invocation.outline ++ rest = S

variable {w : Nat} {S : List Invocation} {n : Nat} {l : Option (List Invocation)}
  {rounds : List (List Invocation)} {h h' : Host} {q : Request}

theorem Rounds.congr (hr : h.Rounds S n l rounds) (ht : h'.trace = h.trace)
    (hd : h'.drawn = h.drawn) : h'.Rounds S n l rounds :=
  ⟨ht ▸ hr.trace, hd.trans hr.drawn, hr.order, hr.left⟩

/-- a function that is due, whether it runs or faults -/
theorem Rounds.start (hr : h.Rounds S n l rounds) {f : Opcode} (hd : h.Due w l f) :
    ∃ rounds', (h.answer (.start f)).1.Rounds S n (l.map List.tail) rounds' := by
  obtain ⟨⟨rest, rfl⟩, -⟩ := hd
  obtain ⟨before, last, rfl, hS⟩ := hr.left _ rfl
  have hS' : (last ++ [Invocation.mk f h.engine.registers.operands]).map Invocation.outline ++
      rest = S := by
    rw [List.map_append, List.append_assoc]
    exact hS
  refine ⟨before ++ [last ++ [⟨f, h.engine.registers.operands⟩]], ?_, ?_, ?_, ?_⟩
  · show (h.trace.push ⟨f, h.engine.registers.operands⟩).toList = _
    rw [Array.toList_push, hr.trace]
    simp
  · show h.drawn = _
    rw [hr.drawn]
    simp
  · intro t ht
    rcases List.mem_append.mp ht with ht | ht
    · exact hr.order t (List.mem_append_left _ ht)
    · rw [List.mem_singleton.mp ht]
      exact ⟨rest, hS'⟩
  · rintro rest' h'
    cases h'
    exact ⟨before, _, rfl, hS'⟩

/-- a draw begins a round -/
theorem Rounds.draw (hr : h.Rounds S n l rounds) :
    (h.answer .draw).1.Rounds S n (some S) (rounds ++ [[]]) := by
  refine ⟨?_, ?_, ?_, ?_⟩
  · show h.trace.toList = _
    rw [hr.trace]
    simp
  · show h.drawn + 1 = _
    rw [hr.drawn, List.length_append, List.length_singleton, Nat.add_assoc]
  · intro t ht
    rcases List.mem_append.mp ht with ht | ht
    · exact hr.order t ht
    · rw [List.mem_singleton.mp ht]
      exact List.nil_prefix
  · rintro rest h'
    cases h'
    exact ⟨rounds, [], rfl, rfl⟩

theorem Rounds.answer (hr : h.Rounds S n l rounds) (hd : ∀ f, q = .start f → h.Due w l f) :
    ∃ rounds', (h.answer q).1.Rounds S n (q.left S l) rounds' := by
  cases q with
  | start f => exact hr.start (hd f rfl)
  | draw => exact ⟨_, hr.draw⟩
  | writeMemory offset ws =>
    obtain ⟨m, e⟩ := h.answer_writeMemory offset ws
    exact ⟨rounds, e ▸ hr.congr rfl rfl⟩
  | output t c =>
    obtain ⟨bufs, e⟩ := h.answer_output t c
    exact ⟨rounds, e ▸ hr.congr rfl rfl⟩
  | _ => exact ⟨rounds, hr.congr rfl rfl⟩

end Host

namespace Program

variable {α : Type} {w n : Nat} {S : List Invocation} {l : Option (List Invocation)}
  {rounds : List (List Invocation)} {p p' : Program α} {h k : Host}
  {Q : α → Option (List Invocation) → Prop}

/-- **wherever a run stands**, it has started functions as scheduled, and it goes on like this -/
theorem Passes.scheduled (hpass : Passes p h p' k) (hp : p.Scheduled w S Q l h)
    (hr : h.Rounds S n l rounds) :
    ∃ l' rounds', p'.Scheduled w S Q l' k ∧ k.Rounds S n l' rounds' := by
  induction hpass generalizing l rounds with
  | here => exact ⟨l, rounds, hp, hr⟩
  | ask hq _ ih =>
    obtain ⟨rounds', hr'⟩ := hr.answer hp.1
    rw [hq] at hr'
    exact ih (hp.2 _ _ hq) hr'
  | resume _ _ ih => exact ih (hp _ ⟨rfl, rfl, rfl, rfl⟩) (hr.congr rfl rfl)
  | @suspend next p' h k _ _ ih =>
    obtain ⟨hm, hg, -⟩ := h.engine.tick_frame
    have hs : h.Still h.listen.tick.enter := ⟨hm, hg, rfl, rfl⟩
    exact ih (fun h' hs' => hp h' (hs.trans hs')) (hr.congr rfl rfl)

/-- **however a run ends**, it has started functions as scheduled -/
theorem Scheduled.drive (hp : p.Scheduled w S Q none h.enter) (ht : h.trace = #[]) (d : Drive) :
    ∃ l rounds, (p.drive d h).2.Rounds S h.drawn l rounds ∧
      ∀ a, (p.drive d h).1 = .ready (.ok a) → Q a l := by
  have hr : h.enter.Rounds S h.drawn none [] := by
    refine ⟨?_, rfl, ?_, ?_⟩
    · show h.trace.toList = []
      rw [ht]
    · simp
    · simp
  obtain ⟨p', k, hpass, hstop⟩ := passes_of_drive p d h
  obtain ⟨l, rounds, hp', hr'⟩ := hpass.scheduled hp hr
  generalize p.drive d h = x at hstop ⊢
  cases hstop with
  | done =>
    refine ⟨l, rounds, hr', ?_⟩
    rintro a ha
    cases ha
    exact hp'
  | fail => exact ⟨l, rounds, hr', by simp⟩
  | pending => exact ⟨l, rounds, hr'.congr rfl rfl, by simp⟩
  | fault hq =>
    obtain ⟨rounds', hr''⟩ := hr'.answer hp'.1
    rw [hq] at hr''
    exact ⟨_, rounds', hr'', by simp⟩

end Program

end CurveEngine
