import CurveEngine.Operation
import CurveEngine.Proofs.Requests
import CurveEngine.Proofs.Twins

/-!
# Programs that wait for every function they start, and write in their own place

* `Program.Paced`       the program asks for nothing between the start of a function and the wait for
                        its end, and it never writes the function register itself;
* `Program.Orderly`     also, it writes in some windows only, whatever it reads, it waits for nothing
                        else, and it does not read the function register either;
* `Orderly.bind`, `Orderly.attempt`, `Orderly.ite`   such programs in parts;
* `orderly_invoke` … `orderly_point`                 each primitive is one;
* `Operation.slots`, `Operation.territory`           the variables of an operation, and all words it
                        writes;
* `Operation.orderly_program`                        each operation is one.

Where a program stands is told by a flag, whether it has just started a function, and by the operands
in the registers.  Replies are left open, so nothing depends on what is in memory.
-/

namespace CurveEngine

open Window (Covered)

namespace Program

open Arithmetic Sampling

variable {α β : Type}

/-- the program, if it has just started a function, waits for it at once, and goes on like this -/
def Paced : Bool → Program α → Prop
  | running, done _ | running, fail _ => running = false
  | running, ask q next =>
    running = false ∧ (∀ v, q ≠ .writeRegister .function v) ∧ ∀ r, (next r).Paced q.starts
  | _, wait next => next.Paced false

/-- with these operands in the registers, the program writes in the windows `ws` only, and it waits
for every function right after it started it, and at no other time -/
def Orderly (ws : List Window) : Bool → Operands → Program α → Prop
  | running, _, done _ | running, _, fail _ => running = false
  | running, o, ask q next =>
    running = false ∧ q.Plain ∧ (∀ r ∈ q.targets o, Covered ws r) ∧
      ∀ r, (next r).Orderly ws q.starts (q.operands o)
  | running, o, wait next => running = true ∧ next.Orderly ws false o

variable {ws : List Window} {running : Bool} {o : Operands} {p q : Program α}

/-! ## Programs in parts -/

namespace Orderly

theorem paced (hp : p.Orderly ws running o) : p.Paced running := by
  induction p generalizing running o with
  | done a => exact hp
  | fail e => exact hp
  | ask q next ih =>
    obtain ⟨hr, hq, -, hn⟩ := hp
    refine ⟨hr, ?_, fun r => ih r (hn r)⟩
    rintro v rfl
    exact hq rfl
  | wait next ih => exact ih hp.2

theorem bind {f : α → Program β} (hp : p.Orderly ws running o)
    (hf : ∀ a o, (f a).Orderly ws false o) : (p.bind f).Orderly ws running o := by
  induction p generalizing running o with
  | done a =>
    obtain rfl : running = false := hp
    exact hf a o
  | fail e => exact hp
  | ask q next ih => exact ⟨hp.1, hp.2.1, hp.2.2.1, fun r => ih r (hp.2.2.2 r)⟩
  | wait next ih => exact ⟨hp.1, ih hp.2⟩

theorem attempt (hp : p.Orderly ws running o) : p.attempt.Orderly ws running o := by
  induction p generalizing running o with
  | done a => exact hp
  | fail e => exact hp
  | ask q next ih => exact ⟨hp.1, hp.2.1, hp.2.2.1, fun r => ih r (hp.2.2.2 r)⟩
  | wait next ih => exact ⟨hp.1, ih hp.2⟩

theorem ite {c : Prop} [Decidable c] (hp : p.Orderly ws running o)
    (hq : q.Orderly ws running o) : (if c then p else q).Orderly ws running o := by
  split
  · exact hp
  · exact hq

theorem of_done (a : α) : (done a).Orderly ws false o := rfl

theorem of_fail (e : Failure) : (fail e : Program α).Orderly ws false o := rfl

end Orderly

/-! ## Requests -/

theorem orderly_readRegister {r : Register} (hr : r ≠ .function) {f : Word → Program β}
    (hf : ∀ v, (f v).Orderly ws false o) : ((readRegister r).bind f).Orderly ws false o :=
  ⟨rfl, hr, by simp [Request.targets], hf⟩

theorem orderly_writeMemory {offset : Nat} {vs : List Word} (h : Covered ws (offset, vs.length)) :
    (writeMemory offset vs).Orderly ws false o :=
  ⟨rfl, trivial, List.forall_mem_singleton.mpr h, fun _ => rfl⟩

theorem orderly_readMemory (offset n : Nat) : (readMemory offset n).Orderly ws false o :=
  ⟨rfl, trivial, by simp [Request.targets], fun _ => rfl⟩

theorem orderly_output (t : Slice) (c : Content) : (output t c).Orderly ws false o :=
  ⟨rfl, trivial, by simp [Request.targets], fun _ => rfl⟩

theorem orderly_log (e : Event) : (log e).Orderly ws false o :=
  ⟨rfl, trivial, by simp [Request.targets], fun _ => rfl⟩

theorem orderly_draw : draw.Orderly ws false o :=
  ⟨rfl, trivial, by simp [Request.targets], fun _ => rfl⟩

theorem orderly_refuse (e : Event) (cause : Failure) :
    (refuse e cause : Program α).Orderly ws false o :=
  ⟨rfl, trivial, by simp [Request.targets], fun _ => rfl⟩

/-- the values that some registers get, as words -/
def asWords (l : List (Register × Nat)) : List (Register × Nat) :=
  l.map fun rn => (rn.1, (UInt32.ofNat rn.2).toNat)

/-- a function with its operands is waited for, and what follows finds these in the registers -/
theorem orderly_invoke {l : List (Register × Nat)} (hl : ∀ rn ∈ l, rn.1 ≠ .function) {f : Opcode}
    (ht : ∀ r ∈ f.targets (o.setAll (asWords l)), Covered ws r) {next : Unit → Program β}
    (hn : (next ()).Orderly ws false (o.setAll (asWords l))) :
    ((invoke l f).bind next).Orderly ws false o := by
  induction l generalizing o with
  | nil => exact ⟨rfl, trivial, ht, fun _ => ⟨rfl, hn⟩⟩
  | cons rn l ih =>
    obtain ⟨hr, hl⟩ := List.forall_mem_cons.mp hl
    exact ⟨rfl, hr, by simp [Request.targets], fun _ => ih hl ht hn⟩

theorem orderly_invoke_only {l : List (Register × Nat)} (hl : ∀ rn ∈ l, rn.1 ≠ .function)
    {f : Opcode} (ht : ∀ r ∈ f.targets (o.setAll (asWords l)), Covered ws r) :
    (invoke l f).Orderly ws false o := by
  rw [← bind_done (invoke l f)]
  exact orderly_invoke hl ht rfl

/-! ## Primitives -/

section
variable {w : Nat}

theorem toNat_ofNat_of_covered {offset n : Nat} (h : Covered ws (offset, n)) :
    (UInt32.ofNat offset).toNat = offset ∧ (UInt32.ofNat n).toNat = n := by
  have hf : offset + n ≤ 512 := h.1
  rw [UInt32.toNat_ofNat', UInt32.toNat_ofNat']
  omega

theorem orderly_load {offset : Nat} (bs : Bytes) (h : Covered ws (offset, w)) :
    (load w bs offset).Orderly ws false o := by
  refine orderly_writeMemory ?_
  rw [Bytes.overWords, Bytes.length_overlay, List.length_replicate]
  exact h

theorem orderly_loadPoint {offset : Nat} (bs : Bytes)
    (h : ∀ r ∈ Opcode.coordinates offset w, Covered ws r) :
    (loadPoint w bs offset).Orderly ws false o := by
  simp only [Opcode.coordinates, List.forall_mem_cons] at h
  exact (orderly_load _ h.1).bind fun _ _ => orderly_load _ h.2.1

theorem orderly_fetch (offset i start : Nat) : (fetch w offset i start).Orderly ws false o :=
  (orderly_readMemory _ _).bind fun _ _ => orderly_output _ _

theorem orderly_lowWord (offset : Nat) : (lowWord offset).Orderly ws false o :=
  (orderly_readMemory _ _).bind fun _ _ => .of_done _

theorem orderly_compare (a b : Nat) : (Arithmetic.compare w a b).Orderly ws false o :=
  orderly_invoke (l := [(.aPtr, a), (.aLength, w), (.bPtr, b)]) (f := .compare) (by simp)
    (by simp [Opcode.targets]) (orderly_readRegister (by simp) fun _ => .of_done _)

theorem orderly_checkBetween (x low high : Nat) :
    (checkBetween w x low high).Orderly ws false o := by
  have hc : ∀ y ord o, ((Arithmetic.compare w x y).bind fun v =>
      if v ≠ ord then fail .failed else done ()).Orderly ws false o := fun y ord o =>
    (orderly_compare x y).bind fun _ _ => .ite (.of_fail _) (.of_done _)
  refine (orderly_compare x low).bind fun _ _ => .ite ((Orderly.of_fail _).bind fun _ _ => ?_) ?_
  · exact hc high .lt _
  · exact hc high .lt _

theorem orderly_copy (source : Nat) {target n : Nat} (h : Covered ws (target, n)) :
    (copy source target n).Orderly ws false o := by
  obtain ⟨ht, hn⟩ := toNat_ofNat_of_covered h
  refine orderly_invoke_only (l := [(.aPtr, source), (.aLength, n), (.cPtr, target)]) (f := .copy)
    (by simp) ?_
  show ∀ r ∈ [((UInt32.ofNat target).toNat, (UInt32.ofNat n).toNat)], Covered ws r
  rw [ht, hn]
  exact List.forall_mem_singleton.mpr h

theorem orderly_subtract (a b : Nat) {result : Nat} (hs : Covered ws (Layout.scratchpad, w))
    (hr : Covered ws (result, w)) : (subtract w a b result).Orderly ws false o := by
  obtain ⟨ht, hn⟩ := toNat_ofNat_of_covered hs
  refine orderly_invoke (l := [(.aPtr, a), (.aLength, w), (.bPtr, b), (.bLength, w),
    (.cPtr, Layout.scratchpad)]) (f := .subtract) (by simp) ?_ (orderly_copy _ hr)
  show ∀ r ∈ [((UInt32.ofNat Layout.scratchpad).toNat,
    max (UInt32.ofNat w).toNat (UInt32.ofNat w).toNat)], Covered ws r
  rw [ht, hn, Nat.max_self]
  exact List.forall_mem_singleton.mpr hs

theorem orderly_invert (number modulus : Nat) {result : Nat}
    (hs : Covered ws (Layout.scratchpad, w)) (hr : Covered ws (result, w)) :
    (invert w number modulus result).Orderly ws false o := by
  obtain ⟨ht, hn⟩ := toNat_ofNat_of_covered hs
  refine orderly_invoke (l := [(.aPtr, number), (.aLength, w), (.bPtr, modulus), (.bLength, w),
    (.dPtr, Layout.scratchpad)]) (f := .invert) (by simp) ?_ (orderly_readRegister (by simp)
      fun _ => .ite (.of_fail _) (orderly_copy _ hr))
  show ∀ r ∈ [((UInt32.ofNat Layout.scratchpad).toNat, (UInt32.ofNat w).toNat)], Covered ws r
  rw [ht, hn]
  exact List.forall_mem_singleton.mpr hs

/-- a raw result in the scratchpad, and its remainder, one word longer than the modulus: the length
of the modulus is the one that the first function left in its register -/
theorem orderly_modular {f : Opcode} (hf : f = .multiply ∨ f = .add) (hw : 0 < w)
    (a b modulus : Nat) {result : Nat} (hs : Covered ws (Layout.scratchpad, w + w))
    (hr : Covered ws (result, w + 1)) : (modular f w a b modulus result).Orderly ws false o := by
  obtain ⟨ht, -⟩ := toNat_ofNat_of_covered hs
  have hn : (UInt32.ofNat w).toNat = w := by
    have hl : Layout.scratchpad + (w + w) ≤ 512 := hs.1
    rw [UInt32.toNat_ofNat']
    omega
  refine orderly_invoke (l := [(.aPtr, a), (.aLength, w), (.bPtr, b), (.bLength, w),
    (.cPtr, Layout.scratchpad)]) (by simp) ?_ (orderly_readRegister (by simp) fun status =>
      .ite (.of_fail _) (orderly_invoke_only (l := [(.aPtr, Layout.scratchpad),
        (.aLength, rawLength w (Status.address status)), (.bPtr, modulus), (.cPtr, result)])
        (f := .modulo) (by simp) ?_))
  · obtain rfl | rfl := hf
    · show ∀ r ∈ [((UInt32.ofNat Layout.scratchpad).toNat,
        (UInt32.ofNat w).toNat + (UInt32.ofNat w).toNat)], Covered ws r
      rw [ht, hn]
      exact List.forall_mem_singleton.mpr hs
    · show ∀ r ∈ [((UInt32.ofNat Layout.scratchpad).toNat,
        max (UInt32.ofNat w).toNat (UInt32.ofNat w).toNat + 1)], Covered ws r
      rw [ht, hn, Nat.max_self]
      obtain ⟨hl, v, hv, h₁, h₂⟩ := hs
      refine List.forall_mem_singleton.mpr ⟨?_, v, hv, h₁, ?_⟩
      · exact Memory.Fits.mono hl (by omega)
      · exact Nat.le_trans (by omega) h₂
  · show ∀ r ∈ [((UInt32.ofNat result).toNat, (UInt32.ofNat w).toNat + 1)], Covered ws r
    rw [hn, (toNat_ofNat_of_covered hr).1]
    exact List.forall_mem_singleton.mpr hr

theorem orderly_field {f : Opcode} (hf : f = .multiply ∨ f = .add) (hw : 0 < w) (a b : Nat)
    {result : Nat} (hs : Covered ws (Layout.scratchpad, w + w))
    (hr : Covered ws (result, w + 1)) : (field f w a b result).Orderly ws false o := by
  refine (orderly_modular hf hw a b Layout.field hs hr).attempt.bind fun r _ => ?_
  cases r with
  | ok _ => exact .of_done ()
  | error e =>
    obtain ⟨hl, v, hv, h₁, h₂⟩ := hr
    exact orderly_copy _ ⟨hl.mono (Nat.le_succ w), v, hv, h₁, Nat.le_of_succ_le h₂⟩

/-- both coordinates go to the scratchpad, with their spare words, and from there to their place -/
theorem orderly_point {f : Opcode} (hf : f = .pointMul ∨ f = .pointAdd) (a c : Nat) {result : Nat}
    (hs : Covered ws (Layout.scratchpad, Layout.pointSpace w))
    (hr : Covered ws (result, Layout.pointSpace w)) : (point f w a c result).Orderly ws false o := by
  obtain ⟨ht, -⟩ := toNat_ofNat_of_covered hs
  have hl : Layout.scratchpad + Layout.pointSpace w ≤ 512 := hs.1
  unfold Layout.pointSpace Layout.coordinateSpace at hl
  have hn : (UInt32.ofNat w).toNat = w := by
    rw [UInt32.toNat_ofNat']
    omega
  refine orderly_invoke (l := [(.aPtr, a), (.aLength, w), (.bPtr, Layout.field), (.bLength, w),
    (.cPtr, c), (.dPtr, Layout.scratchpad)]) (by simp) ?_ (orderly_readRegister (by simp) fun _ =>
      .ite (.of_fail _) (.ite ((orderly_refuse _ _).bind fun _ _ => orderly_copy _ hr)
        (orderly_copy _ hr)))
  have htargets : ∀ r ∈ [((UInt32.ofNat Layout.scratchpad).toNat,
      Layout.coordinateSpace (UInt32.ofNat w).toNat),
      ((UInt32.ofNat Layout.scratchpad).toNat + Layout.coordinateSpace (UInt32.ofNat w).toNat,
        Layout.coordinateSpace (UInt32.ofNat w).toNat)], Covered ws r := by
    rw [ht, hn]
    obtain ⟨hl, v, hv, h₁, h₂⟩ := hs
    have hl' : Layout.scratchpad + Layout.pointSpace w ≤ 512 := hl
    unfold Layout.pointSpace at hl' h₂
    simp only [List.forall_mem_cons]
    refine ⟨⟨Nat.le_trans (by omega) hl', v, hv, h₁, ?_⟩,
      ⟨Nat.le_trans (by omega) hl', v, hv, ?_, ?_⟩, by simp⟩
    · dsimp only at h₁ h₂ ⊢
      omega
    · dsimp only at h₁ h₂ ⊢
      omega
    · dsimp only at h₁ h₂ ⊢
      omega
  obtain rfl | rfl := hf
  · exact htargets
  · exact htargets

end

/-! ## Sampling -/

/-- a round that is over if the program met a value that another draw may avoid -/
theorem orderly_degenerate {p : Program Unit} (hp : p.Orderly ws false o) {reason : Rejection}
    {rest : Program (Except Rejection α)} (hr : ∀ o, rest.Orderly ws false o) :
    ((degenerate p).bind fun flag => if flag then done (.error reason) else rest).Orderly
      ws false o := by
  have hd : (degenerate p).Orderly ws false o := by
    refine hp.attempt.bind fun r _ => ?_
    cases r with
    | ok _ => exact .of_done false
    | error e => exact .ite (.of_done true) (.of_fail e)
  exact hd.bind fun _ _ => .ite (.of_done _) (hr _)

theorem orderly_sample {n : Nat} {round : Bytes → Program (Except Rejection α)}
    (hround : ∀ block o, (round block).Orderly ws false o) (source : List Entry)
    (budget : Option Nat) : (sample n round source budget).Orderly ws false o := by
  induction source generalizing budget o with
  | nil => exact orderly_refuse _ _
  | cons entry rest ih =>
    unfold sample
    refine orderly_draw.bind fun _ _ => ?_
    cases entry.block? n with
    | none => exact orderly_refuse _ _
    | some block =>
      refine (hround block _).bind fun r _ => ?_
      cases r with
      | ok a => exact .of_done a
      | error reason =>
        refine (orderly_log _).bind fun _ _ => ?_
        rcases budget with - | - | k
        · exact ih none
        · exact orderly_refuse _ _
        · exact ih (some k)

end Program

/-! ## Variables -/

/-- the words that functions work in -/
def Window.scratchpad : Window := (Layout.scratchpad, Layout.scratchpadSpace)

namespace Layout

/-- the variables of a validation, each with all the words it has -/
def Validation.slots : List Window :=
  [(x, elementSlot), (y, elementSlot), (left, remainderSlot), (right, remainderSlot)]

def Decompression.slots : List Window :=
  [(x, elementSlot), (square, remainderSlot), (root, remainderSlot)]

def Signing.slots : List Window :=
  [(hash, elementSlot), (key, elementSlot), (nonce, scalarSlot), (r, pointSlot), (s, remainderSlot)]

def Verification.slots : List Window :=
  [(hash, elementSlot), (r, elementSlot), (s, elementSlot), (key, pointSlot), (u₁, scalarSlot),
    (u₂, scalarSlot), (p₁, pointSlot), (p₂, pointSlot)]

def KeyPair.slots : List Window := [(privateKey, scalarSlot), (publicKey, pointSlot)]

def Agreement.slots : List Window :=
  [(privateKey, scalarSlot), (publicKey, pointSlot), (product, pointSlot)]

end Layout

namespace Operation

open Layout

/-- the variables of an operation -/
def slots : Operation → List Window
  | validate _ => Validation.slots
  | compress _ _ => []
  | decompress _ _ => Decompression.slots
  | sign _ _ _ => Signing.slots
  | verify _ _ _ => Verification.slots
  | generate _ _ => KeyPair.slots
  | agree _ _ _ => Agreement.slots

/-- where the variables of an operation end -/
def stop : Operation → Nat
  | validate _ => Validation.stop
  | compress _ _ => Layout.variables
  | decompress _ _ => Decompression.stop
  | sign _ _ _ => Signing.stop
  | verify _ _ _ => Verification.stop
  | generate _ _ => KeyPair.stop
  | agree _ _ _ => Agreement.stop

/-- all words that an operation writes -/
def territory (op : Operation) : List Window := .scratchpad :: op.slots

end Operation

/-! ## The work of each operation -/

open Program Arithmetic Sampling

variable {ws : List Window} {o : Operands} (c : NamedCurve)

theorem orderly_fieldMultiply (hs : Covered ws (Layout.scratchpad, c.words + c.words)) (a b : Nat)
    {result : Nat} (hr : Covered ws (result, c.words + 1)) :
    (field .multiply c.words a b result).Orderly ws false o :=
  orderly_field (.inl rfl) c.words_pos a b hs hr

namespace PublicKey

open Layout (Validation.slots Decompression.slots)

theorem orderly_rightHandSide (hs : Covered ws (Layout.scratchpad, c.words + c.words)) (x : Nat)
    {result : Nat} (hr : Covered ws (result, c.words + 1)) :
    (rightHandSide c.words x result).Orderly ws false o := by
  have ha := fun a b o => orderly_field (o := o) (.inr rfl) c.words_pos a b hs hr
  exact (orderly_fieldMultiply c hs _ _ hr).bind fun _ _ => (ha _ _ _).bind fun _ _ =>
    (orderly_fieldMultiply c hs _ _ hr).bind fun _ _ => ha _ _ _

theorem orderly_validate (key : Bytes) :
    (validate c.words key).Orderly (.scratchpad :: Validation.slots) false o := by
  unfold validate
  refine (orderly_load _ ?_).bind fun _ _ => (orderly_load _ ?_).bind fun _ _ =>
    (orderly_checkBetween _ _ _).bind fun _ _ => (orderly_checkBetween _ _ _).bind fun _ _ =>
    (orderly_fieldMultiply c ?_ _ _ ?_).bind fun _ _ => (orderly_rightHandSide c ?_ _ ?_).bind
      fun _ _ => (orderly_compare _ _).bind fun _ _ => .ite (.of_fail _) (.of_done _)
  all_goals cases c <;> decide

theorem orderly_rootSteps (digits : List Bool) :
    (rootSteps c.words digits).Orderly (.scratchpad :: Decompression.slots) false o := by
  have hf : ∀ a b o, (field .multiply c.words a b Layout.Decompression.root).Orderly
      (.scratchpad :: Decompression.slots) false o := fun a b o =>
    orderly_fieldMultiply c (by cases c <;> decide) a b (by cases c <;> decide)
  induction digits generalizing o with
  | nil => exact .of_done ()
  | cons d ds ih =>
    have hd : (rootStep c.words d).Orderly (.scratchpad :: Decompression.slots) false o :=
      (hf _ _ _).bind fun _ _ => .ite (hf _ _ _) (.of_done _)
    exact hd.bind fun _ _ => ih

theorem orderly_expand (compressed : Bytes) :
    (expand c compressed).Orderly (.scratchpad :: Decompression.slots) false o := by
  refine (orderly_load _ ?_).bind fun _ _ => (orderly_rightHandSide c ?_ _ ?_).bind fun _ _ =>
    (orderly_copy _ ?_).bind fun _ _ => (orderly_rootSteps c _).bind fun _ _ =>
    (orderly_lowWord _).bind fun _ _ => .ite (orderly_subtract _ _ ?_ ?_) (.of_done _)
  all_goals cases c <;> decide

theorem orderly_decompress (compressed : Bytes) :
    (decompress c compressed).Orderly (.scratchpad :: Decompression.slots) false o :=
  (orderly_expand c compressed).bind fun _ _ => (orderly_fetch _ _ _).bind fun _ _ =>
    orderly_fetch _ _ _

end PublicKey

namespace Signature

open Layout (Signing.slots Verification.slots)

theorem orderly_round : (round c.words).Orderly (.scratchpad :: Signing.slots) false o := by
  unfold round
  refine (orderly_checkBetween _ _ _).attempt.bind fun check _ => .ite
    (orderly_degenerate (orderly_point (.inl rfl) _ _ ?_ ?_) fun _ =>
    (orderly_compare _ _).bind fun _ _ => .ite (.of_done _) <|
    orderly_degenerate (orderly_modular (.inl rfl) c.words_pos _ _ _ ?_ ?_) fun _ =>
    (orderly_compare _ _).bind fun _ _ => .ite (.of_done _) <|
    orderly_degenerate (orderly_modular (.inr rfl) c.words_pos _ _ _ ?_ ?_) fun _ =>
    orderly_degenerate (orderly_invert _ _ ?_ ?_) fun _ =>
    orderly_degenerate (orderly_modular (.inl rfl) c.words_pos _ _ _ ?_ ?_) fun _ =>
    (orderly_compare _ _).bind fun _ _ => .ite (.of_done _) (.of_done _)) (.of_done _)
  all_goals cases c <;> decide

theorem orderly_draft (hash privateKey : Bytes) (source : List Entry) (budget : Option Nat) :
    (draft c.words hash privateKey source budget).Orderly (.scratchpad :: Signing.slots) false
      o := by
  refine (orderly_load _ ?_).bind fun _ _ => (orderly_load _ ?_).bind fun _ _ =>
    orderly_sample (fun block _ => (orderly_load block ?_).bind fun _ _ => orderly_round c) source
      budget
  all_goals cases c <;> decide

theorem orderly_sign (hash privateKey : Bytes) (source : List Entry) (budget : Option Nat) :
    (sign c.words hash privateKey source budget).Orderly (.scratchpad :: Signing.slots) false o :=
  (orderly_draft c _ _ _ _).bind fun _ _ => (orderly_fetch _ _ _).bind fun _ _ =>
    orderly_fetch _ _ _

theorem orderly_check (signature hash publicKey : Bytes) :
    (check c.words signature hash publicKey).Orderly (.scratchpad :: Verification.slots) false
      o := by
  unfold check
  refine (orderly_loadPoint _ ?_).bind fun _ _ => (orderly_load _ ?_).bind fun _ _ =>
    (orderly_load _ ?_).bind fun _ _ => (orderly_load _ ?_).bind fun _ _ =>
    (orderly_checkBetween _ _ _).bind fun _ _ => (orderly_checkBetween _ _ _).bind fun _ _ =>
    (orderly_invert _ _ ?_ ?_).bind fun _ _ =>
    (orderly_modular (.inl rfl) c.words_pos _ _ _ ?_ ?_).bind fun _ _ =>
    (orderly_point (.inl rfl) _ _ ?_ ?_).bind fun _ _ =>
    (orderly_modular (.inl rfl) c.words_pos _ _ _ ?_ ?_).bind fun _ _ =>
    (orderly_point (.inl rfl) _ _ ?_ ?_).bind fun _ _ =>
    (orderly_point (.inr rfl) _ _ ?_ ?_).bind fun _ _ =>
    (orderly_compare _ _).bind fun _ _ => .ite (.of_fail _) (.of_done _)
  all_goals cases c <;> decide

theorem orderly_verify (signature hash publicKey : Bytes) :
    (verify c.words signature hash publicKey).Orderly (.scratchpad :: Verification.slots) false
      o := by
  refine (orderly_check c signature hash publicKey).attempt.bind fun r _ => ?_
  cases r with
  | ok _ => exact .of_done ()
  | error e => exact orderly_refuse _ _

end Signature

namespace KeyAgreement

open Layout (KeyPair.slots Agreement.slots)

theorem orderly_attemptWith (block : Bytes) :
    (attemptWith c.words block).Orderly (.scratchpad :: KeyPair.slots) false o := by
  unfold attemptWith
  refine (orderly_load _ ?_).bind fun _ _ => (orderly_checkBetween _ _ _).attempt.bind fun _ _ =>
    .ite (orderly_degenerate (orderly_point (.inl rfl) _ _ ?_ ?_) fun _ => .of_done _) (.of_done _)
  all_goals cases c <;> decide

theorem orderly_generate (source : List Entry) (budget : Option Nat) :
    (generate c.words source budget).Orderly (.scratchpad :: KeyPair.slots) false o :=
  (orderly_sample (fun block _ => orderly_attemptWith c block) _ _).bind fun _ _ =>
    (orderly_output _ _).bind fun _ _ => (orderly_fetch _ _ _).bind fun _ _ => orderly_fetch _ _ _

theorem orderly_product (privateKey publicKey : Bytes) :
    (product c.words privateKey publicKey).Orderly (.scratchpad :: Agreement.slots) false o := by
  unfold product
  refine (orderly_load _ ?_).bind fun _ _ => (orderly_loadPoint _ ?_).bind fun _ _ =>
    (orderly_point (.inl rfl) _ _ ?_ ?_).attempt.bind fun r _ => ?rest
  case rest =>
    cases r with
    | ok _ => exact .of_done ()
    | error e => exact orderly_refuse _ _
  all_goals cases c <;> decide

theorem orderly_derive (privateKey publicKey : Bytes) :
    (derive c.words privateKey publicKey).Orderly (.scratchpad :: Agreement.slots) false o :=
  (orderly_product c _ _).bind fun _ _ => orderly_fetch _ _ _

end KeyAgreement

/-! ## Operations -/

namespace Operation

theorem orderly_checkLength (bs : Bytes) (expected : Nat) :
    (checkLength bs expected).Orderly ws false o :=
  .ite (.of_done _) (orderly_refuse _ _)

theorem orderly_checkHash (hash : Bytes) : (checkHash hash).Orderly ws false o :=
  .ite (orderly_refuse _ _) (.of_done _)

/-- **every operation waits for the functions it starts, and writes in its territory only**, with any
words in memory and in the registers -/
theorem orderly_program (s : Settings) (op : Operation) :
    (op.program s).Orderly op.territory false o := by
  unfold program
  have hc : (enabled s.curve).Orderly op.territory false o := by
    cases s.curve with
    | none => exact orderly_refuse _ _
    | some c => exact .of_done c
  refine hc.bind fun c _ => ?_
  cases op with
  | validate publicKey =>
    exact (orderly_checkLength _ _).bind fun _ _ => PublicKey.orderly_validate c _
  | compress publicKey out =>
    exact (orderly_checkLength _ _).bind fun _ _ => (orderly_checkLength _ _).bind fun _ _ =>
      (orderly_output _ _).bind fun _ _ => orderly_output _ _
  | decompress compressed out =>
    exact (orderly_checkLength _ _).bind fun _ _ => (orderly_checkLength _ _).bind fun _ _ =>
      PublicKey.orderly_decompress c _
  | sign hash privateKey out =>
    exact (orderly_checkHash _).bind fun _ _ => (orderly_checkLength _ _).bind fun _ _ =>
      (orderly_checkLength _ _).bind fun _ _ => Signature.orderly_sign c _ _ _ _
  | verify signature hash publicKey =>
    exact (orderly_checkLength _ _).bind fun _ _ => (orderly_checkHash _).bind fun _ _ =>
      (orderly_checkLength _ _).bind fun _ _ => Signature.orderly_verify c _ _ _
  | generate privateKey publicKey =>
    exact (orderly_checkLength _ _).bind fun _ _ => (orderly_checkLength _ _).bind fun _ _ =>
      KeyAgreement.orderly_generate c _ _
  | agree privateKey publicKey out =>
    exact (orderly_checkLength _ _).bind fun _ _ => (orderly_checkLength _ _).bind fun _ _ =>
      (orderly_checkLength _ _).bind fun _ _ => KeyAgreement.orderly_derive c _ _

theorem paced_program (s : Settings) (op : Operation) : (op.program s).Paced false :=
  (orderly_program (o := RegisterFile.zero.operands) s op).paced

end Operation
end CurveEngine
