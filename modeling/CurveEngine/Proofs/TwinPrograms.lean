import CurveEngine.Operation
import CurveEngine.Proofs.TwinArithmetic

/-!
# Every operation keeps twins

An operation that starts on twins which agree on the constants runs in step on both, whatever else
their memories and registers hold: `keeps_program`.

* `keeps_degenerate`, `keeps_sample`   rounds that may be rejected;
* `keeps_validate` … `keeps_derive`    the work of each operation.

For each step the windows known so far are listed; that they cover what the step reads, and that it
writes behind the constants, is a computation on both curves.
-/

namespace CurveEngine

open Program Arithmetic Sampling
open Window (Covered Free)

/-- the words in front of the scratchpad -/
def Window.constants : Window := (0, Layout.scratchpad)

namespace Program

variable {α : Type} {a b : Host} {ws n : List Window}

/-! ## Sampling -/

/-- what is known after a draw: something if it was accepted, and nothing new otherwise -/
def Accepted (m : List Window) : Except Rejection α → List Window
  | .ok _ => m
  | .error _ => []

theorem keeps_degenerate {p : Program Unit} {m : List Window} {reason : Rejection} {χ : α → Prop}
    {rest : Program (Except Rejection α)} (hp : Keeps a b ws p (fun _ => n) Any)
    (hr : Keeps a b (n ++ ws) rest (Accepted m) (Ending χ Any)) :
    Keeps a b ws ((degenerate p).bind fun flag => if flag then done (.error reason) else rest)
      (Accepted m) (Ending χ Any) := by
  have hd : Keeps a b ws (degenerate p) (fun flag => if flag then [] else n) Any := by
    refine hp.attempt.bind fun r _ => ?_
    cases r with
    | ok _ => exact .of_known (List.subset_append_left _ _) trivial
    | error e =>
      exact .ite (fun _ => .of_done (by simp) trivial) fun _ => .of_fail
  refine hd.bind fun flag _ => ?_
  cases flag with
  | true => exact .of_done (by simp [Accepted]) trivial
  | false => exact hr

theorem keeps_sample {k : Nat} {round : Bytes → Program (Except Rejection α)} {m : List Window}
    {χ : α → Prop}
    (hround : ∀ block, block.length = k → Keeps a b ws (round block) (Accepted m) (Ending χ Any))
    (source : List Entry) (budget : Option Nat) :
    Keeps a b ws (sample k round source budget) (fun _ => m) χ := by
  induction source generalizing budget with
  | nil => exact .of_refuse
  | cons entry rest ih =>
    unfold sample
    refine Keeps.of_draw.bind fun _ _ => ?_
    cases hb : entry.block? k with
    | none => exact .of_refuse
    | some block =>
      obtain ⟨-, hl⟩ := (entry.block?_eq_some_iff k block).mp hb
      refine (hround block hl).bind fun r hr => ?_
      cases r with
      | ok x => exact .of_known (List.subset_append_left _ _) hr
      | error reason =>
        refine (Keeps.of_log _).bind fun _ _ => ?_
        rcases budget with - | - | j
        · exact ih none
        · exact .of_refuse
        · exact ih (some j)

end Program

/-! ## The work of each operation -/

variable {a b : Host} {ws : List Window}

section
variable (c : NamedCurve)

theorem free_scratchpad : Free (Layout.scratchpad, c.words + c.words) := by
  cases c <;> decide

variable {c}

/-- the constants of a curve lie in front of the scratchpad -/
theorem covered_constant (hc : Window.constants ∈ ws) {o : Nat}
    (ho : o + Layout.elementSlot ≤ Layout.scratchpad) : Covered ws (o, c.words) := by
  have hw : o + c.words ≤ Layout.scratchpad := Nat.le_trans (Nat.add_le_add_left c.words_le o) ho
  exact ⟨Nat.le_trans hw (by decide), _, hc, Nat.zero_le _, hw.trans_eq (Nat.zero_add _).symm⟩

theorem keeps_fieldMultiply {x y result : Nat} (hc : Window.constants ∈ ws)
    (hx : Covered ws (x, c.words)) (hy : Covered ws (y, c.words))
    (ht : Free (result, c.words + 1)) :
    Keeps a b ws (field .multiply c.words x y result) (fun _ => [(result, c.words)]) Any := by
  refine keeps_field (keeps_multiply ?_ ?_) (covered_constant hc (by decide)) ?_
  · simp only [List.forall_mem_cons]
    exact ⟨hx, hy, covered_constant hc (by decide), by simp⟩
  · simp only [List.forall_mem_cons]
    exact ⟨free_scratchpad c, ht, by simp⟩
  · exact ⟨ht.1, ht.2.mono (Nat.le_succ _)⟩

theorem keeps_fieldAdd {x y result : Nat} (hc : Window.constants ∈ ws)
    (hx : Covered ws (x, c.words)) (hy : Covered ws (y, c.words))
    (ht : Free (result, c.words + 1)) :
    Keeps a b ws (field .add c.words x y result) (fun _ => [(result, c.words)]) Any := by
  refine keeps_field (keeps_add ?_ ?_ c.words_pos) (covered_constant hc (by decide)) ?_
  · simp only [List.forall_mem_cons]
    exact ⟨hx, hy, covered_constant hc (by decide), by simp⟩
  · simp only [List.forall_mem_cons]
    exact ⟨free_scratchpad c, ht, by simp⟩
  · exact ⟨ht.1, ht.2.mono (Nat.le_succ _)⟩

theorem keeps_rightHandSide {x result : Nat} (hc : Window.constants ∈ ws)
    (hx : Covered ws (x, c.words)) (ht : Free (result, c.words + 1)) :
    Keeps a b ws (PublicKey.rightHandSide c.words x result) (fun _ => [(result, c.words)]) Any := by
  have hr : ∀ {ws : List Window}, (result, c.words) ∈ ws → Covered ws (result, c.words) :=
    Window.covered_self (ht.2.mono (Nat.le_succ _))
  refine (keeps_fieldMultiply hc hx hx ht).bind fun _ _ => ?_
  refine (keeps_fieldAdd (by simp [hc]) (hr (by simp))
    (covered_constant (by simp [hc]) (by decide)) ht).bind fun _ _ => ?_
  refine (keeps_fieldMultiply (by simp [hc]) (hr (by simp)) (hx.mono (by simp)) ht).bind
    fun _ _ => ?_
  exact keeps_fieldAdd (by simp [hc]) (hr (by simp))
    (covered_constant (by simp [hc]) (by decide)) ht

end

namespace PublicKey

theorem keeps_validate (c : NamedCurve) (key : Bytes) :
    Keeps a b [Window.constants] (validate c.words key) (fun _ => []) Any := by
  unfold validate
  refine (keeps_load _ ?_).bind fun _ _ => (keeps_load _ ?_).bind fun _ _ =>
    (keeps_checkBetween ?_ ?_ ?_).bind fun _ _ => (keeps_checkBetween ?_ ?_ ?_).bind fun _ _ =>
    (keeps_fieldMultiply ?_ ?_ ?_ ?_).bind fun _ _ =>
    (keeps_rightHandSide ?_ ?_ ?_).bind fun _ _ => (keeps_compare ?_ ?_).bind fun r _ =>
    .ite (fun _ => .of_fail) fun _ => .of_known (List.nil_subset _) trivial
  all_goals cases c <;> decide

section
variable {c : NamedCurve} (hc : Window.constants ∈ ws)
  (hs : Covered ws (Layout.Decompression.square, c.words))
  (hr : Covered ws (Layout.Decompression.root, c.words))
include hc hs hr

theorem keeps_rootStep (digit : Bool) :
    Keeps a b ws (rootStep c.words digit) (fun _ => []) Any := by
  have ht : Free (Layout.Decompression.root, c.words + 1) := by cases c <;> decide
  refine (keeps_fieldMultiply hc hr hr ht).bind fun _ _ => .ite (fun _ => ?_) fun _ =>
    .of_known (List.nil_subset _) trivial
  exact (keeps_fieldMultiply (by simp [hc]) (hr.mono (by simp)) (hs.mono (by simp)) ht).imp
    (by simp) fun _ h => h

theorem keeps_rootSteps (ds : List Bool) :
    Keeps a b ws (rootSteps c.words ds) (fun _ => []) Any := by
  induction ds with
  | nil => exact .of_known (List.nil_subset _) trivial
  | cons d ds ih => exact (keeps_rootStep hc hs hr d).bind fun _ _ => ih

end

/-- the point with a given abscissa, as two elements -/
theorem keeps_expand (c : NamedCurve) (compressed : Bytes) :
    Keeps a b [Window.constants] (expand c compressed)
      (fun _ => [(Layout.Decompression.x, c.words), (Layout.Decompression.root, c.words)])
      Any := by
  unfold expand
  refine (keeps_load _ ?_).bind fun _ _ => (keeps_rightHandSide ?_ ?_ ?_).bind fun _ _ =>
    (keeps_copy ?_ ?_).bind fun _ _ => (keeps_rootSteps ?_ ?_ ?_ _).bind fun _ _ =>
    (keeps_lowWord ?_).bind fun low _ => .ite
      (fun _ => (keeps_subtract ?_ ?_ ?_ ?_).imp (fun _ => ?_) fun _ h => h)
      (fun _ => .of_done ?_ trivial)
  all_goals cases c <;> decide

theorem keeps_decompress (c : NamedCurve) (compressed : Bytes)
    (ha : 2 * c.elementBytes ≤ (a.outputs.map List.length).getD 0 0) :
    Keeps a b [Window.constants] (decompress c compressed) (fun _ => []) Any :=
  (keeps_expand c compressed).bind fun _ _ =>
    keeps_fetchBoth (by cases c <;> decide) (by cases c <;> decide) ha

end PublicKey

namespace Signature

/-- what signing keeps between two attempts -/
def preparedWindows (w : Nat) : List Window :=
  [(Layout.Signing.key, w), (Layout.Signing.hash, w), Window.constants]

/-- both halves of a signature -/
def signatureWindows (w : Nat) : List Window :=
  [(Layout.Signing.r, w), (Layout.Signing.s, w)]

theorem keeps_round (c : NamedCurve) :
    Keeps a b ((Layout.Signing.nonce, c.words) :: preparedWindows c.words) (round c.words)
      (Accepted (signatureWindows c.words)) (Ending Any Any) := by
  unfold round
  refine (keeps_checkBetween ?_ ?_ ?_).attempt_same.bind fun check hcheck => .ite (fun hk =>
    keeps_degenerate (keeps_point (.inl rfl) ?_ ?_) <|
    (keeps_compare ?_ ?_).bind fun _ _ => .ite (fun _ => .of_known (List.nil_subset _) trivial)
    fun _ => keeps_degenerate (keeps_multiply ?_ ?_) <|
    (keeps_compare ?_ ?_).bind fun _ _ => .ite (fun _ => .of_known (List.nil_subset _) trivial)
    fun _ => keeps_degenerate (keeps_add ?_ ?_ c.words_pos) <|
    keeps_degenerate (keeps_invert ?_ ?_ ?_ ?_ ?_ ?order) <|
    keeps_degenerate (keeps_multiply ?_ ?_) <|
    (keeps_compare ?_ ?_).bind fun _ _ => .ite (fun _ => .of_known (List.nil_subset _) trivial)
    fun _ => .of_done ?_ trivial) fun _ => .of_known (List.nil_subset _) trivial
  case order =>
    cases check with
    | error e => cases hk
    | ok x => exact hcheck x rfl (by cases c <;> decide)
  all_goals cases c <;> decide

theorem keeps_draft (c : NamedCurve) (hash key : Bytes) (source : List Entry)
    (budget : Option Nat) :
    Keeps a b [Window.constants] (draft c.words hash key source budget)
      (fun _ => signatureWindows c.words) Any := by
  refine (keeps_load _ ?_).bind fun _ _ => (keeps_load _ ?_).bind fun _ _ =>
    keeps_sample (fun block _ => (keeps_load block ?_).bind fun _ _ => keeps_round c) source budget
  all_goals cases c <;> decide

theorem keeps_sign (c : NamedCurve) (hash key : Bytes) (source : List Entry)
    (budget : Option Nat) (ha : 2 * c.elementBytes ≤ (a.outputs.map List.length).getD 0 0) :
    Keeps a b [Window.constants] (sign c.words hash key source budget) (fun _ => []) Any :=
  (keeps_draft c hash key source budget).bind fun _ _ =>
    keeps_fetchBoth (by cases c <;> decide) (by cases c <;> decide) ha

theorem keeps_check (c : NamedCurve) (signature hash publicKey : Bytes) :
    Keeps a b [Window.constants] (check c.words signature hash publicKey) (fun _ => []) Any := by
  unfold check
  refine (keeps_loadPoint _ ?_).bind fun _ _ => (keeps_load _ ?_).bind fun _ _ =>
    (keeps_load _ ?_).bind fun _ _ => (keeps_load _ ?_).bind fun _ _ =>
    (keeps_checkBetween ?_ ?_ ?_).bind fun _ _ => (keeps_checkBetween ?_ ?_ ?_).bind fun _ hs =>
    (keeps_invert ?_ ?_ ?_ ?_ ?_ (hs ?_)).bind fun _ _ => (keeps_multiply ?_ ?_).bind fun _ _ =>
    (keeps_point (.inl rfl) ?_ ?_).bind fun _ _ => (keeps_multiply ?_ ?_).bind fun _ _ =>
    (keeps_point (.inl rfl) ?_ ?_).bind fun _ _ => (keeps_point (.inr rfl) ?_ ?_).bind fun _ _ =>
    (keeps_compare ?_ ?_).bind fun _ _ => .ite (fun _ => .of_fail) fun _ =>
    .of_known (List.nil_subset _) trivial
  all_goals cases c <;> decide

theorem keeps_verify (c : NamedCurve) (signature hash publicKey : Bytes) :
    Keeps a b [Window.constants] (verify c.words signature hash publicKey) (fun _ => []) Any := by
  refine (keeps_check c signature hash publicKey).attempt_same.bind fun r _ => ?_
  cases r with
  | ok _ => exact .of_known (List.nil_subset _) trivial
  | error e => exact .of_refuse

end Signature

namespace KeyAgreement

theorem keeps_attemptWith (c : NamedCurve) (block : Bytes) :
    Keeps a b [Window.constants] (attemptWith c.words block)
      (Accepted [(Layout.KeyPair.publicKey, Layout.pointSpace c.words)])
      (Ending (· = block) Any) := by
  unfold attemptWith
  refine (keeps_load _ ?_).bind fun _ _ => (keeps_checkBetween ?_ ?_ ?_).attempt_same.bind
    fun _ _ => .ite (fun _ => keeps_degenerate (keeps_point (.inl rfl) ?_ ?_) <|
      .of_known (List.subset_append_left _ _) rfl) fun _ =>
      .of_known (List.nil_subset _) trivial
  all_goals cases c <;> decide

/-- a private key is as long as its block -/
theorem keeps_attempt_length (c : NamedCurve) (block : Bytes) (hl : block.length = 4 * c.words) :
    Keeps a b [Window.constants] (attemptWith c.words block)
      (Accepted [(Layout.KeyPair.publicKey, Layout.pointSpace c.words)])
      (Ending (fun key : Bytes => key.length = 4 * c.words) Any) := by
  refine (keeps_attemptWith c block).imp (fun r v hv => ?_) fun r hr => ?_
  · cases r with
    | error e => cases hv
    | ok key =>
      rw [List.mem_singleton.mp hv]
      exact Window.covered_self (by cases c <;> decide) (by simp [Accepted])
  · cases r with
    | error e => trivial
    | ok key => exact (congrArg List.length hr).trans hl

theorem keeps_generate (c : NamedCurve) (source : List Entry) (budget : Option Nat)
    (hk : c.elementBytes ≤ (a.outputs.map List.length).getD 0 0)
    (hp : 2 * c.elementBytes ≤ (a.outputs.map List.length).getD 1 0) :
    Keeps a b [Window.constants] (generate c.words source budget) (fun _ => []) Any := by
  refine (keeps_sample (keeps_attempt_length c) source budget).bind fun key hl =>
    (keeps_output ?_ ?_).bind fun _ _ =>
      keeps_fetchBoth (by cases c <;> decide) (by cases c <;> decide) hp
  · rw [Nat.zero_add]
    exact hk
  · rintro bs ⟨⟩
    exact hl

theorem keeps_product (c : NamedCurve) (privateKey publicKey : Bytes) :
    Keeps a b [Window.constants] (product c.words privateKey publicKey)
      (fun _ => [(Layout.Agreement.product, Layout.pointSpace c.words)]) Any := by
  unfold product
  refine (keeps_load _ ?_).bind fun _ _ => (keeps_loadPoint _ ?_).bind fun _ _ =>
    (keeps_point (.inl rfl) ?_ ?_).attempt.bind fun product _ => ?rest
  case rest =>
    cases product with
    | error e => exact .of_refuse
    | ok u => exact .of_known (List.subset_append_left _ _) trivial
  all_goals cases c <;> decide

theorem keeps_derive (c : NamedCurve) (privateKey publicKey : Bytes)
    (ha : c.elementBytes ≤ (a.outputs.map List.length).getD 0 0) :
    Keeps a b [Window.constants] (derive c.words privateKey publicKey) (fun _ => []) Any :=
  (keeps_product c privateKey publicKey).bind fun _ _ =>
    keeps_fetch (by cases c <;> decide) (by rw [Nat.zero_add]; exact ha)

end KeyAgreement

/-! ## Operations -/

namespace Operation

theorem keeps_checkLength {bs : Bytes} {n : Nat} :
    Keeps a b ws (checkLength bs n) (fun _ => []) fun _ => bs.length = n :=
  .ite (fun h => .of_known (List.nil_subset _) h) fun _ => .of_refuse

theorem keeps_checkHash {hash : Bytes} : Keeps a b ws (checkHash hash) (fun _ => []) Any :=
  .ite (fun _ => .of_refuse) fun _ => .of_known (List.nil_subset _) trivial

/-- **every operation keeps twins** that agree on the constants of the enabled curve, and it writes its
result to the buffers that it was lent -/
theorem keeps_program {s : Settings} {c : NamedCurve} (hc : s.curve = some c) (op : Operation)
    (ha : a.outputs = op.buffers) :
    Keeps a b [Window.constants] (op.program s) (fun _ => []) Any := by
  unfold program
  rw [hc]
  cases op with
  | validate key => exact keeps_checkLength.bind fun _ _ => PublicKey.keeps_validate c key
  | compress key out =>
    refine keeps_checkLength.bind fun _ hk => keeps_checkLength.bind fun _ ho =>
      (keeps_output ?_ ?_).bind fun _ _ => keeps_output ?_ ?_
    · rw [ha]
      show 1 + key.length / 2 ≤ out.length
      omega
    · rintro bs ⟨⟩
      show (key.take (key.length / 2)).length = key.length / 2
      rw [List.length_take]
      omega
    · rw [ha]
      show 0 + 1 ≤ out.length
      omega
    · rintro bs ⟨⟩
      rfl
  | decompress key out =>
    exact keeps_checkLength.bind fun _ _ => keeps_checkLength.bind fun _ ho =>
      PublicKey.keeps_decompress c key (by rw [ha]; exact ho.ge)
  | sign hash key out =>
    exact keeps_checkHash.bind fun _ _ => keeps_checkLength.bind fun _ _ =>
      keeps_checkLength.bind fun _ ho =>
        Signature.keeps_sign c hash key s.source s.retryLimit (by rw [ha]; exact ho.ge)
  | verify signature hash key =>
    exact keeps_checkLength.bind fun _ _ => keeps_checkHash.bind fun _ _ =>
      keeps_checkLength.bind fun _ _ => Signature.keeps_verify c signature hash key
  | generate privateKey publicKey =>
    exact keeps_checkLength.bind fun _ hk => keeps_checkLength.bind fun _ hp =>
      KeyAgreement.keeps_generate c s.source s.retryLimit (by rw [ha]; exact hk.ge)
        (by rw [ha]; exact hp.ge)
  | agree privateKey publicKey out =>
    exact keeps_checkLength.bind fun _ _ => keeps_checkLength.bind fun _ _ =>
      keeps_checkLength.bind fun _ ho =>
        KeyAgreement.keeps_derive c privateKey publicKey (by rw [ha]; exact ho.ge)

end Operation
end CurveEngine
