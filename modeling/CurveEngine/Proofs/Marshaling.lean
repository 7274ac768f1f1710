import CurveEngine.Proofs.Arithmetic

/-!
# Byte strings in and out of the engine's memory

A byte string and a word list may differ in length; a conversion replaces what both have, counted
from the least significant end, and keeps the rest of its destination.

* `Bytes.common`       the words that a byte string and a word list both have;
* `Bytes.IntoWords`    a word list after a byte string was converted into it;
* `Bytes.IntoBytes`    a byte string after a word list was converted into it;
* `Bytes.intoWords_overWords`, `Bytes.intoBytes_overBytes`   both conversions, for any lengths;
* `load_fetch`, `loadPoint_fetchPoint`   what is loaded is fetched again;
* `Arithmetic.marshaling_round_trips`   all of it together, with both ways back.

The conversions are defined on reversed strings by recursion, four bytes at a time; `littleWords_take`
follows that recursion, and everything said about the end of a string is said there about the front.
-/

namespace CurveEngine

namespace Bytes

/-! ## The front of a reversed string -/

/-- the words of the first bytes are the first words -/
theorem littleWords_take (bs : List UInt8) (j : Nat) :
    littleWords (bs.take (4 * j)) = (littleWords bs).take j := by
  induction j generalizing bs with
  | zero => rfl
  | succ j ih =>
    match bs with
    | [] | [_] | [_, _] | [_, _, _] => simp [Nat.mul_succ, littleWords]
    | b₀ :: b₁ :: b₂ :: b₃ :: bs =>
      rw [littleWords_cons, List.take_succ_cons, ← ih]
      rfl

/-- the bytes of the first words are the first bytes -/
theorem littleBytes_take (ws : List Word) (j : Nat) :
    littleBytes (ws.take j) = (littleBytes ws).take (4 * j) := by
  induction j generalizing ws with
  | zero => rfl
  | succ j ih =>
    cases ws with
    | nil => rfl
    | cons w ws =>
      rw [List.take_succ_cons, littleBytes_cons, ih, littleBytes_cons]
      rfl

/-! ## An overlay in two parts -/

section
variable {α : Type} {new old : List α} {k : Nat}

theorem take_overlay (hn : k ≤ new.length) (ho : k ≤ old.length) :
    (overlay new old).take k = new.take k := by
  rw [overlay, List.take_append_of_le_length (by rw [List.length_take]; omega), List.take_take,
    Nat.min_eq_left ho]

/-- what is longer than the new part keeps its end -/
theorem drop_overlay (hk : k = min new.length old.length) :
    (overlay new old).drop k = old.drop k := by
  have hl : (new.take old.length).length = k := by
    rw [List.length_take, hk, Nat.min_comm]
  rw [overlay, List.drop_left' hl, hk]
  obtain hn | ho := Nat.le_total new.length old.length
  · rw [Nat.min_eq_left hn]
  · rw [Nat.min_eq_right ho, List.drop_of_length_le ho, List.drop_of_length_le (Nat.le_refl _)]

end

/-! ## Both conversions -/

/-- the words that a byte string and a word list both have -/
def common (bs : Bytes) (ws : List Word) : Nat := min ws.length (bs.length / 4)

/-- `new` is `old` with its least significant words taken from the end of `bs` -/
structure IntoWords (bs : Bytes) (old new : List Word) : Prop where
  length : new.length = old.length
  value : ∀ j, j ≤ common bs old →
    Words.value (new.take j) = Bytes.value (bs.drop (bs.length - 4 * j))
  rest : new.drop (common bs old) = old.drop (common bs old)

/-- `new` is `old` with its end taken from the least significant words of `ws` -/
structure IntoBytes (ws : List Word) (old new : Bytes) : Prop where
  length : new.length = old.length
  value : ∀ j, j ≤ common old ws →
    Bytes.value (new.drop (new.length - 4 * j)) = Words.value (ws.take j)
  rest : new.take (new.length - 4 * common old ws) = old.take (old.length - 4 * common old ws)

/-- the last `4 * j` bytes stand for the first `j` words -/
theorem value_drop {bs : Bytes} {j : Nat} (hj : j ≤ bs.length / 4) :
    value (bs.drop (bs.length - 4 * j)) = Words.value ((words bs).take j) := by
  have hl : (bs.drop (bs.length - 4 * j)).length = 4 * j := by
    rw [List.length_drop]
    omega
  have hd : 4 ∣ (bs.drop (bs.length - 4 * j)).length := by
    rw [hl]
    exact Nat.dvd_mul_right 4 j
  rw [← value_words _ hd, words, List.reverse_drop,
    show bs.length - (bs.length - 4 * j) = 4 * j by omega, littleWords_take]
  rfl

theorem intoWords_overWords (bs : Bytes) (old : List Word) : IntoWords bs old (overWords bs old) where
  length := length_overlay _ _
  value := by
    intro j hj
    unfold common at hj
    rw [overWords, take_overlay (by rw [length_words]; omega) (by omega), value_drop (by omega)]
  rest := by
    apply drop_overlay
    rw [length_words, common, Nat.min_comm]

theorem intoBytes_overBytes (ws : List Word) (old : Bytes) : IntoBytes ws old (overBytes ws old) := by
  -- the new end, least significant byte first
  let new := littleBytes (ws.take (old.length / 4))
  have hnew : new.length = 4 * common old ws := by
    rw [length_littleBytes, List.length_take, common, Nat.min_comm]
  have hl : (overBytes ws old).length = old.length := by
    rw [overBytes, List.length_reverse, length_overlay, List.length_reverse]
  have hrev : (overBytes ws old).reverse = overlay new old.reverse := List.reverse_reverse _
  have hle : 4 * common old ws ≤ old.length := by
    unfold common
    omega
  refine ⟨hl, fun j hj => ?_, ?_⟩
  · have ht : ((overBytes ws old).drop ((overBytes ws old).length - 4 * j)).reverse =
        littleBytes (ws.take j) := by
      rw [List.reverse_drop, hrev, hl, Nat.sub_sub_self (by omega),
        take_overlay (by omega) (by rw [List.length_reverse]; omega), ← littleBytes_take,
        List.take_take, Nat.min_eq_left (by unfold common at hj; omega)]
    rw [value, ht, ← value_ofWords, value, ofWords, List.reverse_reverse]
  · have hk : 4 * common old ws = min new.length old.reverse.length := by
      rw [hnew, List.length_reverse, Nat.min_eq_left hle]
    rw [← List.reverse_inj, List.reverse_take, List.reverse_take, hrev, hl, Nat.sub_sub_self hle,
      drop_overlay hk]

/-! ## Strings of whole words -/

/-- as many words as bytes: the number stays, and the string comes back -/
theorem value_overWords {bs : Bytes} {old : List Word} (h : bs.length = 4 * old.length) :
    Words.value (overWords bs old) = value bs := by
  rw [overWords_eq_words h, value_words bs (h ▸ Nat.dvd_mul_right 4 old.length)]

theorem overBytes_overWords {bs old' : Bytes} {old : List Word} (h : bs.length = 4 * old.length)
    (h' : old'.length = bs.length) : overBytes (overWords bs old) old' = bs := by
  have hl : (overWords bs old).length = old.length := length_overlay _ _
  rw [overBytes_eq_ofWords (by rw [hl, h', h]), overWords_eq_words h,
    ofWords_words bs (h ▸ Nat.dvd_mul_right 4 old.length)]

theorem overWords_overBytes {ws old' : List Word} {old : Bytes} (h : old.length = 4 * ws.length)
    (h' : old'.length = ws.length) : overWords (overBytes ws old) old' = ws := by
  rw [overBytes_eq_ofWords h, overWords_eq_words (by rw [length_ofWords, h']), words_ofWords]

end Bytes

/-! ## Loading and fetching -/

namespace Arithmetic

open Program
open Memory (Fits)

section
variable {w o : Nat} {h : Host}

/-- the words of an element as it is loaded -/
def elementWords (w : Nat) (bs : Bytes) : List Word :=
  Bytes.overWords (bs.take (4 * w)) (List.replicate w 0)

theorem length_elementWords (w : Nat) (bs : Bytes) : (elementWords w bs).length = w := by
  rw [elementWords, Bytes.overWords, Bytes.length_overlay, List.length_replicate]

/-- the host after an element was loaded -/
def loaded (h : Host) (w : Nat) (bs : Bytes) (o : Nat) : Host :=
  { h with engine := { h.engine with memory := h.engine.memory.overwrite o (elementWords w bs) } }

theorem ends_load (ho : Fits o w) (bs : Bytes) : (load w bs o).Ends h (.ok ()) (loaded h w bs o) :=
  ends_writeMemory (by rwa [length_elementWords] : Fits o (elementWords w bs).length)

theorem window_loaded (ho : Fits o w) (bs : Bytes) :
    (loaded h w bs o).engine.memory.window o w = elementWords w bs := by
  have hl := length_elementWords w bs
  have hf : Fits o (elementWords w bs).length := by rwa [hl]
  have e : (loaded h w bs o).engine.memory.window o (elementWords w bs).length =
      elementWords w bs := Memory.window_overwrite_self hf
  rwa [hl] at e

theorem element_loaded (ho : Fits o w) {bs : Bytes} (hl : bs.length = 4 * w) :
    (loaded h w bs o).element w o = Bytes.value bs := by
  show Words.value ((loaded h w bs o).engine.memory.window o w) = _
  rw [window_loaded ho, elementWords, List.take_of_length_le hl.le]
  exact Bytes.value_overWords (by rw [hl, List.length_replicate])

/-- **what is loaded is fetched again**, to any part of an output buffer -/
theorem load_fetch (ho : Fits o w) {bs : Bytes} (hl : bs.length = 4 * w) {i : Nat} {a b d : Bytes}
    (hi : h.outputs.getD i [] = a ++ b ++ d) (hb : b.length = 4 * w) :
    ((load w bs o).bind fun _ => fetch w o i a.length).Ends h (.ok ())
      { loaded h w bs o with outputs := h.outputs.set i (a ++ bs ++ d) } := by
  have hf := ends_fetch (h := loaded h w bs o) ho hi hb
  rw [element_loaded ho hl, Bytes.ofNat_value hl] at hf
  exact (ends_load ho bs).bind hf

/-- the two coordinates of a point do not overlap, so that the second one leaves the first -/
theorem loadPoint_fetchPoint (ho : Fits o (Layout.coordinateSpace w + w)) {bs : Bytes}
    (hl : bs.length = 2 * (4 * w)) {i : Nat} {b : Bytes} (hi : h.outputs[i]? = some b)
    (hb : b.length = 2 * (4 * w)) :
    ((loadPoint w bs o).bind fun _ => fetchPoint w o i).Ends h (.ok ())
      { loaded (loaded h w (bs.take (4 * w)) o) w (bs.drop (4 * w)) (o + Layout.coordinateSpace w)
        with outputs := h.outputs.set i bs } := by
  have hx : Fits o w := ho.mono (Nat.le_add_left w _)
  have hy : Fits (o + Layout.coordinateSpace w) w := by
    unfold Memory.Fits at ho ⊢
    omega
  obtain ⟨lx, ly⟩ := Bytes.length_take_drop hl
  let h₁ := loaded h w (bs.take (4 * w)) o
  let h₂ := loaded h₁ w (bs.drop (4 * w)) (o + Layout.coordinateSpace w)
  have hload : (loadPoint w bs o).Ends h (.ok ()) h₂ := (ends_load hx _).bind (ends_load hy _)
  have hkept : h₂.engine.memory.window o w = h₁.engine.memory.window o w :=
    Memory.window_overwrite_disjoint (.inl (Nat.add_le_add_left (Layout.le_coordinateSpace w) o))
  have ex : h₂.element w o = Bytes.value (bs.take (4 * w)) :=
    (congrArg Words.value hkept).trans (element_loaded hx lx)
  have hf := ends_fetchBoth (h := h₂) hx hy hi hb
  rw [ex, element_loaded hy ly, Bytes.ofNat_value lx, Bytes.ofNat_value ly,
    List.take_append_drop] at hf
  exact hload.bind hf

end

/-- **marshaling keeps the number and comes back**: between strings and lists of as many words, in
what both have when they differ in length, and through the engine's memory to the output buffers for
elements and points, whatever the buffers held -/
theorem marshaling_round_trips :
    (∀ (w : Nat) (bs old' : Bytes) (old : List Word),
      bs.length = 4 * w → old.length = w → old'.length = 4 * w →
        Words.value (Bytes.overWords bs old) = Bytes.value bs ∧
          Bytes.overBytes (Bytes.overWords bs old) old' = bs) ∧
      (∀ (w : Nat) (ws old' : List Word) (old : Bytes),
        ws.length = w → old.length = 4 * w → old'.length = w →
          Bytes.overWords (Bytes.overBytes ws old) old' = ws) ∧
      (∀ (bs : Bytes) (old : List Word), Bytes.IntoWords bs old (Bytes.overWords bs old)) ∧
      (∀ (ws : List Word) (old : Bytes), Bytes.IntoBytes ws old (Bytes.overBytes ws old)) ∧
      ∀ (c : NamedCurve) (h : Host) (o i : Nat) (bs : Bytes),
        (∀ a b d : Bytes, bs.length = c.elementBytes → b.length = c.elementBytes →
          h.outputs[i]? = some (a ++ b ++ d) → Fits o c.words →
            ∃ h', ((load c.words bs o).bind fun _ => fetch c.words o i a.length).Ends h (.ok ()) h' ∧
              h'.outputs = h.outputs.set i (a ++ bs ++ d)) ∧
        ∀ b : Bytes, bs.length = 2 * c.elementBytes → b.length = 2 * c.elementBytes →
          h.outputs[i]? = some b → Fits o (Layout.coordinateSpace c.words + c.words) →
            ∃ h', ((loadPoint c.words bs o).bind fun _ => fetchPoint c.words o i).Ends h (.ok ()) h' ∧
              h'.outputs = h.outputs.set i bs := by
  refine ⟨?_, ?_, Bytes.intoWords_overWords, Bytes.intoBytes_overBytes, fun c h o i bs => ⟨?_, ?_⟩⟩
  · rintro w bs old' old hb rfl ho
    exact ⟨Bytes.value_overWords hb, Bytes.overBytes_overWords hb (ho.trans hb.symm)⟩
  · rintro w ws old' old rfl ho ho'
    exact Bytes.overWords_overBytes ho ho'
  · intro a b d hl hb hi ho
    have hbuf : h.outputs.getD i [] = a ++ b ++ d := by
      rw [List.getD_eq_getElem?_getD, hi, Option.getD_some]
    exact ⟨_, load_fetch ho hl hbuf hb, rfl⟩
  · exact fun b hl hb hi ho => ⟨_, loadPoint_fetchPoint ho hl hi hb, rfl⟩

/-- lengths that differ, lengths that fit, and a point of P-192 in the generator's place -/
theorem marshaling_round_trips_uneven :
    Bytes.overWords [1, 0, 0, 0, 2, 0, 0, 0, 3] [7] = [3] ∧
      Bytes.overBytes [3] [1, 0, 0, 0, 2, 9, 9, 9, 9] = [1, 0, 0, 0, 2, 0, 0, 0, 3] ∧
      Bytes.overBytes (Bytes.overWords [0, 0, 1, 2] [7]) [9, 9, 9, 9] = [0, 0, 1, 2] ∧
      Bytes.overWords (Bytes.overBytes [258] [9, 9, 9, 9]) [7] = [258] ∧
      ∃ h', ((loadPoint 6 (List.replicate 48 5) Layout.generator).bind fun _ =>
        fetchPoint 6 Layout.generator 0).Ends
          (Host.new (Engine.new 0) 0 [List.replicate 48 0xa5]) (.ok ()) h' ∧
        h'.outputs = [List.replicate 48 5] := by
  obtain ⟨hb, hw, -, -, hc⟩ := marshaling_round_trips
  exact ⟨by decide, by decide, (hb 1 [0, 0, 1, 2] [9, 9, 9, 9] [7] rfl rfl rfl).2,
    hw 1 [258] [7] [9, 9, 9, 9] rfl rfl rfl,
    (hc .p192 _ _ 0 _).2 (List.replicate 48 0xa5) rfl rfl rfl (by decide)⟩

end Arithmetic
end CurveEngine
