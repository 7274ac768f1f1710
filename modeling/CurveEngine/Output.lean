import CurveEngine.Bytes
import CurveEngine.Fault

/-!
# Output buffers

A caller lends some buffers to an operation, which writes its result to parts of them.

* `Slice`          some bytes in a row of one of the buffers;
* `Content`        what is written there: bytes, or the words of an element;
* `Slice.write`    the buffers after a write, or the fault that it is.

Bytes fill a slice of their length.  Words go over the end of a slice, with `Bytes.overBytes`, and what
the slice held in front of them stays.
-/

namespace CurveEngine

/-- `length` bytes of a buffer, from `start` on -/
structure Slice where
  buffer : Nat
  start : Nat
  length : Nat
  deriving DecidableEq

/-- what is written to a slice -/
inductive Content where
  | bytes (bs : Bytes)
  | words (ws : List Word)
  deriving DecidableEq

/-- written over `old` -/
def Content.onto : Content → Bytes → Except Fault Bytes
  | bytes bs, old => if bs.length = old.length then .ok bs else .error .outOfBounds
  | words ws, old => .ok (Bytes.overBytes ws old)

/-- the buffers with a slice overwritten -/
def Slice.write (t : Slice) (c : Content) (bufs : List Bytes) : Except Fault (List Bytes) :=
  let old := bufs.getD t.buffer []
  if t.start + t.length ≤ old.length then
    (c.onto ((old.drop t.start).take t.length)).map fun new =>
      bufs.set t.buffer (old.take t.start ++ new ++ old.drop (t.start + t.length))
  else .error .outOfBounds

/-! ## Small laws -/

theorem Content.length_onto {c : Content} {old new : Bytes} (h : c.onto old = .ok new) :
    new.length = old.length := by
  cases c with
  | bytes bs =>
    by_cases hl : bs.length = old.length
    · rw [onto, if_pos hl] at h
      cases h
      exact hl
    · rw [onto, if_neg hl] at h
      cases h
  | words ws =>
    cases h
    rw [Bytes.overBytes, List.length_reverse, Bytes.length_overlay, List.length_reverse]

theorem Content.onto_bytes {bs old : Bytes} (h : bs.length = old.length) :
    (bytes bs).onto old = .ok bs := if_pos h

namespace Slice

variable {t : Slice} {c : Content} {bufs bufs' : List Bytes}

/-- a write puts bytes in the place of as many others -/
theorem exists_of_write (h : t.write c bufs = .ok bufs') :
    ∃ a b d new, bufs.getD t.buffer [] = a ++ b ++ d ∧ a.length = t.start ∧ b.length = t.length ∧
      c.onto b = .ok new ∧ bufs' = bufs.set t.buffer (a ++ new ++ d) := by
  unfold write at h
  generalize bufs.getD t.buffer [] = old at h ⊢
  by_cases hf : t.start + t.length ≤ old.length
  · rw [if_pos hf] at h
    rcases hc : c.onto ((old.drop t.start).take t.length) with f | new
    · rw [hc] at h
      cases h
    · rw [hc] at h
      cases h
      refine ⟨old.take t.start, _, old.drop (t.start + t.length), new, ?_, ?_, ?_, hc, rfl⟩
      · rw [List.append_assoc, ← List.drop_drop, List.take_append_drop, List.take_append_drop]
      · rw [List.length_take]
        omega
      · rw [List.length_take, List.length_drop]
        omega
  · rw [if_neg hf] at h
    cases h

theorem lengths_write (h : t.write c bufs = .ok bufs') :
    bufs'.map List.length = bufs.map List.length := by
  obtain ⟨a, b, d, new, hold, -, -, hc, rfl⟩ := exists_of_write h
  have hn := Content.length_onto hc
  by_cases hi : t.buffer < bufs.length
  · rw [List.getD_eq_getElem?_getD, List.getElem?_eq_getElem hi, Option.getD_some] at hold
    have hl : (a ++ new ++ d).length = bufs[t.buffer].length := by
      simp only [hold, List.length_append, hn]
    rw [List.map_set, hl, ← List.getElem_map List.length (h := by simpa using hi),
      List.set_getElem_self]
  · rw [List.set_eq_of_length_le (Nat.le_of_not_lt hi)]

theorem exists_write (ht : t.start + t.length ≤ (bufs.getD t.buffer []).length)
    (hc : ∀ bs, c = .bytes bs → bs.length = t.length) : ∃ bufs', t.write c bufs = .ok bufs' := by
  unfold write
  rw [if_pos ht]
  cases c with
  | words ws => exact ⟨_, rfl⟩
  | bytes bs =>
    have hl : bs.length = (((bufs.getD t.buffer []).drop t.start).take t.length).length := by
      rw [List.length_take, List.length_drop, hc bs rfl]
      omega
    refine ⟨bufs.set t.buffer ((bufs.getD t.buffer []).take t.start ++ bs ++
      (bufs.getD t.buffer []).drop (t.start + t.length)), ?_⟩
    rw [Content.onto_bytes hl]
    rfl

/-- a write to the part `b` of a buffer -/
theorem write_of_parts {i : Nat} {a b d new : Bytes} (hb : bufs.getD i [] = a ++ b ++ d)
    (hc : c.onto b = .ok new) :
    write ⟨i, a.length, b.length⟩ c bufs = .ok (bufs.set i (a ++ new ++ d)) := by
  have hold : (a ++ b ++ d).take a.length = a ∧ ((a ++ b ++ d).drop a.length).take b.length = b ∧
      (a ++ b ++ d).drop (a.length + b.length) = d := by simp
  unfold write
  simp only [hb]
  rw [if_pos (by simp only [List.length_append]; omega), hold.1, hold.2.1, hold.2.2, hc]
  rfl

end Slice
end CurveEngine
