import CurveEngine.Bytes
import CurveEngine.Program

/-!
# Rejection sampling

* `Entry`       what the random source gives when asked once;
* `degenerate`  whether a program met a value that another draw may avoid;
* `sample`      draws until a round accepts one, as long as the source and the retry limit allow.

The source is a list, so sampling ends; an entry is used up even if it is of no use.
-/

namespace CurveEngine

/-- an entry of the random source: some bytes, or nothing -/
abbrev Entry := Option Bytes

namespace Entry

/-- the bytes of an entry, if they are as many as asked for -/
def block? (e : Entry) (n : Nat) : Option Bytes := e.filter fun bs => bs.length = n

theorem block?_eq_some_iff (e : Entry) (n : Nat) (bs : Bytes) :
    e.block? n = some bs ↔ e = some bs ∧ bs.length = n := by
  cases e with
  | none => simp [block?]
  | some cs =>
    simp only [block?, Option.filter_some, decide_eq_true_eq]
    constructor
    · intro h
      split at h
      · cases h
        exact ⟨rfl, ‹_›⟩
      · cases h
    · intro h
      obtain ⟨h, hl⟩ := h
      cases h
      rw [if_pos hl]

theorem block?_some {bs : Bytes} {n : Nat} (h : bs.length = n) : block? (some bs) n = some bs :=
  (block?_eq_some_iff _ n bs).mpr ⟨rfl, h⟩

end Entry

namespace Sampling

open Program

/-- a retryable failure as `true`, success as `false`; other failures stay -/
def degenerate (p : Program Unit) : Program Bool := do
  match ← p.attempt with
  | .ok () => return false
  | .error e => if e.retryable then return true else fail e

/-- draws of `n` bytes until `round` accepts one; `budget` more rejections are allowed, `none` for
any number -/
def sample {α : Type} (n : Nat) (round : Bytes → Program (Except Rejection α)) :
    List Entry → Option Nat → Program α
  | [], _ => refuse .sourceFailed .randomSource
  | entry :: rest, budget => do
    draw
    match entry.block? n with
    | none => refuse .sourceFailed .randomSource
    | some block =>
      match ← round block with
      | .ok a => return a
      | .error reason =>
        log (.rejected reason)
        match budget with
        | none => sample n round rest none
        | some 0 => refuse .retryLimit .retryLimit
        | some (k + 1) => sample n round rest (some k)

end Sampling
end CurveEngine
