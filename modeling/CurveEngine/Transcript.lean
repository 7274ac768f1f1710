import CurveEngine.Fault

/-!
# Runs of steps

A run takes steps in order, each with an answer, until the steps end or one of them is a fault.

* `Transcript`    the answers, the fault that ended the run, if any, and the state afterwards;
* `Transcript.of` the run of a step function;
* `Transcript.taken`   the steps that were answered.

The steps behind a fault do not run: `of_fault` and `of_answer` are the two cases.  Facts about a
run and the steps it took go from step to step by `of_taken`.
-/

namespace CurveEngine

/-- what a run of steps answered and left behind -/
structure Transcript (σ ρ : Type) where
  answers : List ρ
  fault : Option Fault
  final : σ

namespace Transcript

variable {σ ι ρ : Type}

/-- the run of `steps` from the state `s` -/
def of (step : σ → ι → σ × Except Fault ρ) (s : σ) : List ι → Transcript σ ρ
  | [] => ⟨[], none, s⟩
  | i :: is =>
    match step s i with
    | (s', .error f) => ⟨[], some f, s'⟩
    | (s', .ok r) =>
      let rest := of step s' is
      { rest with answers := r :: rest.answers }

@[simp] theorem of_nil (step : σ → ι → σ × Except Fault ρ) (s : σ) :
    of step s [] = ⟨[], none, s⟩ := rfl

/-- a fault is the last thing a run does -/
theorem of_fault {step : σ → ι → σ × Except Fault ρ} {s s' : σ} {i : ι} {f : Fault}
    (h : step s i = (s', .error f)) (is : List ι) : of step s (i :: is) = ⟨[], some f, s'⟩ := by
  rw [of, h]

theorem of_answer {step : σ → ι → σ × Except Fault ρ} {s s' : σ} {i : ι} {r : ρ}
    (h : step s i = (s', .ok r)) (is : List ι) :
    of step s (i :: is) = { of step s' is with answers := r :: (of step s' is).answers } := by
  rw [of, h]

/-- a run without a fault answers every step -/
theorem length_answers_of (step : σ → ι → σ × Except Fault ρ) (s : σ) (is : List ι)
    (h : (of step s is).fault = none) : (of step s is).answers.length = is.length := by
  induction is generalizing s with
  | nil => rfl
  | cons i is ih =>
    rcases hs : step s i with ⟨s', r⟩
    cases r with
    | error f =>
      rw [of_fault hs] at h
      cases h
    | ok r =>
      rw [of_answer hs] at h ⊢
      rw [List.length_cons, List.length_cons, ih s' h]

/-- a run without a fault is one run and then another -/
theorem of_append {step : σ → ι → σ × Except Fault ρ} {s : σ} {is js : List ι}
    (h : (of step s (is ++ js)).fault = none) :
    (of step s is).fault = none ∧ (of step (of step s is).final js).fault = none ∧
      (of step s (is ++ js)).final = (of step (of step s is).final js).final := by
  induction is generalizing s with
  | nil => exact ⟨rfl, h, rfl⟩
  | cons i is ih =>
    rcases hs : step s i with ⟨s', f | r⟩
    · rw [List.cons_append, of_fault hs] at h
      cases h
    · rw [List.cons_append, of_answer hs] at h ⊢
      rw [of_answer hs]
      exact ih h

/-- the steps of a run that were answered: all before the fault, if there was one -/
def taken (t : Transcript σ ρ) (is : List ι) : List ι := is.take t.answers.length

section
variable {step : σ → ι → σ × Except Fault ρ} {M : List ι → σ → Prop}

theorem of_taken_append
    (ok : ∀ l s i s' r, M l s → step s i = (s', .ok r) → M (l ++ [i]) s')
    (error : ∀ l s i s' f, M l s → step s i = (s', .error f) → M l s')
    (is : List ι) {l : List ι} {s : σ} (h : M l s) :
    M (l ++ (of step s is).taken is) (of step s is).final := by
  induction is generalizing l s with
  | nil =>
    show M (l ++ []) s
    rwa [List.append_nil]
  | cons i is ih =>
    rcases hs : step s i with ⟨s', f | r⟩
    · rw [of_fault hs]
      show M (l ++ []) s'
      rw [List.append_nil]
      exact error l s i s' f h hs
    · rw [of_answer hs]
      show M (l ++ i :: (of step s' is).taken is) (of step s' is).final
      rw [List.append_cons]
      exact ih (ok l s i s' r h hs)

/-- what holds of no steps and is kept by every step holds of a run: `M l s` is about the steps `l`
taken so far and the state they led to -/
theorem of_taken
    (ok : ∀ l s i s' r, M l s → step s i = (s', .ok r) → M (l ++ [i]) s')
    (error : ∀ l s i s' f, M l s → step s i = (s', .error f) → M l s')
    {s : σ} (h : M [] s) (is : List ι) : M ((of step s is).taken is) (of step s is).final :=
  of_taken_append ok error is h

end

end Transcript
end CurveEngine
