import CurveEngine.Drive

/-!
# Two runs side by side

A program run on two hosts at once: every request has the same reply on both, or is the same fault.

* `Progress.Meet`       two runs got equally far, and left related hosts;
* `Host.Steady`         a relation of hosts that waiting keeps;
* `Program.Lockstep`    the program runs in step on two hosts, in related hosts whenever it waits;
* `Lockstep.drive`      two runs in step meet, in whatever way both are run.

One run is two equal ones, so what holds of all pairs of runs in step holds of every run.
-/

namespace CurveEngine

variable {α β : Type}

/-- two runs got equally far: with the same result, with the same rest, or with the same fault -/
def Progress.Meet (P : Program α → Host → Host → Prop) (T : Fault → Host → Host → Prop)
    (Q : Except Failure α → Host → Host → Prop) (a b : Progress α × Host) : Prop :=
  a.1 = b.1 ∧
    match a.1 with
    | .ready r => Q r a.2 b.2
    | .pending rest => P rest a.2 b.2
    | .fault f => T f a.2 b.2

/-- a relation of hosts that run equally long, kept by every part of a wait -/
structure Host.Steady (I : Host → Host → Prop) : Prop where
  busy : ∀ {h₁ h₂}, I h₁ h₂ → h₁.engine.busy = h₂.engine.busy
  listen : ∀ {h₁ h₂}, I h₁ h₂ → I h₁.listen h₂.listen
  tick : ∀ {h₁ h₂}, I h₁ h₂ → I h₁.tick h₂.tick
  enter : ∀ {h₁ h₂}, I h₁ h₂ → I h₁.enter h₂.enter

theorem Host.Steady.await {I : Host → Host → Prop} (hI : Steady I) (n : Nat) {h₁ h₂ : Host}
    (h : I h₁ h₂) : I (h₁.await n) (h₂.await n) := by
  induction n generalizing h₁ h₂ with
  | zero => exact h
  | succ n ih => exact ih (hI.enter (hI.tick h))

namespace Program

/-- the program runs in step on two hosts: they are related by `I` whenever it waits, by `T` after a
fault and by `Q` at the end -/
def Lockstep (I : Host → Host → Prop) (T : Fault → Host → Host → Prop) :
    Program α → Host → Host → (Except Failure α → Host → Host → Prop) → Prop
  | done a, h₁, h₂, Q => Q (.ok a) h₁ h₂
  | fail e, h₁, h₂, Q => Q (.error e) h₁ h₂
  | ask q next, h₁, h₂, Q =>
    (∃ r, (h₁.answer q).2 = .ok r ∧ (h₂.answer q).2 = .ok r ∧
      (next r).Lockstep I T (h₁.answer q).1 (h₂.answer q).1 Q) ∨
    ∃ f, (h₁.answer q).2 = .error f ∧ (h₂.answer q).2 = .error f ∧
      T f (h₁.answer q).1 (h₂.answer q).1
  | wait next, h₁, h₂, Q =>
    I h₁ h₂ ∧ next.Lockstep I T (h₁.listen.await h₁.engine.busy) (h₂.listen.await h₂.engine.busy) Q

namespace Lockstep

variable {I : Host → Host → Prop} {T : Fault → Host → Host → Prop} {p : Program α} {h₁ h₂ : Host}
  {Q Q' : Except Failure α → Host → Host → Prop}

/-! ## Programs in parts -/

theorem imp (hp : p.Lockstep I T h₁ h₂ Q) (hQ : ∀ r h₁ h₂, Q r h₁ h₂ → Q' r h₁ h₂) :
    p.Lockstep I T h₁ h₂ Q' := by
  induction p generalizing h₁ h₂ with
  | done a => exact hQ _ _ _ hp
  | fail e => exact hQ _ _ _ hp
  | ask q next ih =>
    obtain ⟨r, e₁, e₂, hp⟩ | hp := hp
    · exact .inl ⟨r, e₁, e₂, ih r hp⟩
    · exact .inr hp
  | wait next ih => exact ⟨hp.1, ih hp.2⟩

theorem bind {f : α → Program β} {R : Except Failure β → Host → Host → Prop}
    (hp : p.Lockstep I T h₁ h₂ fun r h₁ h₂ =>
      match r with
      | .ok a => (f a).Lockstep I T h₁ h₂ R
      | .error e => R (.error e) h₁ h₂) :
    (p.bind f).Lockstep I T h₁ h₂ R := by
  induction p generalizing h₁ h₂ with
  | done a => exact hp
  | fail e => exact hp
  | ask q next ih =>
    obtain ⟨r, e₁, e₂, hp⟩ | hp := hp
    · exact .inl ⟨r, e₁, e₂, ih r hp⟩
    · exact .inr hp
  | wait next ih => exact ⟨hp.1, ih hp.2⟩

theorem attempt {R : Except Failure (Except Failure α) → Host → Host → Prop}
    (hp : p.Lockstep I T h₁ h₂ fun r h₁ h₂ => R (.ok r) h₁ h₂) :
    p.attempt.Lockstep I T h₁ h₂ R := by
  induction p generalizing h₁ h₂ with
  | done a => exact hp
  | fail e => exact hp
  | ask q next ih =>
    obtain ⟨r, e₁, e₂, hp⟩ | hp := hp
    · exact .inl ⟨r, e₁, e₂, ih r hp⟩
    · exact .inr hp
  | wait next ih => exact ⟨hp.1, ih hp.2⟩

/-! ## Runs -/

variable (hI : Host.Steady I)
include hI

/-- one poll of both runs; what is left of a pending program goes on in step -/
theorem poll (hp : p.Lockstep I T h₁ h₂ Q) :
    Progress.Meet (fun rest h₁ h₂ => I h₁ h₂ ∧ rest.Lockstep I T h₁.enter h₂.enter Q) T Q
      (p.poll h₁) (p.poll h₂) := by
  induction p generalizing h₁ h₂ with
  | done a => exact ⟨rfl, hp⟩
  | fail e => exact ⟨rfl, hp⟩
  | ask q next ih =>
    rcases e₁ : h₁.answer q with ⟨k₁, r₁⟩
    rcases e₂ : h₂.answer q with ⟨k₂, r₂⟩
    unfold Lockstep at hp
    rw [e₁, e₂] at hp
    obtain ⟨r, rfl, rfl, hp⟩ | ⟨f, rfl, rfl, hp⟩ := hp
    · rw [poll_ask_of_ok e₁, poll_ask_of_ok e₂]
      exact ih r hp
    · rw [poll_ask_of_error e₁, poll_ask_of_error e₂]
      exact ⟨rfl, hp⟩
  | wait next ih =>
    obtain ⟨hi, hp⟩ := hp
    have hb := hI.busy hi
    by_cases h0 : h₁.engine.busy = 0
    · rw [h0, ← hb, h0, Host.await_zero, Host.await_zero] at hp
      rw [poll_wait_of_idle h0, poll_wait_of_idle (hb ▸ h0)]
      exact ih hp
    · rw [poll_wait_of_running h0, poll_wait_of_running (hb ▸ h0)]
      obtain ⟨n, hn⟩ := Nat.exists_eq_succ_of_ne_zero h0
      have ht := hI.tick (hI.listen hi)
      refine ⟨rfl, ht, hI.enter ht, ?_⟩
      rw [← hb, hn, Host.await_succ, Host.await_succ] at hp
      rw [← hI.busy (hI.enter ht), Host.busy_enter_tick, Host.busy_listen, hn,
        Host.listen_enter_tick_listen, Host.listen_enter_tick_listen]
      exact hp

theorem resume (n : Nat) (hi : I h₁ h₂) (hp : p.Lockstep I T h₁.enter h₂.enter Q) :
    Progress.Meet (fun _ => I) T Q (p.resume n h₁) (p.resume n h₂) := by
  induction n generalizing p h₁ h₂ with
  | zero => exact ⟨rfl, hi⟩
  | succ n ih =>
    have hm := hp.poll hI
    rcases e₁ : p.poll h₁.enter with ⟨x₁, k₁⟩
    rcases e₂ : p.poll h₂.enter with ⟨x₂, k₂⟩
    rw [e₁, e₂] at hm
    obtain ⟨hx, hm⟩ := hm
    obtain rfl : x₁ = x₂ := hx
    cases x₁ with
    | ready r =>
      rw [resume_of_settled (by rw [e₁]; rfl), resume_of_settled (by rw [e₂]; rfl), e₁, e₂]
      exact ⟨rfl, hm⟩
    | pending rest =>
      rw [resume_of_pending e₁, resume_of_pending e₂]
      exact ih hm.1 hm.2
    | fault f =>
      rw [resume_of_settled (by rw [e₁]; rfl), resume_of_settled (by rw [e₂]; rfl), e₁, e₂]
      exact ⟨rfl, hm⟩

omit hI in
/-- a program that is polled to its end is never left pending -/
theorem finish {P : Program α → Host → Host → Prop} (hp : p.Lockstep I T h₁ h₂ Q) :
    Progress.Meet P T Q (p.finish h₁) (p.finish h₂) := by
  induction p generalizing h₁ h₂ with
  | done a => exact ⟨rfl, hp⟩
  | fail e => exact ⟨rfl, hp⟩
  | ask q next ih =>
    rcases e₁ : h₁.answer q with ⟨k₁, r₁⟩
    rcases e₂ : h₂.answer q with ⟨k₂, r₂⟩
    unfold Lockstep at hp
    rw [e₁, e₂] at hp
    obtain ⟨r, rfl, rfl, hp⟩ | ⟨f, rfl, rfl, hp⟩ := hp
    · rw [finish_ask_of_ok e₁, finish_ask_of_ok e₂]
      exact ih r hp
    · rw [finish_ask_of_error e₁, finish_ask_of_error e₂]
      exact ⟨rfl, hp⟩
  | wait next ih => exact ih hp.2

/-- **two runs in step meet**, in whatever way both are run -/
theorem drive (d : Drive) (hi : I h₁ h₂) (hp : p.Lockstep I T h₁.enter h₂.enter Q) :
    Progress.Meet (fun _ => I) T Q (p.drive d h₁) (p.drive d h₂) := by
  unfold Program.drive
  cases d.limit with
  | none => exact hp.finish
  | some n => exact hp.resume hI n hi

end Lockstep
end Program
end CurveEngine
