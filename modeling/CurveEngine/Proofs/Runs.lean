import CurveEngine.Proofs.Latency

/-!
# Where runs end

* `Program.Stops`     what a run has come to in its last state;
* `Ends.passes`       the first part of a sequence leads to the second;
* `passes_of_drive`   every run, however it is driven, ends in one of the states it goes through;
* `Passes.orderly`    an orderly program stays one, and writes nothing but its windows.

So an invariant of the states that a run goes through holds however the run ends: well, with a
failure, given up or with a fault.
-/

namespace CurveEngine

namespace Program

variable {α : Type}

/-- what a run has come to in its last state: its result, a fault, or a pause before the next poll -/
inductive Stops : Program α → Host → Progress α × Host → Prop
  | done {a : α} {k : Host} : Stops (done a) k (.ready (.ok a), k)
  | fail {e : Failure} {k : Host} : Stops (fail e) k (.ready (.error e), k)
  | pending {p : Program α} {k : Host} : Stops p k.enter (.pending p, k)
  | fault {q : Request} {next : q.Reply → Program α} {k k' : Host} {f : Fault}
    (hq : k.answer q = (k', .error f)) : Stops (ask q next) k (.fault f, k')

variable {p p' : Program α} {h k : Host} {x : Progress α × Host}

theorem passes_await (next : Program α) (h : Host) :
    Passes (wait next) h next (h.listen.await h.engine.busy) := by
  generalize hn : h.engine.busy = n
  induction n generalizing h with
  | zero => exact .resume hn .here
  | succ n ih =>
    refine .suspend (by omega) ?_
    have hb : h.listen.tick.enter.engine.busy = n := by
      rw [Host.busy_enter_tick, Host.busy_listen]
      omega
    exact ih h.listen.tick.enter hb

theorem Ends.passes {β : Type} {p : Program α} {h k : Host} {a : α} (hp : p.Ends h (.ok a) k)
    (f : α → Program β) : Passes (p.bind f) h (f a) k := by
  unfold Ends at hp
  induction p generalizing h with
  | done b =>
    cases hp
    exact .here
  | fail e => cases hp
  | ask q next ih =>
    rcases hq : h.answer q with ⟨h', c | r⟩
    · rw [finish_ask_of_error hq] at hp
      cases hp
    · rw [finish_ask_of_ok hq] at hp
      exact .ask hq (ih r hp)
  | wait next ih =>
    rw [finish_wait] at hp
    exact (passes_await (next.bind f) h).trans (ih hp)

theorem passes_of_finish (p : Program α) (h : Host) :
    ∃ p' k, Passes p h p' k ∧ Stops p' k (p.finish h) := by
  induction p generalizing h with
  | done a => exact ⟨_, _, .here, .done⟩
  | fail e => exact ⟨_, _, .here, .fail⟩
  | ask q next ih =>
    rcases e : h.answer q with ⟨h', f | r⟩
    · rw [finish_ask_of_error e]
      exact ⟨_, _, .here, .fault e⟩
    · rw [finish_ask_of_ok e]
      obtain ⟨p', k, hp, hs⟩ := ih r h'
      exact ⟨p', k, .ask e hp, hs⟩
  | wait next ih =>
    obtain ⟨p', k, hp, hs⟩ := ih (h.listen.await h.engine.busy)
    exact ⟨p', k, (passes_await next h).trans hp, hs⟩

/-- **a run ends in one of the states it goes through**, however it is driven -/
theorem passes_of_drive (p : Program α) (d : Drive) (h : Host) :
    ∃ p' k, Passes p h.enter p' k ∧ Stops p' k (p.drive d h) := by
  unfold drive
  cases d.limit with
  | none => exact passes_of_finish p h.enter
  | some n =>
    show ∃ p' k, Passes p h.enter p' k ∧ Stops p' k (p.resume n h)
    cases hs : (p.resume n h).1.settled with
    | true =>
      rw [← complete_of_settled hs]
      exact passes_of_finish p h.enter
    | false =>
      rcases e : p.resume n h with ⟨r | rest | f, h'⟩
      · rw [e] at hs
        cases hs
      · exact ⟨rest, h'.enter, passes_of_resume e, .pending⟩
      · rw [e] at hs
        cases hs

theorem passes_of_ready {d : Drive} {r : Except Failure α} (hr : (p.drive d h).1 = .ready r) :
    ∃ p', Passes p h.enter p' (p.drive d h).2 ∧ ∀ running, p'.Paced running → running = false := by
  obtain ⟨p', k, hpass, hstop⟩ := passes_of_drive p d h
  generalize p.drive d h = y at hr hstop ⊢
  cases hstop with
  | done | fail => exact ⟨_, hpass, fun _ hp => hp⟩
  | pending | fault => cases hr

end Program

/-! ## Orderly programs -/

namespace Program

variable {α : Type} {p p' : Program α} {h k : Host} {ws : List Window} {running : Bool}

/-- **an orderly program stays one**, with the operands that it finds, and on its way writes nothing
but its windows -/
theorem Passes.orderly (hpass : Passes p h p' k)
    (hp : p.Orderly ws running h.engine.registers.operands) :
    (∃ running', p'.Orderly ws running' k.engine.registers.operands) ∧
      ∀ i, (∀ r ∈ ws, i < r.1 ∨ r.1 + r.2 ≤ i) →
        k.engine.memory.word i = h.engine.memory.word i := by
  induction hpass generalizing running with
  | here => exact ⟨⟨running, hp⟩, fun i _ => rfl⟩
  | @ask q next r p' h h' k hq _ ih =>
    obtain ⟨-, hplain, ht, hn⟩ := hp
    obtain ⟨ho, hm⟩ := Host.answer_frame_of_plain (h := h) hplain
    rw [hq] at ho hm
    have hnext : (next r).Orderly ws q.starts h'.engine.registers.operands := by
      rw [ho]
      exact hn r
    obtain ⟨hp', hm'⟩ := ih hnext
    refine ⟨hp', fun i hi => (hm' i hi).trans (hm i fun r hr => ?_)⟩
    obtain ⟨-, v, hv, hl, hu⟩ := ht r hr
    have := hi v hv
    omega
  | resume _ _ ih => exact ih hp.2
  | @suspend next p' h k _ _ ih =>
    obtain ⟨hm, hr, -⟩ := h.engine.tick_frame
    have hr' : h.listen.tick.enter.engine.registers = h.engine.registers := hr
    have hm' : h.listen.tick.enter.engine.memory = h.engine.memory := hm
    rw [hr', hm'] at ih
    exact ih hp

end Program
end CurveEngine
