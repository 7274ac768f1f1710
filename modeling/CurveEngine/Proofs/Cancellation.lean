import CurveEngine.Proofs.Outputs
import CurveEngine.Proofs.Recovery
import Mathlib.Algebra.Order.Floor.Div

/-!
# Operations that are given up

* `Program.snapshots`      the memory right after each function that a run starts;
* `Passes.counts`          polls, functions and reads still to come along a run;
* `Passes.snapshots_eq`    the memory of a waiting run is the last snapshot;
* `waits_of_resume`        a run that is still pending waits for a function, and `waits_of_run` says
                           where it stands;
* `Passes.refused`         on an engine that is not ready a program gets no further than its first
                           function, and `Session.ready_of_run` draws the conclusion;
* `Session.polls_complete`, `Session.pending_run_iff`   how many polls an operation takes;
* `Session.GivenUp`        what an operation leaves behind that is given up after some resumes;
* `Session.operate_cancelled`   this is how many functions it started, which memory it leaves, how
                           long the engine stays busy, and how everything goes on as if it had never
                           begun.
-/

namespace CurveEngine

/-! ## Requests -/

namespace Host

theorem trace_answer (h : Host) (q : Request) :
    h.trace.toList <+: (h.answer q).1.trace.toList := by
  cases q with
  | start f =>
    show h.trace.toList <+: (h.trace.push _).toList
    rw [Array.toList_push]
    exact List.prefix_append _ _
  | writeMemory offset ws =>
    obtain ⟨m, e⟩ := h.answer_writeMemory offset ws
    rw [e]
  | output t c =>
    obtain ⟨bufs, e⟩ := h.answer_output t c
    rw [e]
  | _ => exact List.prefix_refl _

end Host

/-! ## Along a run -/

namespace Program

variable {α : Type} {ws : List Window} {running : Bool} {o : Operands} {p p' : Program α}
  {h k : Host}

/-- the memory right after each function that the run to the end starts, in order -/
def snapshots : Program α → Host → List Memory
  | done _, _ | fail _, _ => []
  | ask q next, h =>
    match h.answer q with
    | (_, .error _) => []
    | (h, .ok r) => (if q.starts then [h.engine.memory] else []) ++ (next r).snapshots h
  | wait next, h => next.snapshots (h.listen.await h.engine.busy)

theorem snapshots_ask {q : Request} {next : q.Reply → Program α} {r : q.Reply} {h' : Host}
    (hq : h.answer q = (h', .ok r)) :
    (ask q next).snapshots h =
      (if q.starts then [h'.engine.memory] else []) ++ (next r).snapshots h' := by
  rw [snapshots, hq]

theorem await_listen_tick {h : Host} (hb : h.engine.busy ≠ 0) :
    h.listen.tick.enter.listen.await h.listen.tick.enter.engine.busy =
      h.listen.await h.engine.busy := by
  obtain ⟨n, hn⟩ := Nat.exists_eq_succ_of_ne_zero hb
  have hb' : h.listen.tick.enter.engine.busy = n := by
    rw [Host.busy_enter_tick, Host.busy_listen, hn]
    rfl
  rw [hb', hn, Host.await_succ, Host.listen_enter_tick_listen]

theorem Passes.finish (hpass : Passes p h p' k) : p.finish h = p'.finish k := by
  induction hpass with
  | here => rfl
  | ask hq _ ih => rw [finish_ask_of_ok hq, ih]
  | resume hb _ ih => rw [finish_wait, hb, Host.await_zero, ih]
  | suspend hb _ ih => rw [← ih, finish_wait, finish_wait, await_listen_tick hb]

theorem Passes.trace_le (hpass : Passes p h p' k) : h.trace.toList <+: k.trace.toList := by
  induction hpass with
  | here => exact List.prefix_refl _
  | @ask q next r p' h h' k hq _ ih =>
    have ha := h.trace_answer q
    rw [hq] at ha
    exact ha.trans ih
  | resume _ _ ih | suspend _ _ ih => exact ih

theorem trace_le_finish (p : Program α) (h : Host) :
    h.trace.toList <+: (p.finish h).2.trace.toList := by
  obtain ⟨p', k, hpass, hstop⟩ := passes_of_finish p h
  refine hpass.trace_le.trans ?_
  generalize p.finish h = y at hstop ⊢
  cases hstop with
  | done | fail | pending => exact List.prefix_refl _
  | @fault q next _ k' f hq =>
    have ha := k.trace_answer q
    rw [hq] at ha
    exact ha

theorem Ends.trace_le {r : Except Failure α} (he : p.Ends h r k) :
    h.trace.size ≤ k.trace.size := by
  have hle := (trace_le_finish p h).length_le
  rw [he] at hle
  exact hle

/-- **what time and functions add up to along a run**: every poll but the first and every read that is
still to come belong to a function that was started -/
theorem Passes.counts (hpass : Passes p h p' k) (hp : p.Orderly ws running o)
    (hb : running = false → h.engine.busy = 0) (hl : h.engine.busy ≤ h.engine.latency) :
    k.engine.busy ≤ h.engine.latency ∧
      k.polls + k.engine.busy + h.engine.latency * h.trace.size =
        h.polls + h.engine.busy + h.engine.latency * k.trace.size ∧
      k.engine.started + h.trace.size = h.engine.started + k.trace.size := by
  induction hpass generalizing running o with
  | here => exact ⟨hl, rfl, rfl⟩
  | @ask q next r p' h h' k hq _ ih =>
    obtain ⟨hr, hplain, -, hn⟩ := hp
    cases hs : q.starts with
    | true =>
      obtain ⟨f, rfl⟩ := Request.exists_of_starts hs
      have hl := Host.answer_launches hq
      obtain ⟨h₁, h₂, h₃⟩ := ih (hn r) (fun c => by cases c) (by rw [hl.busy, hl.latency])
      rw [hl.busy, hl.latency, hl.trace, hl.polls, Nat.mul_add, Nat.mul_one] at h₂
      rw [hl.latency] at h₁
      rw [hl.trace, hl.started] at h₃
      rw [hl.idle]
      refine ⟨h₁, ?_, ?_⟩
      · omega
      · omega
    | false =>
      have hc := Host.answer_calm (h := h) hplain hs
      rw [hq] at hc
      have hn' := hn r
      rw [hs] at hn'
      have := ih hn' (fun _ => hc.busy.trans (hb hr)) (by rw [hc.busy, hc.latency]; exact hl)
      rw [hc.busy, hc.latency, hc.started, hc.trace, hc.polls] at this
      exact this
  | resume hb' _ ih => exact ih hp.2 (fun _ => hb') hl
  | @suspend next p' h k hb' _ ih =>
    have hbusy : h.listen.tick.enter.engine.busy = h.engine.busy - 1 := by
      rw [Host.busy_enter_tick, Host.busy_listen]
    obtain ⟨-, -, hlat, -, hst⟩ := h.engine.tick_frame
    have hlat' : h.listen.tick.enter.engine.latency = h.engine.latency := hlat
    have hst' : h.listen.tick.enter.engine.started = h.engine.started := hst
    have htrace : h.listen.tick.enter.trace = h.trace := rfl
    have hpolls : h.listen.tick.enter.polls = h.polls + 1 := rfl
    have := ih hp (fun c => by rw [hp.1] at c; cases c) (by rw [hbusy, hlat']; omega)
    rw [hbusy, hlat', hst', htrace, hpolls] at this
    obtain ⟨h₁, h₂, h₃⟩ := this
    refine ⟨h₁, ?_, h₃⟩
    omega

/-- **the memory of a run that waits is its last snapshot** so far -/
theorem Passes.snapshots_eq (hpass : Passes p h p' k) (hp : p.Orderly ws running o) :
    ∃ running' o' before, p'.Orderly ws running' o' ∧
      p.snapshots h = before ++ p'.snapshots k ∧
      before.length + h.trace.size = k.trace.size ∧
      (running' = true → before.getLast? = some k.engine.memory ∨
        (running = true ∧ before = [] ∧ k.engine.memory = h.engine.memory)) := by
  induction hpass generalizing running o with
  | here => exact ⟨running, o, [], hp, rfl, Nat.zero_add _, fun hr => .inr ⟨hr, rfl, rfl⟩⟩
  | @ask q next r p' h h' k hq _ ih =>
    obtain ⟨hr, hplain, -, hn⟩ := hp
    obtain ⟨running', o', before, hp', hsnap, hlen, hlast⟩ := ih (hn r)
    refine ⟨running', o', (if q.starts then [h'.engine.memory] else []) ++ before, hp', ?_, ?_, ?_⟩
    · rw [snapshots_ask hq, hsnap, List.append_assoc]
    · cases hs : q.starts with
      | true =>
        obtain ⟨f, rfl⟩ := Request.exists_of_starts hs
        have ht := (Host.answer_launches hq).trace
        rw [if_pos rfl, List.length_append, List.length_singleton]
        omega
      | false =>
        have hc := Host.answer_calm (h := h) hplain hs
        rw [hq] at hc
        rw [if_neg (by decide), List.nil_append, ← hc.trace]
        exact hlen
    · intro hr'
      left
      rcases hlast hr' with hb | ⟨hs, rfl, hm⟩
      · rw [List.getLast?_append, hb]
        rfl
      · rw [hs, hm]
        rfl
  | @resume next p' h k hb' _ ih =>
    obtain ⟨running', o', before, hp', hsnap, hlen, hlast⟩ := ih hp.2
    refine ⟨running', o', before, hp', ?_, hlen, fun hr => ?_⟩
    · rw [snapshots, hb', Host.await_zero, hsnap]
    · rcases hlast hr with hb | ⟨hc, -⟩
      · exact .inl hb
      · cases hc
  | @suspend next p' h k hb' _ ih =>
    obtain ⟨running', o', before, hp', hsnap, hlen, hlast⟩ := ih hp
    refine ⟨running', o', before, hp', ?_, hlen, fun hr => ?_⟩
    · rw [snapshots, await_listen_tick hb'] at hsnap
      rw [snapshots, hsnap]
    · rcases hlast hr with hb | ⟨hr, hbefore, hm⟩
      · exact .inl hb
      · exact .inr ⟨hr, hbefore, hm.trans h.engine.tick_frame.1⟩

theorem Passes.getElem?_snapshots {next : Program α} (hpass : Passes p h (wait next) k)
    (hp : p.Orderly ws false o) (ht : h.trace.size = 0) :
    (p.snapshots h)[k.trace.size - 1]? = some k.engine.memory := by
  obtain ⟨running', o', before, hrest, hsnap, hlen, hlast⟩ := hpass.snapshots_eq hp
  obtain hl | ⟨hc, -⟩ := hlast hrest.1
  · have hpos : 0 < before.length := List.length_pos_iff.mpr fun he => by rw [he] at hl; cases hl
    rw [ht, Nat.add_zero] at hlen
    rw [hsnap, ← hlen, List.getElem?_append_left (by omega), ← List.getLast?_eq_getElem?]
    exact hl
  · cases hc

/-! ## Pending runs -/

theorem waits_of_poll {rest : Program α} {h' : Host} (hp : p.poll h = (.pending rest, h')) :
    ∃ next k, Passes p h (wait next) k ∧ k.engine.busy ≠ 0 ∧ rest = wait next ∧
      h' = k.listen.tick := by
  induction p generalizing h with
  | done a | fail e => cases hp
  | ask q next ih =>
    rcases e : h.answer q with ⟨h₁, f | r⟩
    · rw [poll_ask_of_error e] at hp
      cases hp
    · rw [poll_ask_of_ok e] at hp
      obtain ⟨next', k, hk, h'⟩ := ih r hp
      exact ⟨next', k, .ask e hk, h'⟩
  | wait next ih =>
    by_cases hb : h.engine.busy = 0
    · rw [poll_wait_of_idle hb] at hp
      obtain ⟨next', k, hk, h'⟩ := ih hp
      exact ⟨next', k, .resume hb hk, h'⟩
    · rw [poll_wait_of_running hb] at hp
      cases hp
      exact ⟨next, h, .here, hb, rfl, rfl⟩

/-- **a run that is still pending after some polls waits for a function**, and the last poll brought
that one read closer to its end -/
theorem waits_of_resume {n : Nat} {rest : Program α} {h' : Host}
    (hp : p.resume (n + 1) h = (.pending rest, h')) :
    ∃ next k, Passes p h.enter (wait next) k ∧ k.engine.busy ≠ 0 ∧ rest = wait next ∧
      h' = k.listen.tick := by
  induction n generalizing p h with
  | zero =>
    rcases hr : p.poll h.enter with ⟨r | rest' | f, h₁⟩
    · rw [resume_of_settled (by rw [hr]; rfl), hr] at hp
      cases hp
    · rw [resume_of_pending hr, resume_zero] at hp
      cases hp
      exact waits_of_poll hr
    · rw [resume_of_settled (by rw [hr]; rfl), hr] at hp
      cases hp
  | succ n ih =>
    rcases hr : p.poll h.enter with ⟨r | rest' | f, h₁⟩
    · rw [resume_of_settled (by rw [hr]; rfl), hr] at hp
      cases hp
    · rw [resume_of_pending hr] at hp
      obtain ⟨next, k, hk, h'⟩ := ih hp
      exact ⟨next, k, (passes_of_poll hr).trans hk, h'⟩
    · rw [resume_of_settled (by rw [hr]; rfl), hr] at hp
      cases hp

theorem polls_of_pending {n : Nat} {rest : Program α} {h' : Host}
    (hp : p.resume n h = (.pending rest, h')) : h'.polls = h.polls + n := by
  induction n generalizing p h with
  | zero =>
    cases hp
    rfl
  | succ n ih =>
    have hn : (p.poll h.enter).2.polls = h.polls + 1 := polls_poll p h.enter
    rcases hr : p.poll h.enter with ⟨r | rest' | f, h₁⟩ <;> rw [hr] at hn
    · rw [resume_of_settled (by rw [hr]; rfl), hr] at hp
      cases hp
    · rw [resume_of_pending hr] at hp
      rw [ih hp, hn]
      omega
    · rw [resume_of_settled (by rw [hr]; rfl), hr] at hp
      cases hp

/-! ## Engines that are not ready -/

/-- **on an engine that is off or busy a program gets no further than its first function**: up to there,
the engine stays as busy as it is -/
theorem Passes.refused (hpass : Passes p h p' k) (hp : p.Orderly ws false o) (hn : ¬ h.Ready) :
    k.engine.busy = h.engine.busy ∧ k.trace = h.trace := by
  generalize hr : false = running at hp
  induction hpass generalizing running o with
  | here => exact ⟨rfl, rfl⟩
  | @ask q next r p' h h' k hq _ ih =>
    obtain ⟨-, hplain, -, hnext⟩ := hp
    cases hs : q.starts with
    | true =>
      obtain ⟨f, rfl⟩ := Request.exists_of_starts hs
      exact absurd (Host.ready_of_start hq) hn
    | false =>
      have hc := Host.answer_calm (h := h) hplain hs
      have hpower := h.powered_answer q
      rw [hq] at hc hpower
      have := ih (fun c => hn ⟨hpower.symm.trans c.powered, hc.busy.symm.trans c.idle⟩) _ hs.symm
        (hnext r)
      rw [hc.busy, hc.trace] at this
      exact this
  | resume _ _ _ | suspend _ _ _ =>
    have := hr.trans hp.1
    cases this

end Program

/-! ## Sessions -/

namespace Session

open Program

variable {s : Session} {op : Operation} {d : Drive}

theorem ready_of_run {r : Except Failure Unit} (hr : (s.run op d).1 = .ready r)
    (ht : (s.run op d).2.trace ≠ #[]) : (s.host op).Ready := by
  obtain ⟨p', hpass, -⟩ := passes_of_ready hr
  by_contra hn
  have hp := Operation.orderly_program (o := (s.host op).engine.registers.operands) s.settings op
  exact ht (hpass.refused hp hn).2

/-- a started function that is not over makes every later operation a fault that starts one itself,
and no other one -/
theorem operate_busy_iff (hs : s.Coherent) (op : Operation) (d : Drive) :
    (s.operate op d).2 = .error .busy ↔
      s.engine.busy ≠ 0 ∧ (s.run op d).2.trace ≠ #[] := by
  have hr := run_cases hs op d
  obtain ⟨p', k, hpass, hstop⟩ := passes_of_drive (op.program s.settings) d
    (.new s.engine s.drawn op.buffers)
  have hp := Operation.orderly_program (o := (s.host op).engine.registers.operands) s.settings op
  unfold operate
  change Stops p' k (s.run op d) at hstop
  generalize s.run op d = y at hr hstop ⊢
  constructor
  · intro h
    cases hstop with
    | done | fail | pending => cases h
    | fault hq =>
      obtain ⟨-, hb, ht⟩ := hr
      exact ⟨hb, fun he => by rw [he] at ht; cases ht⟩
  · rintro ⟨hb, ht⟩
    have hk := (hpass.refused hp fun c => hb c.idle).2
    cases hstop with
    | done | fail | pending => exact absurd hk ht
    | fault hq =>
      obtain ⟨rfl, -, -⟩ := hr
      rfl

theorem busy_of_trace (hs : s.Coherent) {s' : Session} {x : Answer}
    (h : s.operate op d = (s', .ok x)) (ht : x.trace = []) : s'.engine.busy = s.engine.busy := by
  have hr := run_cases hs op d
  obtain ⟨p', k, hpass, hstop⟩ := passes_of_drive (op.program s.settings) d
    (.new s.engine s.drawn op.buffers)
  have hp := Operation.orderly_program (o := (s.host op).engine.registers.operands) s.settings op
  unfold operate at h
  change Stops p' k (s.run op d) at hstop
  generalize s.run op d = y at hr hstop h
  obtain ⟨rfl, hx⟩ := Prod.mk.inj h
  cases hstop with
  | done | fail => exact hr
  | @pending p k =>
    by_cases hb : s.engine.busy = 0
    · -- the polls of this run can only belong to functions that it started
      have hl : s.engine.busy ≤ s.engine.latency := by omega
      obtain ⟨-, hc, -⟩ := hpass.counts hp (fun _ => hb) hl
      have hk : k.trace = #[] := by
        cases hx
        exact Array.toList_eq_nil_iff.mp ht
      have hc' : k.polls + 1 + k.engine.busy + s.engine.latency * 0 =
          1 + s.engine.busy + s.engine.latency * k.trace.size := hc
      rw [hk, hb] at hc'
      show k.engine.busy = _
      rw [hb]
      simp only [List.size_toArray, List.length_nil] at hc'
      omega
    · exact (hpass.refused hp fun c => hb c.idle).1
  | fault hq => cases hx

/-- operations one after the other that start no function -/
structure Quiet (s : Session) (steps : List Step) : Prop where
  operations : ∀ i ∈ steps, ∃ call d, i = .operate call d
  fault : (Transcript.of step s steps).fault = none
  trace : ∀ x ∈ (Transcript.of step s steps).answers, x.trace = []

theorem Quiet.busy {steps : List Step} (h : s.Quiet steps) (hs : s.Coherent) :
    (Transcript.of step s steps).final.engine.busy = s.engine.busy := by
  induction steps generalizing s with
  | nil => rfl
  | cons i is ih =>
    obtain ⟨hop, hf, ht⟩ := h
    obtain ⟨⟨call, d, rfl⟩, his⟩ := List.forall_mem_cons.mp hop
    have hc := coherent_step hs (.operate call d)
    rcases hx : s.step (.operate call d) with ⟨s', f | x⟩ <;> rw [hx] at hc
    · rw [Transcript.of_fault hx] at hf
      cases hf
    · rw [Transcript.of_answer hx] at hf ht ⊢
      obtain ⟨hx', ht⟩ := List.forall_mem_cons.mp ht
      exact (ih ⟨his, hf, ht⟩ hc).trans (busy_of_trace hs hx hx')

/-- the session after it was asked whether the engine is busy, as often as it still is -/
def rested (s : Session) : Session :=
  (Transcript.of step s (List.replicate s.engine.busy (.access .isBusy))).final

theorem matches_of_ticks {t : Session} (n : Nat) (h : t.engine.busy = n)
    (hM : ({ t with engine := { t.engine with busy := 0 } } : Session).Matches s) :
    (Transcript.of step t (List.replicate n (.access .isBusy))).final.Matches s := by
  induction n generalizing t with
  | zero =>
    have he : ({ t with engine := { t.engine with busy := 0 } } : Session) = t := by rw [← h]
    rw [he] at hM
    exact hM
  | succ n ih =>
    obtain ⟨hm, -, hl, hp, -⟩ := t.engine.tick_frame
    have hs : t.step (.access .isBusy) =
        ({ t with engine := t.engine.tick },
          .ok { outcome := .access (.busy (Bus.isBusy t.engine).1)
                account := some ({ t with engine := t.engine.tick } : Session).account }) := rfl
    rw [List.replicate_succ, Transcript.of_answer hs]
    refine ih (by show t.engine.tick.busy = n; rw [Engine.busy_tick, h]; rfl) ?_
    refine ⟨⟨hp.trans hM.coherent.1, hM.coherent.2⟩, hM.curve, hM.config, hl.trans hM.latency,
      hM.source, hM.drawn, hM.busy, fun i hi => ?_⟩
    show t.engine.tick.memory.word i = _
    rw [hm]
    exact hM.constants i hi

/-- the memory right after each function of an operation that is run to its end -/
def snapshots (s : Session) (op : Operation) : List Memory :=
  (op.program s.settings).snapshots (s.host op)

/-- what an operation leaves behind that is given up after `m` resumes -/
structure GivenUp (s : Session) (op : Operation) (m : Nat) (t : Session) (x : Answer) : Prop where
  outcome : x.outcome = .pending
  buffers : x.buffers = op.buffers
  curve : t.curve = s.curve
  /-- the first functions of the run to the end -/
  trace : x.trace <+: (s.run op .complete).2.trace.toList
  length : x.trace.length = m ⌈/⌉ s.engine.latency
  started : t.engine.started = s.engine.started + m ⌈/⌉ s.engine.latency
  /-- the memory of the run to the end, right after the last of these functions -/
  memory : (s.snapshots op)[m ⌈/⌉ s.engine.latency - 1]? = some t.engine.memory
  busy : t.engine.busy = s.engine.latency * (m ⌈/⌉ s.engine.latency) - m

theorem ceilDiv_eq {l k m b : Nat} (h : l * k = m + b) (hb : b < l) : m ⌈/⌉ l = k := by
  rw [Nat.ceilDiv_eq_add_pred_div]
  have e : m + l - 1 = l * k + (l - 1 - b) := by omega
  rw [e, Nat.mul_add_div (by omega), Nat.div_eq_of_lt (by omega), Nat.add_zero]

theorem polls_complete (hs : s.Idle) (op : Operation) :
    (s.run op .complete).2.polls = 1 + (s.run op .complete).2.trace.size * s.engine.latency := by
  obtain ⟨r, h, e, -, -⟩ := complete_of_idle hs op
  have hn := (Operation.paced_program s.settings op).polls_finish (h := s.host op) (fun _ => hs.idle)
    (congrArg Prod.fst e)
  have e' : (op.program s.settings).finish (s.host op) = (.ready r, h) := e
  have hb : (s.host op).engine.busy = 0 := hs.idle
  rw [e', hb] at hn
  rw [e, Nat.mul_comm]
  exact hn

theorem pending_run_iff (hs : s.Idle) (op : Operation) (d : Drive) :
    (s.run op d).1.settled = false ↔ ∃ m, d.limit = some m ∧
      m ≤ (s.run op .complete).2.trace.size * s.engine.latency := by
  rw [← Bool.not_eq_true, settled_run_iff, polls_complete hs]
  push Not
  simp only [Nat.lt_one_add_iff]

theorem pending_of_le (hs : s.Idle) {m : Nat} (hd : d.limit = some m)
    (hf : m ≤ (s.run op .complete).2.trace.size * s.engine.latency) :
    (s.run op d).1.settled = false :=
  (pending_run_iff hs op d).mpr ⟨m, hd, hf⟩

theorem run_of_limit {m : Nat} (op : Operation) (hd : d.limit = some m) :
    s.run op d = (op.program s.settings).resume m (.new s.engine s.drawn op.buffers) := by
  rw [run, drive, hd]

/-- **where a run stands that is given up** after `m` resumes: it waits for a function, all polls belong
to the functions started so far, and the last one of these is not over -/
theorem waits_of_run (hs : s.Idle) {m : Nat} (hd : d.limit = some m) (hm : 0 < m)
    {rest : Program Unit} {h : Host} (hrun : s.run op d = (.pending rest, h)) :
    ∃ next k, Passes (op.program s.settings) (s.host op) (wait next) k ∧ h = k.listen.tick ∧
      m ⌈/⌉ s.engine.latency = k.trace.size ∧
      k.engine.started = s.engine.started + k.trace.size ∧
      h.engine.busy = s.engine.latency * k.trace.size - m := by
  obtain ⟨n, rfl⟩ := Nat.exists_eq_succ_of_ne_zero (Nat.ne_of_gt hm)
  have hres : (op.program s.settings).resume (n + 1) (.new s.engine s.drawn op.buffers) =
      (.pending rest, h) := (run_of_limit op hd).symm.trans hrun
  obtain ⟨next, k, hpass, hbk, rfl, rfl⟩ := waits_of_resume hres
  have hb : (s.host op).engine.busy = 0 := hs.idle
  have hl : (s.host op).engine.busy ≤ (s.host op).engine.latency := by omega
  obtain ⟨hle, hpolls, hst⟩ := hpass.counts (Operation.orderly_program
    (o := (s.host op).engine.registers.operands) s.settings op) (fun _ => hb) hl
  have hpolls' : k.polls + k.engine.busy + s.engine.latency * 0 =
      1 + s.engine.busy + s.engine.latency * k.trace.size := hpolls
  have hst' : k.engine.started + 0 = s.engine.started + k.trace.size := hst
  have hn : k.polls = 0 + (n + 1) := polls_of_pending hres
  have hle' : k.engine.busy ≤ s.engine.latency := hle
  have hbusy : k.listen.tick.engine.busy = k.engine.busy - 1 := Engine.busy_tick k.engine
  rw [hs.idle] at hpolls'
  refine ⟨next, k, hpass, rfl, ?_, hst', ?_⟩
  · exact ceilDiv_eq (b := k.engine.busy - 1) (by omega) (by omega)
  · omega

theorem givenUp_of_pending (hs : s.Idle) {m : Nat} (hd : d.limit = some m) (hm : 0 < m)
    {rest : Program Unit} {h : Host} (hrun : s.run op d = (.pending rest, h)) {x : Answer}
    (hx : x.outcome = .pending ∧ x.buffers = op.buffers ∧ x.trace = h.trace.toList) :
    s.GivenUp op m (s.after h) x := by
  obtain ⟨ho, hbuf, htr⟩ := hx
  obtain ⟨next, k, hpass, rfl, hk, hst, hbusy⟩ := waits_of_run hs hd hm hrun
  obtain ⟨hmem, -, -, -, hstart⟩ := k.engine.tick_frame
  have htr' : x.trace = k.trace.toList := htr
  refine ⟨ho, hbuf, rfl, ?_, ?_, ?_, ?_, ?_⟩
  · -- the run to the end goes through the same state
    have hfin : s.run op .complete = (wait next).finish k := hpass.finish
    rw [hfin, htr']
    exact trace_le_finish _ k
  · rw [htr', hk, Array.length_toList]
  · rw [hk]
    exact hstart.trans hst
  · rw [hk]
    show _ = some k.engine.tick.memory
    rw [hmem]
    exact hpass.getElem?_snapshots (Operation.orderly_program
      (o := (s.host op).engine.registers.operands) s.settings op) rfl
  · rw [hk]
    exact hbusy

/-- **cancellation is exact, and it can be recovered from**: an operation that is given up after `m`
resumes, no more than its functions take, has started as many functions as these begin, it leaves
the memory of the run to the end right after the last one of them, and the engine is busy for the
rest; until then the next operation that starts a function is a fault; and after as many looks at
the engine as it is busy for, or after some curve is enabled, everything goes on as if the operation
had not begun, but for the random entries it used up -/
theorem operate_cancelled (hs : s.Idle) (op : Operation) {m : Nat} (hd : d.limit = some m)
    (hm : 0 < m) (hf : m ≤ (s.run op .complete).2.trace.size * s.engine.latency) :
    ∃ t x, s.operate op d = (t, .ok x) ∧ s.GivenUp op m t x ∧
      (∀ before, t.Quiet before → ∀ op' d',
        ((Transcript.of step t before).final.operate op' d').2 = .error .busy ↔
          t.engine.busy ≠ 0 ∧ ((Transcript.of step t before).final.run op' d').2.trace ≠ #[]) ∧
      t.rested.Echoes { s with drawn := t.drawn } ∧
      ∀ c, (t.enable c).Echoes (({ s with drawn := t.drawn } : Session).enable c) := by
  have hpend := pending_of_le hs hd hf
  rcases hrun : s.run op d with ⟨r | rest | f, h⟩ <;> rw [hrun] at hpend
  · cases hpend
  · have ho : s.operate op d = (s.after h, .ok
        { outcome := .pending
          buffers := op.buffers
          effort := d.effort h
          account := some (s.after h).account
          log := h.log.toList
          trace := h.trace.toList }) := by
      unfold operate
      rw [hrun, ← outputs_of_pending hrun]
      rfl
    have hF := Follows.of_operate hs.coherent ho
    have hc : (s.after h).Coherent := by
      have hp := powered_drive (op.program s.settings) d (.new s.engine s.drawn op.buffers)
      change (s.run op d).2.engine.powered = s.engine.powered at hp
      rw [hrun] at hp
      exact hp.trans hs.coherent
    have hM : ({ s.after h with engine := { h.engine with busy := 0 } } : Session).Matches
        { s with drawn := h.drawn } :=
      ⟨⟨hc, hs.coherent⟩, rfl, rfl, hF.latency, rfl, rfl, hs.idle.symm, hF.constants⟩
    refine ⟨_, _, ho, givenUp_of_pending hs hd hm hrun ⟨rfl, rfl, rfl⟩, fun before hq op' d' => ?_,
      echoes_of_matches (matches_of_ticks _ rfl hM), fun c => echoes_of_matches (hM.enable c)⟩
    rw [operate_busy_iff (coherent_of hc), hq.busy hc]
  · cases hpend

/-- a validation on P-192 that fails with its second function, the first coordinate being too large -/
theorem operate_cancelled_fresh :
    fresh.Idle ∧ 3 ≤ (fresh.run (.validate (List.replicate 48 0xff)) .complete).2.trace.size *
        fresh.engine.latency ∧
      ∃ t x, fresh.operate (.validate (List.replicate 48 0xff)) (.resume (some 3)) = (t, .ok x) ∧
        fresh.GivenUp (.validate (List.replicate 48 0xff)) 3 t x ∧
        t.rested.Echoes { fresh with drawn := t.drawn } := by
  have hs : fresh.Idle := ⟨rfl, rfl⟩
  have hf : 3 ≤ (fresh.run (.validate (List.replicate 48 0xff)) .complete).2.trace.size *
      fresh.engine.latency := by decide +kernel
  obtain ⟨t, x, ho, hg, -, he, -⟩ := operate_cancelled (d := .resume (some 3)) hs _ rfl (by decide) hf
  exact ⟨hs, hf, t, x, ho, hg, he⟩

end Session
end CurveEngine
