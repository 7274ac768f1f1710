import CurveEngine.Proofs.Isolation
import CurveEngine.Proofs.Pace

/-!
# Latency does not show in results

* `Engine.timeless`, `Host.timeless`   an engine and a host without all that depends on the latency;
* `Paced.finish_timeless`   two runs on hosts that differ in nothing else end alike;
* `Paced.polls_finish`      how many polls a run takes;
* `settled_resume_iff`      a limited run comes to an end exactly when the limit is high enough;
* `Program.Passes`          the states a run goes through, and `Passes.idle`: the engine runs nothing
                            whenever the program asks for something;
* `Session.delayed`         a session with another latency, and `operate_delayed`.
-/

namespace CurveEngine

namespace Engine

/-- the engine's interrupts, those to come for a running function included -/
def due (e : Engine) : Nat := e.interrupts + if e.busy = 0 then 0 else 1

def timeless (e : Engine) : Engine := { e with latency := 0, busy := 0, interrupts := e.due }

variable {e e' : Engine}

theorem due_of_idle (hb : e.busy = 0) : e.due = e.interrupts := by
  rw [due, if_pos hb, Nat.add_zero]

theorem timeless_tick (e : Engine) : e.tick.timeless = e.timeless := by
  have hd : e.tick.due = e.due := by
    unfold tick due
    split
    · rfl
    · dsimp only
      split_ifs <;> omega
  obtain ⟨hm, hg, -, hp, hs⟩ := e.tick_frame
  unfold timeless
  rw [hd, hm, hg, hp, hs]

theorem timeless_hold (hb : e.busy = 0) : e.hold.timeless = e.timeless.hold := by
  have hd : e.hold.due = e.due + 1 := by
    rw [due_of_idle hb]
    unfold hold due
    dsimp only
    split_ifs <;> omega
  unfold timeless
  rw [hd]
  rfl

theorem timeless_launch (hb : e.busy = 0) (v : Word) (f : Opcode) :
    e.timeless.launch v f = ((e.launch v f).1.timeless, (e.launch v f).2) := by
  have hx : (e.timeless.accept v).effect f = (e.accept v).effect f := by
    cases f <;> rfl
  have ht : (e.accept v).timeless = e.timeless.accept v := rfl
  unfold launch
  rw [execute_eq, execute_eq, hx]
  cases (e.accept v).effect f with
  | error fault =>
    simp only [Except.map]
    rw [ht]
  | ok x =>
    simp only [Except.map]
    rw [timeless_hold (e := x.apply (e.accept v)) hb]
    rfl

theorem timeless_start (hb : e.busy = 0) (v : Word) :
    e.timeless.start v = ((e.start v).1.timeless, (e.start v).2) := by
  cases hp : e.powered with
  | false => rw [start_of_off hp, start_of_off (e := e.timeless) hp]
  | true =>
    cases hv : Opcode.decode? v with
    | none =>
      rw [start_of_unsupported hp hb hv, start_of_unsupported (e := e.timeless) hp rfl hv]
    | some f =>
      rw [start_of_accepted hp hb hv, start_of_accepted (e := e.timeless) hp rfl hv,
        timeless_launch hb]

/-- idle engines that differ in nothing else differ in their latencies only -/
theorem eq_of_timeless (h : e.timeless = e'.timeless) (hb : e.busy = 0) (hb' : e'.busy = 0) :
    e = { e' with latency := e.latency } := by
  simp only [timeless, due_of_idle hb, due_of_idle hb', mk.injEq] at h
  obtain ⟨hm, hg, -, -, hp, hs, hi⟩ := h
  rw [← hm, ← hg, ← hp, ← hs, ← hi, hb', ← hb]

end Engine

namespace Host

def timeless (h : Host) : Host :=
  { h with engine := h.engine.timeless, listening := none, polls := 0 }

theorem timeless_listen (h : Host) : h.listen.timeless = h.timeless := rfl

theorem timeless_await (h : Host) (n : Nat) : (h.await n).timeless = h.timeless := by
  induction n generalizing h with
  | zero => rfl
  | succ n ih =>
    rw [await_succ, ih]
    unfold timeless tick enter
    rw [h.engine.timeless_tick]

theorem latency_await (h : Host) (n : Nat) : (h.await n).engine.latency = h.engine.latency := by
  induction n generalizing h with
  | zero => rfl
  | succ n ih => exact (ih h.tick.enter).trans h.engine.tick_frame.2.2.1

variable {h : Host} {q : Request}

/-- while nothing runs, a request has the same reply without all that depends on the latency -/
theorem answer_timeless (hb : h.engine.busy = 0) (hq : ∀ v, q ≠ .writeRegister .function v) :
    h.timeless.answer q = ((h.answer q).1.timeless, (h.answer q).2) := by
  cases q with
  | writeRegister r v =>
    have hr : ¬ (r = .function ∧ Opcode.starts v = true) := fun hr => hq v (hr.1 ▸ rfl)
    simp only [answer, Engine.writeRegister_of_not_starts hr]
    split
    · rfl
    · rfl
  | readRegister r =>
    by_cases hr : r = .function
    · subst hr
      show _ = ({ h with engine := h.engine.tick }.timeless, _)
      rw [Engine.tick_of_idle hb]
      simp only [answer, Engine.readRegister, if_pos hb]
      rfl
    · simp only [answer, Engine.readRegister_of_ne hr]
      rfl
  | writeMemory offset ws =>
    have hm : h.timeless.engine.memory = h.engine.memory := rfl
    simp only [answer, hm]
    cases h.engine.memory.write offset ws with
    | error f => rfl
    | ok m => rfl
  | start f =>
    simp only [answer, writeRegister_start]
    have hs := Engine.timeless_start hb (f.code ||| Opcode.run)
    show ({ h.timeless with
      engine := (h.engine.timeless.start (f.code ||| Opcode.run)).1
      log := h.log.push (.started f)
      trace := h.trace.push ⟨f, h.engine.registers.operands⟩ },
      (h.engine.timeless.start (f.code ||| Opcode.run)).2) = _
    rw [hs]
    rfl
  | output t c =>
    have ho : h.timeless.outputs = h.outputs := rfl
    simp only [answer, ho]
    cases t.write c h.outputs with
    | error f => rfl
    | ok bufs => rfl
  | readMemory offset n => rfl
  | log e => rfl
  | draw => rfl

end Host

/-! ## Runs -/

namespace Program

variable {α : Type} {running : Bool} {p : Program α}

/-- **runs on hosts that differ only in what the latency decides** end alike -/
theorem Paced.finish_timeless (hp : p.Paced running) {h k : Host} (ht : h.timeless = k.timeless)
    (hb : running = false → h.engine.busy = 0 ∧ k.engine.busy = 0) :
    (p.finish h).1 = (p.finish k).1 ∧ (p.finish h).2.timeless = (p.finish k).2.timeless := by
  induction p generalizing running h k with
  | done a => exact ⟨rfl, ht⟩
  | fail e => exact ⟨rfl, ht⟩
  | ask q next ih =>
    obtain ⟨hr, hq, hn⟩ := hp
    obtain ⟨hh, hk⟩ := hb hr
    have eh := Host.answer_timeless hh hq
    rw [ht, Host.answer_timeless hk hq] at eh
    rcases e₁ : h.answer q with ⟨h', r₁⟩
    rcases e₂ : k.answer q with ⟨k', r₂⟩
    rw [e₁, e₂] at eh
    obtain ⟨ht', rfl⟩ := Prod.mk.inj eh
    cases r₂ with
    | error f =>
      rw [finish_ask_of_error e₁, finish_ask_of_error e₂]
      exact ⟨rfl, ht'.symm⟩
    | ok r =>
      rw [finish_ask_of_ok e₁, finish_ask_of_ok e₂]
      refine ih r (hn r) ht'.symm fun hs => ?_
      have b₁ := (Host.answer_calm_of_idle hh hq hs).busy
      have b₂ := (Host.answer_calm_of_idle hk hq hs).busy
      rw [e₁] at b₁
      rw [e₂] at b₂
      exact ⟨b₁.trans hh, b₂.trans hk⟩
  | wait next ih =>
    rw [finish_wait, finish_wait]
    refine ih hp ?_ fun _ => ?_
    · rw [Host.timeless_await, Host.timeless_await, Host.timeless_listen, Host.timeless_listen, ht]
    · constructor
      · rw [Host.busy_await, Host.busy_listen, Nat.sub_self]
      · rw [Host.busy_await, Host.busy_listen, Nat.sub_self]

/-- a run that ends well or fails takes one poll more for each read that a function it started is
running for -/
theorem Paced.polls_finish (hp : p.Paced running) {h : Host}
    (hb : running = false → h.engine.busy = 0) {r : Except Failure α}
    (hr : (p.finish h).1 = .ready r) :
    (p.finish h).2.polls + h.engine.latency * h.trace.size =
      h.polls + h.engine.busy + h.engine.latency * (p.finish h).2.trace.size := by
  induction p generalizing running h with
  | done a | fail e => rw [hb hp, Nat.add_zero]; rfl
  | ask q next ih =>
    obtain ⟨hr₀, hq, hn⟩ := hp
    have hh := hb hr₀
    rcases e : h.answer q with ⟨h', f | x⟩
    · rw [finish_ask_of_error e] at hr
      cases hr
    · rw [finish_ask_of_ok e] at hr ⊢
      cases hs : q.starts with
      | true =>
        obtain ⟨f, rfl⟩ := Request.exists_of_starts hs
        have hl := Host.answer_launches e
        have := ih x (hn x) (fun c => by cases c) hr
        rw [hl.busy, hl.latency, hl.trace, hl.polls, Nat.mul_add, Nat.mul_one] at this
        omega
      | false =>
        have hc := Host.answer_calm_of_idle hh hq hs
        rw [e] at hc
        have hx := hn x
        rw [hs] at hx
        have := ih x hx (fun _ => hc.busy.trans hh) hr
        rw [hc.busy, hc.latency, hc.trace, hc.polls] at this
        exact this
  | wait next ih =>
    rw [finish_wait] at hr ⊢
    have hi : (h.listen.await h.engine.busy).engine.busy = 0 := by
      rw [Host.busy_await, Host.busy_listen, Nat.sub_self]
    have := ih hp (fun _ => hi) hr
    rw [hi, Host.latency_await, Host.trace_await, Host.polls_await] at this
    exact this

/-! ### Limits -/

theorem polls_answer (h : Host) (q : Request) : (h.answer q).1.polls = h.polls := by
  cases q with
  | writeMemory offset ws =>
    obtain ⟨m, e⟩ := h.answer_writeMemory offset ws
    rw [e]
  | output t c =>
    obtain ⟨bufs, e⟩ := h.answer_output t c
    rw [e]
  | _ => rfl

theorem polls_poll (p : Program α) (h : Host) : (p.poll h).2.polls = h.polls := by
  induction p generalizing h with
  | done a | fail e => rfl
  | ask q next ih =>
    have hn := polls_answer h q
    rcases e : h.answer q with ⟨h', f | r⟩
    · rw [e] at hn
      rw [poll_ask_of_error e]
      exact hn
    · rw [e] at hn
      rw [poll_ask_of_ok e]
      exact (ih r h').trans hn
  | wait next ih =>
    by_cases hb : h.engine.busy = 0
    · rw [poll_wait_of_idle hb]
      exact ih h.listen
    · rw [poll_wait_of_running hb]
      rfl

theorem polls_le_finish (p : Program α) (h : Host) : h.polls ≤ (p.finish h).2.polls := by
  induction p generalizing h with
  | done a | fail e => exact Nat.le_refl _
  | ask q next ih =>
    have hn := polls_answer h q
    rcases e : h.answer q with ⟨h', f | r⟩
    · rw [e] at hn
      rw [finish_ask_of_error e]
      exact hn.ge
    · rw [e] at hn
      rw [finish_ask_of_ok e]
      exact hn.ge.trans (ih r h')
  | wait next ih =>
    rw [finish_wait]
    refine Nat.le_trans ?_ (ih _)
    rw [Host.polls_await]
    exact Nat.le_add_right _ _

/-- **a limited run comes to its end exactly when the limit allows for all its polls** -/
theorem settled_resume_iff (p : Program α) (h : Host) (n : Nat) :
    (p.resume n h).1.settled = true ↔ (p.complete h).2.polls ≤ h.polls + n := by
  induction n generalizing p h with
  | zero =>
    have : h.polls + 1 ≤ (p.complete h).2.polls := polls_le_finish p h.enter
    constructor
    · intro c
      cases c
    · intro c
      omega
  | succ n ih =>
    have hn : (p.poll h.enter).2.polls = h.polls + 1 := polls_poll p h.enter
    cases hs : (p.poll h.enter).1.settled with
    | true =>
      rw [resume_of_settled hs, complete, finish_of_settled hs, hn]
      exact ⟨fun _ => by omega, fun _ => hs⟩
    | false =>
      rcases hr : p.poll h.enter with ⟨r | rest | f, h'⟩ <;> rw [hr] at hs hn
      · cases hs
      · rw [resume_of_pending hr, ih, complete, complete, finish_of_pending hr, hn, Nat.add_assoc,
          Nat.add_comm 1 n]
      · cases hs

/-! ### Between two polls -/

/-- the states a run goes through: what is left of the program, and its host -/
inductive Passes : Program α → Host → Program α → Host → Prop
  | here {p : Program α} {h : Host} : Passes p h p h
  | ask {q : Request} {next : q.Reply → Program α} {r : q.Reply} {p : Program α} {h h' k : Host}
    (hq : h.answer q = (h', .ok r)) (hp : Passes (next r) h' p k) : Passes (ask q next) h p k
  /-- the wait is over -/
  | resume {next p : Program α} {h k : Host} (hb : h.engine.busy = 0)
    (hp : Passes next h.listen p k) : Passes (wait next) h p k
  /-- the wait goes on with the next poll -/
  | suspend {next p : Program α} {h k : Host} (hb : h.engine.busy ≠ 0)
    (hp : Passes (wait next) h.listen.tick.enter p k) : Passes (wait next) h p k

theorem Passes.trans {p p' p'' : Program α} {h h' h'' : Host} (hp : Passes p h p' h')
    (hp' : Passes p' h' p'' h'') : Passes p h p'' h'' := by
  induction hp with
  | here => exact hp'
  | ask hq _ ih => exact .ask hq (ih hp')
  | resume hb _ ih => exact .resume hb (ih hp')
  | suspend hb _ ih => exact .suspend hb (ih hp')

/-- a poll goes through such states -/
theorem passes_of_poll {rest : Program α} {h h' : Host} (hp : p.poll h = (.pending rest, h')) :
    Passes p h rest h'.enter := by
  induction p generalizing h with
  | done a | fail e => cases hp
  | ask q next ih =>
    rcases e : h.answer q with ⟨h₁, f | r⟩
    · rw [poll_ask_of_error e] at hp
      cases hp
    · rw [poll_ask_of_ok e] at hp
      exact .ask e (ih r hp)
  | wait next ih =>
    by_cases hb : h.engine.busy = 0
    · rw [poll_wait_of_idle hb] at hp
      exact .resume hb (ih hp)
    · rw [poll_wait_of_running hb] at hp
      cases hp
      exact .suspend hb .here

theorem passes_of_resume {n : Nat} {rest : Program α} {h h' : Host}
    (hp : p.resume n h = (.pending rest, h')) : Passes p h.enter rest h'.enter := by
  induction n generalizing p h with
  | zero =>
    cases hp
    exact .here
  | succ n ih =>
    rcases hr : p.poll h.enter with ⟨r | rest' | f, h₁⟩
    · rw [resume_of_settled (by rw [hr]; rfl), hr] at hp
      cases hp
    · rw [resume_of_pending hr] at hp
      exact (passes_of_poll hr).trans (ih hp)
    · rw [resume_of_settled (by rw [hr]; rfl), hr] at hp
      cases hp

/-- where a run stands, it is known whether it just started a function -/
theorem Passes.paced {p' : Program α} {h k : Host} (hpass : Passes p h p' k)
    (hp : p.Paced running) (hb : running = false → h.engine.busy = 0) :
    ∃ running', p'.Paced running' ∧ (running' = false → k.engine.busy = 0) := by
  induction hpass generalizing running with
  | here => exact ⟨running, hp, hb⟩
  | @ask q next r p' h h' k ha _ ih =>
    obtain ⟨hr, hq, hn⟩ := hp
    refine ih (hn r) fun hs => ?_
    have hc := (Host.answer_calm_of_idle (hb hr) hq hs).busy
    rw [ha] at hc
    exact hc.trans (hb hr)
  | resume hb' _ ih => exact ih hp fun _ => hb'
  | @suspend next p' h k hb' _ ih =>
    have ht : (wait next).Paced true := hp
    exact ih ht (by simp)

/-- **the engine runs nothing whenever the program asks for something** -/
theorem Passes.idle {q : Request} {next : q.Reply → Program α} {h k : Host}
    (hpass : Passes p h (.ask q next) k) (hp : p.Paced false) (hb : h.engine.busy = 0) :
    k.engine.busy = 0 := by
  obtain ⟨running, ha, hk⟩ := hpass.paced hp fun _ => hb
  exact hk ha.1

end Program

/-! ## Sessions -/

namespace Session

open Program

/-- the session on an engine with another latency -/
def delayed (s : Session) (latency : Nat) : Session :=
  { s with engine := { s.engine with latency := latency } }

variable {s : Session}

theorem Idle.delayed (hs : s.Idle) (latency : Nat) : (s.delayed latency).Idle :=
  ⟨hs.coherent, hs.idle⟩

/-- a run of an operation to its end, on an idle engine, leaves it idle -/
theorem complete_of_idle (hs : s.Idle) (op : Operation) :
    ∃ r h, s.run op .complete = (.ready r, h) ∧ h.engine.busy = 0 ∧
      h.engine.latency = s.engine.latency := by
  have hm := run_meets hs.coherent hs.coherent (.refl s) rfl op .complete
  have hf : (s.run op .complete).1.settled = true := settled_finish _ _
  rcases hx : s.run op .complete with ⟨r | rest | f, h⟩ <;> rw [hx] at hm hf
  · exact ⟨r, h, rfl, hm.2.2.trans hs.idle, hm.2.1.pace⟩
  · cases hf
  · exact absurd hs.idle hm.2.2.1

/-- however an operation is run to its end, it ends as if run without looking -/
theorem run_of_settled {op : Operation} {d : Drive} (h : (s.run op d).1.settled = true) :
    s.run op d = s.run op .complete := by
  unfold run Program.drive at h ⊢
  cases hd : d.limit with
  | none => rfl
  | some n =>
    rw [hd] at h
    exact (complete_of_settled h).symm

/-- however an operation is run to its end, it comes to the end of its program -/
theorem yields_of_delivers {op : Operation} {r : Except Failure (List Bytes)} {h : Host} {d : Drive}
    (he : (op.program s.settings).Delivers (s.host op) r h) (hd : (s.run op d).1.settled = true) :
    s.Yields op d r ∧ (s.run op d).2 = h := by
  have hr : s.run op d = (.ready (r.map fun _ => ()), h) := (run_of_settled hd).trans he.1
  unfold Yields
  rw [hr]
  exact ⟨⟨rfl, he.2⟩, rfl⟩

/-- an operation is run to its end exactly if it may be polled as often as that takes -/
theorem settled_run_iff (s : Session) (op : Operation) (d : Drive) :
    (s.run op d).1.settled = true ↔
      ∀ n, d.limit = some n → (s.run op .complete).2.polls ≤ n := by
  unfold run Program.drive
  cases d.limit with
  | none => exact ⟨fun _ => nofun, fun _ => settled_finish _ _⟩
  | some n =>
    have h := settled_resume_iff (op.program s.settings) (.new s.engine s.drawn op.buffers) n
    have hz : (Host.new s.engine s.drawn op.buffers).polls = 0 := rfl
    rw [hz, Nat.zero_add] at h
    refine h.trans ⟨?_, fun hle => hle n rfl⟩
    rintro hle m hm
    cases hm
    exact hle

/-- the run of an operation without latency decides where the run with any latency ends, and how
many polls that takes -/
theorem complete_delayed (hs : s.Idle) {op : Operation} {r : Except Failure Unit} {h : Host}
    (he : (s.delayed 0).run op .complete = (.ready r, h)) (hb : h.engine.busy = 0)
    (latency : Nat) :
    ∃ k, (s.delayed latency).run op .complete = (.ready r, k) ∧
      k.engine = { h.engine with latency := latency } ∧ k.drawn = h.drawn ∧ k.log = h.log ∧
      k.trace = h.trace ∧ k.outputs = h.outputs ∧ k.polls = latency * h.trace.size + 1 := by
  have hp := Operation.paced_program s.settings op
  obtain ⟨r', k, ek, bk, lk⟩ := complete_of_idle (hs.delayed latency) op
  have ht := hp.finish_timeless (h := ((s.delayed latency).host op)) (k := ((s.delayed 0).host op)) rfl
    fun _ => ⟨hs.idle, hs.idle⟩
  have hn := hp.polls_finish (h := ((s.delayed latency).host op)) (fun _ => hs.idle)
    (congrArg Prod.fst ek)
  have ek' : (op.program s.settings).finish ((s.delayed latency).host op) = (.ready r', k) := ek
  have eh' : (op.program s.settings).finish ((s.delayed 0).host op) = (.ready r, h) := he
  rw [ek', eh'] at ht
  rw [ek'] at hn
  obtain ⟨hr, ht⟩ := ht
  cases hr
  have hd := congrArg Host.drawn ht
  have hl := congrArg Host.log ht
  have ho := congrArg Host.outputs ht
  have htr : k.trace = h.trace := by
    have := congrArg Host.trace ht
    exact this
  refine ⟨k, ek, ?_, hd, hl, htr, ho, ?_⟩
  · have := Engine.eq_of_timeless (congrArg Host.engine ht) bk hb
    rw [lk] at this
    exact this
  · have hh : ((s.delayed latency).host op).engine.busy = 0 := hs.idle
    rw [hh, htr] at hn
    have hn' : k.polls + latency * 0 = 1 + 0 + latency * h.trace.size := hn
    omega

/-- **latency and polling do not show in results**: on an idle session, whatever the latency of the
engine and the way an operation is run, it comes to its end if it may be polled once and once more
for each read that one of its functions is running for, with the same outcome, output buffers, log,
functions and use of random entries, and the same memory, registers and counts afterwards; and
whenever it writes an operand, reads a result or status, starts a function, or writes to a buffer,
nothing is running -/
theorem operate_delayed (hs : s.Idle) (op : Operation) :
    ∃ (x : Answer) (t : Session), t.Idle ∧ ∀ latency d,
      (((s.delayed latency).run op d).1.settled = true ↔
        ∀ n, d.limit = some n → latency * x.trace.length + 1 ≤ n) ∧
      (((s.delayed latency).run op d).1.settled = true → ∃ effort,
        (s.delayed latency).operate op d = (t.delayed latency, .ok { x with effort := effort })) ∧
      ∀ (q : Request) (next : q.Reply → Program Unit) (k : Host),
        Passes (op.program s.settings) ((s.delayed latency).host op) (.ask q next) k →
          k.engine.busy = 0 := by
  obtain ⟨r, h, eh, bh, -⟩ := complete_of_idle (hs.delayed 0) op
  have hc : ((s.delayed 0).after h).Coherent := by
    have hp := powered_drive (op.program s.settings) .complete
      (.new (s.delayed 0).engine s.drawn op.buffers)
    have hh : h = ((s.delayed 0).run op .complete).2 := by rw [eh]
    rw [hh]
    exact hp.trans hs.coherent
  refine ⟨{ outcome := match r with
              | .ok _ => .ok
              | .error e => .failed e
            buffers := h.outputs
            account := some ((s.delayed 0).after h).account
            log := h.log.toList
            trace := h.trace.toList }, (s.delayed 0).after h, ⟨hc, bh⟩, fun latency d => ?_⟩
  obtain ⟨k, ek, hk, hd, hl, ht, ho, hn⟩ := complete_delayed hs eh bh latency
  refine ⟨?_, fun hset => ⟨d.effort k, ?_⟩, fun q next k' hpass => ?_⟩
  · have hset := settled_run_iff (s.delayed latency) op d
    rw [ek, hn] at hset
    exact hset
  · have ha : (s.delayed latency).after k = ((s.delayed 0).after h).delayed latency := by
      unfold after delayed
      rw [hk, hd]
    unfold operate
    rw [run_of_settled hset, ek]
    dsimp only
    rw [ha, hl, ht, ho]
    cases r with
    | ok out => rfl
    | error e => rfl
  · exact hpass.idle (Operation.paced_program s.settings op) hs.idle

theorem operate_delayed_fresh :
    fresh.Idle ∧ ∃ (x : Answer) (t : Session),
      (∃ effort, (fresh.delayed 0).operate (.validate (List.replicate 48 1)) .complete =
        (t.delayed 0, .ok { x with effort := effort })) ∧
      ∃ effort, (fresh.delayed 5).operate (.validate (List.replicate 48 1)) (.executor none) =
        (t.delayed 5, .ok { x with effort := effort }) := by
  have hf : fresh.Idle := ⟨rfl, rfl⟩
  obtain ⟨x, t, -, h⟩ := operate_delayed hf (.validate (List.replicate 48 1))
  obtain ⟨h₀, h₁, -⟩ := h 0 .complete
  obtain ⟨h₂, h₃, -⟩ := h 5 (.executor none)
  exact ⟨hf, x, t, h₁ (h₀.mpr nofun), h₃ (h₂.mpr nofun)⟩

end Session
end CurveEngine
