import CurveEngine.Host

/-!
# Ways to run a program

* `Progress`           how far a program got;
* `Program.poll`       a program run until it ends or finds the engine running;
* `Program.resume`     the program polled a limited number of times;
* `Program.finish`, `Program.complete`   the program polled until it ends;
* `Drive`              the ways to run an operation, and `Program.drive`.

A waiting program looks at the engine once per poll.  `poll_bind` and `finish_bind` run a sequence
part by part; `finish_of_pending` and `finish_of_settled` say that polling one more time changes
nothing about where the program ends.
-/

namespace CurveEngine

/-- how far a program got -/
inductive Progress (α : Type) : Type where
  | ready (r : Except Failure α)
  /-- it is waiting, and would go on like this -/
  | pending (rest : Program α)
  | fault (f : Fault)

namespace Progress

variable {α β : Type}

def settled : Progress α → Bool
  | pending _ => false
  | _ => true

/-- a run of the first part of a program, followed by a run of the second part -/
def andThen (r : Progress α × Host) (f : α → Program β)
    (go : Program β → Host → Progress β × Host) : Progress β × Host :=
  match r with
  | (ready (.ok a), h) => go (f a) h
  | (ready (.error e), h) => (ready (.error e), h)
  | (pending rest, h) => (pending (rest.bind f), h)
  | (fault e, h) => (fault e, h)

end Progress

namespace Program

variable {α β : Type}

/-- a program run until it ends or finds the engine running -/
def poll : Program α → Host → Progress α × Host
  | done a, h => (.ready (.ok a), h)
  | fail e, h => (.ready (.error e), h)
  | ask q next, h =>
    match h.answer q with
    | (h, .ok r) => (next r).poll h
    | (h, .error f) => (.fault f, h)
  | wait next, h =>
    let h := h.listen
    if h.engine.busy = 0 then next.poll h else (.pending (wait next), h.tick)

def resume : Nat → Program α → Host → Progress α × Host
  | 0, p, h => (.pending p, h)
  | n + 1, p, h =>
    match p.poll h.enter with
    | (.pending rest, h) => rest.resume n h
    | settled => settled

/-- what is left of a poll and all the polls after it -/
def finish : Program α → Host → Progress α × Host
  | done a, h => (.ready (.ok a), h)
  | fail e, h => (.ready (.error e), h)
  | ask q next, h =>
    match h.answer q with
    | (h, .ok r) => (next r).finish h
    | (h, .error f) => (.fault f, h)
  | wait next, h =>
    let h := h.listen
    next.finish (h.await h.engine.busy)

def complete (p : Program α) (h : Host) : Progress α × Host := p.finish h.enter

end Program

/-- the ways to run an operation -/
inductive Drive where
  /-- resumed by an event loop, at most so many times -/
  | resume (limit : Option Nat)
  /-- resumed to the end without looking -/
  | complete
  /-- polled by an executor that counts how often it is woken, at most so many times -/
  | executor (limit : Option Nat)
  deriving DecidableEq

/-- what it took to run an operation -/
inductive Effort where
  | resumes (n : Nat)
  | polls (n wakes : Nat)
  deriving DecidableEq

namespace Drive

/-- how often an operation may be polled, if that is limited -/
def limit : Drive → Option Nat
  | resume n => n
  | complete => none
  | executor n => n

/-- what the one who ran an operation can tell about it -/
def effort (d : Drive) (h : Host) : Option Effort :=
  match d with
  | resume _ => some (.resumes h.polls)
  | complete => none
  | executor _ => some (.polls h.polls h.wakes)

end Drive

namespace Program

variable {α β : Type}

def drive (p : Program α) (d : Drive) (h : Host) : Progress α × Host :=
  match d.limit with
  | some n => p.resume n h
  | none => p.complete h

/-! ## Small laws -/

@[simp] theorem poll_done (a : α) (h : Host) : (done a).poll h = (.ready (.ok a), h) := rfl

@[simp] theorem poll_fail (e : Failure) (h : Host) :
    (fail e : Program α).poll h = (.ready (.error e), h) := rfl

theorem poll_ask_of_ok {q : Request} {r : q.Reply} {h h' : Host} (hq : h.answer q = (h', .ok r))
    (next : q.Reply → Program α) : (ask q next).poll h = (next r).poll h' := by
  rw [poll, hq]

theorem poll_ask_of_error {q : Request} {h h' : Host} {f : Fault}
    (hq : h.answer q = (h', .error f)) (next : q.Reply → Program α) :
    (ask q next).poll h = (.fault f, h') := by
  rw [poll, hq]

theorem poll_wait_of_idle {h : Host} (hb : h.engine.busy = 0) (next : Program α) :
    (wait next).poll h = next.poll h.listen := if_pos hb

theorem poll_wait_of_running {h : Host} (hb : h.engine.busy ≠ 0) (next : Program α) :
    (wait next).poll h = (.pending (wait next), h.listen.tick) := if_neg hb

@[simp] theorem finish_done (a : α) (h : Host) : (done a).finish h = (.ready (.ok a), h) := rfl

@[simp] theorem finish_fail (e : Failure) (h : Host) :
    (fail e : Program α).finish h = (.ready (.error e), h) := rfl

theorem finish_ask_of_ok {q : Request} {r : q.Reply} {h h' : Host} (hq : h.answer q = (h', .ok r))
    (next : q.Reply → Program α) : (ask q next).finish h = (next r).finish h' := by
  rw [finish, hq]

theorem finish_ask_of_error {q : Request} {h h' : Host} {f : Fault}
    (hq : h.answer q = (h', .error f)) (next : q.Reply → Program α) :
    (ask q next).finish h = (.fault f, h') := by
  rw [finish, hq]

theorem finish_wait (next : Program α) (h : Host) :
    (wait next).finish h = next.finish (h.listen.await h.engine.busy) := rfl

/-- a poll of a sequence polls the first part, and the second if the first part ended well -/
theorem poll_bind (p : Program α) (f : α → Program β) (h : Host) :
    (p.bind f).poll h = Progress.andThen (p.poll h) f poll := by
  induction p generalizing h with
  | done a => rfl
  | fail e => rfl
  | ask q next ih =>
    rcases hq : h.answer q with ⟨h', e | r⟩
    · rw [ask_bind, poll_ask_of_error hq, poll_ask_of_error hq]
      rfl
    · rw [ask_bind, poll_ask_of_ok hq, poll_ask_of_ok hq, ih]
  | wait next ih =>
    rw [wait_bind]
    by_cases hb : h.engine.busy = 0
    · rw [poll_wait_of_idle hb, poll_wait_of_idle hb, ih]
    · rw [poll_wait_of_running hb, poll_wait_of_running hb]
      rfl

theorem finish_bind (p : Program α) (f : α → Program β) (h : Host) :
    (p.bind f).finish h = Progress.andThen (p.finish h) f finish := by
  induction p generalizing h with
  | done a => rfl
  | fail e => rfl
  | ask q next ih =>
    rcases hq : h.answer q with ⟨h', e | r⟩
    · rw [ask_bind, finish_ask_of_error hq, finish_ask_of_error hq]
      rfl
    · rw [ask_bind, finish_ask_of_ok hq, finish_ask_of_ok hq, ih]
  | wait next ih => rw [wait_bind, finish_wait, finish_wait, ih]

/-- a program that is polled to its end does not stay pending -/
theorem settled_finish (p : Program α) (h : Host) : (p.finish h).1.settled = true := by
  induction p generalizing h with
  | done a => rfl
  | fail e => rfl
  | ask q next ih =>
    rcases hq : h.answer q with ⟨h', e | r⟩
    · rw [finish_ask_of_error hq]
      rfl
    · rw [finish_ask_of_ok hq, ih]
  | wait next ih => rw [finish_wait, ih]

/-- where a poll ends, the program ends -/
theorem finish_of_settled {p : Program α} {h : Host} (hp : (p.poll h).1.settled = true) :
    p.finish h = p.poll h := by
  induction p generalizing h with
  | done a => rfl
  | fail e => rfl
  | ask q next ih =>
    rcases hq : h.answer q with ⟨h', e | r⟩
    · rw [finish_ask_of_error hq, poll_ask_of_error hq]
    · rw [poll_ask_of_ok hq] at hp ⊢
      rw [finish_ask_of_ok hq, ih _ hp]
  | wait next ih =>
    by_cases hb : h.engine.busy = 0
    · rw [poll_wait_of_idle hb] at hp ⊢
      rw [finish_wait, hb, Host.await_zero, ih hp]
    · rw [poll_wait_of_running hb] at hp
      cases hp

/-- a program that a poll leaves pending ends where the next poll would end it -/
theorem finish_of_pending {p rest : Program α} {h h' : Host}
    (hp : p.poll h = (.pending rest, h')) : p.finish h = rest.finish h'.enter := by
  induction p generalizing h with
  | done a => cases hp
  | fail e => cases hp
  | ask q next ih =>
    rcases hq : h.answer q with ⟨h'', e | r⟩
    · rw [poll_ask_of_error hq] at hp
      cases hp
    · rw [poll_ask_of_ok hq] at hp
      rw [finish_ask_of_ok hq, ih _ hp]
  | wait next ih =>
    by_cases hb : h.engine.busy = 0
    · rw [poll_wait_of_idle hb] at hp
      rw [finish_wait, hb, Host.await_zero, ih hp]
    · rw [poll_wait_of_running hb] at hp
      cases hp
      obtain ⟨n, hn⟩ := Nat.exists_eq_succ_of_ne_zero hb
      have hb' : h.listen.tick.enter.engine.busy = n := by
        rw [Host.busy_enter_tick, Host.busy_listen, hn]
        rfl
      rw [finish_wait, finish_wait, hb', hn, Host.await_succ, Host.listen_enter_tick_listen]

@[simp] theorem resume_zero (p : Program α) (h : Host) : p.resume 0 h = (.pending p, h) := rfl

theorem resume_of_pending {p rest : Program α} {h h' : Host}
    (hp : p.poll h.enter = (.pending rest, h')) (n : Nat) :
    p.resume (n + 1) h = rest.resume n h' := by
  rw [resume, hp]

theorem resume_of_settled {p : Program α} {h : Host} (hp : (p.poll h.enter).1.settled = true)
    (n : Nat) : p.resume (n + 1) h = p.poll h.enter := by
  rw [resume]
  rcases hr : p.poll h.enter with ⟨r | rest | f, h'⟩
  · rfl
  · rw [hr] at hp
    cases hp
  · rfl

/-- a limit that is not reached makes no difference -/
theorem complete_of_settled {p : Program α} {n : Nat} {h : Host}
    (hp : (p.resume n h).1.settled = true) : p.complete h = p.resume n h := by
  induction n generalizing p h with
  | zero => cases hp
  | succ n ih =>
    rcases hr : p.poll h.enter with ⟨r | rest | f, h'⟩
    · have hs : (p.poll h.enter).1.settled = true := by rw [hr]; rfl
      rw [resume_of_settled hs, complete, finish_of_settled hs]
    · rw [resume_of_pending hr] at hp ⊢
      rw [complete, finish_of_pending hr, ← ih hp, complete]
    · have hs : (p.poll h.enter).1.settled = true := by rw [hr]; rfl
      rw [resume_of_settled hs, complete, finish_of_settled hs]

/-- a program that ended, in whatever way it was run, ends so when it is polled to its end -/
theorem finish_of_drive {p : Program α} {d : Drive} {h : Host} {r : Except Failure α}
    (hr : (p.drive d h).1 = .ready r) : (p.finish h.enter).1 = .ready r := by
  unfold drive at hr
  cases hd : d.limit with
  | none =>
    rw [hd] at hr
    exact hr
  | some n =>
    rw [hd] at hr
    have hs : (p.resume n h).1.settled = true := by
      rw [show (p.resume n h).1 = _ from hr]
      rfl
    exact (congrArg Prod.fst (complete_of_settled hs)).trans hr

end Program
end CurveEngine
