import CurveEngine.Proofs.Cancellation

/-!
# When a waiting operation is woken

* `Contact`             an access to the function register, and how often the operation is woken by it;
* `Program.contacts`, `Program.contactsIn`   the contacts of one poll, and of so many polls;
* `Contact.looks`, `Contact.schedule`        the contacts of a wait, and of a run that starts so many
                        functions;
* `Accounted`           what a run has come to after some contacts, kept by each of its steps
                        (`accounted_poll`, `accounted_resume`);
* `Session.wakes_run`   an operation is woken in its contacts only;
* `Session.contacts_of_settled`, `Session.contacts_of_pending`   which contacts these are;
* `Session.operate_wakes`   how many polls an operation takes, how often it is woken, and when.

A run follows the schedule of its latency to the end, or stops in the middle of the looks of a wait.
What is still missing of the looks tells how far it is, and each look that finds the engine running
takes a poll.  Which functions are started, and in which order, plays no part.
-/

namespace CurveEngine

/-- an access of a running operation to the function register, and how often the operation is woken
by it -/
inductive Contact where
  | start (woken : Nat)
  /-- the operation reads whether a function is running; it may have registered to be woken before -/
  | look (running registered : Bool) (woken : Nat)
  deriving DecidableEq

namespace Contact

def woken : Contact → Nat
  | start n | look _ _ n => n

/-- how often an operation is woken by some contacts -/
def wakes (cs : List Contact) : Nat := (cs.map woken).sum

/-- the looks of a registered operation at a function that is running for `n` of them: the last one
that finds it running wakes the operation -/
def looks (n : Nat) : List Contact :=
  (List.range n).map (fun i => look true true (if i + 1 = n then 1 else 0)) ++ [look false true 0]

/-- a function on an engine of some latency, from its start to the last look -/
def turn (latency : Nat) (registered : Bool) : List Contact :=
  start (if latency = 0 ∧ registered then 1 else 0) :: looks latency

/-- functions one after the other: the operation is registered from the first look on -/
def schedule (latency : Nat) : Nat → List Contact
  | 0 => []
  | f + 1 => schedule latency f ++ turn latency (decide (0 < f))

theorem wakes_append (cs ds : List Contact) : wakes (cs ++ ds) = wakes cs + wakes ds := by
  rw [wakes, List.map_append, List.sum_append]
  rfl

theorem looks_zero : looks 0 = [look false true 0] := rfl

theorem looks_succ (n : Nat) :
    looks (n + 1) = look true true (if n = 0 then 1 else 0) :: looks n := by
  have h : ∀ i, ((fun i => look true true (if i + 1 = n + 1 then 1 else 0)) ∘ Nat.succ) i =
      look true true (if i + 1 = n then 1 else 0) := fun i => by
    simp only [Function.comp_apply, Nat.succ_eq_add_one, Nat.add_right_cancel_iff]
  rw [looks, List.range_succ_eq_map, List.map_cons, List.map_map, funext h]
  simp only [Nat.add_right_cancel_iff, eq_comm (a := 0)]
  rfl

theorem wakes_looks (n : Nat) : wakes (looks n) = if n = 0 then 0 else 1 := by
  induction n with
  | zero => rfl
  | succ n ih =>
    have hc : wakes (looks (n + 1)) = (if n = 0 then 1 else 0) + wakes (looks n) := by
      rw [looks_succ]
      rfl
    rw [hc, ih]
    split <;> rfl

/-- **every function wakes a registered operation once**, and the first one too if it takes time -/
theorem wakes_schedule (latency f : Nat) :
    wakes (schedule latency f) = if latency = 0 then f - 1 else f := by
  induction f with
  | zero => exact (ite_self 0).symm
  | succ f ih =>
    have ht : wakes (turn latency (decide (0 < f))) =
        (if latency = 0 ∧ 0 < f then 1 else 0) + wakes (looks latency) := by
      simp only [turn, decide_eq_true_eq]
      rfl
    rw [schedule, wakes_append, ih, ht, wakes_looks]
    split_ifs <;> omega

example : schedule 2 1 = [start 0, look true true 0, look true true 1, look false true 0] := rfl

end Contact

namespace Host

open Contact

/-- a look at the function register -/
def look (h : Host) : Contact :=
  .look (decide (h.engine.busy ≠ 0)) h.listening.isSome (h.tick.wakes - h.wakes)

/-- the contact that a request makes, if any -/
def contact (h : Host) (q : Request) : List Contact :=
  let woken := (h.answer q).1.wakes - h.wakes
  match q with
  | .start _ => [.start woken]
  | .writeRegister .function v => if Opcode.starts v then [.start woken] else []
  | .readRegister .function => [h.look]
  | _ => []

theorem contact_start {h h' : Host} {f : Opcode} {r : Except Fault Unit}
    (ha : h.answer (.start f) = (h', r)) :
    h.contact (.start f) = [.start (h'.wakes - h.wakes)] := by
  show [Contact.start ((h.answer (.start f)).1.wakes - h.wakes)] = _
  rw [ha]

theorem contact_of_plain {q : Request} (hq : q.Plain) (hs : q.starts = false) (h : Host) :
    h.contact q = [] := by
  cases q with
  | start f => cases hs
  | writeRegister r v =>
    cases r with
    | function => exact absurd rfl hq
    | _ => rfl
  | readRegister r =>
    cases r with
    | function => exact absurd rfl hq
    | _ => rfl
  | _ => rfl

end Host

namespace Program

variable {α : Type}

/-- the contacts of one poll -/
def contacts : Program α → Host → List Contact
  | done _, _ | fail _, _ => []
  | ask q next, h =>
    h.contact q ++
      match h.answer q with
      | (_, .error _) => []
      | (h, .ok r) => (next r).contacts h
  | wait next, h =>
    let h := h.listen
    h.look :: if h.engine.busy = 0 then next.contacts h else []

/-- the contacts of up to `n` polls -/
def contactsIn : Nat → Program α → Host → List Contact
  | 0, _, _ => []
  | n + 1, p, h =>
    p.contacts h.enter ++
      match p.poll h.enter with
      | (.pending rest, h) => rest.contactsIn n h
      | _ => []

theorem contacts_ask_of_ok {q : Request} {r : q.Reply} {h h' : Host} (hq : h.answer q = (h', .ok r))
    (next : q.Reply → Program α) :
    (ask q next).contacts h = h.contact q ++ (next r).contacts h' := by
  rw [contacts, hq]

theorem contacts_wait_of_idle {h : Host} (hb : h.engine.busy = 0) (next : Program α) :
    (wait next).contacts h = h.listen.look :: next.contacts h.listen :=
  congrArg (h.listen.look :: ·) (if_pos hb)

theorem contacts_wait_of_running {h : Host} (hb : h.engine.busy ≠ 0) (next : Program α) :
    (wait next).contacts h = [h.listen.look] :=
  congrArg (h.listen.look :: ·) (if_neg hb)

theorem contactsIn_of_pending {p rest : Program α} {h h' : Host}
    (hp : p.poll h.enter = (.pending rest, h')) (n : Nat) :
    p.contactsIn (n + 1) h = p.contacts h.enter ++ rest.contactsIn n h' := by
  rw [contactsIn, hp]

theorem contactsIn_of_settled {p : Program α} {h : Host} (hp : (p.poll h.enter).1.settled = true)
    (n : Nat) : p.contactsIn (n + 1) h = p.contacts h.enter := by
  rw [contactsIn]
  rcases hr : p.poll h.enter with ⟨r | rest | f, h'⟩
  · exact List.append_nil _
  · rw [hr] at hp
    cases hp
  · exact List.append_nil _

end Program

/-! ## Along a run -/

open Contact

/-- what a run on an engine of some latency has come to after the contacts `cs`: with the looks that
are still missing, they are those of the functions started so far -/
structure Accounted (latency : Nat) (running : Bool) (cs : List Contact) (h : Host) : Prop where
  pace : h.engine.latency = latency
  idle : running = false → h.engine.busy = 0
  schedule : cs ++ (if running then looks h.engine.busy else []) = schedule latency h.trace.size
  registered : running = false → h.listening.isSome = decide (0 < h.trace.size)
  /-- an operation has registered at some time before -/
  since : ∀ n ∈ h.listening, n ≤ h.engine.interrupts
  wakes : h.wakes = Contact.wakes cs

namespace Accounted

variable {latency n : Nat} {running : Bool} {cs : List Contact} {h h' : Host}

theorem wakes_eq (h : Host) : h.wakes = h.listening.elim 0 (h.engine.interrupts - ·) := by
  rw [Host.wakes]
  cases h.listening with
  | none => rfl
  | some n => rfl

/-- registering wakes nobody -/
theorem wakes_listen (h : Host) : h.listen.wakes = h.wakes := by
  rw [wakes_eq, wakes_eq]
  unfold Host.listen
  cases h.listening with
  | none => exact Nat.sub_self _
  | some n => rfl

theorem since_listen (hh : ∀ n ∈ h.listening, n ≤ h.engine.interrupts) :
    ∃ n ≤ h.engine.interrupts, h.listen.listening = some n := by
  unfold Host.listen
  cases hl : h.listening with
  | none => exact ⟨_, Nat.le_refl _, rfl⟩
  | some n => exact ⟨n, hh n hl, rfl⟩

/-- a function that is waited for was started -/
theorem trace_pos (hh : Accounted latency true cs h) : 0 < h.trace.size := by
  refine Nat.pos_of_ne_zero fun h0 => ?_
  have hs := hh.schedule
  rw [h0, if_pos rfl] at hs
  have hl := (List.append_eq_nil_iff.mp hs).2
  exact List.append_ne_nil_of_right_ne_nil _ (List.cons_ne_nil _ _) hl

theorem calm (hh : Accounted latency false cs h) (hc : h.Calm h') :
    Accounted latency false cs h' := by
  obtain ⟨hl, hi, hs, hr, hn, hw⟩ := hh
  refine ⟨hc.latency.trans hl, fun _ => hc.busy.trans (hi rfl), ?_, fun _ => ?_, ?_, ?_⟩
  · rw [hc.trace]
    exact hs
  · rw [hc.listening, hc.trace]
    exact hr rfl
  · rw [hc.listening, hc.interrupts]
    exact hn
  · rw [wakes_eq, hc.listening, hc.interrupts, ← wakes_eq]
    exact hw

theorem launches (hh : Accounted latency false cs h) {f : Opcode} {u : Unit}
    (ha : h.answer (.start f) = (h', .ok u)) :
    Accounted latency true (cs ++ h.contact (.start f)) h' := by
  obtain ⟨rfl, -, hs, hr, hn, hw⟩ := hh
  have hl := Host.answer_launches ha
  have hreg := hr rfl
  rw [if_neg (by decide), List.append_nil] at hs
  -- without latency the start itself wakes an operation that waited before
  have hwoken : h'.wakes =
      h.wakes + if h.engine.latency = 0 ∧ decide (0 < h.trace.size) = true then 1 else 0 := by
    rw [wakes_eq, wakes_eq, hl.listening, hl.interrupts, ← hreg]
    cases hk : h.listening with
    | none => simp
    | some k =>
      have := hn k hk
      simp only [Option.elim_some, Option.isSome_some, and_true]
      omega
  rw [Host.contact_start ha, hwoken, Nat.add_sub_cancel_left]
  refine ⟨hl.latency, nofun, ?_, nofun, ?_, ?_⟩
  · rw [if_pos rfl, hl.busy, hl.trace, hs, List.append_assoc]
    rfl
  · rw [hl.listening, hl.interrupts]
    exact fun k hk => (hn k hk).trans (Nat.le_add_right _ _)
  · rw [wakes_append, ← hw, hwoken]
    rfl

/-- the last look of a wait -/
theorem resume (hh : Accounted latency true cs h) (hb : h.engine.busy = 0) :
    Accounted latency false (cs ++ [h.listen.look]) h.listen := by
  have ht := hh.trace_pos
  obtain ⟨rfl, -, hs, -, hn, hw⟩ := hh
  obtain ⟨n, hle, hl⟩ := since_listen hn
  have htick : h.listen.tick = h.listen := by
    rw [Host.tick, Engine.tick_of_idle (show h.listen.engine.busy = 0 from hb)]
  have hlook : h.listen.look = .look false true 0 := by
    rw [Host.look, htick, Nat.sub_self, hl, Host.busy_listen, hb]
    rfl
  rw [hlook]
  rw [if_pos rfl, hb, looks_zero] at hs
  refine ⟨rfl, fun _ => hb, ?_, fun _ => ?_, ?_, ?_⟩
  · rw [if_neg (by decide), List.append_nil]
    exact hs
  · rw [hl]
    exact (decide_eq_true ht).symm
  · rw [hl]
    rintro _ ⟨⟩
    exact hle
  · rw [wakes_listen, hw, wakes_append]
    rfl

/-- a look that finds a function running -/
theorem suspend (hh : Accounted latency true cs h) (hb : h.engine.busy ≠ 0) :
    Accounted latency true (cs ++ [h.listen.look]) h.listen.tick := by
  obtain ⟨rfl, -, hs, -, hn, hw⟩ := hh
  obtain ⟨n, hle, hl⟩ := since_listen hn
  obtain ⟨k, hk⟩ := Nat.exists_eq_succ_of_ne_zero hb
  obtain ⟨-, -, hlat, -, -⟩ := h.listen.engine.tick_frame
  have hbusy : h.listen.tick.engine.busy = k := by
    show h.listen.engine.tick.busy = k
    rw [Engine.busy_tick, Host.busy_listen, hk]
    rfl
  have hint : h.listen.tick.engine.interrupts =
      h.engine.interrupts + if k = 0 then 1 else 0 := by
    show h.listen.engine.tick.interrupts = _
    rw [Engine.tick, if_neg (show h.listen.engine.busy ≠ 0 from hb)]
    simp only [Host.busy_listen, hk, Nat.succ_eq_add_one, Nat.add_eq_right]
    rfl
  have hlt : h.listen.tick.listening = some n := hl
  have hwoken : h.listen.tick.wakes = h.wakes + if k = 0 then 1 else 0 := by
    rw [← wakes_listen h, wakes_eq, wakes_eq, hlt, hl, hint]
    show h.engine.interrupts + (if k = 0 then 1 else 0) - n = h.engine.interrupts - n + _
    omega
  have hlook : h.listen.look = .look true true (if k = 0 then 1 else 0) := by
    rw [Host.look, hwoken, wakes_listen, Nat.add_sub_cancel_left, hl, Host.busy_listen,
      decide_eq_true hb]
    rfl
  rw [hlook]
  refine ⟨hlat, nofun, ?_, nofun, ?_, ?_⟩
  · rw [if_pos rfl, hk, Nat.succ_eq_add_one, looks_succ] at hs
    rw [if_pos rfl, hbusy, List.append_assoc]
    exact hs
  · rw [hlt, hint]
    rintro _ ⟨⟩
    exact hle.trans (Nat.le_add_right _ _)
  · rw [hwoken, hw, wakes_append]
    rfl

theorem enter (hh : Accounted latency running cs h) : Accounted latency running cs h.enter :=
  ⟨hh.pace, hh.idle, hh.schedule, hh.registered, hh.since, hh.wakes⟩

end Accounted

namespace Program

variable {α : Type} {ws : List Window} {running : Bool} {o : Operands} {p : Program α} {h : Host}
  {latency : Nat} {cs : List Contact}

/-- what a run has come to where it stops -/
def Stands (ws : List Window) (latency : Nat) (cs : List Contact) : Progress α × Host → Prop
  | (.ready _, h) => Accounted latency false cs h
  | (.pending rest, h) =>
    ∃ running o, rest.Orderly ws running o ∧ Accounted latency running cs h
  | (.fault _, _) => True

/-- **a poll keeps the account** -/
theorem accounted_poll (hp : p.Orderly ws running o) (hh : Accounted latency running cs h) :
    Stands ws latency (cs ++ p.contacts h) (p.poll h) := by
  induction p generalizing running o h cs with
  | done a | fail e =>
    obtain rfl : running = false := hp
    rw [contacts, List.append_nil]
    exact hh
  | ask q next ih =>
    obtain ⟨rfl, hplain, -, hn⟩ := hp
    rcases e : h.answer q with ⟨h', f | r⟩
    · rw [poll_ask_of_error e]
      exact trivial
    · rw [poll_ask_of_ok e, contacts_ask_of_ok e, ← List.append_assoc]
      refine ih r (hn r) ?_
      cases hs : q.starts with
      | true =>
        obtain ⟨f, rfl⟩ := Request.exists_of_starts hs
        exact hh.launches e
      | false =>
        have hc := Host.answer_calm (h := h) hplain hs
        rw [e] at hc
        rw [Host.contact_of_plain hplain hs, List.append_nil]
        exact hh.calm hc
  | wait next ih =>
    obtain ⟨rfl, hn⟩ := hp
    by_cases hb : h.engine.busy = 0
    · rw [poll_wait_of_idle hb, contacts_wait_of_idle hb, List.append_cons]
      exact ih hn (hh.resume hb)
    · rw [poll_wait_of_running hb, contacts_wait_of_running hb]
      exact ⟨true, o, ⟨rfl, hn⟩, hh.suspend hb⟩

/-- **a limited run keeps the account** -/
theorem accounted_resume (n : Nat) (hp : p.Orderly ws running o)
    (hh : Accounted latency running cs h) :
    Stands ws latency (cs ++ p.contactsIn n h) (p.resume n h) := by
  induction n generalizing p running o h cs with
  | zero =>
    rw [contactsIn, List.append_nil]
    exact ⟨running, o, hp, hh⟩
  | succ n ih =>
    have hpoll := accounted_poll hp hh.enter
    cases hs : (p.poll h.enter).1.settled with
    | true =>
      rw [resume_of_settled hs, contactsIn_of_settled hs]
      exact hpoll
    | false =>
      rcases hr : p.poll h.enter with ⟨r | rest | f, h'⟩ <;> rw [hr] at hs hpoll
      · cases hs
      · obtain ⟨running', o', hp', hh'⟩ := hpoll
        rw [resume_of_pending hr, contactsIn_of_pending hr, ← List.append_assoc]
        exact ih hp' hh'
      · cases hs

end Program

/-! ## Operations -/

namespace Session

open Program

variable {s : Session} {op : Operation} {d : Drive} {f m : Nat}

/-- the contacts of an operation in up to `m` polls -/
def contacts (s : Session) (op : Operation) (m : Nat) : List Contact :=
  (op.program s.settings).contactsIn m (.new s.engine s.drawn op.buffers)

theorem stands_run (hs : s.Idle) (op : Operation) (hd : d.limit = some m) :
    Stands op.territory s.engine.latency (s.contacts op m) (s.run op d) := by
  have hstart : Accounted s.engine.latency false [] (.new s.engine s.drawn op.buffers) :=
    ⟨rfl, fun _ => hs.idle, rfl, fun _ => rfl, nofun, rfl⟩
  rw [run_of_limit op hd]
  exact accounted_resume m (Operation.orderly_program
    (o := s.engine.registers.operands) s.settings op) hstart

/-- on an idle session there is nothing running that a function of an operation could meet -/
theorem run_ne_fault (hs : s.Idle) (op : Operation) (d : Drive) (g : Fault) :
    (s.run op d).1 ≠ .fault g := by
  intro h
  obtain ⟨r, k, e, -, -⟩ := complete_of_idle hs op
  have hset : (s.run op d).1.settled = true := by rw [h]; rfl
  rw [run_of_settled hset, e] at h
  cases h

/-- **an operation is woken in its contacts only** -/
theorem wakes_run (hs : s.Idle) (op : Operation) (hd : d.limit = some m) :
    (s.run op d).2.wakes = Contact.wakes (s.contacts op m) := by
  have hl := stands_run hs op hd
  rcases hrun : s.run op d with ⟨r | rest | g, h⟩ <;> rw [hrun] at hl
  · exact hl.wakes
  · obtain ⟨running, o, -, hh⟩ := hl
    exact hh.wakes
  · exact absurd (congrArg Prod.fst hrun) (run_ne_fault hs op d g)

/-- an operation that may be polled often enough makes all its contacts -/
theorem contacts_of_settled (hs : s.Idle) (op : Operation)
    (hm : 1 + (s.run op .complete).2.trace.size * s.engine.latency ≤ m) :
    s.contacts op m = schedule s.engine.latency (s.run op .complete).2.trace.size := by
  have hset : (s.run op (.resume (some m))).1.settled = true := by
    refine (settled_run_iff s op _).mpr fun n hn => ?_
    cases hn
    rw [polls_complete hs]
    exact hm
  have hl := stands_run (d := .resume (some m)) hs op rfl
  rw [run_of_settled hset] at hl
  obtain ⟨r, h, e, -, -⟩ := complete_of_idle hs op
  rw [e] at hl ⊢
  have hsch := hl.schedule
  rw [if_neg (by decide), List.append_nil] at hsch
  exact hsch

/-- an operation that is still pending has made all its contacts but for some looks -/
theorem contacts_of_pending (hs : s.Idle) (op : Operation) (hm : 0 < m)
    (hf : m ≤ (s.run op .complete).2.trace.size * s.engine.latency) :
    s.contacts op m ++ looks (s.engine.latency * (m ⌈/⌉ s.engine.latency) - m) =
      schedule s.engine.latency (m ⌈/⌉ s.engine.latency) := by
  obtain ⟨n, rfl⟩ := Nat.exists_eq_succ_of_ne_zero (Nat.ne_of_gt hm)
  have hd : (Drive.resume (some (n + 1))).limit = some (n + 1) := rfl
  have hl := stands_run hs op hd
  have hpend := pending_of_le hs hd hf
  rcases hrun : s.run op (.resume (some (n + 1))) with ⟨r | rest | g, h⟩ <;>
    rw [hrun] at hpend hl
  · cases hpend
  · obtain ⟨running, o, hp, hh⟩ := hl
    obtain ⟨next, -, -, -, rfl, -⟩ := waits_of_resume hrun
    obtain rfl : running = true := hp.1
    obtain ⟨-, k, -, rfl, hk, -, hb⟩ := waits_of_run hs hd hm hrun
    rw [hk, ← hb]
    exact hh.schedule
  · cases hpend

/-- the wake-ups of a run that is still pending: one for every function that is over -/
theorem wakes_of_pending (hs : s.Idle) (op : Operation) (hd : d.limit = some m)
    (hf : m ≤ (s.run op .complete).2.trace.size * s.engine.latency) :
    (s.run op d).2.wakes = m / s.engine.latency := by
  rw [wakes_run hs op hd]
  obtain rfl | hm := Nat.eq_zero_or_pos m
  · rw [Nat.zero_div]
    rfl
  · have hL : 0 < s.engine.latency := Nat.pos_of_ne_zero fun h0 => by
      rw [h0] at hf
      omega
    have hsum := congrArg Contact.wakes (contacts_of_pending hs op hm hf)
    rw [wakes_append, wakes_looks, wakes_schedule, if_neg hL.ne'] at hsum
    have hdm := Nat.div_add_mod m s.engine.latency
    have hlt := Nat.mod_lt m hL
    by_cases hr : m % s.engine.latency = 0
    · have hk : m ⌈/⌉ s.engine.latency = m / s.engine.latency :=
        ceilDiv_eq (b := 0) (by omega) hL
      rw [hk, if_pos (by omega)] at hsum
      exact hsum
    · -- the last function is not over
      have hk : m ⌈/⌉ s.engine.latency = m / s.engine.latency + 1 :=
        ceilDiv_eq (b := s.engine.latency - m % s.engine.latency)
          (by rw [Nat.mul_add, Nat.mul_one]; omega) (by omega)
      rw [hk, Nat.mul_add, Nat.mul_one, if_neg (by omega)] at hsum
      exact Nat.succ_injective hsum

/-- the wake-ups of a run to the end -/
theorem wakes_complete (hs : s.Idle) (op : Operation) :
    (s.run op .complete).2.wakes = if s.engine.latency = 0 then
      (s.run op .complete).2.trace.size - 1 else (s.run op .complete).2.trace.size := by
  have hset : (s.run op (.resume (some (s.run op .complete).2.polls))).1.settled = true := by
    refine (settled_run_iff s op _).mpr fun n hn => ?_
    cases hn
    exact Nat.le_refl _
  rw [← wakes_schedule, ← contacts_of_settled hs op (polls_complete hs op).ge,
    ← wakes_run (d := .resume (some _)) hs op rfl, run_of_settled hset]

/-- the answer to an operation on an idle session -/
theorem operate_of_idle (hs : s.Idle) (op : Operation) (d : Drive) :
    ∃ x, s.operate op d = (s.after (s.run op d).2, .ok x) ∧
      (x.outcome = .pending ↔ (s.run op d).1.settled = false) ∧
      x.effort = d.effort (s.run op d).2 ∧ x.trace = (s.run op d).2.trace.toList := by
  unfold operate
  rcases hrun : s.run op d with ⟨(e | out) | rest | g, h⟩
  · exact ⟨_, rfl, ⟨nofun, nofun⟩, rfl, rfl⟩
  · exact ⟨_, rfl, ⟨nofun, nofun⟩, rfl, rfl⟩
  · exact ⟨_, rfl, ⟨fun _ => rfl, fun _ => rfl⟩, rfl, rfl⟩
  · exact absurd (congrArg Prod.fst hrun) (run_ne_fault hs op d g)

/-- **suspension and wake-ups are exact**: an operation that starts `f` functions is ready with its
`1 + f * latency`-th poll and not before, and while it is pending, every poll looks at a running
function once.  It is woken once by every function, inside the last look that finds it running, when
it has registered before; without latency by the start, and the first start comes before the
operation registers.  So no function is over without a wake-up once the operation has registered, and
none wakes it twice. -/
theorem operate_wakes (hs : s.Idle) (op : Operation)
    (hf : (s.run op .complete).2.trace.size = f) (d : Drive) :
    (∃ x, s.operate op d = (s.after (s.run op d).2, .ok x) ∧ x.effort = d.effort (s.run op d).2 ∧
      (x.outcome = .pending ↔ ∃ m, d.limit = some m ∧ m ≤ f * s.engine.latency) ∧
      (x.outcome ≠ .pending →
        x.trace.length = f ∧ (s.run op d).2.polls = 1 + f * s.engine.latency ∧
          (s.run op d).2.wakes = if s.engine.latency = 0 then f - 1 else f) ∧
      ∀ m, x.outcome = .pending → d.limit = some m →
        (s.run op d).2.polls = m ∧ (s.run op d).2.wakes = m / s.engine.latency) ∧
    (∀ m, d.limit = some m → (s.run op d).2.wakes = Contact.wakes (s.contacts op m)) ∧
    (∀ m, 1 + f * s.engine.latency ≤ m → s.contacts op m = schedule s.engine.latency f) ∧
    ∀ m, 0 < m → m ≤ f * s.engine.latency →
      s.contacts op m ++ looks (s.engine.latency * (m ⌈/⌉ s.engine.latency) - m) =
        schedule s.engine.latency (m ⌈/⌉ s.engine.latency) := by
  subst hf
  refine ⟨?_, fun m hd => wakes_run hs op hd, fun m hm => contacts_of_settled hs op hm,
    fun m hpos hm => contacts_of_pending hs op hpos hm⟩
  obtain ⟨x, hx, hpend, he, ht⟩ := operate_of_idle hs op d
  have hiff := pending_run_iff hs op d
  refine ⟨x, hx, he, hpend.trans hiff, fun hx => ?_, fun m hx hd => ?_⟩
  · have hset : (s.run op d).1.settled = true := by
      rw [← Bool.not_eq_false]
      exact fun h => hx (hpend.mpr h)
    rw [ht, run_of_settled hset]
    exact ⟨Array.length_toList, polls_complete hs op, wakes_complete hs op⟩
  · obtain ⟨m', hd', hm⟩ := hiff.mp (hpend.mp hx)
    obtain rfl : m' = m := Option.some_injective _ (hd'.symm.trans hd)
    refine ⟨?_, wakes_of_pending hs op hd hm⟩
    have hset := hpend.mp hx
    rcases hrun : s.run op d with ⟨r | rest | g, h⟩ <;> rw [hrun] at hset
    · cases hset
    · have hres := (run_of_limit op hd).symm.trans hrun
      exact (polls_of_pending hres).trans (Nat.zero_add _)
    · cases hset

/-- a validation on P-192 with two functions that take two reads each, to the end and given up -/
theorem operate_wakes_fresh :
    fresh.Idle ∧ (fresh.run (.validate (List.replicate 48 0xff)) .complete).2.trace.size = 2 ∧
      (∃ x, (fresh.operate (.validate (List.replicate 48 0xff)) (.executor none)).2 = .ok x ∧
        x.outcome ≠ .pending ∧ x.effort = some (.polls 5 2)) ∧
      (∃ x, (fresh.operate (.validate (List.replicate 48 0xff)) (.executor (some 3))).2 = .ok x ∧
        x.outcome = .pending ∧ x.effort = some (.polls 3 1)) ∧
      fresh.contacts (.validate (List.replicate 48 0xff)) 5 = schedule 2 2 := by
  have hs : fresh.Idle := ⟨rfl, rfl⟩
  have hf : (fresh.run (.validate (List.replicate 48 0xff)) .complete).2.trace.size = 2 := by
    decide +kernel
  obtain ⟨⟨x, hx, he, hp, hready, -⟩, -, hc, -⟩ := operate_wakes hs _ hf (.executor none)
  obtain ⟨⟨y, hy, he', hp', -, hpend⟩, -⟩ := operate_wakes hs _ hf (.executor (some 3))
  have hr : x.outcome ≠ .pending := fun h => by
    obtain ⟨m, hm, -⟩ := hp.mp h
    cases hm
  have hq : y.outcome = .pending := hp'.mpr ⟨3, rfl, by decide⟩
  obtain ⟨-, h₁, h₂⟩ := hready hr
  obtain ⟨h₃, h₄⟩ := hpend 3 hq rfl
  refine ⟨hs, hf, ⟨x, by rw [hx], hr, ?_⟩, ⟨y, by rw [hy], hq, ?_⟩, hc 5 (by decide)⟩
  · rw [he, Drive.effort, h₁, h₂]
    rfl
  · rw [he', Drive.effort, h₃, h₄]
    rfl

end Session
end CurveEngine
