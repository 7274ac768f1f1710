import CurveEngine.Proofs.Cancellation
import CurveEngine.Proofs.Schedule
import CurveEngine.Proofs.SignVerify

/-!
# The functions of signing

* `Signature.schedule`     the functions of a round, in order;
* `Signature.scheduled_round` … `scheduled_sign`   rounds start them in this order, each as far as it
                           gets;
* `Session.run_counts`     how many polls a run takes for the functions that it starts;
* `Session.SignsAtOnce`    signing that takes a single random draw, which is one whole round;
* `Session.sign_schedule`  nothing that signing makes the engine do tells the key, the nonce or the
                           hash, but for the lengths of the numbers that are reduced.
-/

namespace CurveEngine

open Program Arithmetic Sampling Invocation

namespace Signature

open Layout.Signing (hash key nonce r s)

/-- the functions of a round that accepts its nonce -/
def schedule (w : Nat) : List Invocation :=
  [comparing w nonce Layout.null, comparing w nonce Layout.order,
    onPoints .pointMul w nonce Layout.generator, copying Layout.scratchpad r (Layout.pointSpace w),
    comparing w Layout.null r,
    combining .multiply w key r, reducing w Layout.order s, comparing w hash s,
    combining .add w hash s, reducing w Layout.order s,
    inverting w nonce Layout.order, copying Layout.scratchpad nonce w,
    combining .multiply w nonce s, reducing w Layout.order s, comparing w Layout.null s]

example (w : Nat) : (schedule w).map Invocation.opcode =
    [.compare, .compare, .pointMul, .copy, .compare, .multiply, .modulo, .compare, .add, .modulo,
      .invert, .copy, .multiply, .modulo, .compare] := rfl

variable {c : NamedCurve} {h : Host} {l : Option (List Invocation)}

theorem scheduled_round {S : List Invocation} :
    (round c.words).Scheduled c.words S Whole (some (schedule c.words)) h := by
  have hw : c.words ≤ Layout.elementWords := c.words_le
  unfold round
  apply (starts_checkBetween hw (by decide) (by decide) (by decide)).tried
  · intro _ h
    apply scheduled_degenerate (starts_point hw (.inl rfl) (by decide) (by decide) (by decide))
    intro h
    apply (starts_compare hw (by decide) (by decide)).andThen
    refine fun _ h => .ite (scheduled_reject _) ?_
    apply scheduled_degenerate
      (starts_modular hw (.inl rfl) (by decide) (by decide) (by decide) (by decide))
    intro h
    apply (starts_compare hw (by decide) (by decide)).andThen
    refine fun _ h => .ite (scheduled_reject _) ?_
    apply scheduled_degenerate
      (starts_modular hw (.inr rfl) (by decide) (by decide) (by decide) (by decide))
    intro h
    apply scheduled_degenerate (starts_invert hw (by decide) (by decide) (by decide))
    intro h
    apply scheduled_degenerate
      (starts_modular hw (.inl rfl) (by decide) (by decide) (by decide) (by decide))
    intro h
    apply (starts_compare hw (by decide) (by decide)).andThen
    refine fun _ h => .ite (scheduled_reject _) ?_
    intro _ _
    rfl
  · intro _ l h
    exact scheduled_reject _

theorem scheduled_draft (hash privateKey : Bytes) (source : List Entry) (budget : Option Nat) :
    (draft c.words hash privateKey source budget).Scheduled c.words (schedule c.words)
      (fun _ l => l = some []) l h := by
  refine scheduled_ask rfl (by simp) fun _ h => scheduled_ask rfl (by simp) fun _ h => ?_
  have hround : ∀ block h, (attemptWith c.words block).Scheduled c.words (schedule c.words) Whole
      (some (schedule c.words)) h := by
    intro block h
    exact scheduled_ask rfl (by simp) fun _ h => scheduled_round
  exact scheduled_sample hround source budget

theorem scheduled_sign (hash privateKey : Bytes) (source : List Entry) (budget : Option Nat) :
    (sign c.words hash privateKey source budget).Scheduled c.words (schedule c.words)
      (fun _ l => l = some []) l h := by
  refine (scheduled_draft hash privateKey source budget).bind fun _ l h hl => ?_
  -- the halves are read and written, one after the other
  refine scheduled_ask rfl (by simp) fun _ h => scheduled_ask rfl (by simp) fun _ h => ?_
  exact scheduled_ask rfl (by simp) fun _ h => scheduled_ask rfl (by simp) fun _ h => hl

end Signature

namespace Operation

variable {w : Nat} {S : List Invocation} {l : Option (List Invocation)} {h : Host}

theorem scheduled_checkLength (bs : Bytes) (expected : Nat) :
    (checkLength bs expected).Scheduled w S (fun _ l' => l' = l) l h :=
  .ite rfl (scheduled_refuse _ _)

theorem scheduled_checkHash (hash : Bytes) :
    (checkHash hash).Scheduled w S (fun _ l' => l' = l) l h :=
  .ite (scheduled_refuse _ _) rfl

theorem scheduled_program {c : NamedCurve} (s : Settings) (hc : s.curve = some c)
    (hash key out : Bytes) :
    ((Operation.sign hash key out).program s).Scheduled c.words (Signature.schedule c.words)
      (fun _ l => l = some []) l h := by
  unfold program
  rw [hc]
  refine (scheduled_checkHash hash).bind fun _ l h _ => ?_
  refine (scheduled_checkLength key _).bind fun _ l h _ => ?_
  refine (scheduled_checkLength out _).bind fun _ l h _ => ?_
  exact Signature.scheduled_sign hash key s.source s.retryLimit

end Operation

namespace Session

/-- **what a run that ends has spent**, if it has started a function at all: the engine counts the
functions, and each of them took as many polls as the latency says -/
theorem run_counts {s : Session} {op : Operation} {d : Drive} {r : Except Failure Unit}
    (hr : (s.run op d).1 = .ready r) (ht : (s.run op d).2.trace ≠ #[]) :
    (s.run op d).2.polls = 1 + s.engine.latency * (s.run op d).2.trace.size ∧
      (s.run op d).2.engine.started = s.engine.started + (s.run op d).2.trace.size := by
  have hp := Operation.orderly_program (o := (s.host op).engine.registers.operands) s.settings op
  have hb : (s.host op).engine.busy = 0 := (ready_of_run hr ht).idle
  obtain ⟨p', hpass, hidle⟩ := passes_of_ready hr
  obtain ⟨running, hpaced, hk⟩ := hpass.paced hp.paced fun _ => hb
  have hk' : (s.run op d).2.engine.busy = 0 := hk (hidle running hpaced)
  obtain ⟨-, hpolls, hst⟩ := hpass.counts hp (fun _ => hb) (le_of_eq_of_le hb (Nat.zero_le _))
  have hpolls' : (s.run op d).2.polls + (s.run op d).2.engine.busy + s.engine.latency * 0 =
      1 + (s.host op).engine.busy + s.engine.latency * (s.run op d).2.trace.size := hpolls
  have hst' : (s.run op d).2.engine.started + 0 =
      s.engine.started + (s.run op d).2.trace.size := hst
  omega

/-- signing ends well, with a single random draw -/
structure SignsAtOnce (s : Session) (hash key out : Bytes) (d : Drive) : Prop where
  ready : (s.run (.sign hash key out) d).1 = .ready (.ok ())
  drawn : (s.run (.sign hash key out) d).2.drawn = s.drawn + 1

variable {s : Session} {c : NamedCurve} {hash key out : Bytes} {d : Drive}

theorem rounds_sign (hc : s.curve = some c) (hash key out : Bytes) (d : Drive) :
    ∃ l rounds, (s.run (.sign hash key out) d).2.Rounds (Signature.schedule c.words) s.drawn l
        rounds ∧
      ((s.run (.sign hash key out) d).1 = .ready (.ok ()) → l = some []) := by
  obtain ⟨l, rounds, hr, hl⟩ := (Operation.scheduled_program s.settings hc hash key out).drive
    (h := .new s.engine s.drawn [out]) rfl d
  exact ⟨l, rounds, hr, hl ()⟩

namespace SignsAtOnce

variable (hs : s.SignsAtOnce hash key out d) (hc : s.curve = some c)
include hs hc

/-- one whole round -/
theorem outlines : (s.run (.sign hash key out) d).2.trace.toList.map Invocation.outline =
    Signature.schedule c.words := by
  obtain ⟨hr, hd⟩ := hs
  obtain ⟨l, rounds, hrounds, hl⟩ := rounds_sign hc hash key out d
  obtain ⟨before, last, rfl, hlast⟩ := hrounds.left [] (hl hr)
  have hn := hrounds.drawn
  rw [hd, List.length_append, List.length_singleton] at hn
  obtain rfl : before = [] := List.length_eq_zero_iff.mp (by omega)
  rw [List.append_nil] at hlast
  rw [hrounds.trace, ← hlast]
  simp

theorem counts : (s.run (.sign hash key out) d).2.polls = 1 + s.engine.latency * 15 ∧
    (s.run (.sign hash key out) d).2.engine.started = s.engine.started + 15 := by
  have hn : (s.run (.sign hash key out) d).2.trace.size = 15 := by
    have := congrArg List.length (hs.outlines hc)
    rwa [List.length_map] at this
  rw [← hn]
  exact run_counts hs.ready fun he => by rw [he] at hn; cases hn

end SignsAtOnce

/-- **the functions of signing do not depend on secrets**, whatever is in memory and however signing
is run.  Wherever it stands, the functions so far come in rounds, one for each random draw, and each
round follows the same order with the same operands as far as it gets; only the length of what is
reduced is that of the product or the sum before.  The same holds however signing ends, and if it
ends well, the last round is a whole one.  So two signatures that take a single draw each, with any
keys, nonces and hashes, take the same functions and as many polls. -/
theorem sign_schedule (hc : s.curve = some c) (hash key out : Bytes) (d : Drive) :
    (∀ p k, Passes ((Operation.sign hash key out).program s.settings)
        (s.host (.sign hash key out)) p k →
      (∃ l rounds, k.Rounds (Signature.schedule c.words) s.drawn l rounds) ∧
        ∀ next, p = .ask (.start .modulo) next → k.Divides c.words) ∧
    (∃ l rounds, (s.run (.sign hash key out) d).2.Rounds (Signature.schedule c.words) s.drawn l
        rounds ∧
      ((s.run (.sign hash key out) d).1 = .ready (.ok ()) → l = some [])) ∧
    ∀ (t : Session) (hash' key' out' : Bytes) (d' : Drive), t.curve = some c →
      t.engine.latency = s.engine.latency → s.SignsAtOnce hash key out d →
      t.SignsAtOnce hash' key' out' d' →
        let x := (s.run (.sign hash key out) d).2
        let y := (t.run (.sign hash' key' out') d').2
        x.trace.toList.map Invocation.outline = y.trace.toList.map Invocation.outline ∧
          x.engine.started - s.engine.started = y.engine.started - t.engine.started ∧
          x.polls = y.polls := by
  refine ⟨?_, rounds_sign hc hash key out d, ?_⟩
  · intro p k hpass
    have hr : (s.host (.sign hash key out)).Rounds (Signature.schedule c.words) s.drawn none [] :=
      ⟨rfl, rfl, by simp, by simp⟩
    obtain ⟨l, rounds, hp, hk⟩ := hpass.scheduled
      (Operation.scheduled_program s.settings hc hash key out) hr
    refine ⟨⟨l, rounds, hk⟩, ?_⟩
    rintro next rfl
    exact (hp.1 .modulo rfl).dividend rfl
  · intro t hash' key' out' d' ht hl hs hs' x y
    obtain ⟨hpx, hnx⟩ := hs.counts hc
    obtain ⟨hpy, hny⟩ := hs'.counts ht
    have hnx' : x.engine.started = s.engine.started + 15 := hnx
    have hny' : y.engine.started = t.engine.started + 15 := hny
    refine ⟨(hs.outlines hc).trans (hs'.outlines ht).symm, ?_, ?_⟩
    · omega
    · exact hpx.trans (hl ▸ hpy.symm)

theorem memory_delayed (s : Session) (latency : Nat) :
    (s.delayed latency).engine.memory = s.engine.memory := rfl

/-- a nonce that is accepted for the hash 3 and the key 2 of the small domain -/
theorem signsAtOnce_small {k : Nat} {v : Nat × Nat}
    (h : Signature.signed CurveData.small.values 6 3 2 [some (Bytes.ofNat 6 k)] none = .ok v)
    (hn : Signature.entries CurveData.small.values 6 3 2 [some (Bytes.ofNat 6 k)] none = 1) :
    ((small k).delayed 3).SignsAtOnce [3] (Bytes.ofNat 6 2) (blank none 48) .complete := by
  have hh : ([3] : Bytes) ≠ [] := by decide
  have hk : (Bytes.ofNat 6 2).length = NamedCurve.p192.elementBytes := Bytes.length_ofNat 6 2
  have ho : (blank none 48).length = 2 * NamedCurve.p192.elementBytes := by decide
  have hK : ((small k).delayed 3).engine.memory.constants NamedCurve.p192.words =
      CurveData.small.values := by
    rw [memory_delayed]
    exact constants_small k
  obtain ⟨h', -, hdrawn, hends, -⟩ := sign_delivers ((idle_small k).delayed 3) rfl hK rfl hh hk ho
  have he : Bytes.value (Bytes.fit NamedCurve.p192.elementBytes [3]) = 3 := by decide
  rw [he, Bytes.value_ofNat (by decide)] at hdrawn hends
  have hrun : ((small k).delayed 3).run (.sign [3] (Bytes.ofNat 6 2) (blank none 48)) .complete =
      (.ready (((Signature.signed CurveData.small.values 6 3 2 [some (Bytes.ofNat 6 k)] none).map
        fun v => [signatureBytes 6 v]).map fun _ => ()), h') := hends
  rw [h] at hrun
  refine ⟨congrArg Prod.fst hrun, ?_⟩
  rw [hrun]
  exact hdrawn.trans (congrArg _ hn)

/-- two nonces, on an engine with the latency 3 -/
theorem sign_schedule_small :
    ((small 1).delayed 3).curve = some .p192 ∧ ((small 2).delayed 3).curve = some .p192 ∧
      ((small 2).delayed 3).engine.latency = ((small 1).delayed 3).engine.latency ∧
      ((small 1).delayed 3).SignsAtOnce [3] (Bytes.ofNat 6 2) (blank none 48) .complete ∧
      ((small 2).delayed 3).SignsAtOnce [3] (Bytes.ofNat 6 2) (blank none 48) .complete ∧
      (((small 1).delayed 3).run (.sign [3] (Bytes.ofNat 6 2) (blank none 48)) .complete).2.polls =
        (((small 2).delayed 3).run (.sign [3] (Bytes.ofNat 6 2) (blank none 48))
          .complete).2.polls := by
  have h₁ := signsAtOnce_small signed_small_one (by decide_cbv)
  have h₂ := signsAtOnce_small signed_small_two (by decide_cbv)
  have h := sign_schedule (s := (small 1).delayed 3) rfl [3] (Bytes.ofNat 6 2) (blank none 48)
    .complete
  exact ⟨rfl, rfl, rfl, h₁, h₂, (h.2.2 ((small 2).delayed 3) _ _ _ _ rfl rfl h₁ h₂).2.2⟩

end Session
end CurveEngine
