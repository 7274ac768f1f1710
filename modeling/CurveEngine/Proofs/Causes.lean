import CurveEngine.Proofs.Latency
import CurveEngine.Proofs.Stages

/-!
# The causes an operation can fail with

* `Operation.cause_of_ends`   an operation with the right lengths fails for one of its causes, over all
                              words in memory;
* `Session.TurnsAway`      an operation that is over before anything happens;
* `Session.operate_failures`   which answer fails with which cause.
-/

namespace CurveEngine

open Program

namespace Operation

/-- the operation draws from the random source -/
def Draws : Operation → Prop
  | sign _ _ _ | generate _ _ => True
  | _ => False

theorem Causes.cases {op : Operation} {retryLimit : Option Nat} {e : Failure}
    (h : op.Causes retryLimit e) : e = .failed ∨ op.Draws ∧
      (e = .randomSource ∨ e = .retryLimit ∧ retryLimit.isSome = true) := by
  cases op with
  | compress | decompress => exact h.elim
  | validate | verify | agree => exact .inl h
  | sign | generate => exact h.imp_right fun h => ⟨trivial, h⟩

/-- **no signal between the parts of an operation gets out of it**, whatever is in memory -/
theorem cause_of_ends {s : Settings} {c : NamedCurve} (hc : s.curve = some c) {op : Operation}
    (hn : op.Sized c.elementBytes) {h h' : Host} {e : Failure}
    (he : (op.program s).Ends h (.error e) h') : op.Causes s.retryLimit e := by
  obtain ⟨α, p, χ, f, hw, hp, hf⟩ := exists_stages s c hn
  rw [program_of_sized hc hn, hw] at he
  obtain ⟨e', h₁, hp'⟩ | ⟨a, k, hp', hf'⟩ := he.parts
  · cases h₁
    exact (hp.ends hp').2
  · cases (hf a (hp.ends hp').2).1.isOk_of_ends hf'

end Operation

/-! ## Sessions -/

namespace Session

variable {s : Session} {op : Operation}

/-- polled at all, the operation fails with `e` at once: nothing is started, drawn or written -/
def TurnsAway (s : Session) (op : Operation) (e : Failure) : Prop :=
  ∀ d : Drive, d.limit ≠ some 0 → ∃ x, s.operate op d = (s, .ok x) ∧ x.outcome = .failed e ∧
    x.buffers = op.buffers ∧ x.trace = []

theorem turnsAway_of_refuse {ev : Event} {e : Failure}
    (h : op.program s.settings = refuse ev e) : s.TurnsAway op e := by
  intro d hd
  have hr : s.run op d = (.ready (.error e), { s.host op with log := #[ev] }) := by
    unfold run drive
    rw [h]
    match hl : d.limit with
    | none => rfl
    | some 0 => exact absurd hl hd
    | some (n + 1) => rfl
  unfold operate
  rw [hr]
  exact ⟨_, rfl, rfl, rfl, rfl⟩

theorem ends_of_operate {d : Drive} {x : Answer} {e : Failure} (hx : (s.operate op d).2 = .ok x)
    (he : x.outcome = .failed e) :
    (op.program s.settings).Ends (s.host op) (.error e) (s.run op d).2 := by
  refine ends_of_run ?_
  unfold operate at hx
  rcases hr : s.run op d with ⟨(e' | u) | rest | f, h'⟩ <;> rw [hr] at hx <;> cases hx <;> cases he
  rfl

/-- what an answer fails with is decided by curve, lengths and operation, in this order -/
theorem cause_cases {d : Drive} {x : Answer} {e : Failure} (hx : (s.operate op d).2 = .ok x)
    (he : x.outcome = .failed e) :
    (s.curve = none ∧ e = .notEnabled) ∨ ∃ c, s.curve = some c ∧
      ((¬ op.Sized c.elementBytes ∧ e = .wrongSize) ∨
        (op.Sized c.elementBytes ∧ op.Causes s.config.retryLimit e)) := by
  have hr := ends_of_operate hx he
  have hrefused {ev : Event} {e' : Failure} (h : op.program s.settings = refuse ev e') :
      e = e' := by
    rw [h] at hr
    exact Except.error.inj (hr.unique (ends_refuse ev e')).1
  cases hc : s.curve with
  | none => exact .inl ⟨rfl, hrefused (program_of_not_enabled hc)⟩
  | some c =>
    refine .inr ⟨c, rfl, ?_⟩
    by_cases h : op.Sized c.elementBytes
    · exact .inr ⟨h, Operation.cause_of_ends hc h hr⟩
    · obtain ⟨ev, hp⟩ := Operation.program_of_not_sized (s := s.settings) hc h
      exact .inl ⟨h, hrefused hp⟩

theorem answers_of_unfailing (hs : s.Idle)
    (h : ∀ e k, ¬ (op.program s.settings).Ends (s.host op) (.error e) k) :
    ∃ outs, s.Answers op (.ok outs) := by
  obtain ⟨r, k, hr, -, -⟩ := complete_of_idle hs op
  have he := ends_of_run (congrArg Prod.fst hr)
  cases r with
  | error e => exact absurd he (h e _)
  | ok u => exact ⟨_, answers_of_delivers (r := .ok _) ⟨he, rfl⟩⟩

/-- **how operations fail**, whatever is in memory.  Without a curve, and with a buffer of a wrong
length or an empty hash, they are turned away and nothing else happens.  No answer fails with a zero
result or a point at infinity; the random source and the retry limit are causes for operations that
draw only, and the retry limit only if there is one.  With all lengths right, decompressing never
fails and has a result whenever the engine is idle, and validating, verifying and agreeing fail
plainly. -/
theorem operate_failures (s : Session) (op : Operation) :
    (s.curve = none → s.TurnsAway op .notEnabled) ∧
    (∀ c, s.curve = some c → ¬ op.Sized c.elementBytes → s.TurnsAway op .wrongSize) ∧
    (∀ d x e, (s.operate op d).2 = .ok x → x.outcome = .failed e →
      e ≠ .zeroResult ∧ e ≠ .infinity ∧ (e = .randomSource ∨ e = .retryLimit → op.Draws) ∧
        (e = .retryLimit → s.config.retryLimit.isSome = true) ∧
        ∀ c, s.curve = some c → op.Sized c.elementBytes → op.Causes s.config.retryLimit e) ∧
    ∀ c compressed out, s.curve = some c → op = .decompress compressed out →
      op.Sized c.elementBytes → s.Idle → ∃ outs, s.Answers op (.ok outs) := by
  refine ⟨fun hc => turnsAway_of_refuse (program_of_not_enabled hc), fun c hc hn => ?_,
    fun d x e hx he => ?_, fun c compressed out hc hop hn hs => ?_⟩
  · obtain ⟨ev, hp⟩ := Operation.program_of_not_sized (s := s.settings) hc hn
    exact turnsAway_of_refuse hp
  · rcases cause_cases hx he with ⟨hc, rfl⟩ | ⟨c, hc, ⟨hn, rfl⟩ | ⟨hn, ho⟩⟩
    · exact ⟨nofun, nofun, nofun, nofun, fun c hc' => by rw [hc] at hc'; cases hc'⟩
    · refine ⟨nofun, nofun, nofun, nofun, fun c' hc' hn' => absurd hn' ?_⟩
      rw [hc] at hc'
      cases hc'
      exact hn
    · rcases ho.cases with rfl | ⟨hd, rfl | ⟨rfl, hl⟩⟩
      · exact ⟨nofun, nofun, nofun, nofun, fun _ _ _ => ho⟩
      · exact ⟨nofun, nofun, fun _ => hd, nofun, fun _ _ _ => ho⟩
      · exact ⟨nofun, nofun, fun _ => hd, fun _ => hl, fun _ _ _ => ho⟩
  · subst hop
    exact answers_of_unfailing hs fun e k he => Operation.cause_of_ends hc hn he

/-- P-192 with a random source that gives one unusable nonce, where no draw may be rejected -/
def limited : Session :=
  { fresh with config := { retryLimit := some 0 }, source := [some (List.replicate 24 0xff)] }

theorem operate_failures_limited :
    (new 2 {} []).TurnsAway (.sign [] [] []) .notEnabled ∧
      limited.TurnsAway (.sign [] [] []) .wrongSize ∧
      (∃ x, (limited.operate (.sign [1] (List.replicate 24 1) (List.replicate 48 0)) .complete).2 =
          .ok x ∧ x.outcome = .failed .retryLimit ∧ limited.config.retryLimit.isSome = true) ∧
      ∃ outs, limited.Answers (.decompress (List.replicate 25 2) (List.replicate 48 0))
        (.ok outs) := by
  have hr : ((limited.operate
      (.sign [1] (List.replicate 24 1) (List.replicate 48 0)) .complete).2.toOption.map
        Answer.outcome) = some (.failed .retryLimit) := by decide +kernel
  rcases hx : (limited.operate
    (.sign [1] (List.replicate 24 1) (List.replicate 48 0)) .complete).2 with f | x
  · rw [hx] at hr
    cases hr
  rw [hx] at hr
  have he : x.outcome = .failed .retryLimit := Option.some.inj hr
  exact ⟨(operate_failures (new 2 {} []) _).1 rfl,
    (operate_failures limited _).2.1 .p192 rfl fun h => h.1 rfl,
    ⟨x, rfl, he, ((operate_failures limited _).2.2.1 .complete x _ hx he).2.2.2.1 rfl⟩,
    (operate_failures limited _).2.2.2 .p192 _ _ rfl rfl ⟨rfl, rfl⟩ ⟨rfl, rfl⟩⟩

end Session
end CurveEngine
