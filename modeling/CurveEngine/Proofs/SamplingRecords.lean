import CurveEngine.Proofs.Causes

/-!
# What sampling draws and records

The course of a run of draws is followed round by round, with the host that each round ends in, so
nothing is asked of the words in memory.

* `Sampling.Accounts`      the entries of the source that a run uses up, against its rejected rounds
                           and the way it ends; `Accounts.reject` puts a rejected round in front;
* `Course.accounts`        a course draws, warns and records errors as it should;
* `Session.Samples`        the blocks of the rounds that an operation rejects, and how it ends;
* `Session.Keeps`          log, trace and random source after an operation that ended;
* `Session.sampling_records`   they agree, however the operation is run to its end.

The programs around the rounds are quiet, so `accounts_of_parts` says the same of both operations.
-/

namespace CurveEngine

open Program

namespace Sampling

/-! ## Entries of the source -/

/-- how a run of draws ends: the cause it fails with, or none -/
def cause? {α : Type} : Except Failure α → Option Failure
  | .ok _ => none
  | .error e => some e

/-- good draws against rejected rounds: one more for a result and for a round that fails, and as many
where the source fails or no rejection is left; nothing is drawn before any other failure -/
def Spends (limit : Option Nat) (rejected served : Nat) : Option Failure → Prop
  | none | some .failed => served = rejected + 1
  | some .retryLimit => served = rejected ∧ limit.map (· + 1) = some rejected
  | some _ => served = rejected

theorem Spends.reject {limit : Option Nat} {rejected served : Nat} {cause : Option Failure}
    (hl : limit ≠ some 0) (hs : Spends (limit.map (· - 1)) rejected served cause) :
    Spends limit (rejected + 1) (served + 1) cause := by
  cases cause with
  | none => exact congrArg (· + 1) hs
  | some e =>
    cases e with
    | retryLimit =>
      obtain ⟨hs, hlimit⟩ := hs
      refine ⟨congrArg (· + 1) hs, ?_⟩
      rcases limit with - | - | l
      · cases hlimit
      · exact absurd rfl hl
      · exact congrArg (Option.map (· + 1)) hlimit
    | _ => exact congrArg (· + 1) hs

/-- a source is used up like this by a run of draws of `n` bytes with so many rejected rounds and such
an end: first the entries `served`, then an entry that is of no use, if there is one -/
structure Accounts (n : Nat) (limit : Option Nat) (rejected : Nat) (cause : Option Failure)
    (source served : List Entry) (failed : Option Entry) (rest : List Entry) : Prop where
  parts : source = served ++ failed.toList ++ rest
  good : ∀ entry ∈ served, (entry.block? n).isSome = true
  /-- a failed draw is the last one, and the run fails with it -/
  bad : ∀ entry ∈ failed, entry.block? n = none ∧ cause = some .randomSource
  /-- otherwise the source fails where it has nothing left -/
  out : cause = some .randomSource → failed = none → rest = []
  spent : Spends limit rejected served.length cause
  within : ∀ l ∈ limit, served.length ≤ l + 1

namespace Accounts

variable {n rejected : Nat} {limit : Option Nat} {cause : Option Failure}
  {source served rest : List Entry} {failed : Option Entry} {block : Bytes}

theorem none_drawn (hs : Spends limit 0 0 cause) (ho : cause = some .randomSource → source = []) :
    Accounts n limit 0 cause source [] none source where
  parts := rfl
  good := nofun
  bad := nofun
  out h _ := ho h
  spent := hs
  within _ _ := Nat.zero_le _

theorem one_served (hb : block.length = n) (hs : Spends limit rejected 1 cause)
    (ho : cause ≠ some .randomSource) :
    Accounts n limit rejected cause (some block :: rest) [some block] none rest where
  parts := rfl
  good := List.forall_mem_singleton.mpr (by rw [Entry.block?_some hb]; rfl)
  bad := nofun
  out h _ := absurd h ho
  spent := hs
  within l _ := Nat.le_add_left 1 l

theorem one_failed {entry : Entry} (hb : entry.block? n = none) :
    Accounts n limit 0 (some .randomSource) (entry :: rest) [] (some entry) rest where
  parts := rfl
  good := nofun
  bad e he := by
    cases he
    exact ⟨hb, rfl⟩
  out _ h := nomatch h
  spent := rfl
  within _ _ := Nat.zero_le _

theorem reject (hb : block.length = n) (hl : limit ≠ some 0)
    (ha : Accounts n (limit.map (· - 1)) rejected cause source served failed rest) :
    Accounts n limit (rejected + 1) cause (some block :: source) (some block :: served) failed rest
    where
  parts := congrArg (some block :: ·) ha.parts
  good := List.forall_mem_cons.mpr ⟨by rw [Entry.block?_some hb]; rfl, ha.good⟩
  bad := ha.bad
  out := ha.out
  spent := ha.spent.reject hl
  within l h := by
    obtain rfl : limit = some l := h
    have hle := ha.within (l - 1) rfl
    have hpos : l ≠ 0 := fun h => hl (congrArg some h)
    rw [List.length_cons]
    omega

end Accounts

section
variable {α : Type} {n : Nat} {round : Bytes → Program (Except Rejection α)}

/-- **each rejected round has its warning and its draw**, and a failure has one record of an error -/
theorem Course.accounts (hround : ∀ block, (round block).Candid)
    {source : List Entry} {limit : Option Nat} {h h' : Host} {blocks : List Bytes}
    {x : Except Failure α} (hc : Course n round limit source h blocks x h') :
    ∃ served failed rest ms, Accounts n limit blocks.length (cause? x) source served failed rest ∧
      h.Marked ms h' ∧
      ms.Tallies blocks.length (failures x) (served.length + failed.toList.length) := by
  induction hc with
  | @accepted _ _ _ h _ a hb he =>
    obtain ⟨ms, ⟨ht, -⟩, hm⟩ := Imprints.ends (hround _) he
    exact ⟨_, none, _, _, .one_served hb rfl nofun, h.marked_draw.trans hm, .append .draw ht⟩
  | @aborted _ _ _ h _ e hb he =>
    obtain ⟨ms, ⟨ht, -, hf⟩, hm⟩ := Imprints.ends (hround _) he
    obtain rfl := hf _ rfl
    exact ⟨_, none, _, _, .one_served hb rfl nofun, h.marked_draw.trans hm, .append .draw ht⟩
  | @failing _ _ _ h hb =>
    exact ⟨[], _, _, _, .one_failed hb, h.marked_draw.trans (Host.marked_log _ _),
      .append .draw (.error rfl)⟩
  | @exhausted _ h =>
    exact ⟨[], none, [], _, .none_drawn rfl fun _ => rfl, h.marked_log _, .error rfl⟩
  | @limited _ _ h k reason hb he =>
    obtain ⟨ms, ⟨ht, -⟩, hm⟩ := Imprints.ends (hround _) he
    have hlog := (k.marked_log (.rejected reason)).trans (Host.marked_log _ .retryLimit)
    exact ⟨_, none, _, _, .one_served hb ⟨rfl, rfl⟩ nofun, (h.marked_draw.trans hm).trans hlog,
      (Marks.Tallies.draw.append ht).append (.append (.warning rfl) (.error rfl))⟩
  | @rejected _ _ _ h k _ reason _ _ hb he hl _ ih =>
    obtain ⟨ms, ⟨ht, -⟩, hm⟩ := Imprints.ends (hround _) he
    obtain ⟨served, failed, rest, ms', ha, hm', ht'⟩ := ih
    refine ⟨_, failed, rest, _, ha.reject hb hl,
      ((h.marked_draw.trans hm).trans (k.marked_log _)).trans hm', ?_⟩
    have hlog : Marks.Tallies [.log (.rejected reason)] 1 0 0 := .warning rfl
    convert ((Marks.Tallies.draw.append ht).append hlog).append ht' using 1 <;> simp [failures] <;>
      omega

/-- the same with quiet parts in front of the rounds and behind them -/
theorem accounts_of_parts {β : Type} (hround : ∀ block, (round block).Candid)
    {source : List Entry} {limit : Option Nat} {p : Program Unit} {f : α → Program β} (hp : p.Quiet)
    (hf : ∀ a, (f a).Quiet) {h h' : Host} {r : Except Failure β}
    (he : (p.bind fun _ => (sample n round source limit).bind f).Ends h r h') :
    ∃ k blocks x k', p.Ends h (.ok ()) k ∧ Course n round limit source k blocks x k' ∧
      cause? x = cause? r ∧ ∃ served failed rest ms,
        Accounts n limit blocks.length (cause? r) source served failed rest ∧ h.Marked ms h' ∧
        ms.Tallies blocks.length (failures r) (served.length + failed.toList.length) := by
  rcases Ends.parts he with ⟨e, -, hk⟩ | ⟨u, k, hk, he'⟩
  · obtain ⟨ms, hq, -⟩ := Imprints.ends hp hk
    cases hq.1
  obtain ⟨ms, hq, hm⟩ := Imprints.ends hp hk
  rcases Ends.parts he' with ⟨e, rfl, hk'⟩ | ⟨a, k', hk', hr'⟩
  · obtain ⟨blocks, hc⟩ := sample_course hk'
    obtain ⟨served, failed, rest, ms', ha, hm', ht⟩ := hc.accounts hround
    exact ⟨k, blocks, _, h', hk, hc, rfl, served, failed, rest, _, ha, hm.trans hm',
      ht.behind hq.2⟩
  · obtain ⟨blocks, hc⟩ := sample_course hk'
    obtain ⟨served, failed, rest, ms', ha, hm', ht⟩ := hc.accounts hround
    obtain ⟨ms'', ⟨hr, ht''⟩, hm''⟩ := Imprints.ends (hf a) hr'
    cases r with
    | error e => cases hr
    | ok b =>
      exact ⟨k, blocks, _, k', hk, hc, rfl, served, failed, rest, _, ha,
        (hm.trans hm').trans hm'', (ht.behind hq.2).append ht''⟩

end

end Sampling

/-! ## Operations -/

open Program Arithmetic Sampling

/-- what signing does in front of its first round -/
def Signature.opening (w : Nat) (hash privateKey : Bytes) : Program Unit :=
  (load w (Bytes.fit (4 * w) hash) Layout.Signing.hash).bind fun _ =>
    load w privateKey Layout.Signing.key

namespace Session

/-- run by the session, an operation that draws rejects the rounds with these blocks and then ends with
such a cause, or with none -/
inductive Samples (s : Session) : Operation → List Bytes → Option Failure → Prop
  | off {op : Operation} (hc : s.curve = none) : Samples s op [] (some .notEnabled)
  | unsized {op : Operation} {c : NamedCurve} (hc : s.curve = some c)
    (hn : ¬ op.Sized c.elementBytes) : Samples s op [] (some .wrongSize)
  | sign {c : NamedCurve} {hash key out : Bytes} {k k' : Host} {blocks : List Bytes}
    {x : Except Failure Unit} (hc : s.curve = some c)
    (hn : (Operation.sign hash key out).Sized c.elementBytes)
    (hk : (Signature.opening c.words hash key).Ends (s.host (.sign hash key out)) (.ok ()) k)
    (hx : Course c.elementBytes (Signature.attemptWith c.words) s.config.retryLimit
      (s.source.drop s.drawn) k blocks x k') : Samples s (.sign hash key out) blocks (cause? x)
  | generate {c : NamedCurve} {key publicKey : Bytes} {k' : Host} {blocks : List Bytes}
    {x : Except Failure Bytes} (hc : s.curve = some c)
    (hn : (Operation.generate key publicKey).Sized c.elementBytes)
    (hx : Course c.elementBytes (KeyAgreement.attemptWith c.words) s.config.retryLimit
      (s.source.drop s.drawn) (s.host (.generate key publicKey)) blocks x k') :
    Samples s (.generate key publicKey) blocks (cause? x)

/-- log, trace and random source behind an operation with so many warnings, errors and entries used up;
every function that the engine has started is in the trace and in the log -/
structure Keeps (s : Session) (h : Host) (warnings errors draws : Nat) : Prop where
  traced : h.records .trace = h.trace.size
  started : h.engine.started = s.engine.started + h.trace.size
  warned : h.records .warn = warnings
  erred : h.records .error = errors
  drawn : h.drawn = s.drawn + draws

variable {s : Session} {op : Operation}

theorem keeps_of_marked {h : Host} {ms : Marks} {w e d : Nat} (hm : (s.host op).Marked ms h)
    (ht : ms.Tallies w e d) : s.Keeps h w e d := by
  -- log and trace are empty at the start
  have hrecords (l : Level) : h.records l = ms.records l :=
    (hm.records l).trans (Nat.zero_add _)
  have hsize : h.trace.size = ms.functions := hm.trace.trans (Nat.zero_add _)
  refine ⟨?_, ?_, ?_, ?_, ?_⟩
  · rw [hrecords, hsize, ht.traced]
  · rw [hm.started, hsize]
    rfl
  · rw [hrecords, ht.warned]
  · rw [hrecords, ht.erred]
  · rw [hm.drawn, ht.drawn]
    rfl

theorem program_sign {c : NamedCurve} (hc : s.curve = some c) {hash key out : Bytes}
    (hn : (Operation.sign hash key out).Sized c.elementBytes) :
    (Operation.sign hash key out).program s.settings =
      (Signature.opening c.words hash key).bind fun _ =>
        (sample c.elementBytes (Signature.attemptWith c.words) (s.source.drop s.drawn)
          s.config.retryLimit).bind fun _ => (fetch c.words Layout.Signing.r 0 0).bind fun _ =>
            fetch c.words Layout.Signing.s 0 (4 * c.words) := by
  rw [program_eq_work hc _ hn]
  simp only [Operation.work, Signature.sign, Signature.draft, Signature.opening, bind_eq,
    Program.bind_assoc]
  rfl

theorem program_generate {c : NamedCurve} (hc : s.curve = some c) {key publicKey : Bytes}
    (hn : (Operation.generate key publicKey).Sized c.elementBytes) :
    (Operation.generate key publicKey).program s.settings =
      (done ()).bind fun _ =>
        (sample c.elementBytes (KeyAgreement.attemptWith c.words) (s.source.drop s.drawn)
          s.config.retryLimit).bind fun key =>
            (output ⟨0, 0, 4 * c.words⟩ (.bytes key)).bind fun _ =>
              fetchPoint c.words Layout.KeyPair.publicKey 1 := by
  rw [program_eq_work hc _ hn]
  rfl

theorem records_of_refuse {ev : Event} {e : Failure} (hev : ev.level = .error)
    (hp : op.program s.settings = refuse ev e) (hspent : Spends s.config.retryLimit 0 0 (some e))
    (hrandom : e ≠ .randomSource) {r : Except Failure Unit} {h : Host}
    (he : (op.program s.settings).Ends (s.host op) r h) :
    r = .error e ∧ Accounts s.elementBytes s.config.retryLimit 0 (cause? r)
      (s.source.drop s.drawn) [] none (s.source.drop s.drawn) ∧ s.Keeps h 0 (failures r) 0 := by
  rw [hp] at he
  obtain ⟨rfl, rfl⟩ := (ends_refuse (h := s.host op) ev e).unique he
  exact ⟨rfl, .none_drawn hspent fun h => absurd (Option.some.inj h) hrandom,
    keeps_of_marked ((s.host op).marked_log ev) (.error hev)⟩

theorem records_of_ends (hop : op.Draws) {r : Except Failure Unit} {h : Host}
    (he : (op.program s.settings).Ends (s.host op) r h) :
    ∃ blocks served failed rest, s.Samples op blocks (cause? r) ∧
      Accounts s.elementBytes s.config.retryLimit blocks.length (cause? r)
        (s.source.drop s.drawn) served failed rest ∧
      s.Keeps h blocks.length (failures r) (served.length + failed.toList.length) := by
  cases hc : s.curve with
  | none =>
    obtain ⟨rfl, ha, hk⟩ := records_of_refuse rfl (program_of_not_enabled hc) rfl nofun he
    exact ⟨[], [], none, _, .off hc, ha, hk⟩
  | some c =>
    have hbytes : s.elementBytes = c.elementBytes := by rw [elementBytes, hc]
    by_cases hn : op.Sized c.elementBytes
    · rw [hbytes]
      cases op with
      | sign hash key out =>
        rw [program_sign hc hn] at he
        obtain ⟨k, blocks, x, k', hk, hx, hcause, served, failed, rest, ms, ha, hm, ht⟩ :=
          accounts_of_parts (Signature.candid_attemptWith c.words)
            (.bind (.of_leaves (leaves_load _ _ _) .nil) fun _ => .of_leaves (leaves_load _ _ _) .nil)
            (fun _ => .of_closing (.bind (closing_fetch _ _ _ _) fun _ => closing_fetch _ _ _ _)) he
        exact ⟨blocks, served, failed, rest, hcause ▸ .sign hc hn hk hx, ha,
          keeps_of_marked hm ht⟩
      | generate key publicKey =>
        rw [program_generate hc hn] at he
        obtain ⟨k, blocks, x, k', hk, hx, hcause, served, failed, rest, ms, ha, hm, ht⟩ :=
          accounts_of_parts (p := done ()) (KeyAgreement.candid_attemptWith c.words) (.of_done ())
            (fun _ => .of_closing (.bind (closing_output _ _) fun _ => closing_fetchPoint _ _ _)) he
        obtain ⟨-, rfl⟩ := Ends.unique (p := done ()) rfl hk
        exact ⟨blocks, served, failed, rest, hcause ▸ .generate hc hn hx, ha,
          keeps_of_marked hm ht⟩
      | _ => exact hop.elim
    · obtain ⟨ev, hev, hp⟩ := Operation.refusal_of_not_sized (s := s.settings) hc hn
      obtain ⟨rfl, ha, hk⟩ := records_of_refuse hev hp rfl nofun he
      exact ⟨[], [], none, _, .unsized hc hn, ha, hk⟩

/-- **log, trace and random source agree** in the operations that draw, whatever is in memory and
whatever the random source gives.  On an idle engine such an operation ends, and however it is run to
its end, each function has its record, each rejected round has a warning, and a failure has one record
of an error.  For a result, and for a round that fails, one draw more is good than rounds are rejected;
if the source fails or no rejection is left, as many are, and in the first case nothing is drawn
afterwards. -/
theorem sampling_records (hs : s.Idle) (hop : op.Draws) :
    (∃ r, (s.run op .complete).1 = .ready r) ∧
      ∀ d, (s.run op d).1.settled = true → ∃ r blocks served failed rest,
        (s.run op d).1 = .ready r ∧ s.Samples op blocks (cause? r) ∧
        Accounts s.elementBytes s.config.retryLimit blocks.length (cause? r)
          (s.source.drop s.drawn) served failed rest ∧
        s.Keeps (s.run op d).2 blocks.length (failures r)
          (served.length + failed.toList.length) := by
  obtain ⟨r, h, hr, -⟩ := complete_of_idle hs op
  have hready : (s.run op .complete).1 = .ready r := congrArg Prod.fst hr
  refine ⟨⟨r, hready⟩, fun d hd => ?_⟩
  obtain ⟨blocks, served, failed, rest, hrounds, ha, hk⟩ :=
    records_of_ends hop (ends_of_run hready)
  rw [run_of_settled hd]
  exact ⟨r, blocks, served, failed, rest, hready, hrounds, ha, hk⟩

/-- the only block is out of range, and no rejection is allowed -/
theorem sampling_records_limited :
    let op : Operation := .sign [1] (List.replicate 24 1) (List.replicate 48 0)
    limited.Idle ∧ op.Draws ∧ (limited.run op .complete).1 = .ready (.error .retryLimit) ∧
      (∃ block, limited.Samples op [block] (some .retryLimit)) ∧
      limited.Keeps (limited.run op .complete).2 1 1 1 := by
  intro op
  have hs : limited.Idle := ⟨rfl, rfl⟩
  have hop : op.Draws := trivial
  obtain ⟨r, blocks, served, failed, rest, hr, hrounds, ha, hk⟩ :=
    (sampling_records hs hop).2 .complete (settled_finish _ _)
  have ho : outcome (limited.run op .complete).1 = .ok (.failed .retryLimit) := by decide +kernel
  rw [hr] at ho
  obtain rfl : r = .error .retryLimit := by
    cases r <;> cases ho
    rfl
  obtain ⟨hserved, hlimit⟩ : served.length = blocks.length ∧ some 1 = some blocks.length := ha.spent
  have hone : blocks.length = 1 := (Option.some.inj hlimit).symm
  -- a failed draw would have been the cause
  obtain rfl : failed = none := by
    cases failed with
    | none => rfl
    | some entry => cases (ha.bad entry rfl).2
  rw [hserved, hone] at hk
  obtain ⟨block, rfl⟩ := List.length_eq_one_iff.mp hone
  exact ⟨hs, hop, hr, ⟨block, hrounds⟩, hk⟩

end Session
end CurveEngine
