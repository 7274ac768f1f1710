import CurveEngine.Proofs.Draws

/-!
# What rejection sampling computes

* `Sampling.orReject`   a pure computation whose retryable failures reject the draw;
* `Sampling.outcome`    the result of a run of draws, from the result of each round;
* `Sampling.consumed`   the entries of the source that such a run uses up;
* `Sampling.Concludes`  both in plain words: the source begins with rejected blocks, and then comes the
                        end of the run; `concludes_iff` says that there is one such end;
* `degenerate_computes`   the same for programs: a retryable failure ends the round;
* `sample_draws`        a run of draws computes its outcome, if each round computes its own from
                        whatever host the earlier rounds leave;
* `Sampling.Course`     the rounds of a run that ended, whatever they compute.
-/

namespace CurveEngine

namespace Sampling

variable {β δ : Type}

/-- a computation goes on with `g`; a retryable failure rejects the draw -/
def orReject (x : Except Failure β) (reason : Rejection)
    (g : β → Except Failure (Except Rejection δ)) : Except Failure (Except Rejection δ) :=
  match x with
  | .ok b => g b
  | .error e => if e.retryable then .ok (.error reason) else .error e

theorem orReject_eq_accept_iff {x : Except Failure β} {reason : Rejection}
    {g : β → Except Failure (Except Rejection δ)} {b : δ} :
    orReject x reason g = .ok (.ok b) ↔ ∃ a, x = .ok a ∧ g a = .ok (.ok b) := by
  cases x with
  | ok a =>
    constructor
    · intro h
      exact ⟨a, rfl, h⟩
    · intro h
      obtain ⟨_, ha, h⟩ := h
      cases ha
      exact h
  | error e =>
    constructor
    · intro h
      unfold orReject at h
      dsimp only at h
      split at h
      · cases h
      · cases h
    · intro h
      obtain ⟨_, ha, -⟩ := h
      cases ha

theorem reject_eq_accept_iff {q : Prop} [Decidable q] {reason : Rejection}
    {x : Except Failure (Except Rejection δ)} {b : δ} :
    (if q then .ok (.error reason) else x) = .ok (.ok b) ↔ ¬ q ∧ x = .ok (.ok b) := by
  by_cases h : q
  · rw [if_pos h]
    exact ⟨fun e => (by cases e), fun e => absurd h e.1⟩
  · rw [if_neg h]
    exact ⟨fun e => ⟨h, e⟩, fun e => e.2⟩

/-- the first accepted draw, as long as the source and the retry limit allow -/
def outcome (n : Nat) (round : Bytes → Except Failure (Except Rejection β)) :
    List Entry → Option Nat → Except Failure β
  | [], _ => .error .randomSource
  | entry :: rest, budget =>
    match entry.block? n with
    | none => .error .randomSource
    | some block =>
      match round block with
      | .error e => .error e
      | .ok (.ok b) => .ok b
      | .ok (.error _) =>
        match budget with
        | none => outcome n round rest none
        | some 0 => .error .retryLimit
        | some (k + 1) => outcome n round rest (some k)

/-- the entries of the source that are used up on the way to the outcome -/
def consumed (n : Nat) (round : Bytes → Except Failure (Except Rejection β)) :
    List Entry → Option Nat → Nat
  | [], _ => 0
  | entry :: rest, budget =>
    (match entry.block? n with
    | none => 0
    | some block =>
      match round block with
      | .error _ => 0
      | .ok (.ok _) => 0
      | .ok (.error _) =>
        match budget with
        | none => consumed n round rest none
        | some 0 => 0
        | some (k + 1) => consumed n round rest (some k)) + 1

theorem exists_of_outcome {n : Nat} {round : Bytes → Except Failure (Except Rejection β)}
    {source : List Entry} {budget : Option Nat} {b : β}
    (h : outcome n round source budget = .ok b) :
    ∃ block, block.length = n ∧ round block = .ok (.ok b) := by
  induction source generalizing budget with
  | nil => cases h
  | cons entry rest ih =>
    unfold outcome at h
    cases hb : entry.block? n with
    | none =>
      rw [hb] at h
      cases h
    | some block =>
      rw [hb] at h
      obtain ⟨-, hl⟩ := (entry.block?_eq_some_iff n block).mp hb
      rcases hr : round block with e | x | b'
      · simp only [hr] at h
        cases h
      · simp only [hr] at h
        rcases budget with - | - | k
        · exact ih h
        · cases h
        · exact ih h
      · simp only [hr] at h
        cases h
        exact ⟨block, hl, hr⟩

/-! ## The end of a run -/

/-- so many rejections are within the limit -/
def Allowed (limit : Option Nat) (k : Nat) : Prop := ∀ l, limit = some l → k ≤ l

section
variable (n : Nat) (accepts : Bytes → β → Prop) (aborts : Bytes → Failure → Prop)

/-- the block is neither accepted nor does it end the run -/
def Rejects (block : Bytes) : Prop :=
  block.length = n ∧ (∀ b, ¬ accepts block b) ∧ ∀ e, ¬ aborts block e

/-- how a run of draws of `n` bytes ends, and how many entries of the source it uses up: some blocks
are rejected first, then one of five things happens -/
inductive Concludes (limit : Option Nat) : List Entry → Except Failure β → Nat → Prop
  | accepted (before : List Bytes) {block : Bytes} (rest : List Entry) {b : β}
    (hb : ∀ x ∈ before, Rejects n accepts aborts x) (hl : Allowed limit before.length)
    (hn : block.length = n) (h : accepts block b) :
    Concludes limit (before.map some ++ some block :: rest) (.ok b) (before.length + 1)
  | aborted (before : List Bytes) {block : Bytes} (rest : List Entry) {e : Failure}
    (hb : ∀ x ∈ before, Rejects n accepts aborts x) (hl : Allowed limit before.length)
    (hn : block.length = n) (h : aborts block e) :
    Concludes limit (before.map some ++ some block :: rest) (.error e) (before.length + 1)
  /-- the draw fails, or gives another number of bytes -/
  | failing (before : List Bytes) {entry : Entry} (rest : List Entry)
    (hb : ∀ x ∈ before, Rejects n accepts aborts x) (hl : Allowed limit before.length)
    (h : entry.block? n = none) :
    Concludes limit (before.map some ++ entry :: rest) (.error .randomSource) (before.length + 1)
  /-- there is nothing left to draw -/
  | exhausted (before : List Bytes) (hb : ∀ x ∈ before, Rejects n accepts aborts x)
    (hl : Allowed limit before.length) :
    Concludes limit (before.map some) (.error .randomSource) before.length
  | limited (before : List Bytes) (rest : List Entry) {l : Nat}
    (hb : ∀ x ∈ before, Rejects n accepts aborts x) (hl : limit = some l)
    (hn : before.length = l + 1) :
    Concludes limit (before.map some ++ rest) (.error .retryLimit) (l + 1)

/-- what the verdicts on blocks are -/
structure Tells (verdict : Bytes → Except Failure (Except Rejection β)) : Prop where
  accepts_iff : ∀ block b, accepts block b ↔ verdict block = .ok (.ok b)
  aborts_iff : ∀ block e, aborts block e ↔ verdict block = .error e

variable {n accepts aborts} {limit : Option Nat} {source rest : List Entry}
  {before : List Bytes} {r : Except Failure β} {m : Nat} {x : Bytes}

theorem Concludes.cons (hx : Rejects n accepts aborts x)
    (h : Concludes n accepts aborts limit source r m) :
    Concludes n accepts aborts (limit.map (· + 1)) (some x :: source) r (m + 1) := by
  have hbs {before : List Bytes} (hb : ∀ y ∈ before, Rejects n accepts aborts y) :
      ∀ y ∈ x :: before, Rejects n accepts aborts y := List.forall_mem_cons.mpr ⟨hx, hb⟩
  have hls {k : Nat} (hl : Allowed limit k) : Allowed (limit.map (· + 1)) (k + 1) := by
    intro l h
    obtain ⟨l', rfl, rfl⟩ := Option.map_eq_some_iff.mp h
    exact Nat.succ_le_succ (hl l' rfl)
  cases h with
  | accepted before rest hb hl hn h => exact .accepted (x :: before) rest (hbs hb) (hls hl) hn h
  | aborted before rest hb hl hn h => exact .aborted (x :: before) rest (hbs hb) (hls hl) hn h
  | failing before rest hb hl h => exact .failing (x :: before) rest (hbs hb) (hls hl) h
  | exhausted before hb hl => exact .exhausted (x :: before) (hbs hb) (hls hl)
  | limited before rest hb hl hn =>
    exact .limited (x :: before) rest (hbs hb) (by rw [hl]; rfl) (congrArg (· + 1) hn)

section
variable {verdict : Bytes → Except Failure (Except Rejection β)} (ht : Tells accepts aborts verdict)
include ht

theorem Tells.rejects_iff : Rejects n accepts aborts x ↔
    x.length = n ∧ ∃ reason, verdict x = .ok (.error reason) := by
  unfold Rejects
  refine and_congr_right fun _ => ?_
  simp only [ht.accepts_iff, ht.aborts_iff]
  rcases verdict x with e | reason | b
  · exact ⟨fun h => absurd rfl (h.2 e), nofun⟩
  · exact ⟨fun _ => ⟨reason, rfl⟩, fun _ => ⟨nofun, nofun⟩⟩
  · exact ⟨fun h => absurd rfl (h.1 b), nofun⟩

theorem concludes_outcome (limit : Option Nat) (source : List Entry) :
    Concludes n accepts aborts limit source (outcome n verdict source limit)
      (consumed n verdict source limit) := by
  have h0 (limit : Option Nat) : Allowed limit 0 := fun l _ => Nat.zero_le l
  induction source generalizing limit with
  | nil => exact .exhausted [] nofun (h0 limit)
  | cons entry rest ih =>
    unfold outcome consumed
    cases hb : entry.block? n with
    | none => exact .failing [] rest nofun (h0 limit) hb
    | some block =>
      obtain ⟨rfl, hn⟩ := (entry.block?_eq_some_iff n block).mp hb
      rcases hv : verdict block with e | reason | b <;> simp only [hv]
      · exact .aborted [] rest nofun (h0 limit) hn ((ht.aborts_iff block e).mpr hv)
      · have hx : Rejects n accepts aborts block := ht.rejects_iff.mpr ⟨hn, reason, hv⟩
        rcases limit with - | - | k
        · exact (ih none).cons hx
        · exact .limited [block] rest (List.forall_mem_singleton.mpr hx) rfl rfl
        · exact (ih (some k)).cons hx
      · exact .accepted [] rest nofun (h0 limit) hn ((ht.accepts_iff block b).mpr hv)

theorem outcome_append (limit : Option Nat) (tail : List Entry)
    (hb : ∀ x ∈ before, Rejects n accepts aborts x) (hl : Allowed limit before.length) :
    outcome n verdict (before.map some ++ tail) limit =
        outcome n verdict tail (limit.map (· - before.length)) ∧
      consumed n verdict (before.map some ++ tail) limit =
        before.length + consumed n verdict tail (limit.map (· - before.length)) := by
  induction before generalizing limit with
  | nil => cases limit <;> simp
  | cons x before ih =>
    obtain ⟨hx, hb⟩ := List.forall_mem_cons.mp hb
    obtain ⟨hn, reason, hv⟩ := ht.rejects_iff.mp hx
    rw [List.map_cons, List.cons_append, outcome.eq_def, consumed.eq_def]
    simp only [Entry.block?_some hn, hv, List.length_cons]
    match limit, hl with
    | none, _ =>
      obtain ⟨h₁, h₂⟩ := ih none hb nofun
      exact ⟨h₁, by rw [h₂]; simp only [Option.map_none]; omega⟩
    | some 0, hl => exact absurd (hl 0 rfl) (Nat.not_succ_le_zero _)
    | some (k + 1), hl =>
      obtain ⟨h₁, h₂⟩ := ih (some k) hb fun l h =>
        Nat.le_of_succ_le_succ (hl (l + 1) (congrArg (Option.map (· + 1)) h))
      simp only [Option.map_some, Nat.add_sub_add_right] at h₁ h₂ ⊢
      exact ⟨h₁, by rw [h₂]; omega⟩

/-- **a run has one end**: what the source begins with decides the outcome and what is used up -/
theorem concludes_iff : Concludes n accepts aborts limit source r m ↔
    r = outcome n verdict source limit ∧ m = consumed n verdict source limit := by
  refine ⟨fun h => ?_, fun ⟨hr, hm⟩ => hr ▸ hm ▸ concludes_outcome ht limit source⟩
  cases h with
  | @accepted before block rest b hb hl hn h =>
    obtain ⟨h₁, h₂⟩ := outcome_append ht limit (some block :: rest) hb hl
    rw [h₁, h₂, outcome.eq_def, consumed.eq_def]
    constructor <;> simp only [Entry.block?_some hn, (ht.accepts_iff block b).mp h]
  | @aborted before block rest e hb hl hn h =>
    obtain ⟨h₁, h₂⟩ := outcome_append ht limit (some block :: rest) hb hl
    rw [h₁, h₂, outcome.eq_def, consumed.eq_def]
    constructor <;> simp only [Entry.block?_some hn, (ht.aborts_iff block e).mp h]
  | @failing before entry rest hb hl h =>
    obtain ⟨h₁, h₂⟩ := outcome_append ht limit (entry :: rest) hb hl
    rw [h₁, h₂, outcome.eq_def, consumed.eq_def]
    constructor <;> simp only [h]
  | exhausted before hb hl =>
    obtain ⟨h₁, h₂⟩ := outcome_append ht limit [] hb hl
    rw [List.append_nil] at h₁ h₂
    rw [h₁, h₂]
    exact ⟨rfl, rfl⟩
  | @limited before rest l hb hl hn =>
    subst hl
    obtain rfl | ⟨init, x, rfl⟩ := before.eq_nil_or_concat
    · cases hn
    rw [List.concat_eq_append] at hb hn ⊢
    have hi : init.length = l := by simpa using hn
    obtain ⟨hbi, hx⟩ := List.forall_mem_append.mp hb
    obtain ⟨hxl, reason, hv⟩ := ht.rejects_iff.mp (hx x (List.mem_singleton.mpr rfl))
    obtain ⟨h₁, h₂⟩ := outcome_append ht (some l) (some x :: rest) hbi
      fun l' h => by cases h; exact hi.le
    rw [List.map_append, List.map_singleton, List.append_assoc, List.singleton_append, h₁, h₂, hi,
      Option.map_some, Nat.sub_self, outcome.eq_def, consumed.eq_def]
    constructor <;> simp only [Entry.block?_some hxl, hv]

end
end

end Sampling

namespace Program

open Sampling

variable {α β γ δ : Type}

/-- two verdicts on a draw: both accept it, or both reject it for the same reason -/
def Verdict (post : α → β → Host → Prop) : Except Rejection α → Except Rejection β → Host → Prop
  | .ok a, .ok b, h => post a b h
  | .error x, .error y, _ => x = y
  | _, _, _ => False

theorem degenerate_computes {p : Program Unit} {h : Host} {o n o' n' : Nat} {x : Except Failure β}
    {post : Unit → β → Host → Prop} {reason : Rejection} {rest : Program (Except Rejection γ)}
    {g : β → Except Failure (Except Rejection δ)}
    {post' : Except Rejection γ → Except Rejection δ → Host → Prop}
    (hp : p.Computes h o' n' x post) (hs : Layout.Within o' n' o n)
    (hx : ∀ h', h.Writes h' o' n' → post' (.error reason) (.error reason) h')
    (hf : ∀ b h', h.Writes h' o' n' → post () b h' → rest.Computes h' o n (g b) post') :
    ((degenerate p).bind fun flag => if flag then done (.error reason) else rest).Computes h o n
      (orReject x reason g) post' := by
  obtain ⟨h', hw, hr⟩ := hp
  cases x with
  | ok b =>
    obtain ⟨_, he, hb⟩ := hr
    have hd : (degenerate p).Ends h (.ok false) h' := he.attempt.bind rfl
    exact .after hd (hw.mono hs) (hf b h' hw hb)
  | error e =>
    cases hret : e.retryable with
    | true =>
      have hx' : orReject (.error e) reason g = .ok (.error reason) := if_pos hret
      have hd : (degenerate p).Ends h (.ok true) h' := by
        refine Ends.bind (Ends.attempt hr) ?_
        show (if e.retryable = true then (done true : Program Bool) else fail e).Ends h' _ h'
        rw [if_pos hret]
        rfl
      rw [hx']
      exact .after hd (hw.mono hs) (.of_done hw.ready (hx h' hw))
    | false =>
      have hx' : orReject (.error e) reason g = .error e := if_neg (by rw [hret]; decide)
      have hd : (degenerate p).Ends h (.error e) h' := by
        refine Ends.bind (Ends.attempt hr) ?_
        show (if e.retryable = true then (done true : Program Bool) else fail e).Ends h' _ h'
        rw [if_neg (by rw [hret]; decide)]
        rfl
      rw [hx']
      exact .of_error (hd.bind_error _) (hw.mono hs)

/-- **draws**: if every round is candid and computes its verdict from any host in which `I` holds, and
cannot break `I`, then sampling computes its outcome -/
theorem sample_draws {I : Host → Prop} {o k n : Nat}
    {round : Bytes → Program (Except Rejection α)}
    {verdict : Bytes → Except Failure (Except Rejection β)} {post : α → β → Host → Prop}
    (hI : ∀ h h' : Host, h.Writes h' o k → I h → I h')
    (hround : ∀ h : Host, I h → ∀ block, block.length = n →
      (round block).Computes h o k (verdict block) (Verdict post))
    (hcandid : ∀ block, (round block).Candid)
    (source : List Entry) (budget : Option Nat) {h : Host} (hr : h.Ready) (hi : I h) :
    (sample n round source budget).Draws h o k (consumed n verdict source budget)
      (outcome n verdict source budget) post := by
  induction source generalizing budget h with
  | nil => exact .of_refuse hr
  | cons entry rest ih =>
    let h₁ : Host := { h with drawn := h.drawn + 1 }
    have r₁ : h₁.Ready := ⟨hr.powered, hr.idle⟩
    have w₁ : h.Writes h₁ o k := ⟨r₁, fun _ _ _ => rfl⟩
    have i₁ : I h₁ := hI h h₁ w₁ hi
    unfold sample outcome consumed
    refine .after ends_draw w₁ rfl rfl ?_
    cases hb : entry.block? n with
    | none => exact .of_refuse r₁
    | some block =>
      obtain ⟨-, hl⟩ := (entry.block?_eq_some_iff n block).mp hb
      obtain ⟨h₂, w₂, d₂, o₂, hx⟩ := Draws.of_computes (hround h₁ i₁ block hl) (hcandid block)
      have i₂ : I h₂ := hI h₁ h₂ w₂ i₁
      rcases hv : verdict block with e | x | b
      · rw [hv] at hx
        simp only [hv]
        exact .of_error (Ends.bind_error _ hx) w₂ d₂ o₂
      · rw [hv] at hx
        simp only [hv]
        obtain ⟨a, he, hp⟩ := hx
        rcases a with y | a
        · let h₃ : Host := { h₂ with log := h₂.log.push (.rejected y) }
          have r₃ : h₃.Ready := ⟨w₂.ready.powered, w₂.ready.idle⟩
          have w₃ : h₂.Writes h₃ o k := ⟨r₃, fun _ _ _ => rfl⟩
          have i₃ : I h₃ := hI h₂ h₃ w₃ i₂
          refine .after (k := 0) he w₂ d₂ o₂ (.after (k := 0) (ends_log _) w₃ rfl rfl ?_)
          rcases budget with - | - | j
          · exact ih none r₃ i₃
          · exact .of_refuse r₃
          · exact ih (some j) r₃ i₃
        · cases hp
      · rw [hv] at hx
        simp only [hv]
        obtain ⟨a, he, hp⟩ := hx
        rcases a with y | a
        · cases hp
        · exact .after (k := 0) he w₂ d₂ o₂ (.of_done w₂.ready hp)

end Program

namespace Sampling

open Program

/-! ## Rounds -/

section
variable {α : Type} (n : Nat) (round : Bytes → Program (Except Rejection α))

/-- a run of draws of `n` bytes as its rounds: those of `blocks` are rejected, one after the other, and
then it ends with `x`; before each round an entry of the source is used up, and a rejected round is
recorded -/
inductive Course : Option Nat → List Entry → Host → List Bytes → Except Failure α → Host → Prop
  | accepted {limit : Option Nat} {block : Bytes} {rest : List Entry} {h h' : Host} {a : α}
    (hb : block.length = n)
    (he : (round block).Ends { h with drawn := h.drawn + 1 } (.ok (.ok a)) h') :
    Course limit (some block :: rest) h [] (.ok a) h'
  | aborted {limit : Option Nat} {block : Bytes} {rest : List Entry} {h h' : Host} {e : Failure}
    (hb : block.length = n)
    (he : (round block).Ends { h with drawn := h.drawn + 1 } (.error e) h') :
    Course limit (some block :: rest) h [] (.error e) h'
  /-- the draw fails, or gives another number of bytes -/
  | failing {limit : Option Nat} {entry : Entry} {rest : List Entry} {h : Host}
    (hb : entry.block? n = none) :
    Course limit (entry :: rest) h [] (.error .randomSource)
      { h with drawn := h.drawn + 1, log := h.log.push .sourceFailed }
  | exhausted {limit : Option Nat} {h : Host} :
    Course limit [] h [] (.error .randomSource) { h with log := h.log.push .sourceFailed }
  /-- no further rejection is allowed -/
  | limited {block : Bytes} {rest : List Entry} {h k : Host} {reason : Rejection}
    (hb : block.length = n)
    (he : (round block).Ends { h with drawn := h.drawn + 1 } (.ok (.error reason)) k) :
    Course (some 0) (some block :: rest) h [block] (.error .retryLimit)
      { k with log := (k.log.push (.rejected reason)).push .retryLimit }
  | rejected {limit : Option Nat} {block : Bytes} {rest : List Entry} {h k h' : Host}
    {reason : Rejection} {blocks : List Bytes} {x : Except Failure α} (hb : block.length = n)
    (he : (round block).Ends { h with drawn := h.drawn + 1 } (.ok (.error reason)) k)
    (hl : limit ≠ some 0)
    (hr : Course (limit.map (· - 1)) rest { k with log := k.log.push (.rejected reason) } blocks x
      h') :
    Course limit (some block :: rest) h (block :: blocks) x h'

variable {n round}

/-- **a run of draws has a course** -/
theorem sample_course {source : List Entry} {limit : Option Nat} {h h' : Host}
    {x : Except Failure α} (he : (sample n round source limit).Ends h x h') :
    ∃ blocks, Course n round limit source h blocks x h' := by
  induction source generalizing limit h with
  | nil =>
    obtain ⟨rfl, rfl⟩ := (ends_refuse (h := h) .sourceFailed .randomSource).unique he
    exact ⟨[], .exhausted⟩
  | cons entry rest ih =>
    unfold sample at he
    have hround := ends_draw.rest he
    cases hb : entry.block? n with
    | none =>
      rw [hb] at hround
      obtain ⟨rfl, rfl⟩ := (ends_refuse .sourceFailed .randomSource).unique hround
      exact ⟨[], .failing hb⟩
    | some block =>
      obtain ⟨rfl, hl⟩ := (entry.block?_eq_some_iff n block).mp hb
      rw [hb] at hround
      rcases Ends.parts hround with ⟨e, rfl, hf⟩ | ⟨v, k, hv, hk⟩
      · exact ⟨[], .aborted hl hf⟩
      · rcases v with reason | a
        · have hrest := (ends_log _).rest hk
          rcases limit with - | - | l
          · obtain ⟨blocks, hc⟩ := ih hrest
            exact ⟨block :: blocks, .rejected hl hv (Option.some_ne_none 0).symm hc⟩
          · obtain ⟨rfl, rfl⟩ := (ends_refuse .retryLimit .retryLimit).unique hrest
            exact ⟨[block], .limited hl hv⟩
          · obtain ⟨blocks, hc⟩ := ih hrest
            exact ⟨block :: blocks, .rejected hl hv (by simp) hc⟩
        · obtain ⟨rfl, rfl⟩ := Ends.unique (p := done a) rfl hk
          exact ⟨[], .accepted hl hv⟩

theorem Course.exists_accepted {limit : Option Nat} {source : List Entry} {h h' : Host}
    {blocks : List Bytes} {a : α} (hc : Course n round limit source h blocks (.ok a) h') :
    ∃ block k, (round block).Ends k (.ok (.ok a)) h' := by
  generalize hx : (.ok a : Except Failure α) = x at hc
  induction hc with
  | accepted _ he =>
    cases hx
    exact ⟨_, _, he⟩
  | rejected _ _ _ _ ih => exact ih hx
  | _ => cases hx

end

end Sampling
end CurveEngine
