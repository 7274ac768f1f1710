import CurveEngine.Proofs.Records

/-!
# What programs draw

* `Program.Draws`      a program that computes and uses up some entries of the random source on its way;
* `Draws.of_computes`, `Draws.bind_ok`   what is `Candid` draws nothing;
* `Draws.delivers`     what is written behind such a program is the result, or the output buffers stay.

Only the loop around the rounds draws, one entry for each round.
-/

namespace CurveEngine.Program

variable {α β γ δ : Type} {p : Program α} {h : Host} {o n o' n' m k : Nat} {x : Except Failure β}
  {post : α → β → Host → Prop}

/-- arithmetic draws nothing, and writes to no output buffer -/
theorem Candid.ends (hp : p.Candid) {h' : Host} {r : Except Failure α} (he : p.Ends h r h') :
    h'.drawn = h.drawn ∧ h'.outputs = h.outputs := by
  obtain ⟨ms, ⟨ht, ho, -⟩, hm⟩ := Imprints.ends hp he
  exact ⟨by rw [hm.drawn, ht.drawn, Nat.add_zero], hm.outputs ho⟩

/-- the program computes, and uses up `m` entries of the random source -/
def Draws (p : Program α) (h : Host) (o n m : Nat) (x : Except Failure β)
    (post : α → β → Host → Prop) : Prop :=
  ∃ h', h.Writes h' o n ∧ h'.drawn = h.drawn + m ∧ h'.outputs = h.outputs ∧
    match x with
    | .ok b => ∃ a, p.Ends h (.ok a) h' ∧ post a b h'
    | .error e => p.Ends h (.error e) h'

namespace Draws

theorem of_computes (hp : p.Computes h o n x post) (ha : p.Candid) : p.Draws h o n 0 x post := by
  obtain ⟨h', hw, hx⟩ := hp
  cases x with
  | error e => exact ⟨h', hw, (ha.ends hx).1, (ha.ends hx).2, hx⟩
  | ok b =>
    obtain ⟨a, he, hb⟩ := hx
    exact ⟨h', hw, (ha.ends he).1, (ha.ends he).2, a, he, hb⟩

theorem of_error {e : Failure} {h' : Host} (he : p.Ends h (.error e) h') (hw : h.Writes h' o n)
    (hd : h'.drawn = h.drawn + m) (ho : h'.outputs = h.outputs) :
    p.Draws h o n m (.error e : Except Failure β) post := ⟨h', hw, hd, ho, he⟩

theorem of_done {a : α} {b : β} (hr : h.Ready) (hp : post a b h) :
    (done a).Draws h o n 0 (.ok b) post := ⟨h, .refl hr o n, rfl, rfl, a, rfl, hp⟩

theorem of_refuse {ev : Event} {e : Failure} (hr : h.Ready) :
    (refuse ev e : Program α).Draws h o n 0 (.error e : Except Failure β) post :=
  of_error (ends_refuse ev e) ⟨⟨hr.powered, hr.idle⟩, fun _ _ _ => rfl⟩ rfl rfl

/-- what follows a program that ended well -/
theorem after {a : α} {f : α → Program γ} {y : Except Failure δ} {post' : γ → δ → Host → Prop}
    {h' : Host} (he : p.Ends h (.ok a) h') (hw : h.Writes h' o n) (hd : h'.drawn = h.drawn + k)
    (ho : h'.outputs = h.outputs) (hf : (f a).Draws h' o n m y post') :
    (p.bind f).Draws h o n (m + k) y post' := by
  obtain ⟨h'', hw', hd', ho', hy⟩ := hf
  refine ⟨h'', hw.trans hw', by omega, ho'.trans ho, ?_⟩
  cases y with
  | error e => exact he.bind hy
  | ok d =>
    obtain ⟨c, hc, hpost⟩ := hy
    exact ⟨c, he.bind hc, hpost⟩

/-- arithmetic that cannot fail, followed by a program that draws -/
theorem bind_ok {b : β} {f : α → Program γ} {y : Except Failure δ} {post' : γ → δ → Host → Prop}
    (hp : p.Computes h o' n' (.ok b) post) (ha : p.Candid) (hs : Layout.Within o' n' o n)
    (hf : ∀ a h', h.Writes h' o' n' → post a b h' → (f a).Draws h' o n m y post') :
    (p.bind f).Draws h o n m y post' := by
  obtain ⟨h', hw, a, he, hb⟩ := hp
  exact after (k := 0) he (hw.mono hs) (ha.ends he).1 (ha.ends he).2 (hf a h' hw hb)

theorem mono (hp : p.Draws h o' n' m x post) (hs : Layout.Within o' n' o n) :
    p.Draws h o n m x post := by
  obtain ⟨h', hw, hx⟩ := hp
  exact ⟨h', hw.mono hs, hx⟩

/-- a program that draws, followed by what writes its result to the output buffers -/
theorem delivers {f : α → Program Unit} {outs : β → List Bytes} (hp : p.Draws h o n m x post)
    (hf : ∀ a b h', x = .ok b → h.Writes h' o n → post a b h' → h'.outputs = h.outputs →
      (f a).Ends h' (.ok ()) { h' with outputs := outs b }) :
    ∃ h', h.Writes h' o n ∧ h'.drawn = h.drawn + m ∧ (p.bind f).Delivers h (x.map outs) h' := by
  obtain ⟨h', hw, hd, ho, hx⟩ := hp
  cases x with
  | error e => exact ⟨h', hw, hd, hx.bind_error f, ho⟩
  | ok b =>
    obtain ⟨a, he, hb⟩ := hx
    exact ⟨{ h' with outputs := outs b }, ⟨⟨hw.ready.powered, hw.ready.idle⟩, hw.word⟩, hd,
      he.bind (hf a b h' rfl hw hb ho), rfl⟩

end Draws
end CurveEngine.Program
