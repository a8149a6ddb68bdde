import OrgForest.Proofs.Program.Disturbed

/-!
# What programs ask for

Whatever a program is answered, it asks the store for calls of certain kinds only. That is a property
of the program alone, and in disturbed surroundings it says which of the moments of a run are the
program's own: the rest is what others do.

* `Program.Asks`, `Action.Asks` — the calls that may be asked for, and what is built of such;
* `Action.Asks.leads` — what a run adds to the history;
* `Action.Reaches` — calls of certain kinds only, up to a point from which on it is another action;
* `Program.ReadOnly.names` — look-ups bring in no ids.
-/

namespace OrgForest

/-! ## Programs -/

/-- Whatever it is answered, the program asks the store for nothing but the calls given. -/
inductive Program.Asks {α : Type} (R : StoreCall → Prop) : Program α → Prop where
  | done (a : α) : Asks R (.done a)
  | store {c : StoreCall} {next : Except StoreError c.Answer → Program α} (hc : R c)
      (hnext : ∀ reply, Asks R (next reply)) : Asks R (.store c next)
  | provision {o : Organization} {next : Except OrganizationError TenantBinding → Program α}
      (hnext : ∀ reply, Asks R (next reply)) : Asks R (.provision o next)
  | permissions {id : String} {next : Except OrganizationError (List String) → Program α}
      (hnext : ∀ reply, Asks R (next reply)) : Asks R (.permissions id next)
  | horizon {next : Nat → Program α} (hnext : ∀ n, Asks R (next n)) : Asks R (.horizon next)

/-- The program asks for nothing but the calls given until it goes on as one of those programs. -/
inductive Program.Reaches {α : Type} (R : StoreCall → Prop) (E : Program α → Prop) :
    Program α → Prop where
  | here {p : Program α} (hp : E p) : Reaches R E p
  | store {c : StoreCall} {next : Except StoreError c.Answer → Program α} (hc : R c)
      (hnext : ∀ reply, Reaches R E (next reply)) : Reaches R E (.store c next)
  | provision {o : Organization} {next : Except OrganizationError TenantBinding → Program α}
      (hnext : ∀ reply, Reaches R E (next reply)) : Reaches R E (.provision o next)
  | permissions {id : String} {next : Except OrganizationError (List String) → Program α}
      (hnext : ∀ reply, Reaches R E (next reply)) : Reaches R E (.permissions id next)
  | horizon {next : Nat → Program α} (hnext : ∀ n, Reaches R E (next n)) :
      Reaches R E (.horizon next)

namespace Program

variable {α β : Type} {R R' : StoreCall → Prop} {p : Program α}

theorem Asks.bind {f : α → Program β} (hp : p.Asks R) (hf : ∀ a, (f a).Asks R) :
    (p.bind f).Asks R := by
  induction hp with
  | done a => exact hf a
  | store hc _ ih => exact .store hc ih
  | provision _ ih => exact .provision ih
  | permissions _ ih => exact .permissions ih
  | horizon _ ih => exact .horizon ih

theorem Asks.mono (hp : p.Asks R) (h : ∀ c, R c → R' c) : p.Asks R' := by
  induction hp with
  | done a => exact .done a
  | store hc _ ih => exact .store (h _ hc) ih
  | provision _ ih => exact .provision ih
  | permissions _ ih => exact .permissions ih
  | horizon _ ih => exact .horizon ih

theorem asks_any (p : Program α) : p.Asks fun _ => True := by
  induction p with
  | done a => exact .done a
  | store c next ih => exact .store trivial ih
  | provision o next ih => exact .provision ih
  | permissions id next ih => exact .permissions ih
  | horizon next ih => exact .horizon ih

/-- What holds of the calls for each of several reasons holds for all of them at once. -/
theorem asks_forall {ι : Type} {R : ι → StoreCall → Prop} (h : ∀ i, p.Asks (R i)) :
    p.Asks fun c => ∀ i, R i c := by
  induction p with
  | done a => exact .done a
  | store c next ih =>
    refine .store (fun i => ?_) fun reply => ih reply fun i => ?_
    · cases h i with
      | store hc _ => exact hc
    · cases h i with
      | store _ hnext => exact hnext reply
  | provision o next ih =>
    refine .provision fun reply => ih reply fun i => ?_
    cases h i with
    | provision hnext => exact hnext reply
  | permissions id next ih =>
    refine .permissions fun reply => ih reply fun i => ?_
    cases h i with
    | permissions hnext => exact hnext reply
  | horizon next ih =>
    refine .horizon fun n => ih n fun i => ?_
    cases h i with
    | horizon hnext => exact hnext n

theorem ReadOnly.asks (hp : p.ReadOnly) : p.Asks fun c => c.isWrite = false := by
  induction hp with
  | done a => exact .done a
  | store hread _ ih => exact .store hread ih
  | permissions _ ih => exact .permissions ih
  | horizon _ ih => exact .horizon ih

theorem Asks.reaches_bind {E : Program β → Prop} {f : α → Program β} (hp : p.Asks R)
    (hf : ∀ a, (f a).Reaches R E) : (p.bind f).Reaches R E := by
  induction hp with
  | done a => exact hf a
  | store hc _ ih => exact .store hc ih
  | provision _ ih => exact .provision ih
  | permissions _ ih => exact .permissions ih
  | horizon _ ih => exact .horizon ih

/-- A run comes to one of the programs given, and on the way others act and the calls given are
made. -/
theorem Reaches.leads {E : Program α → Prop} (hp : p.Reaches R E) (d : Disturbed) :
    ∃ q e new, E q ∧ d.Leads new e ∧ (∀ m ∈ new, m.Fits R) ∧
      p.run Disturbed.environment d = q.run Disturbed.environment e := by
  -- only calls to the store leave a trace, so the other steps keep the history of the rest
  induction hp generalizing d with
  | @here p hp => exact ⟨p, d, [], hp, .refl d, by simp, rfl⟩
  | @store c next hc _ ih =>
    obtain ⟨before, hcall, hothers⟩ := Disturbed.leads_call c d
    obtain ⟨q, e, after, hq, hrest, hfits, hrun⟩ := ih (Disturbed.environment.store c d).1
      (Disturbed.environment.store c d).2
    refine ⟨q, e, _, hq, hcall.trans hrest, fun m hm => ?_, hrun⟩
    rcases List.mem_append.1 hm with hm | hm
    · exact Disturbed.fits_of_call hothers hc m hm
    · exact hfits m hm
  | provision _ ih => exact ih _ d
  | permissions _ ih => exact ih _ d
  | horizon _ ih => exact ih _ d

/-- What a run adds to the history: the program's own calls, and what others do in between. -/
theorem Asks.leads (hp : p.Asks R) (d : Disturbed) :
    ∃ new, d.Leads new (p.run Disturbed.environment d).2 ∧ ∀ m ∈ new, m.Fits R := by
  -- a run to the end is one up to a program that is done
  have hend : (p.bind .done).Reaches R fun q => ∃ a, q = .done a :=
    hp.reaches_bind fun a => .here ⟨a, rfl⟩
  rw [bind_done] at hend
  obtain ⟨q, e, new, ⟨a, rfl⟩, hleads, hfits, hrun⟩ := hend.leads d
  refine ⟨new, ?_, hfits⟩
  rw [hrun]
  exact hleads

end Program

/-! ## Actions -/

namespace Action

variable {α β : Type} {R R' : StoreCall → Prop} {a : Action α} {f : α → Action β}

/-- Whatever it is answered, the action asks the store for nothing but the calls given. -/
def Asks (R : StoreCall → Prop) (a : Action α) : Prop := Program.Asks R (ExceptT.run a)

theorem asks_pure (x : α) : (pure x : Action α).Asks R := .done _

theorem asks_throw (e : OrganizationError) : (throw e : Action α).Asks R := .done _

theorem asks_call {c : StoreCall} (hc : R c) : (call c).Asks R :=
  .store hc fun _ => .done _

theorem asks_ofExcept (outcome : Except OrganizationError α) :
    Asks R (MonadExcept.ofExcept outcome : Action α) := by
  cases outcome <;> exact .done _

theorem asks_forall {ι : Type} {R : ι → StoreCall → Prop} (h : ∀ i, a.Asks (R i)) :
    a.Asks fun c => ∀ i, R i c :=
  Program.asks_forall h

theorem ReadOnly.asks (ha : a.ReadOnly) : a.Asks fun c => c.isWrite = false :=
  Program.ReadOnly.asks ha

namespace Asks

theorem bind (ha : a.Asks R) (hf : ∀ x, (f x).Asks R) : (a >>= f).Asks R := by
  refine Program.Asks.bind ha fun outcome => ?_
  cases outcome with
  | ok x => exact hf x
  | error e => exact .done _

theorem attempt (ha : a.Asks R) : a.attempt.Asks R :=
  Program.Asks.bind ha fun _ => .done _

theorem mono (ha : a.Asks R) (h : ∀ c, R c → R' c) : a.Asks R' := Program.Asks.mono ha h

theorem rounds {σ : Type} {round : σ → Action (σ ⊕ α)} (hround : ∀ s, (round s).Asks R)
    (horizon : Nat) : ∀ (n : Nat) (start : σ), (rounds horizon round n start).Asks R
  | 0, _ => asks_throw _
  | n + 1, start => by
    refine (hround start).bind fun next => ?_
    cases next with
    | inl s => exact rounds hround horizon n s
    | inr a => exact asks_pure a

theorem iterate {σ : Type} {round : σ → Action (σ ⊕ α)} (hround : ∀ s, (round s).Asks R)
    (start : σ) : (iterate round start).Asks R :=
  .horizon fun n => rounds hround n n start

theorem leads (ha : a.Asks R) (d : Disturbed) :
    ∃ new, d.Leads new (a.run Disturbed.environment d).2 ∧ ∀ m ∈ new, m.Fits R :=
  Program.Asks.leads ha d

end Asks

/-- Whatever an action does, it leads from the state it starts in to the one it leaves. -/
theorem leads (a : Action α) (d : Disturbed) :
    ∃ new, d.Leads new (a.run Disturbed.environment d).2 := by
  obtain ⟨new, hleads, -⟩ := (Program.asks_any (ExceptT.run a)).leads d
  exact ⟨new, hleads⟩

theorem run_call (c : StoreCall) (d : Disturbed) :
    (call c).run Disturbed.environment d =
      ((d.interrupted.store.perform c).1.mapError .storage, d.interrupted.happen (.own c)) := rfl

end Action

/-! ## Up to a point -/

namespace Action

variable {α β : Type} {R : StoreCall → Prop} {E : Action β → Prop}

/-- The action asks for nothing but the calls given until it goes on as one of the actions given. -/
def Reaches (R : StoreCall → Prop) (E : Action β → Prop) (a : Action β) : Prop :=
  Program.Reaches R (fun p => E (ExceptT.mk p)) (ExceptT.run a)

theorem Reaches.here {a : Action β} (ha : E a) : a.Reaches R E := Program.Reaches.here ha

/-- The first part may fail, so the failures have to be among the actions given. -/
theorem Asks.reaches {a : Action α} {f : α → Action β} (ha : a.Asks R)
    (hf : ∀ x, (f x).Reaches R E) (hthrow : ∀ e, E (throw e)) : (a >>= f).Reaches R E := by
  refine Program.Asks.reaches_bind ha fun outcome => ?_
  cases outcome with
  | ok x => exact hf x
  | error e => exact .here (hthrow e)

theorem Reaches.leads {a : Action β} (ha : a.Reaches R E) (d : Disturbed) :
    ∃ b e new, E b ∧ d.Leads new e ∧ (∀ m ∈ new, m.Fits R) ∧
      a.run Disturbed.environment d = b.run Disturbed.environment e :=
  Program.Reaches.leads ha d

end Action

/-! ## Ids that can be met -/

theorem Program.ReadOnly.names {α : Type} {p : Program α} (hp : p.ReadOnly) (d : Disturbed) :
    (p.run Disturbed.environment d).2.names ⊆ d.names := by
  induction hp generalizing d with
  | done a => exact fun _ hx => hx
  | @store c next hread _ ih =>
    refine List.Subset.trans (ih _ _) ?_
    show (d.interrupted.happen (.own c)).names ⊆ d.names
    rw [Disturbed.names_happen hread]
    exact d.names_interrupted
  | permissions _ ih => exact ih _ d
  | horizon _ ih => exact ih _ d

end OrgForest
