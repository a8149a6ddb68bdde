import OrgForest.Program.Surroundings

/-!
# Still surroundings

An action that has the store to itself finds it between two calls as it left it. Nothing counts then
but the store, the counter of tenants and by how much the reported versions are churned; the calls
made so far, which only hooks look at, do not.

Most of what an action asks for are look-ups. An action that asks for nothing else leaves still
surroundings as they are, so a sequence of such actions can be followed step by step with one state.

* `Setting.still`, `Setting.run_still` — surroundings without hooks are still;
* `Action.run_bind` — one action after another;
* `Program.ReadOnly`, `Action.ReadOnly` — asking for look-ups only, and what is built of such;
* `Action.ReadOnly.run` — look-ups leave still surroundings as they are.
-/

namespace OrgForest

/-! ## Without hooks -/

/-- The surroundings of an action that nobody disturbs. -/
def Setting.still (setting : Setting) : Environment Surroundings where
  store c s := s.perform c
  provision := setting.environment.provision
  permissions := setting.environment.permissions
  horizon s := s.store.organizations.size + 1

namespace Surroundings

/-- The calls made so far count for no call. -/
theorem perform_next (s : Surroundings) (calls : List StoreMethod) (c : StoreCall) :
    s.next.perform c = (({ s with calls }.perform c).1, ({ s with calls }.perform c).2.next) := by
  cases c <;> rfl

end Surroundings

/-- Surroundings without hooks are still, but for the calls that they keep. -/
theorem Setting.run_environment {setting : Setting} (hquiet : setting.hooks = []) {α : Type}
    (p : Program α) (s : Surroundings) :
    p.run setting.still s.next =
      ((p.run setting.environment s).1, (p.run setting.environment s).2.next) := by
  -- step by step: where nothing is set to happen, a call comes to the same store in both
  induction p generalizing s with
  | done a => rfl
  | store c next ih =>
    have hcall : setting.call c s = { s with calls := c.method :: s.calls }.perform c := by
      simp [Setting.call, hquiet, Surroundings.interfere]
    simp only [Program.run, Setting.environment, Setting.still, hcall]
    rw [s.perform_next (c.method :: s.calls) c]
    exact ih _ _
  | provision o next ih =>
    have hnext : setting.environment.provision o s.next =
        ((setting.environment.provision o s).1, (setting.environment.provision o s).2.next) := rfl
    simp only [Program.run, Setting.still, hnext]
    exact ih _ _
  | permissions id next ih => exact ih _ s
  | horizon next ih =>
    have hhorizon : setting.environment.horizon s = s.store.organizations.size + 1 := by
      simp [Setting.environment, hquiet]
    simp only [Program.run, hhorizon]
    exact ih _ s

/-- The setting without what others do. -/
def Setting.undisturbed (setting : Setting) : Setting := { setting with hooks := [] }

/-- Whom nobody disturbs runs in still surroundings, but for the calls that are kept. -/
theorem Setting.run_still (setting : Setting) {α : Type} (a : Action α) (s : Surroundings) :
    a.run setting.still s.next =
      ((a.run setting.undisturbed.environment s.next).1,
        (a.run setting.undisturbed.environment s.next).2.next) := by
  have hquiet : setting.undisturbed.hooks = [] := rfl
  exact Setting.run_environment hquiet (ExceptT.run a) s.next

theorem Surroundings.next_store (s : Surroundings) : s.next.store = s.store := rfl

/-- Whom nobody disturbs runs in still surroundings, with the same answer and the same store. -/
theorem Setting.run_undisturbed (setting : Setting) {α : Type} (a : Action α) (s : Surroundings) :
    (a.run setting.undisturbed.environment s.next).1 = (a.run setting.still s.next).1 ∧
      (a.run setting.undisturbed.environment s.next).2.store =
        (a.run setting.still s.next).2.store := by
  rw [setting.run_still]
  exact ⟨rfl, rfl⟩

/-! ## Runs of actions -/

namespace Action

variable {σ α β : Type} {env : Environment σ} {s t : σ}

theorem run_pure (a : α) : (pure a : Action α).run env s = (.ok a, s) := rfl

/-- The second action goes on where the first one succeeds. -/
theorem run_bind (a : Action α) (f : α → Action β) :
    (a >>= f).run env s =
      match a.run env s with
      | (.ok x, t) => (f x).run env t
      | (.error e, t) => (.error e, t) := by
  show Program.run env ((ExceptT.run a).bind (ExceptT.bindCont f)) s = _
  rw [Program.run_bind, run]
  rcases Program.run env (ExceptT.run a) s with ⟨_ | _, _⟩ <;> rfl

theorem run_attempt (a : Action α) :
    a.attempt.run env s = (.ok (a.run env s).1, (a.run env s).2) :=
  Program.run_bind env (ExceptT.run a) _ s

theorem run_ofExcept (outcome : Except OrganizationError α) :
    (MonadExcept.ofExcept outcome : Action α).run env s = (outcome, s) := by
  cases outcome <;> rfl

theorem run_iterate {τ : Type} (round : τ → Action (τ ⊕ α)) (start : τ) :
    (iterate round start).run env s =
      (rounds (env.horizon s) round (env.horizon s) start).run env s := rfl

/-- A loop goes on from where its first round has come, or ends there. -/
theorem run_rounds_succ {τ : Type} (horizon n : Nat) (round : τ → Action (τ ⊕ α)) (start : τ) :
    (rounds horizon round (n + 1) start).run env s =
      match (round start).run env s with
      | (.ok (.inl next), t) => (rounds horizon round n next).run env t
      | (.ok (.inr a), t) => (.ok a, t)
      | (.error e, t) => (.error e, t) := by
  rw [rounds, run_bind]
  rcases (round start).run env s with ⟨_ | _ | _, _⟩ <;> rfl

end Action

/-! ## Look-ups only -/

/-- Whatever it is answered, the program asks for nothing but look-ups. -/
inductive Program.ReadOnly {α : Type} : Program α → Prop where
  | done (a : α) : ReadOnly (.done a)
  | store {c : StoreCall} {next : Except StoreError c.Answer → Program α}
      (hread : c.isWrite = false) (hnext : ∀ reply, ReadOnly (next reply)) :
      ReadOnly (.store c next)
  | permissions {id : String} {next : Except OrganizationError (List String) → Program α}
      (hnext : ∀ reply, ReadOnly (next reply)) : ReadOnly (.permissions id next)
  | horizon {next : Nat → Program α} (hnext : ∀ n, ReadOnly (next n)) : ReadOnly (.horizon next)

theorem Program.ReadOnly.bind {α β : Type} {p : Program α} {f : α → Program β} (hp : p.ReadOnly)
    (hf : ∀ a, (f a).ReadOnly) : (p.bind f).ReadOnly := by
  induction hp with
  | done a => exact hf a
  | store hread _ ih => exact .store hread ih
  | permissions _ ih => exact .permissions ih
  | horizon _ ih => exact .horizon ih

theorem Surroundings.perform_of_read {c : StoreCall} (hread : c.isWrite = false)
    (s : Surroundings) : (s.perform c).2 = s := by
  cases c <;> first
    | rfl
    | simp [StoreCall.isWrite, StoreCall.method] at hread

theorem Program.ReadOnly.run_still {α : Type} {p : Program α} (hp : p.ReadOnly)
    (setting : Setting) (s : Surroundings) : (p.run setting.still s).2 = s := by
  -- no look-up changes anything, so every step starts from the same surroundings
  induction hp with
  | done a => rfl
  | store hread _ ih =>
    simp only [Program.run, Setting.still, Surroundings.perform_of_read hread]
    exact ih _
  | permissions _ ih => exact ih _
  | horizon _ ih => exact ih _

namespace Action

/-- Whatever it is answered, the action asks for nothing but look-ups. -/
def ReadOnly {α : Type} (a : Action α) : Prop := Program.ReadOnly (ExceptT.run a)

variable {α β : Type}

theorem readOnly_pure (a : α) : (pure a : Action α).ReadOnly := .done _

theorem readOnly_throw (e : OrganizationError) : (throw e : Action α).ReadOnly := .done _

theorem readOnly_call {c : StoreCall} (hread : c.isWrite = false) : (call c).ReadOnly :=
  .store hread fun _ => .done _

namespace ReadOnly

variable {a : Action α} {f : α → Action β}

theorem bind (ha : a.ReadOnly) (hf : ∀ x, (f x).ReadOnly) : (a >>= f).ReadOnly := by
  refine Program.ReadOnly.bind ha fun outcome => ?_
  cases outcome with
  | ok x => exact hf x
  | error e => exact .done _

theorem rounds {σ : Type} {round : σ → Action (σ ⊕ α)} (hround : ∀ s, (round s).ReadOnly)
    (horizon : Nat) : ∀ (n : Nat) (start : σ), (rounds horizon round n start).ReadOnly
  | 0, _ => readOnly_throw _
  | n + 1, start => by
    refine (hround start).bind fun next => ?_
    cases next with
    | inl s => exact rounds hround horizon n s
    | inr a => exact readOnly_pure a

theorem iterate {σ : Type} {round : σ → Action (σ ⊕ α)} (hround : ∀ s, (round s).ReadOnly)
    (start : σ) : (iterate round start).ReadOnly :=
  .horizon fun n => rounds hround n n start

variable {setting : Setting} {s : Surroundings}

theorem run (ha : a.ReadOnly) : a.run setting.still s = ((a.run setting.still s).1, s) :=
  Prod.ext rfl (Program.ReadOnly.run_still ha setting s)

end ReadOnly

end Action

end OrgForest
