import OrgForest.Program.Call

/-!
# Programs

A program is an answer, or a question to its surroundings with a program for every reply. The
surroundings are a store, a provisioner of tenants and a resolver of permissions; they are free to
change between two questions. What a program does in some surroundings is given by `Program.run`, so
the order of the questions is a property of the program alone.

A loop whose end depends on the surroundings asks them for a horizon: a bound on its rounds that
they answer for. `Action.iterate` is the only loop of this kind.

* `Program` — questions and answers, a monad;
* `Environment` and `Program.run` — what programs do;
* `Action` — a program that may fail, and `Action.iterate`, a bounded loop.
-/

namespace OrgForest

/-- An answer, or a question with what to do for every reply. -/
inductive Program (α : Type) where
  | done (answer : α)
  | store (c : StoreCall) (next : Except StoreError c.Answer → Program α)
  | provision (o : Organization) (next : Except OrganizationError TenantBinding → Program α)
  | permissions (id : String) (next : Except OrganizationError (List String) → Program α)
  | horizon (next : Nat → Program α)

namespace Program

/-- The program that goes on with the answer of another. -/
def bind {α β : Type} : Program α → (α → Program β) → Program β
  | .done a, f => f a
  | .store c next, f => .store c fun reply => (next reply).bind f
  | .provision o next, f => .provision o fun reply => (next reply).bind f
  | .permissions id next, f => .permissions id fun reply => (next reply).bind f
  | .horizon next, f => .horizon fun n => (next n).bind f

instance : Monad Program where
  pure := .done
  bind := Program.bind

/-! ## Laws -/

theorem bind_done {α : Type} (p : Program α) : p.bind .done = p := by
  induction p with
  | done => rfl
  | store c next ih => exact congrArg (Program.store c) (funext ih)
  | provision o next ih => exact congrArg (Program.provision o) (funext ih)
  | permissions id next ih => exact congrArg (Program.permissions id) (funext ih)
  | horizon next ih => exact congrArg Program.horizon (funext ih)

theorem bind_assoc {α β γ : Type} (p : Program α) (f : α → Program β) (g : β → Program γ) :
    (p.bind f).bind g = p.bind fun a => (f a).bind g := by
  induction p with
  | done => rfl
  | store c next ih => exact congrArg (Program.store c) (funext ih)
  | provision o next ih => exact congrArg (Program.provision o) (funext ih)
  | permissions id next ih => exact congrArg (Program.permissions id) (funext ih)
  | horizon next ih => exact congrArg Program.horizon (funext ih)

instance : LawfulMonad Program :=
  LawfulMonad.mk' Program bind_done (fun _ _ => rfl) bind_assoc

end Program

/-! ## Surroundings -/

/-- Surroundings that are in a state of type `σ`, and change it as they reply. -/
structure Environment (σ : Type) where
  store : (c : StoreCall) → σ → Except StoreError c.Answer × σ
  provision : Organization → σ → Except OrganizationError TenantBinding × σ
  permissions : String → σ → Except OrganizationError (List String) × σ
  /-- No loop that starts in this state runs for more rounds. -/
  horizon : σ → Nat

/-- What a program answers in its surroundings, and what it leaves of them. -/
def Program.run {σ α : Type} (env : Environment σ) : Program α → σ → α × σ
  | .done a, s => (a, s)
  | .store c next, s => let (reply, s) := env.store c s; (next reply).run env s
  | .provision o next, s => let (reply, s) := env.provision o s; (next reply).run env s
  | .permissions id next, s => let (reply, s) := env.permissions id s; (next reply).run env s
  | .horizon next, s => (next (env.horizon s)).run env s

theorem Program.run_bind {σ α β : Type} (env : Environment σ) (p : Program α)
    (f : α → Program β) (s : σ) :
    (p.bind f).run env s = (f (p.run env s).1).run env (p.run env s).2 := by
  induction p generalizing s with
  | done => rfl
  | store c next ih => exact ih _ _
  | provision o next ih => exact ih _ _
  | permissions id next ih => exact ih _ _
  | horizon next ih => exact ih _ _

/-! ## Actions -/

/-- A program that may fail. -/
abbrev Action : Type → Type := ExceptT OrganizationError Program

namespace Action

/-- What an action answers in its surroundings, and what it leaves of them. -/
def run {σ α : Type} (env : Environment σ) (a : Action α) (s : σ) :
    Except OrganizationError α × σ :=
  Program.run env (ExceptT.run a) s

/-- A call of the store; its failure is the action's. -/
def call (c : StoreCall) : Action c.Answer :=
  .mk <| .store c fun reply => .done (reply.mapError .storage)

/-- A tenant for a new organization. -/
def provision (o : Organization) : Action TenantBinding := .mk <| .provision o .done

/-- What the caller may do with an organization. -/
def permissions (id : String) : Action (List String) := .mk <| .permissions id .done

/-- The outcome of an action as a value. -/
def attempt {α : Type} (a : Action α) : Action (Except OrganizationError α) :=
  .mk <| (ExceptT.run a).bind fun outcome => .done (.ok outcome)

/-- Does rounds until one gives a result, at most `n` of them. -/
def rounds {σ α : Type} (horizon : Nat) (round : σ → Action (σ ⊕ α)) : Nat → σ → Action α
  | 0, _ => throw (.cutOff horizon)
  | n + 1, s => do
    match ← round s with
    | .inl s => rounds horizon round n s
    | .inr a => return a

/-- Does rounds until one gives a result, within the horizon of the surroundings. -/
def iterate {σ α : Type} (round : σ → Action (σ ⊕ α)) (start : σ) : Action α :=
  .mk <| .horizon fun n => ExceptT.run (rounds n round n start)

end Action

end OrgForest
