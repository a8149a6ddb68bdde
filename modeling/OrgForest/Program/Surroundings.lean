import OrgForest.Program.Basic

/-!
# Surroundings with a store

Actions run on a store that others change as well, with a provisioner of tenants and a resolver of
permissions. What others do is given by hooks: just before a call of the store they let the tree
look changed, change the store, or make the call fail.

The calls made so far are kept, so that a hook can tell the first call of a method from the
second, and a reader what an action has asked for.
-/

namespace OrgForest

/-- What others do just before a call. -/
inductive Interference where
  /-- From now on a structure version is reported that is larger by one. -/
  | churn
  /-- The store is changed. -/
  | change (f : Store → Option StoreChange)
  /-- The call fails, and does not take place. -/
  | fail (e : StoreError)

/-- What others do before the calls of a method. -/
structure Hook where
  method : StoreMethod
  /-- Before which of the calls, counted from one; before all of them if none is given. -/
  nth : Option Nat
  act : Interference

/-- A source of tenants: from an organization and the state of a counter. -/
abbrev Provisioner : Type :=
  Organization → Int64 → Except OrganizationError TenantBinding × Int64

/-- The provisioner that numbers tenants in turn. -/
def Provisioner.sequential : Provisioner := fun o next =>
  let (binding, next) := Tenant.provision o.id next
  (.ok binding, next)

/-- What surrounds an action and does not change meanwhile. -/
structure Setting where
  hooks : List Hook
  provisioner : Provisioner
  permissions : String → Except OrganizationError (List String)

/-- The state of the surroundings. -/
structure Surroundings where
  store : Store
  /-- The number of the next tenant. -/
  nextTenantId : Int64
  /-- By how much the reported structure versions are larger than those of the store. -/
  churned : Nat
  /-- The methods called by the action, the last one first. -/
  calls : List StoreMethod

namespace Surroundings

/-- The surroundings with an empty store. -/
def new (nextTenantId : Int64) : Surroundings := ⟨.empty, nextTenantId, 0, []⟩

/-- The surroundings as the next action finds them. -/
def next (s : Surroundings) : Surroundings := { s with calls := [] }

/-- Lets others do something; a failure ends the call. -/
def interfere (s : Surroundings) : List Interference → Except StoreError Unit × Surroundings
  | [] => (.ok (), s)
  | .churn :: rest => { s with churned := s.churned + 1 }.interfere rest
  | .change f :: rest =>
    match f s.store with
    | some change => { s with store := s.store.change change }.interfere rest
    | none => s.interfere rest
  | .fail e :: _ => (.error e, s)

/-- Makes a call that nothing disturbs. -/
def perform (s : Surroundings) : (c : StoreCall) → Except StoreError c.Answer × Surroundings
  | .structureVersion => (.ok (s.store.structureVersion + s.churned), s)
  | c => let (reply, store) := s.store.perform c; (reply, { s with store })

end Surroundings

namespace Hook

/-- Whether the hook acts before a call of a method, the last one of those given. -/
def actsOn (h : Hook) (m : StoreMethod) (calls : List StoreMethod) : Bool :=
  h.method == m && h.nth.all (· == calls.count m)

/-- For how many rounds the hook may keep a loop from its end. One that acts once does so until its
call has come. One that acts before every call keeps on as long as it brings about a version that
was not there before, and versions are words of 64 bits. -/
def reach (h : Hook) : Nat :=
  match h.nth with
  | some n => n + 1
  | none => UInt64.size

end Hook

namespace Setting

/-- Makes a call after the hooks that act on it, in their order. -/
def call (setting : Setting) (c : StoreCall) (s : Surroundings) :
    Except StoreError c.Answer × Surroundings :=
  -- A call that is made to fail counts all the same.
  let s := { s with calls := c.method :: s.calls }
  match s.interfere ((setting.hooks.filter (·.actsOn c.method s.calls)).map (·.act)) with
  | (.error e, s) => (.error e, s)
  | (.ok (), s) => s.perform c

/-- The surroundings of an action. A loop takes in one more record a round, or one that a hook
puts in its way. -/
def environment (setting : Setting) : Environment Surroundings where
  store := setting.call
  provision o s :=
    let (reply, nextTenantId) := setting.provisioner o s.nextTenantId
    (reply, { s with nextTenantId })
  permissions id s := (setting.permissions id, s)
  horizon s := setting.hooks.foldl (fun n h => n + h.reach) (s.store.organizations.size + 1)

end Setting

end OrgForest
