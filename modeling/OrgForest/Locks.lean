import OrgForest.Table

/-!
# Locks of organizations

Whoever changes an organization holds its lock, and those that need several locks take them in the
order of their ids. The table of locks gives out handles: it knows the handle of an id as long as a
caller holds it or waits for it, and forgets it afterwards, so the next caller gets a new one.

A caller asks for a set of ids, looks up the handle of the next one, takes it when nobody holds
it, and so on until it has them all. It may leave at any time, and gives up everything it has.

* `LockTable.plan` — the order in which locks are taken;
* `LockTable.step` — one step of one caller;
* `LockTable.tryAcquire`, `LockTable.release` — what a caller does that never waits.
-/

namespace OrgForest

/-- Where a caller stands. -/
structure LockCaller where
  /-- The ids that have not been looked up yet, in order. -/
  ahead : List String
  /-- The id whose handle has been looked up and not been taken yet. -/
  pending : Option (String × Nat)
  /-- The ids held with their handles, in the order in which they were taken. -/
  held : List (String × Nat)
deriving DecidableEq, Repr

/-- The locks and the callers that hold them or wait for them. -/
structure LockTable where
  /-- The known handles. -/
  handles : Table String Nat
  /-- The handle that has never been given out. -/
  fresh : Nat
  callers : Table Nat LockCaller

/-- What a caller does next. -/
inductive LockStep where
  | ask (caller : Nat) (ids : List String)
  | lookUp (caller : Nat)
  | take (caller : Nat)
  | leave (caller : Nat)
deriving DecidableEq, Repr

namespace LockCaller

/-- Whether the caller holds or waits for a handle. -/
def uses (c : LockCaller) (handle : Nat) : Bool :=
  c.held.any (·.2 == handle) || c.pending.any (·.2 == handle)

/-- Whether the caller holds a handle. -/
def holds (c : LockCaller) (handle : Nat) : Bool := c.held.any (·.2 == handle)

/-- Whether the caller has all it asked for. -/
def isServed (c : LockCaller) : Bool := c.ahead.isEmpty && c.pending.isNone

end LockCaller

namespace LockTable

/-- The table that nobody uses. -/
def empty : LockTable := ⟨.empty, 0, .empty⟩

instance : Inhabited LockTable := ⟨empty⟩

/-- Ids in order, each once. -/
def plan (ids : List String) : List String :=
  (ids.foldl (fun set id => set.insert id ()) (Table.empty : Table String Unit)).keys

/-- Whether any caller holds or waits for a handle. -/
def isUsed (t : LockTable) (handle : Nat) : Bool := t.callers.values.any (·.uses handle)

/-- Whether any caller holds a handle. -/
def isHeld (t : LockTable) (handle : Nat) : Bool := t.callers.values.any (·.holds handle)

/-- The number of ids that are held or waited for. -/
def active (t : LockTable) : Nat := (t.handles.values.filter t.isUsed).length

/-- Forgets the handles that nobody uses. -/
def prune (t : LockTable) : LockTable :=
  let unused := (t.handles.entries.filter fun e => !t.isUsed e.2).map (·.1)
  { t with handles := unused.foldl (fun handles id => handles.erase id) t.handles }

/-- The handle of an id: the known one, or a new one. -/
def handle (t : LockTable) (id : String) : Nat × LockTable :=
  -- A handle that nobody uses is not given out again.
  let t := t.prune
  match t.handles.get? id with
  | some h => (h, t)
  | none => (t.fresh, { t with handles := t.handles.insert id t.fresh, fresh := t.fresh + 1 })

/-- Makes a step, or nothing if the caller is not in a position to make it. -/
def step (t : LockTable) : LockStep → LockTable
  | .ask k ids =>
    match t.callers.get? k with
    | some _ => t
    | none => { t with callers := t.callers.insert k ⟨plan ids, none, []⟩ }
  | .lookUp k =>
    match t.callers.get? k with
    | some ⟨id :: ahead, none, held⟩ =>
      let (h, t) := t.handle id
      { t with callers := t.callers.insert k ⟨ahead, some (id, h), held⟩ }
    | _ => t
  | .take k =>
    match t.callers.get? k with
    | some ⟨ahead, some (id, h), held⟩ =>
      if t.isHeld h then t
      else { t with callers := t.callers.insert k ⟨ahead, none, held ++ [(id, h)]⟩ }
    | _ => t
  | .leave k => { t with callers := t.callers.erase k }

/-- Makes steps one after the other. -/
def steps (t : LockTable) (todo : List LockStep) : LockTable := todo.foldl step t

/-- A caller goes through ids one by one. -/
def turns (caller : Nat) (ids : List String) : List LockStep :=
  ids.flatMap fun _ => [.lookUp caller, .take caller]

/-- Asks for locks and takes them if that needs no waiting; else nothing stays locked. -/
def tryAcquire (t : LockTable) (caller : Nat) (ids : List String) : Bool × LockTable :=
  let t' := t.steps (.ask caller ids :: turns caller (plan ids))
  match t'.callers.get? caller with
  | some c => if c.isServed then (true, t') else (false, t'.step (.leave caller))
  | none => (false, t')

/-- Gives up the locks of a caller, if it has any. -/
def release (t : LockTable) (caller : Nat) : Bool × LockTable :=
  (t.callers.contains caller, t.step (.leave caller))

end LockTable

end OrgForest
