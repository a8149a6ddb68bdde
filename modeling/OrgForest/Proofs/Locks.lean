import OrgForest.Locks
import OrgForest.Proofs.Table
import Mathlib.Data.List.Dedup
import Mathlib.Logic.Relation

/-!
# Callers that share locks

Many callers use one table of locks, each a set of ids at a time, and their steps interleave in any
way. The table forgets a handle once nobody uses it and makes a new one on demand, so that a lock
keeps its caller alone is no fact about a single step. It rests on what all steps together keep:
whoever holds or waits for an id does so with the handle the table knows for it, and no two ids
share a handle.

* `LockTable.Sound` — what every step keeps, next to what the callers have asked for;
* `LockTable.Waits` — one caller waits for a lock that another one holds;
* `LockTable.serves_plan` — a caller is served once it holds the plan of what it has come for;
* `LockTable.steps_orderly` — after any steps, no id has two holders, locks are taken in the order
  of their ids, nobody waits in a circle and the active ids are those held or waited for.
-/

namespace OrgForest

/-! ## Plans -/

namespace LockTable

theorem mem_plan {ids : List String} {id : String} : id ∈ plan ids ↔ id ∈ ids := by
  rw [plan, Table.mem_keys, Table.contains_foldl_insert]
  simp

theorem ascending_plan (ids : List String) : (plan ids).Pairwise (· < ·) := by
  refine (Table.ascending_keys _).imp fun {a b} h => ?_
  exact compareOfLessAndEq_eq_lt.1 h

example : plan ["b", "a", "b"] = ["a", "b"] := by decide

end LockTable

/-! ## Callers -/

namespace LockCaller

variable {c : LockCaller}

/-- What a caller holds or waits for. -/
def inUse (c : LockCaller) : List (String × Nat) := c.held ++ c.pending.toList

/-- The ids a caller holds. -/
def heldIds (c : LockCaller) : List String := c.held.map (·.1)

/-- All ids a caller has come for, in the order in which it takes them. -/
def route (c : LockCaller) : List String := c.inUse.map (·.1) ++ c.ahead

theorem holds_iff {h : Nat} : c.holds h = true ↔ ∃ id, (id, h) ∈ c.held := by
  simp [holds]

theorem uses_iff {h : Nat} : c.uses h = true ↔ ∃ id, (id, h) ∈ c.inUse := by
  simp only [uses, inUse, Bool.or_eq_true, Option.any_eq_true, List.any_eq_true, beq_iff_eq,
    Prod.exists, List.mem_append, Option.mem_toList, exists_or, exists_eq_right]

theorem heldIds_prefix (c : LockCaller) : c.heldIds <+: c.route :=
  ⟨c.pending.toList.map (·.1) ++ c.ahead, by simp [heldIds, route, inUse]⟩

/-- A caller has all it has come for as soon as it holds its whole route. -/
theorem isServed_iff : c.isServed = true ↔ c.heldIds = c.route := by
  have hroute : c.route = c.heldIds ++ (c.pending.toList.map (·.1) ++ c.ahead) := by
    simp [heldIds, route, inUse]
  rw [hroute, List.self_eq_append_right, List.append_eq_nil_iff, isServed, Bool.and_eq_true,
    List.isEmpty_iff, Option.isNone_iff_eq_none, List.map_eq_nil_iff, Option.toList_eq_nil_iff,
    and_comm]

/-- What a caller holds comes before what it waits for. -/
theorem lt_of_pending (hc : c.route.Pairwise (· < ·)) {e e' : String × Nat} (he : e ∈ c.held)
    (hp : c.pending = some e') : e.1 < e'.1 := by
  -- on the route what is pending stands right behind all that is held
  have h : (c.held.map (·.1) ++ (e'.1 :: c.ahead)).Pairwise (· < ·) := by
    simpa [route, inUse, hp] using hc
  exact (List.pairwise_append.1 h).2.2 _ (List.mem_map_of_mem he) _ (by simp)

end LockCaller

namespace LockTable

/-- A caller holds an id or waits for it, with a handle. -/
def Uses (t : LockTable) (k : Nat) (e : String × Nat) : Prop :=
  ∃ c, t.callers.get? k = some c ∧ e ∈ c.inUse

/-- A caller holds an id, with a handle. -/
def Holds (t : LockTable) (k : Nat) (e : String × Nat) : Prop :=
  ∃ c, t.callers.get? k = some c ∧ e ∈ c.held

/-- A caller waits for an id, with a handle. -/
def Awaits (t : LockTable) (k : Nat) (e : String × Nat) : Prop :=
  ∃ c, t.callers.get? k = some c ∧ c.pending = some e

/-- A caller waits for a handle that another one holds. -/
def Waits (t : LockTable) (k k' : Nat) : Prop :=
  ∃ e e', t.Awaits k e ∧ t.Holds k' e' ∧ e.2 = e'.2

variable {t : LockTable} {k k' : Nat} {e e' : String × Nat} {id : String} {h : Nat}
  {c : LockCaller}

theorem Holds.uses (hk : t.Holds k e) : t.Uses k e := by
  obtain ⟨c, hc, he⟩ := hk
  exact ⟨c, hc, List.mem_append_left _ he⟩

theorem Awaits.uses (hk : t.Awaits k e) : t.Uses k e := by
  obtain ⟨c, hc, he⟩ := hk
  exact ⟨c, hc, List.mem_append_right _ (Option.mem_toList.2 he)⟩

theorem isHeld_iff : t.isHeld h = true ↔ ∃ k id, t.Holds k (id, h) := by
  simp only [isHeld, List.any_eq_true, Table.mem_values, LockCaller.holds_iff, Holds]
  constructor
  · rintro ⟨c, ⟨k, hc⟩, id, hid⟩
    exact ⟨k, id, c, hc, hid⟩
  · rintro ⟨k, id, c, hc, hid⟩
    exact ⟨c, ⟨k, hc⟩, id, hid⟩

theorem isUsed_iff : t.isUsed h = true ↔ ∃ k id, t.Uses k (id, h) := by
  simp only [isUsed, List.any_eq_true, Table.mem_values, LockCaller.uses_iff, Uses]
  constructor
  · rintro ⟨c, ⟨k, hc⟩, id, hid⟩
    exact ⟨k, id, c, hc, hid⟩
  · rintro ⟨k, id, c, hc, hid⟩
    exact ⟨c, ⟨k, hc⟩, id, hid⟩

/-! ## Handles -/

@[simp] theorem callers_prune (t : LockTable) : t.prune.callers = t.callers := rfl

@[simp] theorem fresh_prune (t : LockTable) : t.prune.fresh = t.fresh := rfl

theorem get?_prune : t.prune.handles.get? id = some h ↔
    t.handles.get? id = some h ∧ t.isUsed h = true := by
  have hunused : id ∈ (t.handles.entries.filter fun e => !t.isUsed e.2).map (·.1) ↔
      ∃ h, t.handles.get? id = some h ∧ t.isUsed h = false := by
    simp only [List.mem_map, List.mem_filter, Prod.exists, exists_and_right, exists_eq_right,
      Table.mem_entries, Bool.not_eq_true']
  -- an id is forgotten exactly if nobody uses its handle
  rw [prune, Table.get?_foldl_erase]
  split
  · next hmem =>
    obtain ⟨h', hh', hno⟩ := hunused.1 hmem
    constructor
    · rintro ⟨⟩
    · rintro ⟨hh, hyes⟩
      rw [hh'] at hh
      obtain rfl := Option.some.inj hh
      rw [hno] at hyes
      exact absurd hyes Bool.false_ne_true
  · next hmem =>
    refine ⟨fun hh => ⟨hh, ?_⟩, And.left⟩
    exact Bool.of_not_eq_false fun hno => hmem (hunused.2 ⟨h, hh, hno⟩)

/-- What looking up an id gives: the handle in use for it, else one that nobody has had. -/
theorem handle_cases (t : LockTable) (id : String) :
    (∃ h, t.prune.handles.get? id = some h ∧ t.handle id = (h, t.prune)) ∨
    t.prune.handles.get? id = none ∧ t.handle id = (t.fresh,
      { t.prune with handles := t.prune.handles.insert id t.fresh, fresh := t.fresh + 1 }) := by
  rw [handle]
  cases hg : t.prune.handles.get? id with
  | some h => exact .inl ⟨h, rfl, rfl⟩
  | none => exact .inr ⟨rfl, rfl⟩

@[simp] theorem callers_handle (t : LockTable) (id : String) :
    (t.handle id).2.callers = t.callers := by
  rcases handle_cases t id with ⟨h, -, heq⟩ | ⟨-, heq⟩ <;> rw [heq] <;> rfl

/-! ## What every step keeps -/

/-- What a caller has come for after a step, from what it had come for before. -/
def askedAfter (k : Nat) (asked : Option (List String)) : LockStep → Option (List String)
  | .ask k' ids => if k = k' then asked.or (some ids) else asked
  | .leave k' => if k = k' then none else asked
  | _ => asked

/-- What a caller that is there has come for, if all began with nobody there. -/
def asked (todo : List LockStep) (k : Nat) : Option (List String) :=
  todo.foldl (askedAfter k) none

/-- What every step keeps, next to what each caller has come for. -/
structure Sound (t : LockTable) (asked : Nat → Option (List String)) : Prop where
  /-- Callers go through the plan of what they have come for. -/
  routes : ∀ k, (t.callers.get? k).map (·.route) = (asked k).map plan
  /-- What is in use is known to the table. -/
  known : ∀ k e, t.Uses k e → t.handles.get? e.1 = some e.2
  /-- No two ids share a handle. -/
  own : ∀ id id' h, t.handles.get? id = some h → t.handles.get? id' = some h → id = id'
  /-- A new handle is not among the known ones. -/
  below : ∀ id h, t.handles.get? id = some h → h < t.fresh
  /-- No id has two holders. -/
  alone : ∀ k k' e e', t.Holds k e → t.Holds k' e' → e.1 = e'.1 → k = k'

theorem sound_empty : empty.Sound fun _ => none where
  routes _ := rfl
  known _ _ := by rintro ⟨c, hc, -⟩; cases hc
  own _ _ _ hh := by cases hh
  below _ _ hh := by cases hh
  alone _ _ _ _ := by rintro ⟨c, hc, -⟩; cases hc

namespace Sound

variable {asked : Nat → Option (List String)} {t' : LockTable}

/-- The table forgets no handle that is in use. -/
theorem prune (hs : t.Sound asked) : t.prune.Sound asked where
  routes := hs.routes
  known k e he := get?_prune.2 ⟨hs.known k e he, isUsed_iff.2 ⟨k, e.1, he⟩⟩
  own id id' h hh hh' := hs.own id id' h (get?_prune.1 hh).1 (get?_prune.1 hh').1
  below id h hh := hs.below id h (get?_prune.1 hh).1
  alone := hs.alone

/-- The handle of an id that is looked up is known afterwards, next to all that are in use. -/
theorem handle (hs : t.Sound asked) (id : String) :
    (t.handle id).2.Sound asked ∧ (t.handle id).2.handles.get? id = some (t.handle id).1 := by
  have hp := hs.prune
  rcases handle_cases t id with ⟨h, hh, heq⟩ | ⟨hnone, heq⟩
  · rw [heq]
    exact ⟨hp, hh⟩
  · rw [heq]
    refine ⟨⟨hp.routes, fun k e he => ?_, fun i i' h hi hi' => ?_, fun i h hi => ?_, hp.alone⟩,
      Table.get?_insert_self⟩
    · -- the id had no handle, so nobody was using it
      have hknown : t.prune.handles.get? e.1 = some e.2 := hp.known k e he
      have hne : e.1 ≠ id := by
        rintro rfl
        rw [hnone] at hknown
        cases hknown
      exact (Table.get?_insert_of_ne hne).trans hknown
    · simp only [Table.get?_insert] at hi hi'
      -- the new handle exceeds all that are known
      split at hi <;> split at hi'
      · simp_all
      · have := hp.below i' h hi'
        simp_all
      · have := hp.below i h hi
        simp_all
      · exact hp.own i i' h hi hi'
    · simp only [Table.get?_insert] at hi
      split at hi
      · simp_all
      · exact Nat.lt_succ_of_lt (hp.below i h hi)

/-- A caller gets to a position in which it uses known handles and holds what nobody else holds. -/
theorem place {asked' : Nat → Option (List String)} {ids : List String} (hs : t.Sound asked)
    (hids : asked' k = some ids) (hothers : ∀ k' ≠ k, asked' k' = asked k')
    (hroute : c.route = plan ids) (hknown : ∀ e ∈ c.inUse, t.handles.get? e.1 = some e.2)
    (halone : ∀ e ∈ c.held, ∀ k' e', t.Holds k' e' → e'.1 = e.1 → k' = k) :
    Sound { t with callers := t.callers.insert k c } asked' where
  routes k' := by
    by_cases hk : k' = k
    · rw [hk, Table.get?_insert_self, hids, Option.map_some, Option.map_some, hroute]
    · rw [Table.get?_insert_of_ne hk, hothers k' hk, hs.routes k']
  known := by
    rintro k' e ⟨c', hc', he⟩
    by_cases hk : k' = k
    · rw [hk, Table.get?_insert_self] at hc'
      obtain rfl := Option.some.inj hc'
      exact hknown e he
    · rw [Table.get?_insert_of_ne hk] at hc'
      exact hs.known k' e ⟨c', hc', he⟩
  own := hs.own
  below := hs.below
  alone := by
    rintro k₁ k₂ e₁ e₂ ⟨c₁, hc₁, he₁⟩ ⟨c₂, hc₂, he₂⟩ heq
    -- each of the two holders is the one that moved or stands where it stood
    by_cases h₁ : k₁ = k <;> by_cases h₂ : k₂ = k
    · rw [h₁, h₂]
    · rw [h₁, Table.get?_insert_self] at hc₁
      rw [Table.get?_insert_of_ne h₂] at hc₂
      obtain rfl := Option.some.inj hc₁
      exact absurd (halone e₁ he₁ k₂ e₂ ⟨c₂, hc₂, he₂⟩ heq.symm) h₂
    · rw [Table.get?_insert_of_ne h₁] at hc₁
      rw [h₂, Table.get?_insert_self] at hc₂
      obtain rfl := Option.some.inj hc₂
      exact absurd (halone e₂ he₂ k₁ e₁ ⟨c₁, hc₁, he₁⟩ heq) h₁
    · rw [Table.get?_insert_of_ne h₁] at hc₁
      rw [Table.get?_insert_of_ne h₂] at hc₂
      exact hs.alone k₁ k₂ e₁ e₂ ⟨c₁, hc₁, he₁⟩ ⟨c₂, hc₂, he₂⟩ heq

/-- The request behind the position of a caller. -/
theorem exists_asked (hs : t.Sound asked) (hc : t.callers.get? k = some c) :
    ∃ ids, asked k = some ids ∧ c.route = plan ids := by
  have hroute := hs.routes k
  rw [hc, Option.map_some, eq_comm, Option.map_eq_some_iff] at hroute
  obtain ⟨ids, hids, heq⟩ := hroute
  exact ⟨ids, hids, heq.symm⟩

/-- Who has come for something is there. -/
theorem exists_caller {ids : List String} (hs : t.Sound asked) (hids : asked k = some ids) :
    ∃ c, t.callers.get? k = some c := by
  have hroute := hs.routes k
  rw [hids, Option.map_some, Option.map_eq_some_iff] at hroute
  obtain ⟨c, hc, -⟩ := hroute
  exact ⟨c, hc⟩

/-- Who is not there has come for nothing. -/
theorem asked_eq_none (hs : t.Sound asked) (hc : t.callers.get? k = none) : asked k = none := by
  have hroute := hs.routes k
  rwa [hc, Option.map_none, eq_comm, Option.map_eq_none_iff] at hroute

/-- Who comes has come for what it asks for. -/
theorem askedAfter_ask (hs : t.Sound asked) (hc : t.callers.get? k = none) (ids : List String) :
    askedAfter k (asked k) (.ask k ids) = some ids := by
  rw [askedAfter, if_pos rfl, hs.asked_eq_none hc, Option.none_or]

/-- A caller comes, unless it is there already. -/
theorem ask (hs : t.Sound asked) (k : Nat) (ids : List String) :
    (t.step (.ask k ids)).Sound fun k' => askedAfter k' (asked k') (.ask k ids) := by
  rw [step]
  cases hc : t.callers.get? k with
  | some c =>
    obtain ⟨ids', hids, -⟩ := hs.exists_asked hc
    refine ⟨fun k' => ?_, hs.known, hs.own, hs.below, hs.alone⟩
    by_cases hk : k' = k
    · rw [askedAfter, if_pos hk, hk, hids, Option.some_or, ← hids, hs.routes k]
    · rw [askedAfter, if_neg hk, hs.routes k']
  | none =>
    refine hs.place (hs.askedAfter_ask hc ids) (fun k' hk => if_neg hk) ?_ ?_ ?_
    · simp [LockCaller.route, LockCaller.inUse]
    · simp [LockCaller.inUse]
    · simp

/-- A caller looks up the next handle, if it waits for none. -/
theorem lookUp (hs : t.Sound asked) (k : Nat) : (t.step (.lookUp k)).Sound asked := by
  rw [step]
  split
  · next id ahead held hc =>
    obtain ⟨hsound, hhandle⟩ := hs.handle id
    obtain ⟨ids, hids, hroute⟩ := hs.exists_asked hc
    rw [← callers_handle t id] at hc
    -- what the caller holds stays the same, and its place moves past the id
    refine hsound.place hids (fun _ _ => rfl) ?_ (fun e he => ?_) fun e he k' e' hk' heq => ?_
    · simpa [LockCaller.route, LockCaller.inUse] using hroute
    · simp only [LockCaller.inUse, Option.toList_some, List.mem_append, List.mem_singleton] at he
      rcases he with he | rfl
      · exact hsound.known k e ⟨_, hc, List.mem_append_left _ he⟩
      · exact hhandle
    · exact hsound.alone k' k e' e hk' ⟨_, hc, he⟩ heq
  · exact hs

/-- A caller takes the handle that it has looked up, if nobody holds it. -/
theorem take (hs : t.Sound asked) (k : Nat) : (t.step (.take k)).Sound asked := by
  rw [step]
  split
  · next ahead id h held hc =>
    split
    · exact hs
    · next hfree =>
      obtain ⟨ids, hids, hroute⟩ := hs.exists_asked hc
      refine hs.place hids (fun _ _ => rfl) ?_ (fun e he => ?_) fun e he k' e' hk' heq => ?_
      · simpa [LockCaller.route, LockCaller.inUse] using hroute
      · exact hs.known k e ⟨_, hc, by simpa [LockCaller.inUse] using he⟩
      · rcases List.mem_append.1 he with he | he
        · exact hs.alone k' k e' e hk' ⟨_, hc, he⟩ heq
        · -- whoever held the id before would have the very handle that is free
          obtain rfl := List.mem_singleton.1 he
          have hawaits : t.Awaits k (id, h) := ⟨_, hc, rfl⟩
          have hh : e'.2 = h := Option.some.inj <| by
            rw [← hs.known k' e' hk'.uses, heq]
            exact hs.known k (id, h) hawaits.uses
          exact absurd (isHeld_iff.2 ⟨k', e'.1, hh ▸ hk'⟩) hfree
  · exact hs

/-- A caller leaves and gives up all it has. -/
theorem leave (hs : t.Sound asked) (k : Nat) :
    (t.step (.leave k)).Sound fun k' => askedAfter k' (asked k') (.leave k) := by
  rw [step]
  have hkept : ∀ k' c, (t.callers.erase k).get? k' = some c → t.callers.get? k' = some c := by
    intro k' c hc
    rw [Table.get?_erase] at hc
    split at hc
    · cases hc
    · exact hc
  refine ⟨fun k' => ?_, ?_, hs.own, hs.below, ?_⟩
  · rw [askedAfter, Table.get?_erase]
    split
    · rfl
    · exact hs.routes k'
  · rintro k' e ⟨c, hc, he⟩
    exact hs.known k' e ⟨c, hkept k' c hc, he⟩
  · rintro k₁ k₂ e₁ e₂ ⟨c₁, hc₁, he₁⟩ ⟨c₂, hc₂, he₂⟩ heq
    exact hs.alone k₁ k₂ e₁ e₂ ⟨c₁, hkept k₁ c₁ hc₁, he₁⟩ ⟨c₂, hkept k₂ c₂ hc₂, he₂⟩ heq

/-- What one step keeps. -/
theorem step (hs : t.Sound asked) (s : LockStep) :
    (t.step s).Sound fun k => askedAfter k (asked k) s := by
  cases s with
  | ask k ids => exact hs.ask k ids
  | lookUp k => exact hs.lookUp k
  | take k => exact hs.take k
  | leave k => exact hs.leave k

/-- What any steps keep. -/
theorem steps (hs : t.Sound asked) (todo : List LockStep) :
    (t.steps todo).Sound fun k => todo.foldl (askedAfter k) (asked k) := by
  induction todo generalizing t asked with
  | nil => exact hs
  | cons s todo ih => exact ih (hs.step s)

/-! ## What follows from it -/

/-- A caller is served once it holds the plan of what it has come for. -/
theorem isServed_iff {ids : List String} (hs : t.Sound asked) (hasked : asked k = some ids)
    (hc : t.callers.get? k = some c) : c.isServed = true ↔ c.heldIds = plan ids := by
  obtain ⟨ids', hids, hroute⟩ := hs.exists_asked hc
  obtain rfl : ids = ids' := Option.some.inj (hasked.symm.trans hids)
  rw [LockCaller.isServed_iff, hroute]

/-- Whoever waits for another caller waits for an id that this one holds. -/
theorem exists_awaited (hs : t.Sound asked) (hw : t.Waits k k') :
    ∃ e, t.Awaits k e ∧ t.Holds k' e := by
  obtain ⟨e, e', he, he', hh⟩ := hw
  have hid : e.1 = e'.1 :=
    hs.own _ _ _ (hs.known k e he.uses) (hh ▸ hs.known k' e' he'.uses)
  obtain rfl : e = e' := Prod.ext hid hh
  exact ⟨e, he, he'⟩

/-- A caller waits for an id that lies ahead of all it holds. -/
theorem lt_of_awaits (hs : t.Sound asked) (he : t.Holds k e) (he' : t.Awaits k e') :
    e.1 < e'.1 := by
  obtain ⟨c, hc, he⟩ := he
  obtain ⟨c', hc', he'⟩ := he'
  obtain rfl : c = c' := Option.some.inj (hc.symm.trans hc')
  obtain ⟨ids, -, hroute⟩ := hs.exists_asked hc
  exact c.lt_of_pending (hroute ▸ ascending_plan ids) he he'

/-- Along callers that wait for each other, the last one holds nothing below what the first one
waits for. -/
theorem le_of_waits (hs : t.Sound asked) (hw : Relation.TransGen t.Waits k k') :
    ∃ e e', t.Awaits k e ∧ t.Holds k' e' ∧ ¬ e'.1 < e.1 := by
  -- from caller to caller the ids waited for only grow
  induction hw with
  | single hw =>
    obtain ⟨e, he, he'⟩ := hs.exists_awaited hw
    exact ⟨e, e, he, he', String.lt_irrefl _⟩
  | tail _ hw ih =>
    obtain ⟨e, e', he, he', hle⟩ := ih
    obtain ⟨p, hp, hp'⟩ := hs.exists_awaited hw
    have hlt : e'.1 < p.1 := hs.lt_of_awaits he' hp
    exact ⟨e, p, he, hp', fun h => hle (String.lt_trans hlt h)⟩

/-- Nobody waits in a circle. -/
theorem no_circle (hs : t.Sound asked) (k : Nat) : ¬ Relation.TransGen t.Waits k k := by
  intro hw
  obtain ⟨e, e', he, he', hle⟩ := hs.le_of_waits hw
  exact hle (hs.lt_of_awaits he' he)

end Sound

/-- The ids that callers hold or wait for, once for each of them. -/
def idsInUse (t : LockTable) : List String :=
  t.callers.values.flatMap fun c => c.inUse.map (·.1)

theorem mem_idsInUse : id ∈ t.idsInUse ↔ ∃ k h, t.Uses k (id, h) := by
  simp only [idsInUse, List.mem_flatMap, Table.mem_values, List.mem_map, Prod.exists,
    exists_and_right, exists_eq_right, Uses]
  constructor
  · rintro ⟨c, ⟨k, hc⟩, h, he⟩
    exact ⟨k, h, c, hc, he⟩
  · rintro ⟨k, h, c, hc, he⟩
    exact ⟨c, ⟨k, hc⟩, h, he⟩

theorem Sound.active_eq {asked : Nat → Option (List String)} (hs : t.Sound asked) :
    t.active = t.idsInUse.dedup.length := by
  have hactive : t.active =
      ((t.handles.entries.filter fun e => t.isUsed e.2).map (·.1)).length := by
    rw [active, Table.values, List.filter_map, List.length_map, List.length_map]
    rfl
  rw [hactive]
  -- two lists of ids without repeats, with the same members
  refine List.Perm.length_eq ((List.perm_ext_iff_of_nodup ?_ (List.nodup_dedup _)).2 fun id => ?_)
  · exact (Table.nodup_keys t.handles).sublist (List.filter_sublist.map _)
  · simp only [List.mem_map, List.mem_filter, Prod.exists, exists_and_right, exists_eq_right,
      Table.mem_entries, List.mem_dedup, mem_idsInUse]
    constructor
    · rintro ⟨h, hh, hused⟩
      obtain ⟨k, id', huses⟩ := isUsed_iff.1 hused
      obtain rfl : id' = id := hs.own _ _ _ (hs.known k _ huses) hh
      exact ⟨k, h, huses⟩
    · rintro ⟨k, h, huses⟩
      exact ⟨h, hs.known k _ huses, isUsed_iff.2 ⟨k, id, huses⟩⟩

/-! ## What a guard holds -/

/-- To be served with these ids is to hold these locks, whatever steps anybody has made. -/
def Serves (ids locks : List String) : Prop :=
  ∀ todo k c, asked todo k = some ids → (empty.steps todo).callers.get? k = some c →
    (c.isServed = true ↔ c.heldIds = locks)

theorem serves_plan (ids : List String) : Serves ids (plan ids) := by
  intro todo k c hasked hc
  have hs : (empty.steps todo).Sound (asked todo) := sound_empty.steps todo
  exact hs.isServed_iff hasked hc

/-! ## Main result -/

/-- What callers can rely on, next to what each of them has come for. -/
structure Orderly (t : LockTable) (asked : Nat → Option (List String)) : Prop where
  /-- No id is held by two callers. -/
  exclusive : ∀ k k' id h h', t.Holds k (id, h) → t.Holds k' (id, h') → k = k'
  /-- A caller that is there holds a first part of the ids it has come for, each once and in
  ascending order. -/
  ordered : ∀ k c, t.callers.get? k = some c → ∃ ids sorted, asked k = some ids ∧
    sorted.Pairwise (· < ·) ∧ (∀ id, id ∈ sorted ↔ id ∈ ids) ∧ c.heldIds <+: sorted
  /-- No callers wait for each other in a circle. -/
  acyclic : ∀ k, ¬ Relation.TransGen t.Waits k k
  /-- The active ids are those that are held or waited for, each counted once. -/
  active_eq : t.active = t.idsInUse.dedup.length
  /-- Nothing is left once all callers are gone. -/
  idle : t.callers.isEmpty = true → t.active = 0

/-- **Locks under any interleaving.** Whatever number of callers make whatever steps in whatever
order, starting from a table that nobody uses: no two of them hold the same id, each holds a first
part of its plan, nobody waits in a circle, and the active ids are those in use. -/
theorem steps_orderly (todo : List LockStep) : (empty.steps todo).Orderly (asked todo) := by
  have hs : (empty.steps todo).Sound (asked todo) := sound_empty.steps todo
  refine ⟨fun k k' id h h' hk hk' => hs.alone k k' _ _ hk hk' rfl, fun k c hc => ?_, hs.no_circle,
    hs.active_eq, fun hnobody => ?_⟩
  · obtain ⟨ids, hids, hroute⟩ := hs.exists_asked hc
    exact ⟨ids, plan ids, hids, ascending_plan ids, fun _ => mem_plan, hroute ▸ c.heldIds_prefix⟩
  · have hnone : (empty.steps todo).idsInUse = [] := by
      have hempty : (empty.steps todo).callers.entries = [] := List.isEmpty_iff.1 hnobody
      rw [idsInUse, Table.values, hempty]
      rfl
    rw [hs.active_eq, hnone]
    rfl

end LockTable

end OrgForest
