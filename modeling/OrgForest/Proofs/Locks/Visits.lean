import OrgForest.Proofs.Locks

/-!
# Callers that need not wait

A caller that comes anew and finds all that it comes for free takes it in one go: nobody else makes
a step in between, so what was free stays free until its turn. A caller that finds one of its ids
held gets stuck there, and if it does not want to wait, it leaves everything as it was.

* `LockTable.visit` — what a caller does that goes through its plan without a break;
* `LockTable.Sound.turn`, `LockTable.Sound.served` — one turn, and the whole visit;
* `LockTable.Sound.tryAcquire_of_allFree`, `LockTable.Sound.tryAcquire_of_held` — asking without
  waiting succeeds exactly if nobody holds any of the ids;
* `LockTable.served_after` — whatever has happened before, a visit can be served.
-/

namespace OrgForest

/-- The caller that makes a step. -/
def LockStep.caller : LockStep → Nat
  | .ask k _ => k
  | .lookUp k => k
  | .take k => k
  | .leave k => k

namespace LockCaller

/-- What a caller holds is no longer ahead of it. -/
theorem not_mem_ahead {c : LockCaller} (hc : c.route.Pairwise (· < ·)) {e : String × Nat}
    (he : e ∈ c.held) : e.1 ∉ c.ahead := by
  intro hahead
  have h : (c.inUse.map (·.1) ++ c.ahead).Pairwise (· < ·) := hc
  have hmem : e.1 ∈ c.inUse.map (·.1) := List.mem_map_of_mem (List.mem_append_left _ he)
  exact String.lt_irrefl _ ((List.pairwise_append.1 h).2.2 _ hmem _ hahead)

end LockCaller

namespace LockTable

variable {t : LockTable} {k k' : Nat} {e : String × Nat} {id : String} {h : Nat} {c : LockCaller}
  {ahead : List String} {held : List (String × Nat)}

/-! ## Who moves -/

/-- A step moves nobody but the caller that makes it. -/
theorem get?_step_of_ne {s : LockStep} (hk : k ≠ s.caller) (t : LockTable) :
    (t.step s).callers.get? k = t.callers.get? k := by
  cases s with
  | ask k' ids =>
    rw [step]
    split
    · rfl
    · exact Table.get?_insert_of_ne hk
  | lookUp k' =>
    rw [step]
    split
    · exact (Table.get?_insert_of_ne hk).trans (by rw [callers_handle])
    · rfl
  | take k' =>
    rw [step]
    split
    · split
      · rfl
      · exact Table.get?_insert_of_ne hk
    · rfl
  | leave k' => exact (Table.get?_erase ..).trans (if_neg hk)

theorem get?_steps_of_ne {todo : List LockStep} (hk : ∀ s ∈ todo, k ≠ s.caller) (t : LockTable) :
    (t.steps todo).callers.get? k = t.callers.get? k := by
  induction todo generalizing t with
  | nil => rfl
  | cons s todo ih =>
    obtain ⟨hs, htodo⟩ := List.forall_mem_cons.1 hk
    exact (ih htodo (t.step s)).trans (get?_step_of_ne hs t)

/-! ## What a step comes to -/

theorem get?_ask (hc : t.callers.get? k = none) (ids : List String) :
    (t.step (.ask k ids)).callers.get? k = some ⟨plan ids, none, []⟩ := by
  rw [step, hc]
  exact Table.get?_insert_self

theorem get?_lookUp (hc : t.callers.get? k = some ⟨id :: ahead, none, held⟩) :
    (t.step (.lookUp k)).callers.get? k = some ⟨ahead, some (id, (t.handle id).1), held⟩ := by
  rw [step, hc]
  exact Table.get?_insert_self

theorem get?_take (hc : t.callers.get? k = some ⟨ahead, some (id, h), held⟩)
    (hfree : t.isHeld h = false) :
    (t.step (.take k)).callers.get? k = some ⟨ahead, none, held ++ [(id, h)]⟩ := by
  rw [step, hc]
  dsimp only
  rw [hfree]
  exact Table.get?_insert_self

/-- Who looks up a handle holds what it has held. -/
theorem holds_of_lookUp (h : (t.step (.lookUp k)).Holds k' e) : t.Holds k' e := by
  rw [step] at h
  split at h
  · next id ahead held hc =>
    obtain ⟨c, hc', he⟩ := h
    by_cases hk : k' = k
    · rw [hk, Table.get?_insert_self] at hc'
      obtain rfl := Option.some.inj hc'
      exact ⟨⟨id :: ahead, none, held⟩, hk ▸ hc, he⟩
    · rw [Table.get?_insert_of_ne hk, callers_handle] at hc'
      exact ⟨c, hc', he⟩
  · exact h

/-! ## Visits -/

/-- Nobody holds any of these ids. -/
def AllFree (t : LockTable) (ids : List String) : Prop := ∀ id ∈ ids, ∀ k h, ¬ t.Holds k (id, h)

/-- What a new caller does to get what it comes for, if it does not have to wait. -/
def visit (k : Nat) (ids : List String) : List LockStep := .ask k ids :: turns k (plan ids)

theorem caller_of_mem_turns {ids : List String} {s : LockStep} (hs : s ∈ turns k ids) :
    s.caller = k := by
  obtain ⟨id, -, hs⟩ := List.mem_flatMap.1 hs
  rcases List.mem_pair.1 hs with rfl | rfl <;> rfl

theorem get?_turns_of_ne (hk : k' ≠ k) (ids : List String) (t : LockTable) :
    (t.steps (turns k ids)).callers.get? k' = t.callers.get? k' := by
  refine get?_steps_of_ne (fun s hs => ?_) t
  rwa [caller_of_mem_turns hs]

theorem get?_visit_of_ne (hk : k' ≠ k) (ids : List String) (t : LockTable) :
    (t.steps (visit k ids)).callers.get? k' = t.callers.get? k' :=
  (get?_turns_of_ne hk (plan ids) (t.step (.ask k ids))).trans (get?_step_of_ne hk t)

theorem tryAcquire_eq {ids : List String} (hc : (t.steps (visit k ids)).callers.get? k = some c) :
    t.tryAcquire k ids = if c.isServed then (true, t.steps (visit k ids))
      else (false, (t.steps (visit k ids)).step (.leave k)) := by
  unfold visit at hc ⊢
  unfold tryAcquire
  dsimp only
  rw [hc]

/-- A caller that goes through its plan has still come for what it came for. -/
theorem askedAfter_turns (ids : List String) (before : Option (List String)) :
    (turns k' ids).foldl (askedAfter k) before = before := by
  induction ids with
  | nil => rfl
  | cons id ids ih => exact ih

namespace Sound

variable {asked : Nat → Option (List String)} {ids : List String}

/-- A caller takes the next lock of its plan, if nobody holds it. -/
theorem turn (hs : t.Sound asked) (hc : t.callers.get? k = some ⟨id :: ahead, none, held⟩)
    (hfree : ∀ k' h, ¬ t.Holds k' (id, h)) :
    ∃ h, (t.steps (turns k [id])).callers.get? k = some ⟨ahead, none, held ++ [(id, h)]⟩ := by
  have hfound := get?_lookUp hc
  have hs' : (t.step (.lookUp k)).Sound asked := hs.lookUp k
  refine ⟨(t.handle id).1, get?_take hfound (Bool.eq_false_iff.2 fun hheld => ?_)⟩
  -- whoever holds the handle holds it for this very id
  obtain ⟨k', id', hk'⟩ := isHeld_iff.1 hheld
  have hawaits : (t.step (.lookUp k)).Awaits k (id, (t.handle id).1) := ⟨_, hfound, rfl⟩
  obtain rfl : id' = id :=
    hs'.own _ _ _ (hs'.known k' _ hk'.uses) (hs'.known k _ hawaits.uses)
  exact hfree k' _ (holds_of_lookUp hk')

/-- A caller gets through what lies ahead of it, if nobody holds any of it. -/
theorem served_of_ahead (hs : t.Sound asked) (hc : t.callers.get? k = some ⟨ahead, none, held⟩)
    (hfree : t.AllFree ahead) :
    ∃ c, (t.steps (turns k ahead)).callers.get? k = some c ∧ c.isServed = true := by
  -- on what lies ahead: after a turn the rest of it is as free as it was
  induction ahead generalizing t held with
  | nil => exact ⟨_, hc, rfl⟩
  | cons id ahead ih =>
    obtain ⟨h, hnext⟩ := hs.turn hc (hfree id List.mem_cons_self)
    have hs' : (t.steps (turns k [id])).Sound asked := hs.steps _
    have hfree' : (t.steps (turns k [id])).AllFree ahead := by
      rintro id' hid' k' h' ⟨c', hc', he⟩
      by_cases hk : k' = k
      · -- the caller itself comes to every id but once
        rw [hk, hnext] at hc'
        obtain rfl := Option.some.inj hc'
        obtain ⟨ids, -, hroute⟩ := hs'.exists_asked hnext
        exact LockCaller.not_mem_ahead (hroute ▸ ascending_plan ids) he hid'
      · rw [get?_turns_of_ne hk] at hc'
        exact hfree id' (List.mem_cons_of_mem _ hid') k' h' ⟨c', hc', he⟩
    exact ih hs' hnext hfree'

/-- What a new caller has come for, when it has gone through its plan. -/
theorem exists_asked_visit (hs : t.Sound asked) (hnew : t.callers.get? k = none)
    (ids : List String) : ∃ asked', asked' k = some ids ∧ (t.steps (visit k ids)).Sound asked' :=
  ⟨_, (askedAfter_turns ..).trans (hs.askedAfter_ask hnew ids), hs.steps (visit k ids)⟩

/-- A new caller is served, if nobody holds anything that it comes for. -/
theorem served (hs : t.Sound asked) (hnew : t.callers.get? k = none) (hfree : t.AllFree ids) :
    ∃ c, (t.steps (visit k ids)).callers.get? k = some c ∧ c.isServed = true ∧
      c.heldIds = plan ids := by
  have hasks := get?_ask hnew ids
  -- whoever asks does not hold anything yet, and what others hold is what they held
  have hfree' : (t.step (.ask k ids)).AllFree (plan ids) := by
    intro id hid k' h hholds
    obtain ⟨c, hc, he⟩ := hholds
    by_cases hk : k' = k
    · rw [hk, hasks] at hc
      obtain rfl := Option.some.inj hc
      cases he
    · rw [get?_step_of_ne hk] at hc
      exact hfree id (mem_plan.1 hid) k' h ⟨c, hc, he⟩
  obtain ⟨c, hc, hserved⟩ := (hs.ask k ids).served_of_ahead hasks hfree'
  obtain ⟨asked', hids, hs'⟩ := hs.exists_asked_visit hnew ids
  exact ⟨c, hc, hserved, (hs'.isServed_iff hids hc).1 hserved⟩

/-- A new caller is not served as long as somebody holds an id that it comes for. -/
theorem allFree_of_served (hs : t.Sound asked) (hnew : t.callers.get? k = none)
    (hc : (t.steps (visit k ids)).callers.get? k = some c) (hserved : c.isServed = true) :
    t.AllFree ids := by
  obtain ⟨asked', hids, hs'⟩ := hs.exists_asked_visit hnew ids
  have hheld : c.heldIds = plan ids := (hs'.isServed_iff hids hc).1 hserved
  intro id hid k' h hholds
  obtain ⟨c', hc', he'⟩ := hholds
  have hk : k' ≠ k := by
    rintro rfl
    rw [hnew] at hc'
    cases hc'
  -- whoever holds the id still holds it after the visit, next to the caller that is served
  obtain ⟨e, he, rfl⟩ := List.mem_map.1 (hheld ▸ mem_plan.2 hid)
  rw [← get?_visit_of_ne hk ids t] at hc'
  exact hk (hs'.alone k' k _ e ⟨c', hc', he'⟩ ⟨c, hc, he⟩ rfl)

/-- Asking without waiting succeeds if nobody holds any of the ids. -/
theorem tryAcquire_of_allFree (hs : t.Sound asked) (hnew : t.callers.get? k = none)
    (hfree : t.AllFree ids) :
    t.tryAcquire k ids = (true, t.steps (visit k ids)) := by
  obtain ⟨c, hc, hserved, -⟩ := hs.served hnew hfree
  rw [tryAcquire_eq hc, if_pos hserved]

/-- Asking without waiting is refused if somebody holds one of the ids, and then all callers are
where they were. -/
theorem tryAcquire_of_held (hs : t.Sound asked) (hnew : t.callers.get? k = none)
    (hheld : ¬ t.AllFree ids) :
    (t.tryAcquire k ids).1 = false ∧
      ∀ k', (t.tryAcquire k ids).2.callers.get? k' = t.callers.get? k' := by
  -- the caller is there after its visit, but it has got stuck, and so it leaves
  obtain ⟨asked', hids, hs'⟩ := hs.exists_asked_visit hnew ids
  obtain ⟨c, hc⟩ := hs'.exists_caller hids
  have hno : ¬ c.isServed = true := fun hserved => hheld (hs.allFree_of_served hnew hc hserved)
  rw [tryAcquire_eq hc, if_neg hno]
  refine ⟨rfl, fun k' => ?_⟩
  by_cases hk : k' = k
  · rw [hk, hnew]
    exact (Table.get?_erase ..).trans (if_pos rfl)
  · exact (get?_step_of_ne hk _).trans (get?_visit_of_ne hk ids t)

end Sound

example : let t := (empty.tryAcquire 1 ["b", "a"]).2
    (t.tryAcquire 2 ["c", "b"]).1 = false ∧ (t.tryAcquire 2 ["c"]).1 = true := by decide

/-- A caller that is new after any steps, and comes for what nobody holds, gets what it comes for by
one visit. -/
theorem served_after {todo : List LockStep} {ids : List String}
    (hnew : (empty.steps todo).callers.get? k = none) (hfree : (empty.steps todo).AllFree ids) :
    asked (todo ++ visit k ids) k = some ids ∧
      ∃ c, (empty.steps (todo ++ visit k ids)).callers.get? k = some c ∧ c.isServed = true ∧
        c.heldIds = plan ids := by
  have hs : (empty.steps todo).Sound (asked todo) := sound_empty.steps todo
  unfold asked steps
  rw [List.foldl_append, List.foldl_append]
  exact ⟨(askedAfter_turns ..).trans (hs.askedAfter_ask hnew ids), hs.served hnew hfree⟩

end LockTable

end OrgForest
