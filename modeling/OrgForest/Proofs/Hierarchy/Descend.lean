import OrgForest.Proofs.Hierarchy.Climb
import OrgForest.Proofs.Store.Rank

/-!
# Walks down

In still surroundings a walk down reads the ranks below an organization one after the other and
stops at the first that is empty, or at the first id that it meets again. In a consistent store it
never does the latter, as no id is of two ranks and none stands twice in one.

* `Hierarchy.metAgain` — the first id that is met again;
* `Hierarchy.run_readLevel`, `Hierarchy.run_descendRound` — the children of one rank;
* `Hierarchy.run_descend_recorded` — a walk ends on any links between records;
* `Hierarchy.run_descend` — the levels of a walk are the ranks that are not empty;
* `Hierarchy.run_descend_children` — a walk that is not to go on reads the children;
* `Hierarchy.run_below`, `Hierarchy.run_below_children`, `Hierarchy.run_heightOf` — the answers.
-/

namespace OrgForest.Hierarchy

variable {setting : Setting} {s : Surroundings} {id : String}

/-! ## Look-ups only -/

theorem readOnly_readLevel (id : String) :
    ∀ parents met, (readLevel id parents met).ReadOnly
  | [], _ => Action.readOnly_pure _
  | parent :: parents, met => by
    refine (Action.readOnly_call rfl).bind fun children => ?_
    cases meetAll children met with
    | error again => exact Action.readOnly_throw _
    | ok met => exact (readOnly_readLevel id parents met).bind fun _ => Action.readOnly_pure _

theorem readOnly_descend (id : String) (recursive : Bool) : (descend id recursive).ReadOnly := by
  refine .iterate (fun d : Descent =>
    (readOnly_readLevel id d.frontier d.met).bind fun found => ?_) _
  dsimp only
  split
  · exact Action.readOnly_pure _
  · split <;> exact Action.readOnly_pure _

/-! ## Ids that are met again -/

/-- The first of some ids that has been met, be it before them or among them. -/
def metAgain : List String → List String → Option String
  | [], _ => none
  | x :: ids, met => if x ∈ met then some x else metAgain ids (x :: met)

theorem metAgain_eq_none {ids met : List String} :
    metAgain ids met = none ↔ ids.Nodup ∧ ∀ x ∈ ids, x ∉ met := by
  induction ids generalizing met with
  | nil => simp [metAgain]
  | cons x ids ih =>
    rw [metAgain]
    split
    · next hmem => simp [hmem]
    · next hnew =>
      rw [ih, List.nodup_cons]
      constructor
      · rintro ⟨hnd, hall⟩
        refine ⟨⟨fun hmem => hall x hmem List.mem_cons_self, hnd⟩, fun y hy => ?_⟩
        rcases List.mem_cons.1 hy with rfl | hy
        · exact hnew
        · exact fun hmem => hall y hy (List.mem_cons_of_mem _ hmem)
      · rintro ⟨⟨hx, hnd⟩, hall⟩
        refine ⟨hnd, fun y hy hmem => ?_⟩
        rcases List.mem_cons.1 hmem with rfl | hmem
        · exact hx hy
        · exact hall y (List.mem_cons_of_mem _ hy) hmem

theorem metAgain_append (ids ids' met : List String) : metAgain (ids ++ ids') met =
    (metAgain ids met).or (metAgain ids' (ids.reverse ++ met)) := by
  induction ids generalizing met with
  | nil => rfl
  | cons x ids ih =>
    rw [List.cons_append, metAgain, metAgain]
    split
    · rfl
    · rw [ih, List.reverse_cons, List.append_assoc]
      rfl

theorem meetAll_metAgain (cs : List Organization) (met : List String) : meetAll cs met =
    match metAgain (cs.map (·.id)) met with
    | some again => .error again
    | none => .ok ((cs.map (·.id)).reverse ++ met) := by
  induction cs generalizing met with
  | nil => rfl
  | cons c cs ih =>
    rw [meetAll, List.map_cons, metAgain]
    split
    · rfl
    · rw [ih, List.reverse_cons, List.append_assoc]
      rfl

/-! ## One rank -/

theorem run_children (h : s.store.Recorded) (p : String) :
    (Action.call (.children p)).run setting.still s = (.ok (s.store.kids p), s) := by
  have hkids : s.store.childrenOf p = .ok (s.store.kids p) :=
    Store.recordsOf_eq (h.children p)
  show ((s.store.childrenOf p).mapError _, s) = _
  rw [hkids]
  rfl

/-- The children of parents are read in order, up to the first that has been met. -/
theorem run_readLevel (h : s.store.Recorded) (parents met : List String) :
    (readLevel id parents met).run setting.still s =
      match metAgain (parents.flatMap s.store.childIds) met with
      | some again => (.error (.invariantViolation (.subtreeCycle id again)), s)
      | none => (.ok ((parents.flatMap s.store.childIds).reverse ++ met,
          parents.flatMap s.store.kids), s) := by
  -- on the parents: the children of the first are met before those of the rest are read
  induction parents generalizing met with
  | nil => rfl
  | cons p parents ih =>
    rw [readLevel, Action.run_bind, run_children h]
    dsimp only
    rw [meetAll_metAgain, h.map_id_kids, List.flatMap_cons, metAgain_append]
    cases metAgain (s.store.childIds p) met with
    | some again => rfl
    | none =>
      dsimp only [Option.none_or]
      rw [Action.run_bind, ih]
      cases metAgain (parents.flatMap s.store.childIds) ((s.store.childIds p).reverse ++ met) with
      | some again => rfl
      | none => simp [Action.run_pure]

/-! ## The whole walk -/

/-- The records of the children of a rank. -/
def level (s : Store) (id : String) (k : Nat) : List Organization :=
  (s.rank id k).flatMap s.kids

theorem map_id_level {s : Store} (h : s.Recorded) (id : String) (k : Nat) :
    (level s id k).map (·.id) = s.rank id (k + 1) := by
  simp only [level, List.map_flatMap, h.map_id_kids]
  rfl

theorem holds_of_mem_level {s : Store} (h : s.Recorded) {id : String} {k : Nat} {o : Organization}
    (ho : o ∈ level s id k) : s.Holds o := by
  obtain ⟨p, -, hp⟩ := List.mem_flatMap.1 ho
  exact h.holds_of_mem_kids hp

/-- A round of a walk down reads a rank, if none of its ids has been met. -/
theorem run_descendRound (h : s.store.Recorded) (k : Nat) (levels : List (List Organization)) :
    (descendRound id true
        ⟨(s.store.ranksTo id k).reverse, s.store.rank id k, levels⟩).run setting.still s =
      match metAgain (s.store.rank id (k + 1)) (s.store.ranksTo id k).reverse with
      | some again => (.error (.invariantViolation (.subtreeCycle id again)), s)
      | none => (.ok (if s.store.rank id (k + 1) = [] then .inr levels
          else .inl ⟨(s.store.ranksTo id (k + 1)).reverse, s.store.rank id (k + 1),
            levels ++ [level s.store id k]⟩), s) := by
  have hids : (s.store.rank id k).flatMap s.store.childIds = s.store.rank id (k + 1) := rfl
  have hmet : (s.store.ranksTo id (k + 1)).reverse =
      (s.store.rank id (k + 1)).reverse ++ (s.store.ranksTo id k).reverse :=
    List.reverse_append
  have hempty : (level s.store id k).isEmpty = true ↔ s.store.rank id (k + 1) = [] := by
    rw [List.isEmpty_iff, ← map_id_level h, List.map_eq_nil_iff]
  rw [descendRound, Action.run_bind, run_readLevel h, hids]
  cases metAgain (s.store.rank id (k + 1)) (s.store.ranksTo id k).reverse with
  | some again => rfl
  | none =>
    show ((if (level s.store id k).isEmpty then _ else _ : Action _)).run _ _ = _
    simp only [hempty]
    split
    · rfl
    · show (Except.ok (Sum.inl (Descent.mk _ ((level s.store id k).map (·.id)) _)), s) = _
      rw [map_id_level h, hmet]
      rfl

/-- What a walk down comes to: the ranks up to the first that is empty, or an id that it meets
again. -/
inductive Descended (s : Store) (id : String) :
    Except OrganizationError (List (List Organization)) → Prop where
  | ranks (height : Nat) (hend : s.rank id (height + 1) = [])
      (hfull : ∀ j ≤ height, s.rank id j ≠ []) (hnd : ∀ j, (s.ranksTo id j).Nodup) :
      Descended s id (.ok ((List.range height).map (level s id)))
  | again (x : String) {k : Nat} (hrepeat : ¬ (s.ranksTo id k).Nodup) :
      Descended s id (.error (.invariantViolation (.subtreeCycle id x)))

/-- From a rank on, a walk down reads rank after rank. -/
theorem run_descend_rounds (h : s.store.Recorded) {horizon n k : Nat}
    (hn : s.store.organizations.size < n + k) (hnd : (s.store.ranksTo id k).Nodup)
    (hfull : ∀ j ≤ k, s.store.rank id j ≠ []) :
    ∃ outcome, (Action.rounds horizon (descendRound id true) n
          ⟨(s.store.ranksTo id k).reverse, s.store.rank id k,
            (List.range k).map (level s.store id)⟩).run setting.still s = (outcome, s) ∧
      Descended s.store id outcome := by
  -- on the rounds left: together with the ranks read so far they are more than there can be ranks,
  -- so the walk does not run out of them
  induction n generalizing k with
  | zero =>
    have hsize := h.le_size_of_ranksTo hnd hfull
    omega
  | succ n ih =>
    rw [Action.run_rounds_succ, run_descendRound h]
    cases hmet : metAgain (s.store.rank id (k + 1)) (s.store.ranksTo id k).reverse with
    | some again =>
      refine ⟨_, rfl, .again again (k := k + 1) fun hnext => ?_⟩
      obtain ⟨-, hrank, hnew⟩ := Store.nodup_ranksTo_succ.1 hnext
      rw [metAgain_eq_none.2 ⟨hrank, by simpa using hnew⟩] at hmet
      cases hmet
    | none =>
      obtain ⟨hrank, hnew⟩ := metAgain_eq_none.1 hmet
      have hnext : (s.store.ranksTo id (k + 1)).Nodup :=
        Store.nodup_ranksTo_succ.2 ⟨hnd, hrank, by simpa using hnew⟩
      by_cases hempty : s.store.rank id (k + 1) = []
      · rw [if_pos hempty]
        refine ⟨_, rfl, .ranks k hempty hfull fun j => ?_⟩
        -- the ranks up to an earlier one are a front part, and from here on nothing is added
        rcases Nat.le_total j k with hle | hle
        · exact hnd.sublist (Store.ranksTo_sublist hle)
        · rwa [Store.ranksTo_of_le hempty hle]
      · rw [if_neg hempty]
        have hlevels : (List.range k).map (level s.store id) ++ [level s.store id k] =
            (List.range (k + 1)).map (level s.store id) := by
          rw [List.range_succ, List.map_append]
          rfl
        dsimp only
        rw [hlevels]
        exact ih (by omega) hnext (Store.full_next hfull hempty)

/-- However broken the links are, a walk down over children with records ends. -/
theorem run_descend_recorded (h : s.store.Recorded) (id : String) :
    ∃ outcome, (descend id true).run setting.still s = (outcome, s) ∧
      Descended s.store id outcome := by
  rw [descend, Action.run_iterate]
  refine run_descend_rounds h (k := 0) (Nat.lt_succ_self _) (by simp [Store.ranksTo]) ?_
  intro j hj
  obtain rfl : j = 0 := Nat.le_zero.1 hj
  simp [Store.rank]

/-- The levels of a walk down are the ranks that are not empty. -/
theorem run_descend (h : s.store.Linked) (id : String) :
    ∃ height, (descend id true).run setting.still s =
        (.ok ((List.range height).map (level s.store id)), s) ∧
      s.store.rank id (height + 1) = [] ∧ ∀ j ≤ height, s.store.rank id j ≠ [] := by
  obtain ⟨outcome, hrun, hcome⟩ : ∃ outcome, (descend id true).run setting.still s = (outcome, s) ∧
    Descended s.store id outcome := run_descend_recorded h.recorded id
  cases hcome with
  | ranks height hend hfull => exact ⟨height, hrun, hend, hfull⟩
  | again x hrepeat => exact absurd (h.nodup_ranksTo id _) hrepeat

/-- A walk down that is not to go on reads the children. -/
theorem run_descend_children (h : s.store.Linked) (id : String) :
    ∃ levels, (descend id false).run setting.still s = (.ok levels, s) ∧
      levels.flatten = s.store.kids id := by
  have hone : [id].flatMap s.store.childIds = s.store.childIds id := List.flatMap_singleton ..
  have hkids : [id].flatMap s.store.kids = s.store.kids id := List.flatMap_singleton ..
  -- no id is its own child, so the walk may start with the id as met
  have hread : (readLevel id [id] [id]).run setting.still s =
      (.ok ((s.store.childIds id).reverse ++ [id], s.store.kids id), s) := by
    have hnone : metAgain ([id].flatMap s.store.childIds) [id] = none := by
      refine metAgain_eq_none.2 ⟨h.nodup_rank id 1, fun x hx hmem => ?_⟩
      have hself : x ∈ s.store.rank id 0 := hmem
      have hsame : (1 : Nat) = 0 := h.eq_of_mem_rank hx hself
      omega
    rw [run_readLevel h.recorded, hnone, hone, hkids]
  rw [descend, Action.run_iterate]
  show ∃ levels, (Action.rounds _ _ (s.store.organizations.size + 1) _).run _ _ = _ ∧ _
  rw [Action.run_rounds_succ, descendRound, Action.run_bind, hread]
  dsimp only
  cases hempty : (s.store.kids id).isEmpty with
  | true => exact ⟨[], rfl, (List.isEmpty_iff.1 hempty).symm⟩
  | false => exact ⟨[s.store.kids id], rfl, List.append_nil _⟩

/-! ## Answers -/

/-- What stands below an organization is found rank after rank, however often the walk may be made
again. -/
theorem run_below (h : s.store.Linked) (id : String) :
    ∃ height, s.store.rank id (height + 1) = [] ∧ ∀ limit,
      (below limit id true).run setting.still s =
        (.ok ((List.range height).flatMap (level s.store id)), s) := by
  obtain ⟨height, hrun, hend, -⟩ : ∃ height, (descend id true).run setting.still s = _ ∧ _ :=
    run_descend h id
  refine ⟨height, hend, fun limit => ?_⟩
  rw [below, Action.run_bind, run_onStableTree (readOnly_descend id true), hrun]
  rfl

theorem run_below_children (h : s.store.Linked) (limit : Nat) (id : String) :
    (below limit id false).run setting.still s = (.ok (s.store.kids id), s) := by
  obtain ⟨levels, hrun, hkids⟩ : ∃ levels, (descend id false).run setting.still s = _ ∧ _ :=
    run_descend_children h id
  rw [below, Action.run_bind, run_onStableTree (readOnly_descend id false), hrun]
  show (Except.ok levels.flatten, s) = _
  rw [hkids]

/-- The height below an organization is the number of its last rank that is not empty. -/
theorem run_heightOf (h : s.store.Linked) (limit : Nat) (id : String) :
    ∃ height, (heightOf limit id).run setting.still s = (.ok height, s) ∧
      s.store.rank id (height + 1) = [] ∧ ∀ j ≤ height, s.store.rank id j ≠ [] := by
  obtain ⟨height, hrun, hlast⟩ : ∃ height, (descend id true).run setting.still s = _ ∧ _ :=
    run_descend h id
  refine ⟨height, ?_, hlast⟩
  rw [heightOf, Action.run_bind, run_onStableTree (readOnly_descend id true), hrun]
  simp [Action.run_pure]

end OrgForest.Hierarchy
