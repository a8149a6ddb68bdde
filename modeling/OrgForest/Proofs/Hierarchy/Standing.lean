import OrgForest.Proofs.Hierarchy.Attempts
import OrgForest.Proofs.Hierarchy.Descend

/-!
# Walks in disturbed surroundings

A walk sees a store that is another one at every call. Two things can be said of it all the same. If
the structure stands still from its first call to its last, it finds what is there, whatever else
others do to the records meanwhile. And it comes to an end in any case: every round but the last
meets an id that it has not met before, and there are only so many ids.

* `Hierarchy.climb_finds`, `Hierarchy.descend_finds` — what a walk finds on a standing structure;
* `Hierarchy.climb_ends`, `Hierarchy.descend_ends` — a walk is never cut off;
* `Hierarchy.climb_asks`, `Hierarchy.descend_asks` — a walk asks for links only.
-/

namespace OrgForest

/-- What a walk up is to find: the lineage of an id, or the empty chain for an id without record. -/
def Store.ChainOf (s : Store) (id : String) (chain : Chain) : Prop :=
  Lineage s.parentId? id chain ∨ s.parentId? id = none ∧ chain = []

/-- How many ranks below an id are not empty. -/
def Store.HeightOf (s : Store) (id : String) (height : Nat) : Prop :=
  s.rank id (height + 1) = [] ∧ ∀ k ≤ height, s.rank id k ≠ []

namespace Hierarchy

variable {id : String} {s : Store}

/-! ## What walks ask for -/

theorem climb_asks (id : String) : (climb id).Asks StoreCall.OfLinks := by
  refine .iterate (fun way => ?_) _
  obtain ⟨met, here⟩ := way
  refine (Action.asks_call (.inl ⟨here, rfl⟩)).bind fun found => ?_
  cases found with
  | none =>
    cases met with
    | nil => exact Action.asks_pure _
    | cons child rest => exact Action.asks_throw _
  | some parent =>
    dsimp only
    split
    · exact Action.asks_throw _
    · cases parent <;> exact Action.asks_pure _

theorem readLevel_asks (id : String) :
    ∀ parents met, (readLevel id parents met).Asks StoreCall.OfLinks
  | [], _ => Action.asks_pure _
  | parent :: parents, met => by
    refine (Action.asks_call (.inr ⟨parent, rfl⟩)).bind fun children => ?_
    cases meetAll children met with
    | error again => exact Action.asks_throw _
    | ok met => exact (readLevel_asks id parents met).bind fun _ => Action.asks_pure _

theorem descend_asks (id : String) (recursive : Bool) :
    (descend id recursive).Asks StoreCall.OfLinks := by
  refine .iterate (fun d : Descent =>
    (readLevel_asks id d.frontier d.met).bind fun found => ?_) _
  dsimp only
  split
  · exact Action.asks_pure _
  · split <;> exact Action.asks_pure _

/-! ## Walks up on a standing structure -/

/-- The ids of what is met are kept in front, the last one first. -/
theorem meetAll_ok {cs : List Organization} {met met' : List String}
    (h : meetAll cs met = .ok met') :
    met' = (cs.map (·.id)).reverse ++ met ∧ (met.Nodup → met'.Nodup) := by
  rw [meetAll_metAgain] at h
  cases hmet : metAgain (cs.map (·.id)) met with
  | some again =>
    rw [hmet] at h
    cases h
  | none =>
    rw [hmet] at h
    obtain rfl := Except.ok.inj h
    obtain ⟨hids, hnew⟩ := metAgain_eq_none.1 hmet
    refine ⟨rfl, fun hnd => List.nodup_append.2 ⟨?_, hnd, ?_⟩⟩
    · exact (List.reverse_perm _).nodup_iff.2 hids
    · rintro x hx y hy rfl
      exact hnew x (List.mem_reverse.1 hx) hy

/-- What the levels of a walk down are to be: the ranks below an id, as far as there are any. -/
def LevelsOf (s : Store) (id : String) (levels : List (List Organization)) : Prop :=
  s.HeightOf id levels.length ∧
    levels.map (·.map (·.id)) = (List.range levels.length).map fun k => s.rank id (k + 1)

/-- All ids are among those given, the ids met and the ids that can still be met, and no more than
`left` of them have not been met. -/
structure Room (all met : List String) (d : Disturbed) (left : Nat) : Prop where
  distinct : met.Nodup
  subset : met ⊆ all
  names : d.names ⊆ all
  length_le : all.length ≤ met.length + left

/-- A round that meets further ids leaves fewer to be met. -/
theorem Room.next {all met met' : List String} {d e : Disturbed} {left : Nat}
    (h : Room all met d left) (hnames : e.names ⊆ d.names) (hdistinct : met'.Nodup)
    (hsubset : met' ⊆ all) (hmore : met.length < met'.length) :
    ∃ k < left, Room all met' e k := by
  have hroom : met'.length ≤ all.length := hdistinct.length_le_of_subset fun _ hx => hsubset hx
  have hleft := h.length_le
  exact ⟨all.length - met'.length, by omega, hdistinct, hsubset,
    fun _ hx => h.names (hnames hx), by omega⟩

variable {all met : List String} {d : Disturbed} {left : Nat}

theorem climbRound_step {here : String} (hroom : Room all met d left) :
    (∀ n, ((climbRound id (met, here)).run Disturbed.environment d).1 ≠ .error (.cutOff n)) ∧
      ∀ next, ((climbRound id (met, here)).run Disturbed.environment d).1 = .ok (.inl next) →
        ∃ k < left, Room all next.1
          ((climbRound id (met, here)).run Disturbed.environment d).2 k := by
  have hnames := Program.ReadOnly.names (readOnly_climbRound id (met, here)) d
  -- the state counts only through its names from here on
  generalize hend : ((climbRound id (met, here)).run Disturbed.environment d).2 = e
  replace hnames : e.names ⊆ d.names := hend ▸ hnames
  clear hend
  unfold climbRound
  dsimp only
  rw [Action.run_bind, Action.run_call]
  dsimp only [Store.perform, Except.mapError]
  cases hup : d.interrupted.store.parentId? here with
  | none => cases met <;> exact ⟨fun n h => (by cases h), fun next h => (by cases h)⟩
  | some parent =>
    dsimp only
    split
    · exact ⟨fun n h => (by cases h), fun next h => (by cases h)⟩
    · next hnew =>
      cases parent with
      | none => exact ⟨fun n h => (by cases h), fun next h => (by cases h)⟩
      | some parent =>
        refine ⟨fun n h => (by cases h), fun next h => ?_⟩
        cases h
        -- the id of this round has a record just now
        have hknown : here ∈ d.interrupted.names :=
          Disturbed.mem_names.2 (.inl (Store.contains_of_parentId? hup))
        have hhere : here ∈ all := hroom.names (d.names_interrupted hknown)
        exact hroom.next hnames (List.nodup_cons.2 ⟨hnew, hroom.distinct⟩)
          (List.cons_subset.2 ⟨hhere, hroom.subset⟩) (Nat.lt_succ_self _)

/-- A walk up is never cut off. -/
theorem climb_ends (id : String) : (climb id).Ends := by
  intro d hd n
  rw [climb, Action.run_iterate]
  -- the rounds left are the ids that have not been met
  refine Action.ends_rounds (I := fun left (way : List String × String) e =>
    Room d.names way.1 e left) (fun left way e _ hroom => climbRound_step hroom) _ hd
    (k := d.names.length) ?_ d.length_names_lt n
  exact ⟨List.nodup_nil, List.nil_subset _, fun _ hx => hx, by simp⟩

theorem readLevel_step (id : String) (hd : d.store.Consistent) (hnames : d.names ⊆ all)
    (parents : List String) (hmet : met ⊆ all) :
    (∀ n, ((readLevel id parents met).run Disturbed.environment d).1 ≠ .error (.cutOff n)) ∧
      ∀ found, ((readLevel id parents met).run Disturbed.environment d).1 = .ok found →
        (met.Nodup → found.1.Nodup) ∧ found.1 ⊆ all ∧
          found.1.length = met.length + found.2.length := by
  induction parents generalizing met d with
  | nil =>
    refine ⟨fun n h => (by cases h), fun found h => ?_⟩
    obtain rfl : (met, []) = found := Except.ok.inj h
    exact ⟨fun hnd => hnd, hmet, rfl⟩
  | cons p parents ih =>
    obtain ⟨new, hleads, -⟩ := d.leads_interrupted
    have hd' := hleads.consistent hd
    have hkids : d.interrupted.store.childrenOf p = .ok (d.interrupted.store.kids p) :=
      Store.recordsOf_eq fun _ hid => Store.contains_of_parentId? (hd'.mem_childIds.1 hid)
    rw [readLevel, Action.run_bind, Action.run_call]
    dsimp only [Store.perform]
    rw [hkids]
    dsimp only [Except.mapError]
    cases hmeet : meetAll (d.interrupted.store.kids p) met with
    | error again => exact ⟨fun n h => (by cases h), fun found h => (by cases h)⟩
    | ok met' =>
      obtain ⟨rfl, hdistinct⟩ := meetAll_ok hmeet
      have hread : (StoreCall.children p).isWrite = false := rfl
      let e := d.interrupted.happen (.own (.children p))
      have hnames' : e.names ⊆ d.names := by
        rw [Disturbed.names_happen hread]
        exact d.names_interrupted
      have hchildren : ((d.interrupted.store.kids p).map (·.id)).reverse ++ met ⊆ all := by
        intro x hx
        rcases List.mem_append.1 hx with hx | hx
        · -- a child has a record just now
          rw [List.mem_reverse, hd'.recorded.map_id_kids] at hx
          have hknown := hd'.contains_of_mem_childIds hx
          exact hnames (d.names_interrupted (Disturbed.mem_names.2 (.inl hknown)))
        · exact hmet hx
      have hrest := @ih _ e ((Disturbed.leads_happen _ _).consistent hd')
        (fun _ hx => hnames (hnames' hx)) hchildren
      dsimp only
      rw [Action.run_bind]
      rcases hrun : (readLevel id parents _).run Disturbed.environment e with ⟨err | found, f⟩
      · rw [hrun] at hrest
        refine ⟨fun n h => ?_, fun found h => (by cases h)⟩
        exact hrest.1 n (congrArg Except.error (Except.error.inj h))
      · rw [hrun] at hrest
        obtain ⟨hnd, hsubset, hlen⟩ := hrest.2 found rfl
        refine ⟨fun n h => (by cases h), fun found' h => ?_⟩
        cases h
        refine ⟨fun hmet => hnd (hdistinct hmet), hsubset, ?_⟩
        simp only [List.length_append, List.length_reverse, List.length_map] at hlen ⊢
        omega

theorem descendRound_step {recursive : Bool} {walk : Descent} (hd : d.store.Consistent)
    (hroom : Room all walk.met d left) :
    (∀ n, ((descendRound id recursive walk).run Disturbed.environment d).1 ≠
        .error (.cutOff n)) ∧
      ∀ next, ((descendRound id recursive walk).run Disturbed.environment d).1 =
          .ok (.inl next) →
        ∃ k < left, Room all next.met
          ((descendRound id recursive walk).run Disturbed.environment d).2 k := by
  have hlevel := readLevel_step id hd hroom.names walk.frontier hroom.subset
  have hnames := Program.ReadOnly.names (readOnly_readLevel id walk.frontier walk.met) d
  rw [descendRound, Action.run_bind]
  rcases hrun : (readLevel id walk.frontier walk.met).run Disturbed.environment d with
    ⟨err | found, e⟩
  · rw [hrun] at hlevel
    refine ⟨fun n h => ?_, fun next h => (by cases h)⟩
    exact hlevel.1 n (congrArg Except.error (Except.error.inj h))
  · rw [hrun] at hlevel
    replace hnames : e.names ⊆ d.names := by
      intro x hx
      refine hnames ?_
      show x ∈ ((readLevel id walk.frontier walk.met).run Disturbed.environment d).2.names
      rw [hrun]
      exact hx
    obtain ⟨hdistinct, hsubset, hlen⟩ := hlevel.2 found rfl
    obtain ⟨met', level⟩ := found
    dsimp only
    split
    · exact ⟨fun n h => (by cases h), fun next h => (by cases h)⟩
    · next hempty =>
      split
      · refine ⟨fun n h => (by cases h), fun next h => ?_⟩
        cases h
        -- the walk goes on only after a level with ids in it
        have hpos : 0 < level.length := by
          rw [List.length_pos_iff]
          intro hnil
          exact hempty (List.isEmpty_iff.2 hnil)
        have hmore : walk.met.length < met'.length := by
          dsimp only at hlen
          omega
        exact hroom.next hnames (hdistinct hroom.distinct) hsubset hmore
      · exact ⟨fun n h => (by cases h), fun next h => (by cases h)⟩

/-- A walk down is never cut off. -/
theorem descend_ends (id : String) (recursive : Bool) : (descend id recursive).Ends := by
  intro d hd n
  rw [descend, Action.run_iterate]
  -- the id itself counts as met, and need not be among the names
  refine Action.ends_rounds (I := fun left (walk : Descent) e =>
    Room (id :: d.names) walk.met e left) (fun left walk e he hroom => descendRound_step he hroom) _
    hd (k := d.names.length) ?_ d.length_names_lt n
  refine ⟨by simp, by simp, fun _ hx => List.mem_cons_of_mem _ hx, ?_⟩
  simp only [List.length_cons, List.length_nil]
  omega

end Hierarchy

end OrgForest
