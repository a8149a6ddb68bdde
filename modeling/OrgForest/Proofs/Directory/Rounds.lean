import OrgForest.Directory.Change
import OrgForest.Proofs.Program.Ahead

/-!
# Rounds of the loop that locks

Whoever changes a record below a parent locks the two of them. Which parent that is has to be read
before the locks can be taken, and by the time they are taken others may have moved the
organization, deleted it, or put in another one under its id. So the record is read with the locks
held, and as long as it names another parent than was read before, the locks are given up and all
starts again.

No counter ends that loop. But a round that comes to nothing has been crossed: between its two
readings others have changed the store. So there are no more of these rounds than changes, and each
of them leaves fewer changes to come.

* `Directory.Round`, `Directory.Crossed` — the moments of a round, and of one that comes to nothing;
* `Directory.holdRound_cases` — all that a round can come to;
* `Directory.run_holdRounds` — the rounds of the loop, up to the one that ends it;
* `Directory.run_holdRounds_eq` — the loop ends by itself.
-/

namespace OrgForest.Directory

variable {id : String}

theorem run_load_disturbed (id : String) (d : Disturbed) :
    (load id).run Disturbed.environment d =
      (match d.interrupted.store.organizations.get? id with
        | some o => .ok o
        | none => .error (.notFound (.organization id)),
      d.interrupted.happen (.own (.get id))) := by
  rw [load, Action.run_bind, Action.run_call]
  dsimp only [Store.perform, Except.mapError]
  cases d.interrupted.store.organizations.get? id <;> rfl

/-! ## The moments of a round -/

/-- The moments of a round: the link of an organization is read in one store, and then its record in
the store that others have made of it. Nothing else is asked for. -/
inductive Round (id : String) : List Moment → Store → Store → Prop where
  | intro {before between : List Moment} {s t : Store}
      (hbefore : ∀ m ∈ before, ∃ c, m.event = .others c)
      (hbetween : ∀ m ∈ between, ∃ c, m.event = .others c)
      (hpath : Disturbed.Path s between t) :
      Round id (before ++ ⟨s, .own (.parentId id)⟩ :: (between ++ [⟨t, .own (.get id)⟩])) s t

/-- The moments of a round that comes to nothing: the record names another parent than the link. -/
def Crossed (id : String) (ms : List Moment) : Prop :=
  ∃ s t o, Round id ms s t ∧ t.organizations.get? id = some o ∧
    o.parentId ≠ (s.parentId? id).join

section Moments

variable {ms : List Moment} {s t : Store} {d f : Disturbed}

/-- The record is what a round reads last. -/
theorem Round.exists_front (h : Round id ms s t) :
    ∃ front, ms = front ++ [⟨t, .own (.get id)⟩] := by
  obtain @⟨before, between, _, _, -, -, -⟩ := h
  exact ⟨before ++ ⟨s, .own (.parentId id)⟩ :: between, by rw [List.append_assoc]; rfl⟩

theorem Round.reads (h : Round id ms s t) : ∀ m ∈ ms, m.Fits fun c => c.isWrite = false := by
  obtain ⟨hbefore, hbetween, -⟩ := h
  intro m hm c hc
  rcases List.mem_append.1 hm with hm | hm
  · obtain ⟨ch, hch⟩ := hbefore m hm
    rw [hch] at hc
    cases hc
  · rcases List.mem_cons.1 hm with rfl | hm
    · cases hc
      rfl
    · rcases List.mem_append.1 hm with hm | hm
      · obtain ⟨ch, hch⟩ := hbetween m hm
        rw [hch] at hc
        cases hc
      · obtain rfl := List.mem_singleton.1 hm
        cases hc
        rfl

/-- Others have had a hand in a round that comes to nothing. -/
theorem Crossed.others (h : Crossed id ms) : 0 < (ms.filterMap Moment.others?).length := by
  obtain ⟨s, t, o, @⟨before, between, _, _, -, hbetween, hpath⟩, ho, hother⟩ := h
  cases between with
  | nil =>
    -- on one and the same store the link and the record name the same parent
    obtain rfl : t = s := hpath
    have hup : t.parentId? id = some o.parentId := Store.parentId?_eq_some.2 ⟨o, ho, rfl⟩
    rw [hup] at hother
    exact absurd rfl hother
  | cons m between =>
    obtain ⟨c, hc⟩ := hbetween m List.mem_cons_self
    have hm : m.others? = some c := by
      unfold Moment.others?
      rw [hc]
    exact List.length_pos_of_mem (List.mem_filterMap.2 ⟨m, by simp, hm⟩)

/-- So they have less left to do after it. -/
theorem Crossed.ahead_lt (h : Crossed id ms) (hleads : d.Leads ms f)
    (hothers : f.others = d.others) :
    f.ahead.flatten.length < d.ahead.flatten.length := by
  -- what has been made and what is ahead come to the same before the round and after it
  have hmade := h.others
  obtain ⟨s, t, o, hround, -, -⟩ := h
  have hwatches : d.Watches ms f := ⟨hleads, hround.reads, hothers⟩
  have hahead := congrArg List.length hwatches.ahead
  rw [List.length_append] at hahead
  omega

/-- No more rounds come to nothing than changes are made meanwhile. -/
theorem length_le_others {tries : List (List Moment)} (h : ∀ ms ∈ tries, Crossed id ms) :
    tries.length ≤ (tries.flatten.filterMap Moment.others?).length := by
  induction tries with
  | nil => exact Nat.zero_le _
  | cons ms tries ih =>
    have hfirst := (h ms List.mem_cons_self).others
    have hrest := ih fun ms' hms => h ms' (List.mem_cons_of_mem _ hms)
    rw [List.length_cons, List.flatten_cons, List.filterMap_append, List.length_append]
    omega

end Moments

/-! ## One round -/

/-- How a round ends the loop: it finds no record, or one that names the parent which it has read
before, so that the locks of the two have been taken. -/
inductive Ended (id : String) (s : Store)
    (run : Except OrganizationError (List String × Organization) × Disturbed) : Prop where
  | missing (hnone : run.2.store.organizations.get? id = none)
      (hresult : run.1 = .error (.notFound (.organization id)))
  | agreed {o : Organization} (hfound : run.2.store.organizations.get? id = some o)
      (hsame : o.parentId = (s.parentId? id).join)
      (hresult : run.1 = .ok (LockTable.plan (id :: o.parentId.toList), o))

theorem run_holdRound (id : String) (d : Disturbed) :
    (holdRound id).run Disturbed.environment d =
      match (load id).run Disturbed.environment
          (d.interrupted.happen (.own (.parentId id))) with
      | (.ok current, f) =>
        (.ok (if current.parentId = (d.interrupted.store.parentId? id).join then
          .inr (LockTable.plan (id :: (d.interrupted.store.parentId? id).join.toList), current)
          else .inl ()), f)
      | (.error err, f) => (.error err, f) := by
  rw [holdRound, Action.run_bind, Action.run_call]
  dsimp only [Store.perform, Except.mapError]
  rw [Action.run_bind]
  rcases (load id).run Disturbed.environment (d.interrupted.happen (.own (.parentId id))) with
    ⟨err | current, f⟩
  · rfl
  · dsimp only
    split <;> rfl

/-- All that a round can come to: it has been crossed and another one follows, or it ends the
loop. -/
theorem holdRound_cases (id : String) (d : Disturbed) :
    ∃ ms f, d.Leads ms f ∧
      (Crossed id ms ∧ (holdRound id).run Disturbed.environment d = (.ok (.inl ()), f) ∨
        ∃ s result, Round id ms s f.store ∧ Ended id s (result, f) ∧
          (holdRound id).run Disturbed.environment d = (result.map .inr, f)) := by
  -- the two readings, each after what others do before it
  obtain ⟨before, hfirst, hbefore⟩ := d.leads_interrupted
  let e := d.interrupted.happen (.own (.parentId id))
  obtain ⟨between, hsecond, hbetween⟩ := e.leads_interrupted
  let f := e.interrupted.happen (.own (.get id))
  have hlink : d.Leads (before ++ [⟨d.interrupted.store, .own (.parentId id)⟩]) e :=
    hfirst.trans (Disturbed.leads_happen _ _)
  have hrecord : e.Leads (between ++ [⟨f.store, .own (.get id)⟩]) f :=
    hsecond.trans (Disturbed.leads_happen _ _)
  have hround : Round id (before ++ ⟨d.interrupted.store, .own (.parentId id)⟩ ::
      (between ++ [⟨f.store, .own (.get id)⟩])) d.interrupted.store f.store := by
    refine .intro (fun m hm => ?_) (fun m hm => ?_) hsecond.path
    · exact (hbefore m hm).imp fun _ h => h.2
    · exact (hbetween m hm).imp fun _ h => h.2
  have hleads := hlink.trans hrecord
  rw [List.append_assoc] at hleads
  refine ⟨_, f, hleads, ?_⟩
  have hrun := run_holdRound id d
  rw [run_load_disturbed] at hrun
  cases hget : f.store.organizations.get? id with
  | none =>
    have hnone : e.interrupted.store.organizations.get? id = none := hget
    rw [hnone] at hrun
    exact .inr ⟨_, .error _, hround, .missing hget rfl, hrun⟩
  | some o =>
    have hsome : e.interrupted.store.organizations.get? id = some o := hget
    rw [hsome] at hrun
    dsimp only at hrun
    by_cases hsame : o.parentId = (d.interrupted.store.parentId? id).join
    · rw [if_pos hsame, ← hsame] at hrun
      exact .inr ⟨_, .ok _, hround, .agreed hget hsame rfl, hrun⟩
    · rw [if_neg hsame] at hrun
      exact .inl ⟨⟨_, _, o, hround, hget, hsame⟩, hrun⟩

/-! ## The loop -/

/-- With more rounds allowed than changes are to come, the loop does rounds that come to nothing and
then one that ends it. -/
theorem run_holdRounds (id : String) (horizon : Nat) {n : Nat} {d : Disturbed}
    (hn : d.ahead.flatten.length < n) :
    let run := (Action.rounds horizon (fun _ => holdRound id) n ()).run Disturbed.environment d
    ∃ (tries : List (List Moment)) (last : List Moment) (s : Store),
      d.Leads (tries.flatten ++ last) run.2 ∧ (∀ ms ∈ tries, Crossed id ms) ∧
        Round id last s run.2.store ∧ Ended id s run := by
  -- on the rounds allowed, which stay ahead of the changes to come
  induction n generalizing d with
  | zero => omega
  | succ n ih =>
    dsimp only
    have hothers := (holdRound id).run_others d
    obtain ⟨ms, f, hleads, ⟨hcrossed, hrun⟩ | ⟨s, result, hround, hended, hrun⟩⟩ :=
      holdRound_cases id d
    · -- one more that comes to nothing, in front of those that follow
      rw [hrun] at hothers
      have hless := hcrossed.ahead_lt hleads hothers
      rw [Action.run_rounds_succ, hrun]
      obtain ⟨tries, last, s, hrest, htries, hlast, hended⟩ := ih (d := f) (by omega)
      refine ⟨ms :: tries, last, s, ?_, List.forall_mem_cons.2 ⟨hcrossed, htries⟩, hlast, hended⟩
      rw [List.flatten_cons, List.append_assoc]
      exact hleads.trans hrest
    · -- the last one
      have hlast : (Action.rounds horizon (fun _ => holdRound id) (n + 1) ()).run
          Disturbed.environment d = (result, f) := by
        rw [Action.run_rounds_succ, hrun]
        cases result <;> rfl
      rw [hlast]
      exact ⟨[], ms, s, hleads, by simp, hround, hended⟩

/-- How many rounds are allowed makes no difference then. -/
theorem run_holdRounds_eq (id : String) (horizon horizon' : Nat) {n n' : Nat} {d : Disturbed}
    (hn : d.ahead.flatten.length < n) (hn' : d.ahead.flatten.length < n') :
    (Action.rounds horizon (fun _ => holdRound id) n ()).run Disturbed.environment d =
      (Action.rounds horizon' (fun _ => holdRound id) n' ()).run Disturbed.environment d := by
  -- on the rounds allowed here; from a round that is not the last both go on in the same way
  induction n generalizing n' d with
  | zero => omega
  | succ n ih =>
    obtain ⟨n', rfl⟩ : ∃ k, n' = k + 1 := ⟨n' - 1, by omega⟩
    have hothers := (holdRound id).run_others d
    rw [Action.run_rounds_succ, Action.run_rounds_succ]
    obtain ⟨ms, f, hleads, ⟨hcrossed, hrun⟩ | ⟨s, result, -, -, hrun⟩⟩ := holdRound_cases id d
    · rw [hrun] at hothers ⊢
      have hless := hcrossed.ahead_lt hleads hothers
      exact ih (by omega) (by omega)
    · rw [hrun]
      cases result <;> rfl

/-- The loop of the surroundings is allowed that many rounds. -/
theorem ahead_lt_horizon (d : Disturbed) :
    d.ahead.flatten.length < Disturbed.environment.horizon d := by
  show _ < d.store.organizations.size + d.ahead.flatten.length + 1
  omega

end OrgForest.Directory
