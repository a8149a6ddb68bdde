import OrgForest.Proofs.Program.Standing

/-!
# What is still to come

What others do during an action was ahead of it when it started, and what they have not done by its
end is still ahead. So while an action only looks things up, the store at any moment is what the
first of the changes ahead have made of it, and of any kind of record only so many can still come
up.

* `Disturbed.others`, `Action.run_others` — no action has a say in what others do;
* `Disturbed.Watches` — what lies between two states of a history in which an action only looks;
* `Store.Throughout`, `Disturbed.Watches.throughout` — what is so in all stores on the way;
* `Disturbed.left`, `Disturbed.Watches.left_lt` — how many records of a kind can still come up.
-/

namespace OrgForest

/-- The change that others make at a moment, if they make one. -/
def Moment.others? (m : Moment) : Option StoreChange :=
  match m.event with
  | .others c => some c
  | .own _ => none

/-- A property that a store has now and after each of some changes. -/
def Store.Throughout (P : Store → Prop) (s : Store) : List StoreChange → Prop
  | [] => P s
  | c :: cs => P s ∧ (s.change c).Throughout P cs

instance Store.decidableThroughout (P : Store → Prop) [DecidablePred P] (s : Store) :
    (cs : List StoreChange) → Decidable (s.Throughout P cs)
  | [] => inferInstanceAs (Decidable (P s))
  | c :: cs =>
    have := decidableThroughout P (s.change c) cs
    inferInstanceAs (Decidable (P s ∧ (s.change c).Throughout P cs))

theorem Store.Throughout.now {P : Store → Prop} {s : Store} {cs : List StoreChange}
    (h : s.Throughout P cs) : P s := by
  cases cs with
  | nil => exact h
  | cons c cs => exact h.1

/-! ## What others do -/

namespace Disturbed

/-- All that others do, sooner or later: what they have done, and what is ahead. -/
def others (d : Disturbed) : List StoreChange := d.past.filterMap Moment.others? ++ d.ahead.flatten

theorem others_own (d : Disturbed) (c : StoreCall) : (d.happen (.own c)).others = d.others := by
  unfold others happen
  rw [List.filterMap_append]
  show _ ++ [] ++ _ = _
  rw [List.append_nil]

theorem filterMap_others_undergo (cs : List StoreChange) (d : Disturbed) :
    (d.undergo cs).past.filterMap Moment.others? = d.past.filterMap Moment.others? ++ cs := by
  induction cs generalizing d with
  | nil => exact (List.append_nil _).symm
  | cons c cs ih =>
    have hfirst : (d.happen (.others c)).past.filterMap Moment.others? =
        d.past.filterMap Moment.others? ++ [c] := List.filterMap_append
    rw [undergo, ih, hfirst, List.append_assoc]
    rfl

theorem others_interrupted (d : Disturbed) : d.interrupted.others = d.others := by
  unfold interrupted
  cases hahead : d.ahead with
  | nil => rfl
  | cons cs ahead =>
    dsimp only
    unfold others
    rw [filterMap_others_undergo, ahead_undergo, hahead, List.flatten_cons, List.append_assoc]

end Disturbed

theorem Program.run_others {α : Type} (p : Program α) (d : Disturbed) :
    (p.run Disturbed.environment d).2.others = d.others := by
  induction p generalizing d with
  | done a => rfl
  | store c next ih =>
    refine (ih _ _).trans ?_
    rw [← d.others_interrupted]
    exact d.interrupted.others_own c
  | provision o next ih => exact ih _ d
  | permissions id next ih => exact ih _ d
  | horizon next ih => exact ih _ d

/-- No action has a say in what others do. -/
theorem Action.run_others {α : Type} (a : Action α) (d : Disturbed) :
    (a.run Disturbed.environment d).2.others = d.others :=
  Program.run_others (ExceptT.run a) d

/-! ## Looking on -/

namespace Disturbed

variable {d e f : Disturbed} {new new' : List Moment}

/-- One state is followed by another, and in between nothing is changed but by others. -/
structure Watches (d : Disturbed) (new : List Moment) (e : Disturbed) : Prop
    extends Leads d new e where
  reads : ∀ m ∈ new, m.Fits fun c => c.isWrite = false
  others : e.others = d.others

theorem Watches.trans (h : d.Watches new e) (h' : e.Watches new' f) :
    d.Watches (new ++ new') f where
  toLeads := h.toLeads.trans h'.toLeads
  reads m hm := (List.mem_append.1 hm).elim (h.reads m) (h'.reads m)
  others := h'.others.trans h.others

/-- What others have done in between is what is no longer ahead. -/
theorem Watches.ahead (h : d.Watches new e) :
    new.filterMap Moment.others? ++ e.ahead.flatten = d.ahead.flatten := by
  have hothers := h.others
  unfold Disturbed.others at hothers
  rw [h.past, List.filterMap_append, List.append_assoc] at hothers
  exact List.append_cancel_left hothers

/-- A look-up leaves the store as it is. -/
theorem apply_of_fits {m : Moment} (hm : m.Fits fun c => c.isWrite = false) :
    m.event.apply m.store = (m.others?.map m.store.change).getD m.store := by
  obtain ⟨s, ev⟩ := m
  cases ev with
  | others c => rfl
  | own c =>
    show (c.change?.map s.change).getD s = s
    rw [StoreCall.change?_of_read (hm c rfl)]
    rfl

theorem Path.throughout {P : Store → Prop} {s t : Store} {cs : List StoreChange}
    (hp : Path s new t) (hreads : ∀ m ∈ new, m.Fits fun c => c.isWrite = false)
    (h : s.Throughout P (new.filterMap Moment.others? ++ cs)) :
    (∀ m ∈ new, P m.store) ∧ t.Throughout P cs := by
  induction new generalizing s with
  | nil =>
    obtain rfl : t = s := hp
    exact ⟨fun _ hm => absurd hm List.not_mem_nil, h⟩
  | cons first new ih =>
    obtain ⟨rfl, hrest⟩ := hp
    have happly := apply_of_fits (hreads first List.mem_cons_self)
    have hnow := h.now
    -- a call of one's own uses up nothing of what others do
    have hnext : (first.event.apply first.store).Throughout P
        (new.filterMap Moment.others? ++ cs) := by
      rw [happly]
      rw [List.filterMap_cons] at h
      cases hothers : first.others? with
      | none =>
        rw [hothers] at h
        exact h
      | some c =>
        rw [hothers] at h
        exact h.2
    obtain ⟨hall, hend⟩ := ih hrest (fun m hm => hreads m (List.mem_cons_of_mem _ hm)) hnext
    exact ⟨List.forall_mem_cons.2 ⟨hnow, hall⟩, hend⟩

/-- What holds now and after each of the changes ahead holds at every moment, and goes on to hold. -/
theorem Watches.throughout {P : Store → Prop} (h : d.Watches new e)
    (hP : d.store.Throughout P d.ahead.flatten) :
    (∀ m ∈ new, P m.store) ∧ e.store.Throughout P e.ahead.flatten := by
  rw [← h.ahead] at hP
  exact h.path.throughout h.reads hP

end Disturbed

theorem Action.ReadOnly.watches {α : Type} {a : Action α} (ha : a.ReadOnly) (d : Disturbed) :
    ∃ new, d.Watches new (a.run Disturbed.environment d).2 := by
  obtain ⟨new, hleads, hreads⟩ := ha.asks.leads d
  exact ⟨new, hleads, hreads, a.run_others d⟩

/-! ## What can still come up -/

namespace Disturbed

variable {d e : Disturbed} {new : List Moment} {p p' : Organization → Bool}

/-- How many records of a kind can still come up: those that are there, and one for each change
ahead. -/
def left (d : Disturbed) (p : Organization → Bool) : Nat :=
  d.store.organizations.values.countP p + d.ahead.flatten.length

theorem left_lt_horizon (d : Disturbed) (p : Organization → Bool) :
    d.left p < environment.horizon d := by
  have hcount := d.store.organizations.countP_values_le p
  show d.left p < d.store.organizations.size + d.ahead.flatten.length + 1
  unfold left
  omega

theorem Path.countP_le {s t : Store} (hp : Path s new t)
    (hreads : ∀ m ∈ new, m.Fits fun c => c.isWrite = false) (p : Organization → Bool) :
    t.organizations.values.countP p ≤
      s.organizations.values.countP p + (new.filterMap Moment.others?).length := by
  induction new generalizing s with
  | nil =>
    obtain rfl : t = s := hp
    exact Nat.le_add_right ..
  | cons m new ih =>
    obtain ⟨rfl, hrest⟩ := hp
    have hle := ih hrest fun m hm => hreads m (List.mem_cons_of_mem _ hm)
    rw [apply_of_fits (hreads m List.mem_cons_self)] at hle
    rw [List.filterMap_cons]
    cases hothers : m.others? with
    | none =>
      rw [hothers] at hle
      exact hle
    | some c =>
      have hchange := m.store.countP_change c p
      rw [hothers] at hle
      simp only [Option.map_some, Option.getD_some] at hle
      rw [List.length_cons]
      omega

/-- Fewer can come up of a narrower kind, once a record has come up that it leaves out. -/
theorem Watches.left_lt (h : d.Watches new e) {m : Moment} (hm : m ∈ new) {o : Organization}
    (ho : m.store.Holds o) (hle : ∀ x, p' x = true → p x = true) (hp : p o = true)
    (hp' : p' o = false) : e.left p' < d.left p := by
  obtain ⟨front, rest, rfl⟩ := List.append_of_mem hm
  obtain ⟨s, hfront, hrest⟩ := path_split h.path
  obtain rfl : m.store = s := hrest.1
  -- up to the moment of the record the wide kind is counted, and from then on the narrow one
  have hbefore := hfront.countP_le (fun x hx => h.reads x (List.mem_append_left _ hx)) p
  have hafter := hrest.countP_le (fun x hx => h.reads x (List.mem_append_right _ hx)) p'
  -- the record itself makes the difference
  have hvalue : o ∈ m.store.organizations.values := Table.mem_values.2 ⟨o.id, ho⟩
  have hboth : ∀ x, (p' x && p x) = p' x := by
    intro x
    rw [Bool.and_eq_left_iff_imp]
    exact hle x
  have hstrict : m.store.organizations.values.countP p' <
      m.store.organizations.values.countP p :=
    calc
      _ = ((m.store.organizations.values.filter p).filter p').length := by
        rw [List.countP_eq_length_filter, List.filter_filter]
        exact congrArg List.length (List.filter_congr fun x _ => (hboth x).symm)
      _ < (m.store.organizations.values.filter p).length :=
        List.length_filter_lt_length_iff_exists.2
          ⟨o, List.mem_filter.2 ⟨hvalue, hp⟩, by rw [hp']; exact Bool.false_ne_true⟩
      _ = m.store.organizations.values.countP p := List.countP_eq_length_filter.symm
  have hahead := congrArg List.length h.ahead
  rw [List.filterMap_append, List.length_append, List.length_append] at hahead
  unfold left
  omega

end Disturbed

end OrgForest
