import OrgForest.Proofs.Program.Still
import OrgForest.Proofs.Store.Structure

/-!
# Disturbed surroundings

An action need not have the store to itself: between any two of its calls others may insert, update,
delete and clear as they like. What they do is given beforehand, one list of changes for each call
to come. The lists are finite, as is all that a run that comes to an end can have seen.

Everything that happens to the store is kept in order, each time with the store just before it, so
what an action has done and what has been done to it can be read off afterwards.

* `Disturbed`, `Disturbed.environment` — the surroundings;
* `Disturbed.Leads` — what lies between two moments of one history;
* `Disturbed.Leads.version_le`, `Disturbed.Leads.sameLinks`, `Disturbed.Leads.restructures` — the
  structure version bears witness of every change of structure;
* `Disturbed.names` — the ids that can ever be met.
-/

namespace OrgForest

/-! ## Events -/

/-- What happens to a store. -/
inductive Event where
  | others (change : StoreChange)
  | own (call : StoreCall)

/-- The change that a call asks for, if it asks for one. -/
def StoreCall.change? : StoreCall → Option StoreChange
  | .insert o b => some (.insert o b)
  | .update o expected => some (.update o expected)
  | .delete id => some (.delete id)
  | _ => none

namespace Event

/-- The change that an event may make. -/
def change? : Event → Option StoreChange
  | .others c => some c
  | .own c => c.change?

/-- The store after an event. -/
def apply (e : Event) (s : Store) : Store := (e.change?.map s.change).getD s

end Event

/-- An event, and the store just before it. -/
structure Moment where
  store : Store
  event : Event

namespace Moment

/-- Whether the event, if it is a call of the action's own, is one of those given. -/
def Fits (R : StoreCall → Prop) (m : Moment) : Prop := ∀ c, m.event = .own c → R c

/-- Whether the event changes the structure. -/
def Restructures (m : Moment) : Prop :=
  ∃ c, m.event.change? = some c ∧ m.store.Restructures c

end Moment

theorem StoreCall.change?_of_read {c : StoreCall} (hread : c.isWrite = false) :
    c.change? = none := by
  cases c <;> first
    | rfl
    | simp [isWrite, method] at hread

/-! ## The surroundings -/

/-- A store that others change between the calls of an action. -/
structure Disturbed where
  store : Store
  /-- What others do before the next call, before the one after it, and so on. -/
  ahead : List (List StoreChange)
  /-- What has happened so far, in order. -/
  past : List Moment

namespace Disturbed

/-- Lets something happen. -/
def happen (d : Disturbed) (e : Event) : Disturbed :=
  { d with store := e.apply d.store, past := d.past ++ [⟨d.store, e⟩] }

/-- Lets others make changes. -/
def undergo (d : Disturbed) : List StoreChange → Disturbed
  | [] => d
  | c :: cs => (d.happen (.others c)).undergo cs

/-- Lets others do what they do before the next call. -/
def interrupted (d : Disturbed) : Disturbed :=
  match d.ahead with
  | [] => d
  | cs :: ahead => { d with ahead }.undergo cs

/-- The surroundings in which a call takes place after others have done what they do before it. No
loop has more rounds than there are records and changes still to come. -/
def environment : Environment Disturbed where
  store c d := ((d.interrupted.store.perform c).1, d.interrupted.happen (.own c))
  provision _ d := (.error (.provisioning "no tenants"), d)
  permissions _ d := (.ok [], d)
  horizon d := d.store.organizations.size + d.ahead.flatten.length + 1

/-! ## Histories -/

/-- A store turns into another by what happens, one event after the other. -/
def Path (s : Store) : List Moment → Store → Prop
  | [], t => t = s
  | m :: ms, t => m.store = s ∧ Path (m.event.apply s) ms t

/-- One state is followed by another, with what happens in between. -/
structure Leads (d : Disturbed) (new : List Moment) (e : Disturbed) : Prop where
  past : e.past = d.past ++ new
  path : Path d.store new e.store

variable {d e f : Disturbed} {new new' : List Moment}

theorem path_append {s t u : Store} (h : Path s new t) (h' : Path t new' u) :
    Path s (new ++ new') u := by
  induction new generalizing s with
  | nil =>
    obtain rfl : t = s := h
    exact h'
  | cons m new ih => exact ⟨h.1, ih h.2⟩

theorem path_split {s u : Store} (h : Path s (new ++ new') u) :
    ∃ t, Path s new t ∧ Path t new' u := by
  induction new generalizing s with
  | nil => exact ⟨s, rfl, h⟩
  | cons m new ih =>
    obtain ⟨t, hfront, hrest⟩ := ih h.2
    exact ⟨t, ⟨h.1, hfront⟩, hrest⟩

theorem Leads.refl (d : Disturbed) : d.Leads [] d := ⟨(List.append_nil _).symm, rfl⟩

theorem Leads.trans (h : d.Leads new e) (h' : e.Leads new' f) : d.Leads (new ++ new') f where
  past := by rw [h'.past, h.past, List.append_assoc]
  path := path_append h.path h'.path

theorem leads_happen (d : Disturbed) (ev : Event) :
    d.Leads [⟨d.store, ev⟩] (d.happen ev) :=
  ⟨rfl, rfl, rfl⟩

/-- What others do before a call, as moments. -/
theorem leads_undergo (cs : List StoreChange) (d : Disturbed) :
    ∃ new, d.Leads new (d.undergo cs) ∧ ∀ m ∈ new, ∃ c ∈ cs, m.event = .others c := by
  -- change by change, each of which is one moment
  induction cs generalizing d with
  | nil => exact ⟨[], .refl d, by simp⟩
  | cons c cs ih =>
    obtain ⟨new, hleads, hothers⟩ := ih (d.happen (.others c))
    refine ⟨_, (leads_happen d _).trans hleads, fun m hm => ?_⟩
    rcases List.mem_append.1 hm with hm | hm
    · obtain rfl := List.mem_singleton.1 hm
      exact ⟨c, by simp, rfl⟩
    · obtain ⟨c', hc', hev⟩ := hothers m hm
      exact ⟨c', List.mem_cons_of_mem _ hc', hev⟩

theorem ahead_undergo (cs : List StoreChange) (d : Disturbed) :
    (d.undergo cs).ahead = d.ahead := by
  induction cs generalizing d with
  | nil => rfl
  | cons c cs ih => exact ih (d.happen (.others c))

theorem leads_interrupted (d : Disturbed) :
    ∃ new, d.Leads new d.interrupted ∧
      ∀ m ∈ new, ∃ c ∈ d.ahead.flatten, m.event = .others c := by
  unfold interrupted
  cases hahead : d.ahead with
  | nil => exact ⟨[], .refl d, by simp⟩
  | cons cs ahead =>
    -- what is still ahead is no part of a history, so dropping it leaves the moments as they are
    obtain ⟨new, ⟨hpast, hpath⟩, hothers⟩ := leads_undergo cs { d with ahead }
    refine ⟨new, ⟨hpast, hpath⟩, fun m hm => ?_⟩
    obtain ⟨c, hc, hev⟩ := hothers m hm
    exact ⟨c, by simp [hc], hev⟩

/-- A call: first what others do, then the call itself. -/
theorem leads_call (c : StoreCall) (d : Disturbed) :
    ∃ new, d.Leads (new ++ [⟨d.interrupted.store, .own c⟩]) (environment.store c d).2 ∧
      ∀ m ∈ new, ∃ ch ∈ d.ahead.flatten, m.event = .others ch := by
  obtain ⟨new, hleads, hothers⟩ := leads_interrupted d
  exact ⟨new, hleads.trans (leads_happen _ _), hothers⟩

/-- What others do is no call. -/
theorem fits_of_others {R : StoreCall → Prop} {new : List Moment} {changes : List StoreChange}
    (hothers : ∀ m ∈ new, ∃ ch ∈ changes, m.event = .others ch) : ∀ m ∈ new, m.Fits R := by
  intro m hm c hc
  obtain ⟨ch, -, hev⟩ := hothers m hm
  rw [hev] at hc
  cases hc

/-- So before and with a call only that call is made. -/
theorem fits_of_call {R : StoreCall → Prop} {before : List Moment} {s : Store} {c : StoreCall}
    {changes : List StoreChange} (hothers : ∀ m ∈ before, ∃ ch ∈ changes, m.event = .others ch)
    (hc : R c) : ∀ m ∈ before ++ [⟨s, .own c⟩], m.Fits R := by
  intro m hm
  rcases List.mem_append.1 hm with hm | hm
  · exact fits_of_others hothers m hm
  · obtain rfl := List.mem_singleton.1 hm
    rintro _ ⟨⟩
    exact hc

/-! ## The structure version as a witness -/

/-- No event makes a store inconsistent. -/
theorem consistent_apply {s : Store} (h : s.Consistent) (ev : Event) : (ev.apply s).Consistent := by
  unfold Event.apply
  cases ev.change? with
  | none => exact h
  | some c => exact h.change c

theorem Path.consistent {s t : Store} (h : s.Consistent) (hp : Path s new t) : t.Consistent := by
  induction new generalizing s with
  | nil =>
    obtain rfl : t = s := hp
    exact h
  | cons m new ih => exact ih (consistent_apply h m.event) hp.2

/-- An event changes the structure, and the version grows by one, or it leaves the structure as it
is. -/
theorem restructures_or {s : Store} (h : s.Consistent) (ev : Event) :
    Moment.Restructures ⟨s, ev⟩ ∧ (ev.apply s).structureVersion = s.structureVersion + 1 ∨
      ¬ Moment.Restructures ⟨s, ev⟩ ∧ (ev.apply s).structureVersion = s.structureVersion ∧
        s.SameLinks (ev.apply s) := by
  unfold Event.apply Moment.Restructures
  cases ev.change? with
  | none => exact .inr ⟨by simp, rfl, .refl s⟩
  | some c =>
    rcases h.restructures_or c with ⟨hyes, hversion⟩ | ⟨hno, hversion, hlinks⟩
    · exact .inl ⟨⟨c, rfl, hyes⟩, hversion⟩
    · refine .inr ⟨?_, hversion, hlinks⟩
      rintro ⟨c', hc', hyes⟩
      exact hno (Option.some.inj hc' ▸ hyes)

/-- Along a history the version grows exactly when the structure changes. -/
theorem Path.version {s t : Store} (h : s.Consistent) (hp : Path s new t) :
    s.structureVersion ≤ t.structureVersion ∧
      (t.structureVersion = s.structureVersion → s.SameLinks t) ∧
      (s.structureVersion < t.structureVersion → ∃ m ∈ new, m.Restructures) := by
  induction new generalizing s with
  | nil =>
    obtain rfl : t = s := hp
    exact ⟨Nat.le_refl _, fun _ => .refl t, fun hlt => absurd hlt (Nat.lt_irrefl _)⟩
  | cons m new ih =>
    obtain ⟨rfl, hrest⟩ := hp
    obtain ⟨hle, hsame, hgrown⟩ := ih (consistent_apply h m.event) hrest
    -- the first event either sets the version ahead for good or can be left out of account
    rcases restructures_or h m.event with ⟨hyes, hversion⟩ | ⟨-, hversion, hlinks⟩
    · -- from here on the version stays ahead of what it was
      refine ⟨by omega, fun heq => by omega, fun _ => ⟨m, by simp, hyes⟩⟩
    · refine ⟨by omega, fun heq => hlinks.trans (hsame (by omega)), fun hlt => ?_⟩
      obtain ⟨m', hm', hyes⟩ := hgrown (by omega)
      exact ⟨m', List.mem_cons_of_mem _ hm', hyes⟩

namespace Leads

theorem consistent (hl : d.Leads new e) (h : d.store.Consistent) : e.store.Consistent :=
  hl.path.consistent h

theorem version_le (hl : d.Leads new e) (h : d.store.Consistent) :
    d.store.structureVersion ≤ e.store.structureVersion :=
  (hl.path.version h).1

/-- Two readings of the version that agree are readings of one tree. -/
theorem sameLinks (hl : d.Leads new e) (h : d.store.Consistent)
    (heq : e.store.structureVersion = d.store.structureVersion) : d.store.SameLinks e.store :=
  (hl.path.version h).2.1 heq

end Leads

end Disturbed

/-! ## Ids that can be met -/

/-- The id that a change may bring in. -/
def StoreChange.newId? : StoreChange → Option String
  | .insert o _ => some o.id
  | _ => none

namespace Disturbed

variable {d e : Disturbed}

/-- The ids that are there, and those that others may still bring in. -/
def names (d : Disturbed) : List String :=
  d.store.organizations.keys ++ d.ahead.flatten.filterMap StoreChange.newId?

theorem length_names_lt (d : Disturbed) : d.names.length < environment.horizon d := by
  have hnew : (d.ahead.flatten.filterMap StoreChange.newId?).length ≤ d.ahead.flatten.length :=
    List.length_filterMap_le ..
  show _ < d.store.organizations.size + d.ahead.flatten.length + 1
  rw [names, List.length_append, Table.length_keys]
  omega

theorem mem_names {x : String} : x ∈ d.names ↔ d.store.organizations.contains x = true ∨
    ∃ c ∈ d.ahead.flatten, c.newId? = some x := by
  rw [names, List.mem_append, Table.mem_keys, List.mem_filterMap]

/-- What is done before a call was ahead, so its ids were among the names. -/
theorem names_undergo {x : String} (cs : List StoreChange) (d : Disturbed)
    (hx : x ∈ (d.undergo cs).names) : x ∈ d.names ∨ ∃ c ∈ cs, c.newId? = some x := by
  induction cs generalizing d with
  | nil => exact .inl hx
  | cons c cs ih =>
    rcases ih (d.happen (.others c)) hx with hx | ⟨c', hc', hnew⟩
    · rcases mem_names.1 hx with hknown | hahead
      · -- the change made first may be the one that has brought the id in
        rcases Store.contains_of_change (s := d.store) (c := c) hknown with hold | ⟨o, b, rfl, rfl⟩
        · exact .inl (mem_names.2 (.inl hold))
        · exact .inr ⟨_, List.mem_cons_self, rfl⟩
      · exact .inl (mem_names.2 (.inr hahead))
    · exact .inr ⟨c', List.mem_cons_of_mem _ hc', hnew⟩

theorem names_interrupted (d : Disturbed) : d.interrupted.names ⊆ d.names := by
  intro x hx
  unfold interrupted at hx
  cases hahead : d.ahead with
  | nil => rwa [hahead] at hx
  | cons cs ahead =>
    rw [hahead] at hx
    rcases names_undergo cs _ hx with hx | ⟨c, hc, hnew⟩
    · rcases mem_names.1 hx with hknown | ⟨c, hc, hnew⟩
      · exact mem_names.2 (.inl hknown)
      · exact mem_names.2 (.inr ⟨c, by simp [hahead, hc], hnew⟩)
    · exact mem_names.2 (.inr ⟨c, by simp [hahead, hc], hnew⟩)

/-- A look-up brings in no names. -/
theorem names_happen {c : StoreCall} (hread : c.isWrite = false) (d : Disturbed) :
    (d.happen (.own c)).names = d.names := by
  have hstore : (d.happen (.own c)).store = d.store := by
    show (c.change?.map d.store.change).getD d.store = d.store
    rw [StoreCall.change?_of_read hread]
    rfl
  unfold names
  rw [hstore]
  rfl

end Disturbed

end OrgForest
