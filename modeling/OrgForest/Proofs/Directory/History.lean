import OrgForest.Proofs.Directory.Step

/-!
# Histories of a directory

A directory is asked for one change after the other, over a store that was empty once and that only
the directory changes. Some changes are made and some are refused. What every step keeps holds of
every store that such a history leads to.

* `Setting.consistent_run` — no action, and nobody who comes between, makes a store inconsistent;
* `Directory.serve`, `Directory.answer` — one change, and how it is answered;
* `Directory.after`, `Directory.serve_step` — histories, and their single steps;
* `Directory.after_invariant` — what every step keeps holds in the end.
-/

namespace OrgForest

/-! ## Consistency, whatever is asked for -/

theorem Surroundings.consistent_perform {s : Surroundings} (h : s.store.Consistent)
    (c : StoreCall) : (s.perform c).2.store.Consistent := by
  cases c with
  | insert o b => exact h.insert o b
  | update o expected => exact h.update o expected
  | delete id => exact h.delete id
  | _ => exact h

theorem Surroundings.consistent_interfere (acts : List Interference) :
    ∀ {s : Surroundings}, s.store.Consistent → (s.interfere acts).2.store.Consistent := by
  induction acts with
  | nil => exact fun h => h
  | cons act acts ih =>
    intro s h
    cases act with
    | churn => exact ih (s := { s with churned := s.churned + 1 }) h
    | fail e => exact h
    | change f =>
      rw [interfere]
      cases f s.store with
      | none => exact ih h
      | some change => exact ih (s := { s with store := s.store.change change }) (h.change change)

theorem Setting.consistent_call (setting : Setting) (c : StoreCall) {s : Surroundings}
    (h : s.store.Consistent) : (setting.call c s).2.store.Consistent := by
  have hcalled : ({ s with calls := c.method :: s.calls } : Surroundings).store.Consistent := h
  unfold Setting.call
  dsimp only
  generalize (setting.hooks.filter _).map _ = acts
  have hacts := Surroundings.consistent_interfere acts hcalled
  rcases hreply : Surroundings.interfere _ acts with ⟨_ | _, t⟩
  · rw [hreply] at hacts
    exact hacts
  · rw [hreply] at hacts
    exact Surroundings.consistent_perform hacts c

theorem Setting.consistent_program (setting : Setting) {α : Type} (p : Program α)
    {s : Surroundings} (h : s.store.Consistent) :
    (p.run setting.environment s).2.store.Consistent := by
  induction p generalizing s with
  | done a => exact h
  | store c next ih => exact ih _ (setting.consistent_call c h)
  | provision o next ih => exact ih _ h
  | permissions id next ih => exact ih _ h
  | horizon next ih => exact ih _ h

/-- No action makes a store inconsistent, and nobody who comes between its calls does. -/
theorem Setting.consistent_run (setting : Setting) {α : Type} (a : Action α) {s : Surroundings}
    (h : s.store.Consistent) : (a.run setting.environment s).2.store.Consistent :=
  setting.consistent_program (ExceptT.run a) h

/-! ## Histories -/

/-- A change that a directory is asked for, with the time at which it comes. An addition brings the
id that it is to use. -/
inductive Mutation where
  | add (now : Timestamp) (fresh : String) (o : Organization)
  | patch (now : Timestamp) (id : String) (ops : List Patch.Operation)
  | update (now : Timestamp) (id currentName : String) (o : Organization)
  | delete (id : String)

/-- A change, and what surrounds it. -/
structure Request where
  mutation : Mutation
  setting : Setting

/-- The id that a change is about. -/
def Mutation.target : Mutation → String
  | .add _ fresh _ => fresh
  | .patch _ id _ => id
  | .update _ id _ _ => id
  | .delete id => id

/-- Tenants are numbered in turn, and nobody may do anything. -/
def Setting.plain : Setting := ⟨[], .sequential, fun _ => .ok []⟩

/-- A change in the plain setting. -/
def Mutation.plain (m : Mutation) : Request := ⟨m, .plain⟩

namespace Directory

/-- The directory in which nothing is chosen. -/
def standard : Directory := ⟨.standard "secret", by decide⟩

/-- What a change leaves of the surroundings when nobody comes between. -/
def serve (d : Directory) (s : Surroundings) (r : Request) : Surroundings :=
  let env := r.setting.undisturbed.environment
  match r.mutation with
  | .add now fresh o => ((d.add now fresh o).run env s.next).2
  | .patch now id ops => ((d.patch now id ops).run env s.next).2
  | .update now id currentName o => ((d.update now id currentName o).run env s.next).2
  | .delete id => ((delete id).run env s.next).2

/-- How a change is answered when nobody comes between: it is made or refused. -/
def answer (d : Directory) (s : Surroundings) (r : Request) : Except OrganizationError Unit :=
  let env := r.setting.undisturbed.environment
  match r.mutation with
  | .add now fresh o => ((d.add now fresh o).run env s.next).1.map fun _ => ()
  | .patch now id ops => ((d.patch now id ops).run env s.next).1.map fun _ => ()
  | .update now id currentName o =>
    ((d.update now id currentName o).run env s.next).1.map fun _ => ()
  | .delete id => ((delete id).run env s.next).1

/-- What is left after changes of an empty store, the first tenant having a given number. -/
def after (d : Directory) (first : Int64) (requests : List Request) : Surroundings :=
  requests.foldl d.serve (.new first)

variable {d : Directory}

theorem serve_consistent {s : Surroundings} (h : s.store.Consistent) (r : Request) :
    (d.serve s r).store.Consistent := by
  have hnext : s.next.store.Consistent := h
  unfold serve
  dsimp only
  split
  all_goals exact r.setting.undisturbed.consistent_run _ hnext

/-- Every change that is served is a step. -/
theorem serve_step {s : Surroundings} (h : s.store.Consistent) (r : Request) :
    d.Step s.store (d.serve s r).store := by
  obtain ⟨mutation, setting⟩ := r
  have hnext : s.next.store.Consistent := h
  cases mutation with
  | add now fresh o =>
    rw [serve, (setting.run_undisturbed _ s).2]
    exact add_step hnext.toLinked now fresh o
  | patch now id ops =>
    rw [serve, (setting.run_undisturbed _ s).2]
    exact patch_step hnext.toLinked now id ops
  | update now id currentName o =>
    rw [serve, (setting.run_undisturbed _ s).2]
    exact update_step hnext.toLinked now id currentName o
  | delete id =>
    rw [serve, (setting.run_undisturbed _ s).2]
    exact delete_step hnext id

/-- What holds of the empty store and is kept by every step holds after every history. -/
theorem after_invariant {I : Store → Prop} (hempty : I .empty)
    (hstep : ∀ {s s' : Store}, s.Consistent → d.Step s s' → I s → I s') (first : Int64)
    (requests : List Request) :
    (d.after first requests).store.Consistent ∧ I (d.after first requests).store := by
  -- by induction on the requests, from any consistent store on; each step needs the consistency of
  -- the store before it
  have hrun : ∀ s : Surroundings, s.store.Consistent → I s.store →
      (requests.foldl d.serve s).store.Consistent ∧ I (requests.foldl d.serve s).store := by
    induction requests with
    | nil => exact fun s hs hI => ⟨hs, hI⟩
    | cons r requests ih =>
      exact fun s hs hI => ih _ (serve_consistent hs r) (hstep hs (serve_step hs r) hI)
  exact hrun (.new first) .empty hempty

theorem after_consistent (first : Int64) (requests : List Request) :
    (d.after first requests).store.Consistent :=
  (after_invariant (I := fun _ => True) trivial (fun _ _ _ => trivial) first requests).1

end Directory

end OrgForest
