import OrgForest.Proofs.Program.Assures

/-!
# Failures that the caller can put right

A request is refused for what it says, for what is not there, or for what it conflicts with. Its
caller can put that right. All other failures are the server's, and the way to show that there is
none of them is to follow an action from call to call: a look-up is fair if in still surroundings it
changes nothing and fails only in a way that the caller can put right, and what is built of fair
look-ups is fair.

A change makes fair look-ups and then one write, or none. So whatever is to be known of a change can
be proved of its write alone, with all that has been looked up on the way to it.

* `Blameless` — outcomes for which the server is not to blame;
* `Action.Fair` — fair look-ups, with a rule for every way to build an action;
* `Action.Fair.run_bind` — a look-up, and what comes after it.
-/

namespace OrgForest

/-- The server is not to blame: there is an answer, or a failure that the caller can put right. -/
def Blameless {α : Type} (outcome : Except OrganizationError α) : Prop :=
  ∀ e, outcome = .error e → e.kind ≠ .server

theorem blameless_ok {α : Type} (x : α) : Blameless (.ok x) := by
  intro e h
  cases h

theorem blameless_error {α : Type} {e : OrganizationError} (h : e.kind ≠ .server) :
    Blameless (.error e : Except OrganizationError α) := by
  intro e' he
  cases he
  exact h

namespace Action

variable {α β : Type} {setting : Setting} {s : Surroundings}

/-- In still surroundings the action changes nothing, and the server is not to blame. -/
def Fair (setting : Setting) (s : Surroundings) (a : Action α) : Prop :=
  (a.run setting.still s).2 = s ∧ Blameless (a.run setting.still s).1

namespace Fair

variable {a : Action α} {f : α → Action β}

/-! ## Ways to build an action -/

theorem of_run {x : α} (hrun : a.run setting.still s = (.ok x, s)) : a.Fair setting s := by
  rw [Fair, hrun]
  exact ⟨rfl, blameless_ok x⟩

theorem pure (x : α) : (pure x : Action α).Fair setting s := of_run rfl

theorem of_refused {e : OrganizationError} (hrun : a.run setting.still s = (.error e, s))
    (h : e.kind ≠ .server) : a.Fair setting s := by
  rw [Fair, hrun]
  exact ⟨rfl, blameless_error h⟩

theorem throw {e : OrganizationError} (h : e.kind ≠ .server) :
    (throw e : Action α).Fair setting s :=
  of_refused rfl h

theorem notFound (what : NotFound) :
    (MonadExcept.throw (.notFound what) : Action α).Fair setting s :=
  throw nofun

theorem conflict (what : Conflict) :
    (MonadExcept.throw (.conflict what) : Action α).Fair setting s :=
  throw nofun

theorem bind (ha : a.Fair setting s) (hf : ∀ x, (f x).Fair setting s) :
    (a >>= f).Fair setting s := by
  obtain ⟨hstill, hblame⟩ := ha
  rw [Fair, run_bind]
  rcases hrun : a.run setting.still s with ⟨e | x, t⟩
  · -- what fails first is the failure of the whole
    rw [hrun] at hstill hblame
    exact ⟨hstill, blameless_error (hblame e rfl)⟩
  · rw [hrun] at hstill
    obtain rfl : t = s := hstill
    exact hf x

/-- What is looked up and not there is a failure that the caller can put right. -/
theorem found {a : Action (Option α)} {f : Option α → Action β} {what : NotFound}
    (ha : a.Fair setting s) (hnone : f none = MonadExcept.throw (.notFound what))
    (hsome : ∀ x, (f (some x)).Fair setting s) : (a >>= f).Fair setting s := by
  refine ha.bind fun found => ?_
  cases found with
  | some x => exact hsome x
  | none =>
    rw [hnone]
    exact notFound what

/-- An outcome that is kept as a value is no failure. -/
theorem attempt (ha : a.Fair setting s) : a.attempt.Fair setting s := by
  refine of_run (x := (a.run setting.still s).1) ?_
  rw [run_attempt, ha.1]

end Fair

/-! ## On to a change -/

/-- What is so when a look-up refuses the change, and whenever the change goes on with what the
look-up assures, is so in the end. -/
theorem Fair.run_bind {a : Action α} {f : α → Action β} {Q : α → Prop}
    {E : Except OrganizationError β × Surroundings → Prop} (hfair : a.Fair setting s)
    (ha : a.Assures setting s Q)
    (hrefuse : ∀ e : OrganizationError, e.kind ≠ .server → E (.error e, s))
    (hf : ∀ x, Q x → E ((f x).run setting.still s)) : E ((a >>= f).run setting.still s) := by
  obtain ⟨hstill, hans⟩ := ha
  rw [Action.run_bind]
  rcases hrun : a.run setting.still s with ⟨e | x, t⟩
  · rw [hrun] at hstill
    obtain rfl : t = s := hstill
    exact hrefuse e (hfair.2 e (by rw [hrun]))
  · rw [hrun] at hstill hans
    obtain rfl : t = s := hstill
    -- from here on the change is the rest of it
    exact hf x (hans x rfl)

end Action

end OrgForest
