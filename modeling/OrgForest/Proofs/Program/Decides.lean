import OrgForest.Proofs.Program.Fair

/-!
# Checks that decide

What a check assures is known once it lets a change pass. Where it has to be known as well when a
change is refused, both outcomes are followed at once: a check decides a fact if in still
surroundings it changes nothing, answers only if the fact holds of its answer, and refuses, always
with a failure of the same kind, only if the fact holds of no answer.

* `Action.Decides` — the statement, and its rules for the ways to build an action;
* `Action.Decides.assures`, `Action.Decides.fair` — what follows for each outcome alone;
* `Action.Decides.run_bind` — a check, and what comes after it.
-/

namespace OrgForest.Action

variable {α β : Type} {setting : Setting} {s : Surroundings} {kind : ErrorKind}

/-- In still surroundings the action changes nothing. It gives an answer of which the fact holds, or
there is no such answer, and it is refused with a failure of this kind. -/
def Decides (setting : Setting) (s : Surroundings) (kind : ErrorKind) (a : Action α)
    (Q : α → Prop) : Prop :=
  (∃ x, a.run setting.still s = (.ok x, s) ∧ Q x) ∨
    (∃ e : OrganizationError, e.kind = kind ∧ a.run setting.still s = (.error e, s)) ∧ ∀ x, ¬ Q x

namespace Decides

variable {a : Action α} {f : α → Action β} {Q : α → Prop} {R : β → Prop}

/-! ## Ways to build an action -/

theorem of_run {x : α} (hrun : a.run setting.still s = (.ok x, s)) (hx : Q x) :
    a.Decides setting s kind Q :=
  .inl ⟨x, hrun, hx⟩

theorem pure {x : α} (hx : Q x) : (pure x : Action α).Decides setting s kind Q := of_run rfl hx

theorem throw {e : OrganizationError} (he : e.kind = kind) (hno : ∀ x, ¬ Q x) :
    (throw e : Action α).Decides setting s kind Q :=
  .inr ⟨⟨e, he, rfl⟩, hno⟩

/-- A look-up that is always answered decides nothing. -/
theorem after {x : α} (hrun : a.run setting.still s = (.ok x, s))
    (hf : (f x).Decides setting s kind R) : (a >>= f).Decides setting s kind R := by
  have hrest : (a >>= f).run setting.still s = (f x).run setting.still s := by
    rw [Action.run_bind, hrun]
  rw [Decides, hrest]
  exact hf

/-- The same for a look-up of which there are two kinds. -/
theorem after_ite {c : Prop} [Decidable c] {a' : Action α} {x : α}
    (hrun : (if c then a else a').run setting.still s = (.ok x, s))
    (hf : (f x).Decides setting s kind R) :
    (if c then a >>= f else a' >>= f).Decides setting s kind R := by
  split
  · next hc =>
    rw [if_pos hc] at hrun
    exact after hrun hf
  · next hc =>
    rw [if_neg hc] at hrun
    exact after hrun hf

theorem bind (ha : a.Decides setting s kind Q)
    (hf : ∀ x, Q x → (f x).Decides setting s kind R) (hno : (∀ x, ¬ Q x) → ∀ y, ¬ R y) :
    (a >>= f).Decides setting s kind R := by
  rcases ha with ⟨x, hrun, hx⟩ | ⟨⟨e, he, hrun⟩, hnone⟩
  · -- the rest decides, from the answer on
    exact after hrun (hf x hx)
  · refine .inr ⟨⟨e, he, ?_⟩, hno hnone⟩
    rw [Action.run_bind, hrun]

theorem map {g : α → β} (ha : a.Decides setting s kind Q) :
    (g <$> a).Decides setting s kind fun y => ∃ x, Q x ∧ g x = y := by
  rw [map_eq_pure_bind]
  refine ha.bind (fun x hx => .pure ⟨x, hx, rfl⟩) ?_
  rintro hno _ ⟨x, hx, rfl⟩
  exact hno x hx

/-- A refusal on the way, for a reason; the rest is reached where there is none. -/
theorem guarded {c : Prop} [Decidable c] {e : OrganizationError} {k : α → Action β} {b : Action β}
    (he : e.kind = kind) (hc : c → ∀ y, ¬ R y) (hb : ¬ c → b.Decides setting s kind R) :
    (if c then MonadExcept.throw e >>= k else b).Decides setting s kind R := by
  split
  · next hyes => exact .inr ⟨⟨e, he, rfl⟩, hc hyes⟩
  · next hnot => exact hb hnot

/-! ## One outcome alone -/

theorem assures (ha : a.Decides setting s kind Q) : a.Assures setting s Q := by
  rcases ha with ⟨x, hrun, hx⟩ | ⟨⟨e, -, hrun⟩, -⟩
  · exact .of_run hrun hx
  · rw [Assures, hrun]
    exact ⟨rfl, fun _ h => by cases h⟩

theorem fair (ha : a.Decides setting s kind Q) (hkind : kind ≠ .server) : a.Fair setting s := by
  rcases ha with ⟨x, hrun, -⟩ | ⟨⟨e, he, hrun⟩, -⟩
  · exact .of_run hrun
  · exact .of_refused hrun (he ▸ hkind)

/-! ## On to a change -/

/-- What is so when a check refuses the change for its reason, and whenever the change goes on with
what the check has decided, is so in the end. -/
theorem run_bind {E : Except OrganizationError β × Surroundings → Prop}
    (ha : a.Decides setting s kind Q)
    (hrefuse : (∀ x, ¬ Q x) → ∀ e : OrganizationError, e.kind = kind → E (.error e, s))
    (hf : ∀ x, Q x → E ((f x).run setting.still s)) : E ((a >>= f).run setting.still s) := by
  rcases ha with ⟨x, hrun, hx⟩ | ⟨⟨e, he, hrun⟩, hno⟩
  · rw [Action.run_bind, hrun]
    exact hf x hx
  · rw [Action.run_bind, hrun]
    exact hrefuse hno e he

end Decides

end OrgForest.Action
