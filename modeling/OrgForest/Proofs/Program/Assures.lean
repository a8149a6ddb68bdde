import OrgForest.Proofs.Program.Still

/-!
# What a look-up assures

Before a change is written, a good deal is looked up and refused. Here is how to follow that: an
action assures a fact if in still surroundings it changes nothing, and the fact holds of its answer
whenever it gives one. What a sequence of look-ups assures is put together from its parts, and a
change that comes at the end of one may use all of it.

* `Action.Assures` — the statement, and its rules for every way to build an action;
* `Action.Assures.iterate` — loops, by an invariant.
-/

namespace OrgForest.Action

/-- In still surroundings the action changes nothing, and the fact holds of any answer. -/
def Assures {α : Type} (setting : Setting) (s : Surroundings) (a : Action α) (Q : α → Prop) :
    Prop :=
  (a.run setting.still s).2 = s ∧ ∀ x, (a.run setting.still s).1 = .ok x → Q x

variable {α β : Type} {setting : Setting} {s : Surroundings}

theorem ReadOnly.assures {a : Action α} (ha : a.ReadOnly) :
    a.Assures setting s fun x => (a.run setting.still s).1 = .ok x :=
  ⟨Program.ReadOnly.run_still ha setting s, fun _ h => h⟩

namespace Assures

variable {a : Action α} {f : α → Action β} {Q : α → Prop} {R : β → Prop}

/-! ## Ways to build an action -/

theorem of_run {x : α} (hrun : a.run setting.still s = (.ok x, s)) (hx : Q x) :
    a.Assures setting s Q := by
  refine ⟨by rw [hrun], fun y hy => ?_⟩
  rw [hrun] at hy
  exact Except.ok.inj hy ▸ hx

theorem pure {x : α} (hx : Q x) : (pure x : Action α).Assures setting s Q := of_run rfl hx

theorem throw (e : OrganizationError) : (throw e : Action α).Assures setting s Q :=
  ⟨rfl, fun _ h => by cases h⟩

theorem bind (ha : a.Assures setting s Q) (hf : ∀ x, Q x → (f x).Assures setting s R) :
    (a >>= f).Assures setting s R := by
  obtain ⟨hstill, hans⟩ := ha
  rw [Assures, run_bind]
  rcases hrun : a.run setting.still s with ⟨e | x, t⟩
  · rw [hrun] at hstill
    exact ⟨hstill, fun _ h => by cases h⟩
  · rw [hrun] at hstill hans
    obtain rfl : t = s := hstill
    exact hf x (hans x rfl)

theorem mono {Q' : α → Prop} (ha : a.Assures setting s Q) (h : ∀ x, Q x → Q' x) :
    a.Assures setting s Q' :=
  ⟨ha.1, fun x hx => h x (ha.2 x hx)⟩

/-! ## Loops -/

theorem rounds {σ : Type} {round : σ → Action (σ ⊕ α)} {I : σ → Prop}
    (hround : ∀ t, I t → (round t).Assures setting s (Sum.rec I Q)) (horizon : Nat) :
    ∀ (n : Nat) (start : σ), I start → (rounds horizon round n start).Assures setting s Q
  | 0, _, _ => .throw _
  | n + 1, start, hstart => by
    refine (hround start hstart).bind fun next hnext => ?_
    cases next with
    | inl t => exact rounds hround horizon n t hnext
    | inr x => exact .pure hnext

/-- What every round keeps up to the last one, and the last one assures. -/
theorem iterate {σ : Type} {round : σ → Action (σ ⊕ α)} {I : σ → Prop}
    (hround : ∀ t, I t → (round t).Assures setting s (Sum.rec I Q)) {start : σ} (hstart : I start) :
    (iterate round start).Assures setting s Q := by
  rw [Assures, run_iterate]
  exact rounds hround _ _ start hstart

end Assures

end OrgForest.Action
