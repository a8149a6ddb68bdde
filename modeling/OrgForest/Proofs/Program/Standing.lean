import OrgForest.Proofs.Program.Asks

/-!
# Actions while the structure stands still

In disturbed surroundings little can be said of what an action finds: the store is another one at
every call. But an action that only looks at the structure finds what is there, as long as the
structure stands still from its start to its end. Whether it did is known only afterwards, so the
statement is conditional; that the structure version never decreases makes it hold for every part of
an action that it holds for as a whole.

Apart from that, a loop has to come to its end in any surroundings, and with any structure.

* `Action.Finds` — what an action finds on a standing structure, and its rules;
* `Action.Ends` — no loop of the action is cut off, and its rules;
* `Action.ends_rounds` — a loop ends that has fewer rounds left after each.
-/

namespace OrgForest.Action

variable {α β : Type}

/-! ## On a standing structure -/

/-- From any store with the links of `s` on: if the structure stands still until the action is done,
the action succeeds, and the fact holds of its answer. -/
def Finds (s : Store) (a : Action α) (Q : α → Prop) : Prop :=
  ∀ d : Disturbed, d.store.Consistent → s.SameLinks d.store →
    (a.run Disturbed.environment d).2.store.structureVersion = d.store.structureVersion →
      ∃ x, (a.run Disturbed.environment d).1 = .ok x ∧ Q x

namespace Finds

variable {s : Store} {a : Action α} {f : α → Action β} {Q Q' : α → Prop} {R : β → Prop}

theorem pure {x : α} (hx : Q x) : (pure x : Action α).Finds s Q :=
  fun _ _ _ _ => ⟨x, rfl, hx⟩

theorem mono (ha : a.Finds s Q) (h : ∀ x, Q x → Q' x) : a.Finds s Q' := by
  intro d hd hlinks hversion
  obtain ⟨x, hx, hq⟩ := ha d hd hlinks hversion
  exact ⟨x, hx, h x hq⟩

/-- A look-up finds what every store with these links answers. -/
theorem call {c : StoreCall} {Q : c.Answer → Prop}
    (h : ∀ t : Store, t.Consistent → s.SameLinks t → ∃ x, (t.perform c).1 = .ok x ∧ Q x) :
    (call c).Finds s Q := by
  intro d hd hlinks hversion
  -- before the call others act, and the version has not moved by then either
  obtain ⟨new, hleads, -⟩ := d.leads_interrupted
  have hd' := hleads.consistent hd
  have hcall := (Disturbed.leads_happen d.interrupted (.own c)).version_le hd'
  have hsame : d.interrupted.store.structureVersion = d.store.structureVersion := by
    have hle := hleads.version_le hd
    rw [run_call] at hversion
    dsimp only at hversion
    omega
  obtain ⟨x, hx, hq⟩ := h _ hd' (hlinks.trans (hleads.sameLinks hd hsame))
  refine ⟨x, ?_, hq⟩
  rw [run_call, hx]
  rfl

theorem bind (ha : a.Finds s Q) (hf : ∀ x, Q x → (f x).Finds s R) : (a >>= f).Finds s R := by
  intro d hd hlinks
  obtain ⟨new, hleads⟩ := a.leads d
  have hfirst := ha d hd hlinks
  rw [run_bind]
  rcases hrun : a.run Disturbed.environment d with ⟨e | x, m⟩
  · rw [hrun] at hfirst
    intro hversion
    obtain ⟨_, hno, -⟩ := hfirst hversion
    cases hno
  · rw [hrun] at hfirst hleads
    dsimp only
    intro hversion
    -- the version in the middle lies between two that agree
    obtain ⟨new', hleads'⟩ := (f x).leads m
    have hm := hleads.consistent hd
    have hle := hleads.version_le hd
    have hle' := hleads'.version_le hm
    have hsame : m.store.structureVersion = d.store.structureVersion := by
      dsimp only at hle
      omega
    obtain ⟨y, hy, hq⟩ := hfirst hsame
    obtain rfl : x = y := Except.ok.inj hy
    exact hf x hq m hm (hlinks.trans (hleads.sameLinks hd hsame)) (by omega)

theorem iterate {σ : Type} {round : σ → Action (σ ⊕ α)} {start : σ}
    (h : ∀ horizon n, s.organizations.size < n → (rounds horizon round n start).Finds s Q) :
    (iterate round start).Finds s Q := by
  intro d hd hlinks
  rw [run_iterate]
  refine h _ _ ?_ d hd hlinks
  have hsize := hlinks.size_le
  show _ < d.store.organizations.size + d.ahead.flatten.length + 1
  omega

end Finds

/-! ## Loops that end -/

/-- Whatever others do, no loop of the action is cut off. -/
def Ends (a : Action α) : Prop :=
  ∀ d : Disturbed, d.store.Consistent → ∀ n, (a.run Disturbed.environment d).1 ≠ .error (.cutOff n)

theorem ends_pure (x : α) : (pure x : Action α).Ends := by
  intro d _ n h
  cases h

theorem Ends.bind {a : Action α} {f : α → Action β} (ha : a.Ends) (hf : ∀ x, (f x).Ends) :
    (a >>= f).Ends := by
  intro d hd n
  obtain ⟨new, hleads⟩ := a.leads d
  have hfirst := ha d hd n
  rw [run_bind]
  rcases hrun : a.run Disturbed.environment d with ⟨e | x, m⟩
  · rw [hrun] at hfirst
    intro h
    exact hfirst (congrArg Except.error (Except.error.inj h))
  · rw [hrun] at hleads
    exact hf x m (hleads.consistent hd) n

/-- A loop ends if no round of it is cut off and every round that is not the last leaves fewer to
come. -/
theorem ends_rounds {σ : Type} {round : σ → Action (σ ⊕ α)} {I : Nat → σ → Disturbed → Prop}
    (hround : ∀ k t d, d.store.Consistent → I k t d →
      (∀ n, ((round t).run Disturbed.environment d).1 ≠ .error (.cutOff n)) ∧
        ∀ t', ((round t).run Disturbed.environment d).1 = .ok (.inl t') →
          ∃ k' < k, I k' t' ((round t).run Disturbed.environment d).2)
    (horizon : Nat) {n k : Nat} {start : σ} {d : Disturbed} (hd : d.store.Consistent)
    (hI : I k start d) (hn : k < n) (m : Nat) :
    ((rounds horizon round n start).run Disturbed.environment d).1 ≠ .error (.cutOff m) := by
  -- on the rounds allowed, which stay ahead of the rounds that can still come
  induction n generalizing k start d with
  | zero => omega
  | succ n ih =>
    obtain ⟨hno, hnext⟩ := hround k start d hd hI
    obtain ⟨new, hleads⟩ := (round start).leads d
    rw [run_rounds_succ]
    rcases hrun : (round start).run Disturbed.environment d with ⟨e | t | x, f⟩
    · rw [hrun] at hno
      intro h
      exact hno m (congrArg Except.error (Except.error.inj h))
    · rw [hrun] at hnext hleads
      obtain ⟨k', hlt, hI'⟩ := hnext t rfl
      exact ih (hleads.consistent hd) hI' (by omega)
    · intro h
      cases h

end OrgForest.Action
