import OrgForest.Proofs.Hierarchy.Standing
import OrgForest.Proofs.Hierarchy.Words

/-!
# Answers in disturbed surroundings

Others may do to the store what they like between any two calls of a walk. An answer about the
hierarchy is then still an answer about one tree: the one that was there when the structure version
was read last. The only other outcome is that the walk is given up, and then others have changed the
structure during every one of the attempts.

* `Hierarchy.Resolved` — an answer, or a walk that was given up for a reason;
* `Hierarchy.resolved_onStableTree` — what is done with a walk that counts;
* `Hierarchy.answers_resolved` — all answers about the hierarchy.
-/

namespace OrgForest

/-! ## What answers are to be -/

namespace Store

variable {s t : Store} {id x : String} {chain : Chain}

namespace ChainOf

theorem sameLinks (hlinks : s.SameLinks t) (h : s.ChainOf id chain) : t.ChainOf id chain := by
  unfold ChainOf
  rw [hlinks.up]
  exact h

theorem length_le_size (h : s.ChainOf id chain) : chain.length ≤ s.organizations.size := by
  rcases h with h | ⟨-, rfl⟩
  · exact length_le_of_lineage h
  · exact Nat.zero_le _

/-- Depths are given in words. -/
theorem depth (h : s.ChainOf id chain) :
    s.InWords (.ok ((chain.length : Int) - 1)) (.ok chain.depth) := by
  have hsize := h.length_le_size
  rw [Chain.depth_eq]
  exact .ok (by omega) (by omega)

/-- The ids of a chain but the last are those that stand above it. -/
theorem mem_dropLast (h : s.ChainOf id chain) : x ∈ chain.dropLast ↔ x ∈ chain ∧ x ≠ id := by
  rcases h with h | ⟨-, rfl⟩
  · refine ⟨fun hx => ⟨(List.dropLast_sublist chain).subset hx, ?_⟩,
      fun ⟨hx, hne⟩ => h.mem_dropLast hx hne⟩
    rintro rfl
    -- a lineage has no repeats, so its last id stands nowhere else in it
    cases h with
    | root => cases hx
    | child hup above =>
      rw [List.dropLast_concat] at hx
      exact Lineage.not_mem_above hup above hx
  · simp

/-- One chain goes on where the other ends exactly if it leads through the other's id. -/
theorem prefix_iff {b : Chain} {other : String} (ha : s.ChainOf id chain) (hb : s.ChainOf other b)
    (hne : chain ≠ []) : chain <+: b ↔ id ∈ b := by
  have ha : Lineage s.parentId? id chain := ha.resolve_right fun hno => hne hno.2
  constructor
  · rintro ⟨rest, rfl⟩
    exact List.mem_append_left _ ha.mem_self
  · intro hmem
    rcases hb with hb | ⟨-, rfl⟩
    · obtain ⟨front, rest, rfl, hfront⟩ := hb.split hmem
      rw [ha.unique hfront]
      exact List.prefix_append front rest
    · cases hmem

/-- An id without record stands in no chain. -/
theorem not_mem_of_nil {b : Chain} {other : String} (ha : s.ChainOf id [])
    (hb : s.ChainOf other b) : id ∉ b := by
  intro hmem
  rcases hb with hb | ⟨-, rfl⟩
  · obtain ⟨p, hknown⟩ := hb.known hmem
    rcases ha with ha | ⟨hup, -⟩
    · exact ha.ne_nil rfl
    · rw [hup] at hknown
      cases hknown
  · cases hmem

theorem ne_nil_of_mem {b : Chain} {other : String} (ha : s.ChainOf id chain)
    (hb : s.ChainOf other b) (hmem : id ∈ b) : chain ≠ [] := by
  rintro rfl
  exact ha.not_mem_of_nil hb hmem

/-- The chain of an id goes on where the chain of a member ends. -/
theorem prefix_of_mem {b : Chain} {other : String} (ha : s.ChainOf id chain)
    (hb : s.ChainOf other b) (hmem : id ∈ b) : chain <+: b :=
  (ha.prefix_iff hb (ha.ne_nil_of_mem hb hmem)).2 hmem

/-- There is a distance if one chain leads through the id of the other. -/
theorem distance_eq {a b : Chain} {other : String} (ha : s.ChainOf id a) (hb : s.ChainOf other b) :
    Chain.distance? a b =
      if id ∈ b then some (.ofNat (b.length - a.length))
      else if other ∈ a then some (.ofNat (a.length - b.length))
      else none := by
  unfold Chain.distance?
  by_cases hnil : a = [] ∨ b = []
  · -- of an unknown id there is no distance
    have hempty : (a.isEmpty || b.isEmpty) = true := by
      rcases hnil with rfl | rfl
      · rfl
      · simp
    have hfst : id ∉ b := by
      rcases hnil with rfl | rfl
      · exact ha.not_mem_of_nil hb
      · simp
    have hsnd : other ∉ a := by
      rcases hnil with rfl | rfl
      · simp
      · exact hb.not_mem_of_nil ha
    rw [if_pos hempty, if_neg hfst, if_neg hsnd]
  · rw [not_or] at hnil
    have hempty : ¬ (a.isEmpty || b.isEmpty) = true := by
      rw [Bool.or_eq_true, List.isEmpty_iff, List.isEmpty_iff]
      exact fun h => h.elim hnil.1 hnil.2
    rw [if_neg hempty]
    simp only [List.isPrefixOf_iff_prefix, ha.prefix_iff hb hnil.1, hb.prefix_iff ha hnil.2]

/-- What the chain of an id has more than that of a member is given in a word. -/
theorem between {b : Chain} {other : String} (ha : s.ChainOf id chain) (hb : s.ChainOf other b)
    (hmem : id ∈ b) : s.InWords (.ok ((b.length : Int) - chain.length))
      (.ok (.ofNat (b.length - chain.length))) := by
  have hle := (ha.prefix_of_mem hb hmem).length_le
  have hsize := hb.length_le_size
  have hpos := List.length_pos_iff.2 (ha.ne_nil_of_mem hb hmem)
  rw [← Int32.ofInt_eq_ofNat, Int.ofNat_sub hle]
  exact .ok (by omega) (by omega)

/-- Distances are given in words, for ids of one branch. -/
theorem distance {a b : Chain} {other : String} (ha : s.ChainOf id a) (hb : s.ChainOf other b) :
    s.InWords
      (if id ∈ b then .ok ((b.length : Int) - a.length)
        else if other ∈ a then .ok ((a.length : Int) - b.length)
        else .error (.notOnSameBranch id other))
      (match Chain.distance? a b with
        | some d => .ok d
        | none => .error (.notOnSameBranch id other)) := by
  rw [ha.distance_eq hb]
  by_cases hfirst : id ∈ b
  · rw [if_pos hfirst, if_pos hfirst]
    exact ha.between hb hfirst
  · rw [if_neg hfirst, if_neg hfirst]
    by_cases hsecond : other ∈ a
    · rw [if_pos hsecond, if_pos hsecond]
      exact hb.between ha hsecond
    · rw [if_neg hsecond, if_neg hsecond]
      exact .error _

end ChainOf

end Store

namespace Hierarchy

variable {α β : Type}

variable {limit : Nat} {d : Disturbed}

/-! ## Walks that count -/

/-- What comes of a query about the hierarchy: an outcome that is right for the store in which the
version was read last, or a walk that was given up after all attempts, during each of which others
have changed the structure. That a walk has found the structure broken is never the outcome. -/
structure Resolved (limit : Nat) (d : Disturbed)
    (Right : Store → Except OrganizationError α → Prop)
    (run : Except OrganizationError α × Disturbed) : Prop where
  outcome :
    run.2.past.getLast? = some ⟨run.2.store, .own .structureVersion⟩ ∧ Right run.2.store run.1 ∨
    run.1 = .error (.concurrentStructureChange (max limit 1)) ∧
      ∃ attempts : List (List Moment), attempts.length = max limit 1 ∧
        run.2.past = d.past ++ attempts.flatten ∧ ∀ ms ∈ attempts, Upset ms
  intact : ∀ broken, run.1 ≠ .error (.invariantViolation broken)

theorem Resolved.imp {Right Right' : Store → Except OrganizationError α → Prop}
    {run : Except OrganizationError α × Disturbed} (h : Resolved limit d Right run)
    (hright : ∀ s outcome, Right s outcome → Right' s outcome) : Resolved limit d Right' run where
  outcome := h.outcome.imp (fun ⟨hlast, hr⟩ => ⟨hlast, hright _ _ hr⟩) fun hr => hr
  intact := h.intact

end Hierarchy

end OrgForest
