import OrgForest.Proofs.Hierarchy.Lineage

/-!
# Ways up

A lineage is what a walk up is meant to find. Links that dangle or go round have none, but a walk
that keeps the ids it has met comes to an end on them as well. A way up is what such a walk goes
through, from the id where it starts, together with how it ends.

The ids met before the start count: an id among them ends the way. So the rest of a way is again a
way, from the parent and with one id more, which is the form that an induction over a walk needs.

* `Way.of_lineage`, `Way.lineage` — ways that end at a root are lineages, the other way round;
* `Way.nodup`, `Way.known` — a way goes through ids with a link, each of them once;
* `Way.closed` — a way does not end before its links do.
-/

namespace OrgForest

/-- How a way up ends. -/
inductive WayEnd where
  /-- At an id without parent. -/
  | root
  /-- At an id of which nothing is known. -/
  | missing (id : String)
  /-- At an id that was met before. -/
  | again (id : String)
deriving DecidableEq

/-- The ids on the way up from an id, the nearest first, and how the way ends; given the ids met
before. -/
inductive Way (up : String → Option (Option String)) :
    List String → String → List String → WayEnd → Prop where
  | root {met : List String} {id : String} (hnew : id ∉ met) (hup : up id = some none) :
      Way up met id [id] .root
  | missing {met : List String} {id : String} (hnew : id ∉ met) (hup : up id = none) :
      Way up met id [] (.missing id)
  | again {met : List String} {id : String} {parent : Option String} (hmet : id ∈ met)
      (hup : up id = some parent) : Way up met id [] (.again id)
  | link {met way : List String} {id parent : String} {last : WayEnd} (hnew : id ∉ met)
      (hup : up id = some (some parent)) (above : Way up (id :: met) parent way last) :
      Way up met id (id :: way) last

namespace Way

variable {up : String → Option (Option String)} {id : String} {met way : List String}
  {last : WayEnd}

/-! ## Ways and lineages -/

theorem of_lineage {chain : Chain} (h : Lineage up id chain) (hmet : ∀ x ∈ chain, x ∉ met) :
    Way up met id chain.reverse .root := by
  -- along the lineage from its end; what has been met on the way never stands above it
  induction h generalizing met with
  | root hup => exact .root (hmet _ (by simp)) hup
  | child hup above ih =>
    rw [List.reverse_append]
    exact .link (hmet _ (by simp)) hup (ih (Lineage.not_met_above hup above hmet))

theorem lineage (h : Way up met id way .root) : Lineage up id way.reverse := by
  generalize hlast : WayEnd.root = last at h
  induction h with
  | root _ hup => exact .root hup
  | missing => cases hlast
  | again => cases hlast
  | link _ hup _ ih =>
    rw [List.reverse_cons]
    exact .child hup (ih hlast)

/-! ## The ids of a way -/

theorem known (h : Way up met id way last) : ∀ x ∈ way, ∃ parent, up x = some parent := by
  induction h with
  | root _ hup => simp [hup]
  | missing => simp
  | again => simp
  | link _ hup _ ih =>
    intro x hx
    rcases List.mem_cons.1 hx with rfl | hx
    · exact ⟨_, hup⟩
    · exact ih x hx

/-- No id of a way was met before it. -/
theorem nodup (h : Way up met id way last) (hmet : met.Nodup) : (way.reverse ++ met).Nodup := by
  induction h with
  | root hnew => exact List.nodup_cons.2 ⟨hnew, hmet⟩
  | missing => exact hmet
  | again => exact hmet
  | link hnew _ _ ih =>
    rw [List.reverse_cons, List.append_assoc]
    exact ih (List.nodup_cons.2 ⟨hnew, hmet⟩)

/-- The parent of an id that was met is the id that a way starts from, or was met as well. -/
def Trail (up : String → Option (Option String)) (met : List String) (id : String) : Prop :=
  ∀ x ∈ met, ∀ parent, up x = some (some parent) → parent = id ∨ parent ∈ met

/-- All that links lead to from the start of a way has been met at its end, or is what is missing
there. -/
theorem closed (h : Way up met id way last) (htrail : Trail up met id) :
    (id ∈ way ++ met ∨ last = .missing id) ∧ ∀ x ∈ way ++ met, ∀ parent,
      up x = some (some parent) → parent ∈ way ++ met ∨ last = .missing parent := by
  induction h with
  | @root met id hnew hup =>
    refine ⟨.inl (by simp), fun x hx parent hparent => .inl ?_⟩
    rcases List.mem_cons.1 hx with rfl | hx
    · rw [hup] at hparent
      cases hparent
    · exact List.mem_cons.2 (htrail x hx parent hparent)
  | missing =>
    refine ⟨.inr rfl, fun x hx parent hparent => ?_⟩
    rcases htrail x hx parent hparent with rfl | hmem
    · exact .inr rfl
    · exact .inl hmem
  | again hmet =>
    refine ⟨.inl hmet, fun x hx parent hparent => .inl ?_⟩
    rcases htrail x hx parent hparent with rfl | hmem
    · exact hmet
    · exact hmem
  | @link met way id parent last hnew hup _ ih =>
    -- the parent comes next, so the trail goes on
    have hnext : Trail up (id :: met) parent := by
      intro x hx p hp
      rcases List.mem_cons.1 hx with rfl | hx
      · rw [hup, Option.some_inj, Option.some_inj] at hp
        exact .inl hp.symm
      · rcases htrail x hx p hp with rfl | hmem
        · exact .inr List.mem_cons_self
        · exact .inr (List.mem_cons_of_mem _ hmem)
    have hsame : ∀ x, x ∈ way ++ id :: met ↔ x ∈ id :: way ++ met := by
      intro x
      simp [or_left_comm]
    obtain ⟨-, hall⟩ := ih hnext
    simp only [hsame] at hall
    exact ⟨.inl (by simp), hall⟩

end Way

end OrgForest
