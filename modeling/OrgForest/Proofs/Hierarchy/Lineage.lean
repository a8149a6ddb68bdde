import OrgForest.Hierarchy.Chain

/-!
# Lineages

A lineage is what a walk up is meant to find: the chain of ids from a root down to an id, each the
parent of the next. It is stated over any reading of parent links, so the same facts serve a store
before and after a change, and links that no store holds.

An id has a lineage exactly if following its links comes to an end at a root. Links that go round or
dangle give no lineage, so "every record has a lineage" is the statement that the records form a
forest.

* `Lineage.unique`, `Lineage.nodup` — there is one lineage at most, and it has no repeats;
* `Lineage.split` — every member of a lineage has its own lineage as a front part;
* `Lineage.congr` — only the links of its members count;
* `Lineage.regraft` — when one link changes, the part below it comes along.
-/

namespace OrgForest

/-- The chain of an id along parent links, from a root down to the id itself. -/
inductive Lineage (up : String → Option (Option String)) : String → Chain → Prop where
  | root {id : String} (h : up id = some none) : Lineage up id [id]
  | child {id parent : String} {chain : Chain} (h : up id = some (some parent))
      (above : Lineage up parent chain) : Lineage up id (chain ++ [id])

namespace Lineage

variable {up up' : String → Option (Option String)} {id : String} {c c' : Chain}

/-! ## The ends of a lineage -/

theorem getLast? (h : Lineage up id c) : c.getLast? = some id := by
  cases h <;> simp

theorem ne_nil (h : Lineage up id c) : c ≠ [] := by
  cases h <;> simp

theorem mem_self (h : Lineage up id c) : id ∈ c :=
  List.mem_of_getLast? h.getLast?

theorem mem_dropLast {x : String} (h : Lineage up id c) (hx : x ∈ c) (hne : x ≠ id) :
    x ∈ c.dropLast := by
  cases h with
  | root => exact absurd (List.mem_singleton.1 hx) hne
  | child hup above =>
    rw [List.dropLast_concat]
    exact (List.mem_append.1 hx).resolve_right fun hlast => hne (List.mem_singleton.1 hlast)

/-- A lineage starts at a root. -/
theorem head?_root (h : Lineage up id c) : ∃ r, c.head? = some r ∧ up r = some none := by
  induction h with
  | @root id hup => exact ⟨id, rfl, hup⟩
  | child _ above ih =>
    obtain ⟨r, hr, hup⟩ := ih
    exact ⟨r, by rw [List.head?_append, hr]; rfl, hup⟩

theorem known (h : Lineage up id c) {x : String} (hx : x ∈ c) : ∃ p, up x = some p := by
  induction h with
  | root hup =>
    rw [List.mem_singleton] at hx
    exact ⟨none, hx ▸ hup⟩
  | child hup above ih =>
    rcases List.mem_append.1 hx with hx | hx
    · exact ih hx
    · rw [List.mem_singleton] at hx
      exact ⟨_, hx ▸ hup⟩

/-! ## One lineage for an id -/

theorem unique (h : Lineage up id c) (h' : Lineage up id c') : c = c' := by
  -- along the first lineage; the link of the id decides how the second one was built
  induction h generalizing c' with
  | root hup =>
    cases h' with
    | root => rfl
    | child hup' => rw [hup] at hup'; simp at hup'
  | child hup above ih =>
    cases h' with
    | root hup' => rw [hup] at hup'; simp at hup'
    | child hup' above' =>
      rw [hup, Option.some_inj, Option.some_inj] at hup'
      rw [ih (hup' ▸ above')]

theorem eq_of_root (h : Lineage up id c) (hup : up id = some none) : c = [id] :=
  h.unique (.root hup)

theorem eq_of_child {parent : String} (h : Lineage up id c) (hup : up id = some (some parent)) :
    ∃ chain, c = chain ++ [id] ∧ Lineage up parent chain := by
  cases h with
  | root hup' => rw [hup] at hup'; simp at hup'
  | child hup' above =>
    rw [hup, Option.some_inj, Option.some_inj] at hup'
    exact ⟨_, rfl, hup' ▸ above⟩

/-- Every member of a lineage has its own lineage as a front part. -/
theorem split (h : Lineage up id c) {x : String} (hx : x ∈ c) :
    ∃ front rest, c = front ++ rest ∧ Lineage up x front := by
  -- from the end: the member is the last id, or it is in the lineage of the parent
  induction h with
  | root hup =>
    obtain rfl := List.mem_singleton.1 hx
    exact ⟨_, [], (List.append_nil _).symm, .root hup⟩
  | @child id parent chain hup above ih =>
    rcases List.mem_append.1 hx with hx | hx
    · obtain ⟨front, rest, rfl, hfront⟩ := ih hx
      exact ⟨front, rest ++ [id], List.append_assoc .., hfront⟩
    · obtain rfl := List.mem_singleton.1 hx
      exact ⟨_, [], (List.append_nil _).symm, .child hup above⟩

/-- A lineage that goes on by one id, which then is the last one. -/
theorem concat_iff {x y : String} (hne : c ≠ []) : Lineage up x (c ++ [y]) ↔
    y = x ∧ ∃ p, up x = some (some p) ∧ Lineage up p c := by
  constructor
  · intro h
    obtain rfl : y = x := by
      have hlast := h.getLast?
      rw [List.getLast?_append] at hlast
      simpa using hlast
    generalize hc : c ++ [y] = d at h
    -- no root has anything before it
    cases h with
    | root hup =>
      rcases c with _ | ⟨z, c⟩
      · exact absurd rfl hne
      · simp at hc
    | child hup above =>
      obtain ⟨rfl, -⟩ := List.append_inj' hc rfl
      exact ⟨rfl, _, hup, above⟩
  · rintro ⟨rfl, p, hup, habove⟩
    exact .child hup habove

/-- No id is its own ancestor: it would have a lineage longer than itself. -/
theorem not_mem_above {parent : String} {chain : Chain} (hup : up id = some (some parent))
    (above : Lineage up parent chain) : id ∉ chain := by
  intro hmem
  obtain ⟨front, rest, rfl, hfront⟩ := above.split hmem
  have hlen := congrArg List.length (hfront.unique (.child hup above))
  simp only [List.length_append, List.length_singleton] at hlen
  omega

/-- What has been met on the way up to an id is not met above it, and nor is the id. -/
theorem not_met_above {parent : String} {chain : Chain} {met : List String}
    (hup : up id = some (some parent)) (above : Lineage up parent chain)
    (hmet : ∀ x ∈ chain ++ [id], x ∉ met) : ∀ x ∈ chain, x ∉ id :: met := by
  intro x hx hmem
  rcases List.mem_cons.1 hmem with rfl | hmem
  · exact not_mem_above hup above hx
  · exact hmet x (List.mem_append_left _ hx) hmem

theorem nodup (h : Lineage up id c) : c.Nodup := by
  induction h with
  | root => simp
  | child hup above ih =>
    rw [List.nodup_append]
    refine ⟨ih, by simp, fun x hx y hy heq => ?_⟩
    rw [List.mem_singleton] at hy
    exact not_mem_above hup above (hy ▸ heq ▸ hx)

/-! ## Other links -/

/-- Only the links of its members count for a lineage. -/
theorem congr (h : Lineage up id c) (hsame : ∀ x ∈ c, up' x = up x) : Lineage up' id c := by
  induction h with
  | root hup => exact .root (by rw [hsame _ (by simp), hup])
  | child hup above ih =>
    exact .child (by rw [hsame _ (by simp), hup])
      (ih fun x hx => hsame x (List.mem_append_left _ hx))

/-- An id that nobody names as parent counts for no lineage but its own. -/
theorem congr_of_childless {leaf : String} (hleaf : ∀ x, up x ≠ some (some leaf))
    (hsame : ∀ x, x ≠ leaf → up' x = up x) (hne : id ≠ leaf) (h : Lineage up id c) :
    Lineage up' id c := by
  induction h with
  | root hup => exact .root (by rw [hsame _ hne, hup])
  | child hup above ih =>
    refine .child (by rw [hsame _ hne, hup]) (ih ?_)
    rintro rfl
    exact hleaf _ hup

/-- When one link changes, what stands below it keeps its place there and gets the new front. -/
theorem regraft {top : String} {front front' rest : Chain}
    (hsame : ∀ x, x ≠ top → up' x = up x) (hold : Lineage up top front)
    (hnew : Lineage up' top front') (h : Lineage up id (front ++ rest)) :
    Lineage up' id (front' ++ rest) := by
  generalize hc : front ++ rest = c at h
  -- on the old lineage, from its end down to the changed link
  induction h generalizing rest with
  | @root id hup =>
    -- a lineage of one id has no part below the changed link
    obtain rfl : id = top := by
      have hmem := hold.mem_self
      have : top ∈ front ++ rest := List.mem_append_left _ hmem
      rw [hc, List.mem_singleton] at this
      exact this.symm
    obtain rfl : front = [id] := hold.eq_of_root hup
    simp only [List.cons_append, List.nil_append, List.cons.injEq, true_and] at hc
    rw [hc, List.append_nil]
    exact hnew
  | @child id parent chain hup above ih =>
    rcases List.eq_nil_or_concat rest with rfl | ⟨rest, last, rfl⟩
    · -- the lineage is the old front itself
      rw [List.append_nil] at hc ⊢
      have hid := hold.getLast?
      rw [hc, List.getLast?_append] at hid
      simp only [List.getLast?_singleton, Option.some_or, Option.some_inj] at hid
      exact hid ▸ hnew
    · -- the last link is below the changed one, and so is not the changed one
      rw [List.concat_eq_append, ← List.append_assoc] at hc ⊢
      obtain ⟨rfl, hlast⟩ := List.append_inj' hc rfl
      obtain rfl : last = id := by simpa using hlast
      have hne : last ≠ top := by
        rintro rfl
        exact not_mem_above hup above (List.mem_append_left _ hold.mem_self)
      exact .child (by rw [hsame _ hne, hup]) (ih rfl)

end Lineage

end OrgForest
