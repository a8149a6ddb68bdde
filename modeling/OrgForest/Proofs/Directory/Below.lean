import OrgForest.Directory.Lookup
import OrgForest.Proofs.Directory.History
import OrgForest.Proofs.Store.Moved

/-!
# Everything that shows what stands below

What stands below an organization is found in many ways. The index of children is kept sorted, a
walk goes down it level by level, another walk keeps a queue of ids, and a scan sorts what the scope
gives. They all show the same organizations, and all but a scan of more than one level show them in
the same order: the oldest child first, and generation after generation.

* `Store.Broods`, `BreadthFirst` — children and what is below, in terms of records alone;
* `Directory.ShowsChildren`, `Directory.ShowsBelow` — the answers to all questions for them;
* `Directory.below_shown` — the answers of a store whatever has been done to it.
-/

namespace OrgForest

/-! ## Generations -/

/-- The children of every id: the records that name it as their parent, in the order of creation
and by id among equals. -/
structure Store.Broods (s : Store) (kids : String → List Organization) : Prop where
  mem_iff : ∀ p o, o ∈ kids p ↔ s.Holds o ∧ o.parentId = some p
  inOrder : ∀ p, InOrder (kids p)

/-- What stands `k + 1` links below an id: parent after parent, the children of each. -/
def generation (kids : String → List Organization) (id : String) : Nat → List Organization
  | 0 => kids id
  | k + 1 => (generation kids id k).flatMap fun o => kids o.id

/-- Generation after generation, up to the first that is empty. -/
def BreadthFirst (kids : String → List Organization) (id : String) (os : List Organization) :
    Prop :=
  ∃ height, generation kids id height = [] ∧ os = (List.range height).flatMap (generation kids id)

namespace Store

variable {s : Store} {id : String} {height : Nat}

theorem Linked.broods_kids (hs : s.Linked) : s.Broods s.kids where
  mem_iff _ _ := hs.mem_kids
  inOrder := hs.inOrder_kids

/-- The levels of a walk are generations. -/
theorem Linked.generation_kids (hs : s.Linked) (id : String) (k : Nat) :
    generation s.kids id k = Hierarchy.level s id k := by
  induction k with
  | zero =>
    show s.kids id = [id].flatMap s.kids
    rw [List.flatMap_singleton]
  | succ k ih =>
    -- the ids of a level are the next rank
    show (generation s.kids id k).flatMap (fun o => s.kids o.id) =
      (s.rank id (k + 1)).flatMap s.kids
    rw [ih, ← Hierarchy.map_id_level hs.recorded, List.flatMap_map]

/-- The ids of generations are the ranks below the id. -/
theorem Linked.map_id_generations (hs : s.Linked) (id : String) (height : Nat) :
    ((List.range height).flatMap (generation s.kids id)).map (·.id) =
      (List.range height).flatMap fun k => s.rank id (k + 1) := by
  rw [List.map_flatMap]
  congr 1
  funext k
  rw [hs.generation_kids, Hierarchy.map_id_level hs.recorded]

theorem Linked.mem_generations (hs : s.Linked) (hend : s.rank id (height + 1) = [])
    {o : Organization} : o ∈ (List.range height).flatMap (generation s.kids id) ↔
      (Scope.descendantsOf id).Covers s o := by
  have hids (x : String) : x ∈ ((List.range height).flatMap (generation s.kids id)).map (·.id) ↔
      ∃ chain, Lineage s.parentId? x chain ∧ id ∈ chain ∧ x ≠ id := by
    rw [hs.map_id_generations, hs.mem_ranks hend]
  -- whatever is in a generation is a child of somebody, so it has a record
  have hheld {x : Organization} (hx : x ∈ (List.range height).flatMap (generation s.kids id)) :
      s.Holds x := by
    obtain ⟨k, -, hx⟩ := List.mem_flatMap.1 hx
    rw [hs.generation_kids] at hx
    obtain ⟨p, -, hx⟩ := List.mem_flatMap.1 hx
    exact (hs.mem_kids.1 hx).1
  constructor
  · intro ho
    exact ⟨hheld ho, (hids o.id).1 (List.mem_map_of_mem ho)⟩
  · rintro ⟨ho, hbelow⟩
    obtain ⟨x, hx, hid⟩ := List.mem_map.1 ((hids o.id).2 hbelow)
    rwa [← eq_of_holds ho (hheld hx) hid]

/-! ## Scans -/

/-- The children of an id are its listing by creation. -/
theorem Linked.lists_kids (hs : s.Linked) (id : String) :
    s.Lists (.childrenOf id) (fun _ => true) .created .ascending (s.kids id) where
  sorted := hs.inOrder_kids id
  mem_iff o := by
    rw [hs.mem_kids, and_iff_left rfl]
    rfl

/-- What a scan finds below an id is what is there, in another order. -/
theorem Consistent.scan_generations (hs : s.Consistent) (hend : s.rank id (height + 1) = [])
    (key : SortKey) (order : SortOrder) {n : Nat} (hn : s.organizations.size ≤ n) :
    ∃ found, s.scan ⟨.descendantsOf id, none, key, order, none, n⟩ = .ok found ∧
      found.Perm ((List.range height).flatMap (generation s.kids id)) := by
  obtain ⟨found, hfound⟩ := hs.exists_lists (.descendantsOf id) (fun _ => true) key order
  refine ⟨found, hs.scan_whole hn hfound, ?_⟩
  have hbelow : (((List.range height).flatMap (generation s.kids id)).map (·.id)).Nodup := by
    rw [hs.map_id_generations]
    exact hs.nodup_ranks id height
  -- both show what the scope covers, and both show it once
  refine (List.perm_ext_iff_of_nodup hfound.nodup_ids.of_map hbelow.of_map).2 fun o => ?_
  rw [hfound.mem_iff, hs.mem_generations hend, and_iff_left rfl]

end Store

namespace Directory

/-! ## Questions -/

/-- The children of an organization as everybody shows them whom nobody disturbs. -/
structure ShowsChildren (d : Directory) (limit : Nat) (setting : Setting) (t : Surroundings)
    (id : String) (kids : List Organization) : Prop where
  ids : ((Action.call (.childIds id)).run setting.undisturbed.environment t).1 =
    .ok (kids.map (·.id))
  records : ((Action.call (.children id)).run setting.undisturbed.environment t).1 = .ok kids
  walk : ((Hierarchy.below limit id false).run setting.undisturbed.environment t).1 = .ok kids
  /-- With its permissions, if they are found, or without them. -/
  organization : ∀ permissions, (permissions = true → ∃ names, setting.permissions id = .ok names) →
    ∃ o, ((get id ⟨true, permissions⟩).run setting.undisturbed.environment t).1 = .ok o ∧
      o.id = id ∧ o.children = kids.map (·.childReference)
  listed : ((d.children id false).run setting.undisturbed.environment t).1 =
    .ok (kids.map (·.basic))
  listedIds : ((childIds id).run setting.undisturbed.environment t).1 = .ok (kids.map (·.id))
  /-- A scan that has room for all records. -/
  scanned : ∀ n, t.store.organizations.size ≤ n →
    t.store.scan ⟨.childrenOf id, none, .created, .ascending, none, n⟩ = .ok kids

/-- All that stands below an organization as everybody shows it whom nobody disturbs. -/
structure ShowsBelow (d : Directory) (limit : Nat) (setting : Setting) (t : Surroundings)
    (id : String) (below : List Organization) : Prop where
  walk : ((Hierarchy.below limit id true).run setting.undisturbed.environment t).1 = .ok below
  listed : ((d.children id true).run setting.undisturbed.environment t).1 =
    .ok (below.map (·.basic))
  ids : t.store.idsBelow id = below.map (·.id)
  /-- A scan that has room for all records shows the same in its own order. -/
  scanned : ∀ key order n, t.store.organizations.size ≤ n →
    ∃ found, t.store.scan ⟨.descendantsOf id, none, key, order, none, n⟩ = .ok found ∧
      found.Perm below

variable {d : Directory} {setting : Setting} {t : Surroundings} {id : String}

/-- An organization with its children, and with its permissions if they are asked for. -/
theorem run_get_children (hs : t.store.Linked) {o : Organization}
    (ho : t.store.organizations.get? id = some o) {permissions : Bool}
    (hnames : permissions = true → ∃ names, setting.permissions id = .ok names) :
    ∃ shown, ((get id ⟨true, permissions⟩).run setting.still t).1 = .ok shown ∧
      shown.id = o.id ∧ shown.children = (t.store.kids id).map (·.childReference) := by
  rw [get, Action.run_bind, run_load, ho]
  dsimp only
  rw [if_pos rfl, Action.run_bind, Hierarchy.run_children hs.recorded]
  cases permissions with
  | false => exact ⟨_, rfl, rfl, rfl⟩
  | true =>
    obtain ⟨names, hresolved⟩ := hnames rfl
    have hask : (Action.permissions id).run setting.still t = (.ok names, t) :=
      congrArg (·, t) hresolved
    dsimp only
    rw [pure_bind, if_pos rfl, Action.run_bind, hask]
    exact ⟨_, rfl, rfl, rfl⟩

/-- Where nobody disturbs the question, the answer to it is the list of the children. -/
theorem run_children_list (hs : t.store.Linked)
    (hid : t.store.organizations.contains id = true) (setting : Setting) :
    ((d.children id false).run setting.undisturbed.environment t.next).1 =
      .ok ((t.store.kids id).map (·.basic)) := by
  have hknown : t.next.store.organizations.contains id = true := hid
  rw [(setting.run_undisturbed _ t).1, children, Action.run_bind, run_requireExists, if_pos hknown]
  dsimp only
  rw [Action.run_bind, Hierarchy.run_below_children (s := t.next) hs]
  rfl

/-- The children stand in one list, whoever is asked for them. -/
theorem shows_kids (hs : t.store.Consistent)
    (hid : t.store.organizations.contains id = true) (d : Directory) (limit : Nat)
    (setting : Setting) : d.ShowsChildren limit setting t.next id (t.store.kids id) := by
  have hnext : t.next.store.Consistent := hs
  have hknown : t.next.store.organizations.contains id = true := hid
  constructor
  case ids =>
    rw [(setting.run_undisturbed _ t).1, hs.recorded.map_id_kids]
    rfl
  case records =>
    rw [(setting.run_undisturbed _ t).1, Hierarchy.run_children hnext.recorded]
    rfl
  case walk =>
    rw [(setting.run_undisturbed _ t).1, Hierarchy.run_below_children hnext.toLinked]
    rfl
  case organization =>
    intro permissions hnames
    obtain ⟨o, ho⟩ := Table.contains_iff.1 hknown
    rw [(setting.run_undisturbed _ t).1]
    obtain ⟨shown, hrun, hsame, hchildren⟩ := run_get_children hnext.toLinked ho hnames
    exact ⟨shown, hrun, hsame.trans (hs.ownId id o ho), hchildren⟩
  case listed => exact run_children_list hs.toLinked hid setting
  case listedIds =>
    rw [(setting.run_undisturbed _ t).1, childIds, Action.run_bind, run_requireExists,
      if_pos hknown, hs.recorded.map_id_kids]
    rfl
  case scanned =>
    intro n hn
    exact hs.scan_whole hn (hs.lists_kids id)

/-- Below an id one finds the generations, whichever way one goes down. -/
theorem shows_generations (hs : t.store.Consistent)
    (hid : t.store.organizations.contains id = true) (d : Directory) (limit : Nat)
    (setting : Setting) : ∃ below, BreadthFirst t.store.kids id below ∧
      d.ShowsBelow limit setting t.next id below := by
  have hnext : t.next.store.Consistent := hs
  have hknown : t.next.store.organizations.contains id = true := hid
  obtain ⟨height, hend, hwalk⟩ : ∃ height, t.next.store.rank id (height + 1) = [] ∧
      ∀ limit, (Hierarchy.below limit id true).run setting.still t.next = _ :=
    Hierarchy.run_below hnext.toLinked id
  have hlevels : Hierarchy.level t.next.store id = generation t.store.kids id :=
    funext fun k => (hs.generation_kids id k).symm
  rw [hlevels] at hwalk
  have hlast : generation t.store.kids id height = [] := by
    rw [← hlevels, ← List.map_eq_nil_iff, Hierarchy.map_id_level hnext.recorded]
    exact hend
  refine ⟨_, ⟨height, hlast, rfl⟩, ?_⟩
  constructor
  case walk => rw [(setting.run_undisturbed _ t).1, hwalk]
  case listed =>
    rw [(setting.run_undisturbed _ t).1, children, Action.run_bind, run_requireExists,
      if_pos hknown]
    dsimp only
    rw [Action.run_bind, hwalk]
    rfl
  case ids =>
    rw [hs.map_id_generations]
    exact hs.idsBelow_eq hend
  case scanned =>
    intro key order n hn
    exact hs.scan_generations hend key order hn

/-- **Everybody shows the same below an organization.** Whatever has been done to a store: the index
of children, the walk one level down, the organization with its children, the listing of its
children and the scan of them by creation show the records that name it as their parent, in the
order of creation and by id among equals. The walk all the way down, the listing of all that is
below and the walk by a queue of ids show generation after generation of them; a scan of all that is
below shows the same organizations in its own order. -/
theorem below_shown (changes : List StoreChange) (setting : Setting) (nextTenantId : Int64)
    (churned limit : Nat) (d : Directory) {id : String}
    (hid : (Store.after changes).organizations.contains id = true) :
    let t : Surroundings := ⟨Store.after changes, nextTenantId, churned, []⟩
    ∃ kids below, t.store.Broods kids ∧ BreadthFirst kids id below ∧
      d.ShowsChildren limit setting t id (kids id) ∧ d.ShowsBelow limit setting t id below := by
  intro t
  have hs : t.store.Consistent := .after changes
  obtain ⟨below, hbreadth, hbelow⟩ := shows_generations hs hid d limit setting
  exact ⟨t.store.kids, below, hs.broods_kids, hbreadth, shows_kids hs hid d limit setting, hbelow⟩

/-- A tree that has grown against the order of creation: the youngest child comes first, and the
eldest comes last, from below another one. The move cannot make it any younger. -/
def grownBackwards : List StoreChange :=
  let child (id parent : String) (created : Timestamp) : Organization :=
    { Organization.new created id with id, parentId := some parent }
  let second := { Timestamp.epoch with nanos := 1, nanos_lt := by decide }
  let third := { Timestamp.epoch with nanos := 2, nanos_lt := by decide }
  [.insert { Organization.new .epoch "root" with id := "root" } ⟨"root", "root.example", 1⟩,
    .insert (child "young" "root" third) ⟨"young", "young.example", 2⟩,
    .insert (child "middle" "root" second) ⟨"middle", "middle.example", 3⟩,
    .insert (child "grandchild" "young" .epoch) ⟨"grandchild", "grandchild.example", 4⟩,
    .insert (child "old" "middle" .epoch) ⟨"old", "old.example", 5⟩,
    .insert (child "late" "old" third) ⟨"late", "late.example", 6⟩,
    .update (child "old" "root" third) 1]

theorem below_shown_grownBackwards :
    let t : Surroundings := ⟨Store.after grownBackwards, 7, 0, []⟩
    t.store.organizations.contains "root" = true ∧
      ∃ kids below, t.store.Broods kids ∧ BreadthFirst kids "root" below ∧
        standard.ShowsChildren 3 .plain t "root" (kids "root") ∧
        standard.ShowsBelow 3 .plain t "root" below ∧
        (kids "root").map (·.id) = ["old", "middle", "young"] ∧
        below.map (·.id) = ["old", "middle", "young", "late", "grandchild"] := by
  intro t
  have hid : (Store.after grownBackwards).organizations.contains "root" = true := by decide +kernel
  obtain ⟨kids, below, hbroods, hbreadth, hchildren, hbelow⟩ :=
    below_shown grownBackwards .plain 7 0 3 standard hid
  -- the ids are computed from the index and from the walk by a queue
  have hindex : t.store.childIds "root" = (kids "root").map (·.id) := Except.ok.inj hchildren.ids
  refine ⟨hid, kids, below, hbroods, hbreadth, hchildren, hbelow, ?_, ?_⟩
  · rw [← hindex]
    decide +kernel
  · rw [← hbelow.ids]
    decide +kernel

end Directory

end OrgForest
