import OrgForest.Proofs.Directory.History
import OrgForest.Proofs.Directory.Inquiry

/-!
# The server is never to blame

A failure of the server says that something is broken: that links contradict each other, that a
record has been changed in between, that a tenant is taken. While a directory has its store to
itself, takes ids that are not in use and numbers its tenants in turn, none of this can happen. The
numbers come round after as many tenants as there are words of 64 bits; up to then a number that is
given out has never been given out before, and a deletion does not give it back.

* `Numbered` — the tenants that are bound, and the number that comes next;
* `Directory.serve_served` — one change: the server is not to blame, and the numbering goes on;
* `Directory.freshIds`, `Directory.creations` — what is asked of a history;
* `Directory.requests_blameless` — whatever is asked of a directory, except for the distance of
  organizations that are not on one branch.
-/

namespace OrgForest

variable {first : Int64} {n : Nat} {setting : Setting} {s : Surroundings}

/-! ## Numbers of tenants -/

/-- Numbers come round only after as many as there are words. -/
theorem Tenant.number_ne (first : Int64) {k : Nat} (hk : k < n) (hn : n < UInt64.size) :
    first + Int64.ofNat k ≠ first + Int64.ofNat n := by
  intro h
  have hwords : Int64.ofNat k = Int64.ofNat n := by
    rwa [Int64.add_right_inj] at h
  -- both counts are below the number of words, so nothing is lost in a word
  have hnat := congrArg (fun i : Int64 => i.toBitVec.toNat) hwords
  simp only [Int64.toBitVec_ofNat', BitVec.toNat_ofNat] at hnat
  unfold UInt64.size at hn
  omega

theorem Tenant.next_number (first : Int64) (n : Nat) :
    first + Int64.ofNat n + 1 = first + Int64.ofNat (n + 1) := by
  rw [Int64.add_assoc, Int64.ofNat_add]
  rfl

/-- `n` tenants have been numbered in turn from the first on. Every one that is bound is one of
them, and its domain is the id of its organization. -/
structure Numbered (first : Int64) (n : Nat) (s : Surroundings) : Prop where
  next : s.nextTenantId = first + Int64.ofNat n
  domain : ∀ id b, s.store.bindings.get? id = some b → b.tenantDomain = id
  number : ∀ id b, s.store.bindings.get? id = some b →
    ∃ k < n, b.tenantId = first + Int64.ofNat k

namespace Numbered

theorem new (first : Int64) : Numbered first 0 (.new first) where
  next := by
    rw [show Int64.ofNat 0 = 0 from rfl, Int64.add_zero]
    rfl
  domain id b hb := by simp [Surroundings.new, Store.empty] at hb
  number id b hb := by simp [Surroundings.new, Store.empty] at hb

/-- Only the bindings and the counter count, and bindings may go. -/
theorem of_kept {s' : Surroundings} (h : Numbered first n s)
    (hnext : s'.nextTenantId = s.nextTenantId)
    (hkept : ∀ id b, s'.store.bindings.get? id = some b → s.store.bindings.get? id = some b) :
    Numbered first n s' where
  next := by rw [hnext, h.next]
  domain id b hb := h.domain id b (hkept id b hb)
  number id b hb := h.number id b (hkept id b hb)

/-- The next tenant conflicts with none that is bound. -/
theorem conflict?_eq_none (h : Numbered first n s) (hs : s.store.Consistent)
    (hn : n < UInt64.size) {id : String} (hfresh : s.store.organizations.contains id = false) :
    s.store.conflict? id ⟨id, id, s.nextTenantId⟩ = none := by
  have hunbound : s.store.bindings.contains id = false := by
    rw [Bool.eq_false_iff, ne_eq, hs.bound, hfresh]
    exact Bool.false_ne_true
  refine Store.conflict?_eq_none.2 ⟨rfl, hunbound, ?_, ?_⟩
  · rw [Option.eq_none_iff_forall_ne_some]
    intro owner howner
    obtain ⟨b, hb, hdomain⟩ := (hs.domains id owner).1 howner
    -- a domain is the id of its organization, and this id is not in use
    obtain rfl : owner = id := (h.domain owner b hb).symm.trans hdomain
    rw [Table.contains_of_get? hb] at hunbound
    cases hunbound
  · rw [Option.eq_none_iff_forall_ne_some]
    intro owner howner
    obtain ⟨b, hb, hnumber⟩ := (hs.tenantIds s.nextTenantId owner).1 howner
    obtain ⟨k, hk, hbound⟩ := h.number owner b hb
    refine Tenant.number_ne first hk hn ?_
    rw [← hbound, ← h.next]
    exact hnumber

theorem get?_bindings_added {store : Store} {o : Organization} {b b' : TenantBinding} {id : String}
    (hb' : (store.added o b).bindings.get? id = some b') :
    id = o.id ∧ b' = b ∨ store.bindings.get? id = some b' := by
  rw [Store.added, Table.get?_insert] at hb'
  split at hb'
  · next hid => exact .inl ⟨hid, (Option.some.inj hb').symm⟩
  · exact .inr hb'

theorem added (h : Numbered first n s) (o : Organization) :
    Numbered first (n + 1) { s with
      nextTenantId := s.nextTenantId + 1
      store := s.store.added o ⟨o.id, o.id, s.nextTenantId⟩ } where
  next := by
    dsimp only
    rw [h.next, Tenant.next_number]
  domain id b hb := by
    rcases get?_bindings_added hb with ⟨rfl, rfl⟩ | hb
    · rfl
    · exact h.domain id b hb
  number id b hb := by
    rcases get?_bindings_added hb with ⟨rfl, rfl⟩ | hb
    · exact ⟨n, Nat.lt_succ_self n, h.next⟩
    · obtain ⟨k, hk, hnumber⟩ := h.number id b hb
      exact ⟨k, Nat.lt_succ_of_lt hk, hnumber⟩

end Numbered

/-! ## Changes -/

/-- Whether a change is an addition. -/
def Mutation.creates : Mutation → Bool
  | .add .. => true
  | _ => false

/-- An addition brings an id that is not in use. -/
def Mutation.isFresh (s : Store) : Mutation → Bool
  | .add _ fresh _ => !s.organizations.contains fresh
  | _ => true

namespace Directory

variable {d : Directory}

/-- The server is not to blame for what has become of a change, and the numbering goes on: an
addition that has been made has got the next number, and nothing else has got one. -/
structure Served {α : Type} (first : Int64) (n : Nat) (creates : Bool)
    (outcome : Except OrganizationError α) (s : Surroundings) : Prop where
  blameless : Blameless outcome
  numbered : Numbered first (if creates && outcome.isOk then n + 1 else n) s

namespace Served

variable {α β : Type} {creates : Bool}

theorem refused {e : OrganizationError} (he : e.kind ≠ .server) (h : Numbered first n s) :
    Served first n creates (.error e : Except OrganizationError α) s where
  blameless := blameless_error he
  numbered := by
    rw [show (creates && (Except.error e : Except OrganizationError α).isOk) = false from
      Bool.and_false creates]
    exact h

/-- A change that adds nothing has got no number. -/
theorem unnumbered {outcome : Except OrganizationError α} (hblame : Blameless outcome)
    (h : Numbered first n s) : Served first n false outcome s :=
  ⟨hblame, h⟩

/-- What an answer carries does not count. -/
theorem map {f : α → β} {outcome : Except OrganizationError α}
    (h : Served first n creates outcome s) : Served first n creates (outcome.map f) s := by
  cases outcome with
  | error e => exact ⟨blameless_error (h.blameless e rfl), h.numbered⟩
  | ok x => exact ⟨blameless_ok _, h.numbered⟩

/-- Whom nobody disturbs runs in still surroundings. -/
theorem undisturbed {a : Action α}
    (h : Served first n creates (a.run setting.still s.next).1 (a.run setting.still s.next).2) :
    Served first n creates (a.run setting.undisturbed.environment s.next).1
      (a.run setting.undisturbed.environment s.next).2 := by
  rw [setting.run_still] at h
  exact ⟨h.blameless, h.numbered.next, h.numbered.domain, h.numbered.number⟩

end Served

/-- A patch or an update is refused for the caller's sake, or it is made. -/
theorem Revised.served {id : String} {Makes : Organization → Organization → Prop}
    {run : Except OrganizationError Organization × Surroundings} (h : d.Revised s id Makes run)
    (hnum : Numbered first n s) : Served first n false run.1 run.2 := by
  cases h with
  | refused he hrun =>
    rw [hrun]
    exact .refused he hnum
  | left _ hrun =>
    rw [hrun]
    exact .unnumbered (blameless_ok _) hnum
  | written _ _ _ hrun =>
    rw [hrun]
    refine .unnumbered (blameless_ok _) (hnum.of_kept rfl fun id b hb => ?_)
    rwa [Store.rewritten_bindings] at hb

/-- An addition of an id that is not in use is refused before it gets a number, or it is made. -/
theorem add_served (hs : s.store.Consistent) (hnum : Numbered first n s) (hn : n < UInt64.size)
    (now : Timestamp) {fresh : String} (hfresh : s.store.organizations.contains fresh = false)
    (o : Organization) :
    Served first n true ((d.add now fresh o).run Setting.plain.still s).1
      ((d.add now fresh o).run Setting.plain.still s).2 := by
  have hadded : d.Added .plain s (draft now fresh o)
      ((d.add now fresh o).run Setting.plain.still s) := add_added hs.toLinked now fresh o
  have hfresh : s.store.organizations.contains (draft now fresh o).id = false := hfresh
  generalize draft now fresh o = candidate at hadded hfresh
  cases hadded with
  | refused he hrun =>
    rw [hrun]
    exact .refused he hnum
  | unprovided hprovision _ =>
    -- the provisioner that numbers in turn never fails
    cases congrArg Prod.fst hprovision
  | @bound binding nextTenantId hnew hprovision hrun =>
    obtain ⟨rfl, rfl⟩ : binding = ⟨candidate.id, candidate.id, s.nextTenantId⟩ ∧
        nextTenantId = s.nextTenantId + 1 := by
      cases hprovision
      exact ⟨rfl, rfl⟩
    have hcomes := hnew hfresh
    -- the store has three reasons to turn a record down, and none of them is left: the id, its
    -- parent and its tenant
    have hparent : ∀ p, candidate.parentId = some p → s.store.organizations.contains p = true := by
      intro p hp
      obtain ⟨root, hhosts, -⟩ := hcomes.below p hp
      exact Store.contains_of_active hhosts.active
    rw [hrun, Store.insert_eq hfresh hparent (hnum.conflict?_eq_none hs hn hfresh)]
    exact ⟨blameless_ok _, hnum.added candidate.asFirst⟩

theorem delete_served (hs : s.store.Consistent) (hnum : Numbered first n s) (id : String) :
    Served first n false ((delete id).run setting.still s).1
      ((delete id).run setting.still s).2 := by
  have hdeleted : Deleted s id ((delete id).run setting.still s) := delete_deleted hs id
  cases hdeleted with
  | refused he hrun =>
    rw [hrun]
    exact .refused he hnum
  | removed _ _ _ hrun =>
    rw [hrun]
    refine .unnumbered (blameless_ok _) (hnum.of_kept rfl fun id' b' hb' => ?_)
    -- a number that was given out once is not given back
    rw [Store.removed, Table.get?_erase] at hb'
    split at hb'
    · cases hb'
    · exact hb'

/-- One change, while there are numbers left. -/
theorem serve_served (hs : s.store.Consistent) (hnum : Numbered first n s) (hn : n < UInt64.size)
    {m : Mutation} (hfresh : m.isFresh s.store = true) :
    Served first n m.creates (d.answer s m.plain) (d.serve s m.plain) := by
  have hnext : s.next.store.Consistent := hs
  have hnumNext : Numbered first n s.next := ⟨hnum.next, hnum.domain, hnum.number⟩
  cases m with
  | add now fresh o =>
    have hnew : s.store.organizations.contains fresh = false := by
      simpa [Mutation.isFresh] using hfresh
    dsimp only [answer, serve, Mutation.plain]
    exact (add_served hnext hnumNext hn now hnew o).undisturbed.map
  | patch now id ops =>
    dsimp only [answer, serve, Mutation.plain]
    exact ((patch_revised hnext.toLinked now id ops).served hnumNext).undisturbed.map
  | update now id currentName o =>
    dsimp only [answer, serve, Mutation.plain]
    exact ((update_revised hnext.toLinked now id currentName o).served hnumNext).undisturbed.map
  | delete id =>
    dsimp only [answer, serve, Mutation.plain]
    exact (delete_served hnext hnumNext id).undisturbed

/-! ## Histories -/

/-- Every addition brings an id that is not in use when it comes. -/
def freshIds (d : Directory) : Surroundings → List Mutation → Bool
  | _, [] => true
  | s, m :: ms => m.isFresh s.store && d.freshIds (d.serve s m.plain) ms

/-- How many additions are made. -/
def creations (d : Directory) : Surroundings → List Mutation → Nat
  | _, [] => 0
  | s, m :: ms =>
    (if m.creates && (d.answer s m.plain).isOk then 1 else 0) + d.creations (d.serve s m.plain) ms

/-- As long as there are numbers left, each creation takes the next one. -/
theorem numbered_after (mutations : List Mutation) (hs : s.store.Consistent)
    (hnum : Numbered first n s) (hfresh : d.freshIds s mutations = true)
    (hcount : n + d.creations s mutations < UInt64.size) :
    Numbered first (n + d.creations s mutations)
      ((mutations.map Mutation.plain).foldl d.serve s) := by
  -- on the changes, from any surroundings on; each takes its number before the next one comes
  induction mutations generalizing s n with
  | nil => exact hnum
  | cons m ms ih =>
    rw [freshIds, Bool.and_eq_true] at hfresh
    rw [creations] at hcount ⊢
    have hserved : Served first n m.creates (d.answer s m.plain) (d.serve s m.plain) :=
      serve_served hs hnum (by omega) hfresh.1
    have hnumbered := hserved.numbered
    have hnext : (d.serve s m.plain).store.Consistent := serve_consistent hs m.plain
    split at hnumbered
    · next hcreated =>
      rw [if_pos hcreated] at hcount ⊢
      rw [← Nat.add_assoc] at hcount ⊢
      exact ih hnext hnumbered hfresh.2 hcount
    · next hkept =>
      rw [if_neg hkept, Nat.zero_add] at hcount ⊢
      exact ih hnext hnumbered hfresh.2 hcount

/-- How a question is answered when nobody comes between. -/
def ask (d : Directory) (s : Surroundings) (q : Inquiry) : Except OrganizationError q.Answer :=
  ((q.action d).run Setting.plain.undisturbed.environment s.next).1

theorem ask_blameless (hs : s.store.Consistent) (q : Inquiry) {e : OrganizationError}
    (he : d.ask s q = .error e) (hserver : e.kind = .server) :
    ∃ first second, q = .distance first second ∧ e = .notOnSameBranch first second := by
  have hnext : s.next.store.Consistent := hs
  rw [ask, (Setting.plain.run_undisturbed _ s).1] at he
  by_cases hq : ∃ first second, q = .distance first second
  · obtain ⟨x, y, rfl⟩ := hq
    exact ⟨x, y, rfl, run_distance hnext.toLinked x y he⟩
  · have hother : ∀ x y, q ≠ .distance x y := by
      intro x y h
      exact hq ⟨x, y, h⟩
    have hfair : (q.action d).Fair Setting.plain s.next :=
      fair_inquiry hnext (fun _ => ⟨[], rfl⟩) hother
    exact absurd hserver (hfair.2 e he)

/-- **The server is never to blame.** After whatever changes of an empty store, each of which brings
an id that is not in use if it adds an organization, with tenants numbered in turn from any number
on and fewer additions than there are numbers: neither the next change nor any question fails in a
way that would be the server's. The only exception is the question for the distance of two
organizations that are not on one branch. -/
theorem requests_blameless (d : Directory) (first : Int64) (mutations : List Mutation)
    (hfresh : d.freshIds (.new first) mutations = true)
    (hcount : d.creations (.new first) mutations < UInt64.size) :
    let s := d.after first (mutations.map Mutation.plain)
    (∀ m : Mutation, m.isFresh s.store = true → Blameless (d.answer s m.plain)) ∧
      ∀ (q : Inquiry) (e : OrganizationError), d.ask s q = .error e → e.kind = .server →
        ∃ x y, q = .distance x y ∧ e = .notOnSameBranch x y := by
  intro s
  have hs : s.store.Consistent := after_consistent first _
  have hcount' : 0 + d.creations (.new first) mutations < UInt64.size := by
    rwa [Nat.zero_add]
  have hnum : Numbered first (0 + d.creations (.new first) mutations) s :=
    numbered_after mutations .empty (.new first) hfresh hcount'
  constructor
  · -- the history leaves a number even for one addition more
    intro m hm
    have hserved : Served first _ m.creates (d.answer s m.plain) (d.serve s m.plain) :=
      serve_served hs hnum hcount' hm
    exact hserved.blameless
  · intro q e he hserver
    exact ask_blameless hs q he hserver

/-- An id is used again after a deletion, and the numbers come round with the last addition. -/
def reused : List Mutation := [
  .add .epoch "a" (.new .epoch "First"),
  .delete "a",
  .add .epoch "a" (.new .epoch "Second"),
  .add .epoch "b" (.new .epoch "Third")]

/-- What is left of it, the first tenant having the last number but one. -/
def roots : Surroundings := standard.after 9223372036854775806 (reused.map Mutation.plain)

theorem requests_blameless_roots :
    standard.freshIds (.new 9223372036854775806) reused = true ∧
      standard.creations (.new 9223372036854775806) reused = 3 ∧
      roots.nextTenantId = -9223372036854775807 ∧
      (Mutation.delete "b").isFresh roots.store = true ∧
      Blameless (standard.answer roots (Mutation.delete "b").plain) ∧
      ∃ e, standard.ask roots (.distance "a" "b") = .error e ∧ e.kind = .server ∧
        ∃ x y, Inquiry.distance "a" "b" = .distance x y ∧ e = .notOnSameBranch x y := by
  have hfresh : standard.freshIds (.new 9223372036854775806) reused = true := by decide +kernel
  have hcount : standard.creations (.new 9223372036854775806) reused = 3 := by decide +kernel
  have hblameless := requests_blameless standard 9223372036854775806 reused hfresh
    (by rw [hcount]; decide)
  have hrefused : (match standard.ask roots (.distance "a" "b") with
      | .error e => decide (e.kind = .server)
      | .ok _ => false) = true := by decide +kernel
  refine ⟨hfresh, hcount, by decide +kernel, rfl, hblameless.1 (.delete "b") rfl, ?_⟩
  cases hask : standard.ask roots (.distance "a" "b") with
  | ok _ =>
    rw [hask] at hrefused
    cases hrefused
  | error e =>
    rw [hask] at hrefused
    have hserver : e.kind = .server := of_decide_eq_true hrefused
    exact ⟨e, rfl, hserver, hblameless.2 (.distance "a" "b") e hask hserver⟩

end Directory

end OrgForest
