import OrgForest.Proofs.Program.Asks

/-!
# Versions of one record

A record carries a version, which grows by one whenever the record is written. Between two moments
of a history at which an id has a record, the version has therefore grown by the number of writes in
between, as long as nobody puts a new record in the place of a deleted one. Equal versions mean that
nothing has been written, and then the record is the same.

Versions are words of 64 bits, so all of this is said modulo their number.

* `Moment.writes` — a record of an id is written over;
* `Moment.inserts` — a record of an id is put in;
* `Disturbed.Path.record` — what has become of a record along a history.
-/

namespace OrgForest

/-! ## Writing a record over -/

/-- Whether a change writes over the record of an id. -/
def Store.writesOver (s : Store) (id : String) : StoreChange → Bool
  | .update o expected =>
    match (s.update o expected).1 with
    | .ok (.updated _) => o.id == id
    | _ => false
  | _ => false

/-- Whether a change puts in a record of an id. -/
def Store.putsIn (s : Store) (id : String) : StoreChange → Bool
  | .insert o b =>
    match (s.insert o b).1 with
    | .inserted _ => o.id == id
    | _ => false
  | _ => false

namespace Moment

/-- Whether others write over the record of an id. -/
def writes (id : String) (m : Moment) : Bool :=
  match m.event with
  | .others c => m.store.writesOver id c
  | .own _ => false

/-- Whether others put in a record of an id. -/
def inserts (id : String) (m : Moment) : Bool :=
  match m.event with
  | .others c => m.store.putsIn id c
  | .own _ => false

end Moment

namespace Store

variable {s : Store} {id : String}

/-- A record that is there after a change is the one from before, or it has been written over,
unless the change has put it in. Writing over counts the version up and keeps the creation time. -/
theorem record_change {c : StoreChange} (hfresh : s.putsIn id c = false) {o : Organization}
    (ho : (s.change c).organizations.get? id = some o) :
    s.writesOver id c = false ∧ s.organizations.get? id = some o ∨
      s.writesOver id c = true ∧
        ∃ old, s.organizations.get? id = some old ∧ o.version = old.version + 1 ∧
          o.created = old.created := by
  cases c with
  | insert new b =>
    refine .inl ⟨rfl, ?_⟩
    rcases insert_cases s new b with ⟨-, hsame⟩ | ⟨-, -, -, haccepted⟩
    · rwa [show s.change (.insert new b) = s from hsame] at ho
    · have hne : id ≠ new.id := by
        rintro rfl
        unfold putsIn at hfresh
        dsimp only at hfresh
        rw [haccepted] at hfresh
        simp at hfresh
      rw [show s.change (.insert new b) = s.added new.asFirst b from
        congrArg Prod.snd haccepted] at ho
      rwa [← Table.get?_insert_of_ne hne]
  | update new expected =>
    rcases update_cases s new expected with
      ⟨hno, hsame⟩ | ⟨existing, hget, -, haccepted⟩
    · -- a refused update is no write
      have hover : s.writesOver id (.update new expected) = false := by
        unfold writesOver
        dsimp only
        split
        · next stored hyes => exact absurd hyes (hno stored)
        · rfl
      rw [show s.change (.update new expected) = s from hsame] at ho
      exact .inl ⟨hover, ho⟩
    · have hwrite : (s.update new expected).1 = .ok (.updated (new.asNext existing)) ∧
          (s.change (.update new expected)).organizations =
            s.organizations.insert new.id (new.asNext existing) := by
        rcases haccepted with ⟨-, haccepted⟩ | ⟨-, -, haccepted⟩
        all_goals
          refine ⟨congrArg Prod.fst haccepted, ?_⟩
          rw [show s.change (.update new expected) = _ from congrArg Prod.snd haccepted]
          rfl
      have hover : s.writesOver id (.update new expected) = (new.id == id) := by
        unfold writesOver
        dsimp only
        rw [hwrite.1]
      rw [hwrite.2] at ho
      rw [hover, beq_eq_false_iff_ne, beq_iff_eq]
      by_cases hid : new.id = id
      · subst hid
        rw [Table.get?_insert_self, Option.some_inj] at ho
        subst ho
        exact .inr ⟨rfl, existing, hget, rfl, rfl⟩
      · rw [Table.get?_insert_of_ne fun heq => hid heq.symm] at ho
        exact .inl ⟨hid, ho⟩
  | delete gone =>
    refine .inl ⟨rfl, ?_⟩
    have ho' : (s.delete gone).2.organizations.get? id = some o := ho
    unfold delete at ho'
    split at ho'
    · exact ho'
    · dsimp only at ho'
      split at ho'
      · exact ho'
      · rw [Table.get?_erase] at ho'
        split at ho'
        · cases ho'
        · exact ho'
  | clear =>
    have hempty : (s.change .clear).organizations.get? id = none := rfl
    rw [hempty] at ho
    cases ho

end Store

namespace Disturbed

/-! ## Along a history -/

variable {s t : Store} {id : String} {new : List Moment}

/-- A record at the end of a history was there at its start, and its version has grown by the number
of times it has been written over. -/
theorem Path.record (hp : Path s new t)
    (hquiet : ∀ m ∈ new, ∀ c, m.event = .own c → c.isWrite = false)
    (hfresh : ∀ m ∈ new, m.inserts id = false) {latest : Organization}
    (hlatest : t.organizations.get? id = some latest) :
    ∃ loaded, s.organizations.get? id = some loaded ∧
      latest.version = loaded.version + UInt64.ofNat (new.countP (·.writes id)) ∧
      (new.countP (·.writes id) = 0 → latest = loaded) := by
  -- on the history, from its first moment on
  induction new generalizing s with
  | nil =>
    obtain rfl : t = s := hp
    exact ⟨latest, hlatest, by simp, fun _ => rfl⟩
  | cons m new ih =>
    obtain ⟨rfl, hrest⟩ := hp
    obtain ⟨mid, hmid, hversion, hsame⟩ := ih hrest
      (fun m' hm' => hquiet m' (List.mem_cons_of_mem _ hm'))
      (fun m' hm' => hfresh m' (List.mem_cons_of_mem _ hm'))
    rw [List.countP_cons]
    cases hev : m.event with
    | own c =>
      -- a look-up leaves the store as it is
      have hidle : m.event.apply m.store = m.store := by
        have hread := StoreCall.change?_of_read (hquiet m (by simp) c hev)
        rw [hev]
        show (c.change?.map m.store.change).getD m.store = m.store
        rw [hread]
        rfl
      have hno : m.writes id = false := by
        unfold Moment.writes
        rw [hev]
      rw [hidle] at hmid
      rw [hno]
      exact ⟨mid, hmid, by simpa using hversion, fun h => hsame (by simpa using h)⟩
    | others c =>
      have happly : m.event.apply m.store = m.store.change c := by
        rw [hev]
        rfl
      have hwrites : m.writes id = m.store.writesOver id c := by
        unfold Moment.writes
        rw [hev]
      have hnew : m.store.putsIn id c = false := by
        have hno := hfresh m (by simp)
        unfold Moment.inserts at hno
        rwa [hev] at hno
      rw [happly] at hmid
      rw [hwrites]
      rcases Store.record_change hnew hmid with
        ⟨hno, hold⟩ | ⟨hyes, old, hold, hnext, -⟩
      · rw [hno]
        exact ⟨mid, hold, by simpa using hversion, fun h => hsame (by simpa using h)⟩
      · rw [hyes]
        refine ⟨old, hold, ?_, fun h => (by simp at h)⟩
        rw [hversion, hnext, UInt64.add_assoc, if_pos rfl, UInt64.ofNat_add,
          UInt64.add_comm 1]
        rfl

end Disturbed

end OrgForest
