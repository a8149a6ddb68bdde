import OrgForest.Error
import OrgForest.Proofs.Json.Decoded
import OrgForest.Proofs.Patch.Edits

/-!
# Patches are read back from JSON

A list of operations is written as JSON and read again. A null value is written like any other, but
it is read as none, so the list may come back changed. Its meaning does not change: a null is not a
text, so wherever a text is asked for it is refused like a value that is missing, and wherever none
is asked for it is not looked at.

* `Patch.Operation.settled` — an operation as it is read back;
* `Patch.ofJson_toJson` — every list is read back, settled;
* `Patch.Operation.asks_settled` — and asks for the same;
* `Patch.patches_read_back` — so a patch does the same once it has been read back.
-/

namespace OrgForest.Patch

open Shape (slot)

namespace Operation

variable {o : Operation}

/-! ## One operation -/

/-- A value as it is read back: null counts as none, and the members of objects come in order. -/
def settledValue : Json → Option Json
  | .null => none
  | v => some v.ordered

/-- An operation as it is read back. -/
def settled (o : Operation) : Operation := { o with value := o.value.bind settledValue }

/-- The operation with the members of all objects in its value in order. It is the same operation
wherever members are kept by their names. -/
def sorted (o : Operation) : Operation := { o with value := o.value.map Json.ordered }

theorem settledValue_eq_string {v : Json} {text : String} :
    settledValue v = some (.string text) ↔ v = .string text := by
  cases v <;> simp [settledValue, Json.ordered, Json.ofMembers]

/-- Only null is read as something else. -/
theorem settled_eq_sorted (hnull : o.value ≠ some .null) : o.settled = o.sorted := by
  have hvalue : o.value.bind settledValue = o.value.map Json.ordered := by
    cases hv : o.value with
    | none => rfl
    | some v => cases v with
      | null => exact absurd hv hnull
      | _ => rfl
  rw [settled, sorted, hvalue]

/-- An operation asks for the same once it has been read back. -/
theorem asks_settled (o : Operation) (e : Edit) : o.settled.Asks e ↔ o.Asks e := by
  have hvalue (text : String) :
      o.settled.value = some (.string text) ↔ o.value = some (.string text) := by
    rw [settled, Option.bind_eq_some_iff]
    simp only [settledValue_eq_string, exists_eq_right]
  constructor
  · intro h
    exact h.congr rfl rfl fun text => (hvalue text).1
  · intro h
    exact h.congr rfl rfl fun text => (hvalue text).2

end Operation

namespace Kind

theorem read_text (k : Kind) : Kind.read k.text = .ok k := by
  have hread : (Kind.read k.text).toOption = some k := by
    cases k <;> decide +kernel
  exact toOption_eq_some.1 hread

theorem decode_text (k : Kind) : decode (Json.string k.text).document = .ok k := by
  simp only [decode, Decoder.text_document, bind, Except.bind, read_text]
  rfl

end Kind

namespace Operation

variable {o : Operation}

theorem optional_value_document (v : Json) :
    Decoder.optional (Decoder.value none) v.document = .ok (settledValue v) := by
  have hvalue : Decoder.value none v.document = .ok v.ordered := Decoder.value_document v
  cases v with
  | null => rfl
  | _ => exact congrArg (Except.map some) hvalue

/-- The members of an operation as they are written. -/
def members (o : Operation) : List (String × Json) :=
  [("op", .string o.kind.text), ("path", .string o.path)] ++ (o.value.map ("value", ·)).toList

theorem toJson_eq (o : Operation) : o.toJson = .object o.members := by
  rw [toJson, members]
  cases o.value <;> rfl

theorem mem_members {m : String × Json} : m ∈ o.members ↔
    m = ("op", .string o.kind.text) ∨ m = ("path", .string o.path) ∨
      ∃ v, o.value = some v ∧ m = ("value", v) := by
  cases hv : o.value <;> simp [members, hv]

/-- Every member gives its own field, and what is left out is the value. -/
theorem reads (o : Operation) : (shape .value).Reads
    (fun seen => (slot seen 0 o.kind, slot seen 1 o.path, slot seen 2 o.settled.value))
    o.members o.settled where
  start := rfl
  put := by
    intro m hm
    rcases mem_members.1 hm with rfl | rfl | ⟨v, hv, rfl⟩
    · exact ⟨0, rfl, fun _ => Shape.put_ok (Kind.decode_text _) (by simp [Shape.slot_of_ne])⟩
    · exact ⟨1, rfl, fun _ => Shape.put_ok (Decoder.text_document _) (by simp [Shape.slot_of_ne])⟩
    · have hread : Decoder.optional (Decoder.value none) v.document = .ok o.settled.value := by
        rw [optional_value_document, settled, hv]
        rfl
      exact ⟨2, rfl, fun _ => Shape.put_ok hread (by simp [Shape.slot_of_ne])⟩
  names := by
    cases hv : o.value <;> simp [members, hv]
  finish := by
    intro seen hseen
    -- kind and path always come, and what has not come of the value is none
    have hkind : 0 ∈ seen := hseen ("op", _) (mem_members.2 (.inl rfl)) 0 rfl
    have hpath : 1 ∈ seen := hseen ("path", _) (mem_members.2 (.inr (.inl rfl))) 1 rfl
    have hvalue : 2 ∈ seen ∨ o.settled.value = none := by
      cases hv : o.value with
      | none => exact .inr (by rw [settled, hv]; rfl)
      | some v => exact .inl (hseen ("value", v) (mem_members.2 (.inr (.inr ⟨v, hv, rfl⟩))) 2 rfl)
    show (do return ⟨← Shape.require 0 (slot seen 0 o.kind), ← Shape.require 1 (slot seen 1 o.path),
      (slot seen 2 o.settled.value).getD none⟩ : Except Nat Operation) = _
    rw [Shape.slot_of_mem hkind, Shape.slot_of_mem hpath, Shape.getD_slot hvalue]
    rfl

theorem decode_toJson (o : Operation) :
    (shape .value).decode .value o.toJson.document = .ok o.settled := by
  rw [toJson_eq]
  exact o.reads.decode .value

end Operation

/-! ## Lists of operations -/

/-- What becomes of an organization by a patch, a refusal being the fault of who has sent it. -/
def answer (ops : List Operation) (org : Organization) : Except OrganizationError Organization :=
  (apply ops org).mapError fun fault => .badRequest (.patch fault)

variable {ops : List Operation} {org r : Organization}

/-- What is written of a list of operations is read. -/
theorem ofJson_toJson (ops : List Operation) :
    ofJson (toJson ops) = .ok (ops.map Operation.settled) := by
  have hread : Operation.decodeList .value (toJson ops).document =
      .ok (ops.map Operation.settled) :=
    Decoder.list_documents_map Operation.decode_toJson ops
  rw [ofJson, hread]

/-- Null is read as a value that is missing. -/
example : ofJson (toJson [⟨.remove, "/description", some .null⟩]) = .ok [.remove "/description"] :=
  ofJson_toJson _

theorem answer_eq_ok : answer ops org = .ok r ↔ apply ops org = .ok r := by
  rw [answer]
  cases apply ops org <;> simp [Except.mapError]

theorem kind_of_answer {e : OrganizationError} (h : answer ops org = .error e) :
    e.kind = .badRequest := by
  rw [answer] at h
  cases hrun : apply ops org with
  | ok r =>
    rw [hrun] at h
    cases h
  | error fault =>
    rw [hrun] at h
    cases h
    rfl

/-- **Patches are read back from JSON.** Whatever the values of its operations are, a list that is
written as JSON and read again does the same: it makes the same of an organization, and where one of
the lists is refused, as a bad request, the other is as well. If no value is null, the list is the
same, with the members of all objects in order; so it is the same altogether if they have been in
order before. -/
theorem patches_read_back (ops : List Operation) (org : Organization) :
    ∃ decoded, ofJson (toJson ops) = .ok decoded ∧
      (∀ r, answer decoded org = .ok r ↔ answer ops org = .ok r) ∧
      (∀ e, answer ops org = .error e →
        e.kind = .badRequest ∧ ∃ e', answer decoded org = .error e' ∧ e'.kind = .badRequest) ∧
      ((∀ o ∈ ops, o.value ≠ some .null) →
        decoded = ops.map Operation.sorted ∧ ((∀ o ∈ ops, o.sorted = o) → decoded = ops)) := by
  have hsame (r : Organization) :
      answer (ops.map Operation.settled) org = .ok r ↔ answer ops org = .ok r := by
    rw [answer_eq_ok, answer_eq_ok, apply, apply, applyAll_map Operation.asks_settled]
  refine ⟨ops.map Operation.settled, ofJson_toJson ops, hsame, fun e he => ?_, fun hnull => ?_⟩
  · refine ⟨kind_of_answer he, ?_⟩
    -- what is refused is not done by the other list either
    cases hdecoded : answer (ops.map Operation.settled) org with
    | ok r =>
      rw [(hsame r).1 hdecoded] at he
      cases he
    | error e' => exact ⟨e', rfl, kind_of_answer hdecoded⟩
  · rw [List.map_congr_left fun o ho => Operation.settled_eq_sorted (hnull o ho)]
    refine ⟨rfl, fun hsorted => ?_⟩
    rw [List.map_congr_left hsorted, List.map_id']

/-- A patch with values of several kinds, none of which is null itself. The description is removed
in any case. -/
def roundabout : List Operation :=
  [⟨.remove, "/description", some (.object [("a", .array [.null, .bool true]), ("b", .string "")])⟩,
    .add "/name" (.string " New name "), ⟨.replace, "/attributes/~1", some (.string "slash")⟩]

theorem patches_read_back_roundabout :
    let org := Organization.new .epoch "Old name"
    let r := { org with name := "New name", attributes := [⟨"/", "slash"⟩] }
    (∀ o ∈ roundabout, o.value ≠ some .null) ∧ (∀ o ∈ roundabout, o.sorted = o) ∧
      answer roundabout org = .ok r ∧
      ∃ decoded, ofJson (toJson roundabout) = .ok decoded ∧ answer decoded org = .ok r ∧
        decoded = roundabout := by
  intro org r
  have hafter : compare "b" "a" = .gt := by decide
  have hnull : ∀ o ∈ roundabout, o.value ≠ some .null := by simp [roundabout, Operation.add]
  have hsorted : ∀ o ∈ roundabout, o.sorted = o := by
    simp [roundabout, Operation.add, Operation.sorted, Json.ordered, Json.orderedItems,
      Json.orderedMembers, Json.ofMembers, Json.sortMembers, Json.insertMember, hafter]
  have hdone : answer roundabout org = .ok r :=
    answer_eq_ok.2 (toOption_eq_some.1 (by decide +kernel))
  obtain ⟨decoded, hread, hsame, -, hequal⟩ := patches_read_back roundabout org
  exact ⟨hnull, hsorted, hdone, decoded, hread, (hsame r).2 hdone, (hequal hnull).2 hsorted⟩

end OrgForest.Patch
