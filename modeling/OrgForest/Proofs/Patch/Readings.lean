import OrgForest.Proofs.Patch.ReadBack

/-!
# A patch is read from its text as from its value

A list of operations comes as JSON text or as a JSON value that has been read before. The two are
taken apart by one decoder, and it asks where they come from in two places only: values may be
nested as deep as the text leaves room for, and too many items of an array have faults of their own.
So a value without doubles and its compact text give the same operations, or none.

* `Decoder.value_of_depth_le` — where there is room enough, it does not count;
* `Patch.Operation.decodeList_toOption` — one list from both, up to its faults;
* `Patch.readings_agree` — a value and its text.
-/

namespace OrgForest

/-- Where there is room enough, it does not count. -/
theorem Decoder.value_of_depth_le {d : Document} {n : Nat} (h : d.depth ≤ n) :
    Decoder.value (some n) d = Decoder.value none d := by
  have hroom : d.value? n = d.value? d.depth := by
    rw [Document.value?, Document.value?, if_pos h, if_pos (Nat.le_refl _)]
  rw [Decoder.value, Decoder.value, Option.getD_some, Option.getD_none, hroom]

namespace Patch

namespace Operation

variable {d : Document}

theorem optional_value_of_depth_le {n : Nat} (h : d.depth ≤ n) :
    Decoder.optional (Decoder.value (some n)) d = Decoder.optional (Decoder.value none) d := by
  cases d with
  | null => rfl
  | _ => exact congrArg (Except.map some) (Decoder.value_of_depth_le h)

/-- A field is read in the same way, as long as it is nested no deeper than a list of operations in
a text leaves room for. -/
theorem put_text (h : d.depth ≤ Document.depthLimit - 2) (i : Nat)
    (p : Option Kind × Option String × Option (Option Json)) :
    (shape .text).put i d p = (shape .value).put i d p := by
  -- neither a kind nor a path is read with regard to the room
  match i with
  | 0 => rfl
  | 1 => rfl
  | _ + 2 =>
    have hvalue := optional_value_of_depth_le h
    show (do return (p.1, p.2.1, some (← Decoder.optional (Decoder.value (some _)) d))) =
      (do return (p.1, p.2.1, some (← Decoder.optional (Decoder.value none) d)) :
        Except DecodeError _)
    rw [hvalue]

/-- One list is read from both, if any. -/
theorem decodeList_toOption (h : d.depth ≤ Document.depthLimit) :
    (decodeList .text d).toOption = (decodeList .value d).toOption := by
  refine Decoder.list_toOption fun c hc => ?_
  -- a field of an operation stands two levels within the list
  refine (shape .value).decode_withPut fun c' hc' i p => put_text ?_ i p
  omega

end Operation

/-- What is received, a fault in it being that of who has sent it. -/
def received (found : Except PatchError (List Operation)) :
    Except OrganizationError (List Operation) :=
  found.mapError fun fault => .badRequest (.patch fault)

theorem received_error {found : Except PatchError (List Operation)} (h : found.toOption = none) :
    ∃ e, received found = .error e ∧ e.kind = .badRequest := by
  cases found with
  | ok ops => cases h
  | error fault => exact ⟨_, rfl, rfl⟩

theorem ofJson_toOption (v : Json) :
    (ofJson v).toOption = (Operation.decodeList .value v.document).toOption := by
  rw [ofJson]
  cases Operation.decodeList .value v.document <;> rfl

theorem ofText_toOption {text : String} {d : Document} (h : Document.ofText? text = some d) :
    (ofText text).toOption = (Operation.decodeList .text d).toOption := by
  rw [ofText, h]
  dsimp only
  cases Operation.decodeList .text d <;> rfl

/-- **A patch is read from its text as from its value.** Whatever a value without doubles is, nested
no deeper than values may be: the list of operations read from its compact text is the one read from
the value itself, or both are refused as bad requests. -/
theorem readings_agree (v : Json) (hv : v.Exact)
    (hdepth : v.document.depth ≤ Document.depthLimit) :
    (∃ ops, received (ofText v.compact) = .ok ops ∧ received (ofJson v) = .ok ops) ∨
      ∃ e e', received (ofText v.compact) = .error e ∧ e.kind = .badRequest ∧
        received (ofJson v) = .error e' ∧ e'.kind = .badRequest := by
  have hread : Document.ofText? v.compact = some v.document := (Json.parse?_compact hv hdepth).1
  have hsame : (ofText v.compact).toOption = (ofJson v).toOption := by
    rw [ofText_toOption hread, ofJson_toOption, Operation.decodeList_toOption hdepth]
  cases hvalue : (ofJson v).toOption with
  | some ops =>
    rw [hvalue] at hsame
    rw [toOption_eq_some.1 hvalue, toOption_eq_some.1 hsame]
    exact .inl ⟨ops, rfl, rfl⟩
  | none =>
    rw [hvalue] at hsame
    obtain ⟨e, he, hkind⟩ := received_error hsame
    obtain ⟨e', he', hkind'⟩ := received_error hvalue
    exact .inr ⟨e, e', he, hkind, he', hkind'⟩

/-- Operations as an object and as an array, with a field that is not known, a kind in other letters
and a value that is null. -/
def looseList : Json :=
  .array [.object [("note", .array [.object []]), ("op", .string " Add"), ("path", .string "/name"),
      ("value", .array [.null, .number (.ofInt64 (-7))])],
    .array [.string "REMOVE", .string "/attributes/\"\n", .null]]

/-- An operation as an array with an item too many. -/
def longItem : Json := .array [.array [.string "add", .string "/name", .null, .null]]

theorem readings_agree_loose :
    looseList.Exact ∧ looseList.document.depth ≤ Document.depthLimit ∧ longItem.Exact ∧
      longItem.document.depth ≤ Document.depthLimit ∧
      (∃ ops, received (ofText looseList.compact) = .ok ops ∧
        received (ofJson looseList) = .ok ops ∧
        ops.map (fun o => (o.kind, o.path)) = [(.add, "/name"), (.remove, "/attributes/\"\n")]) ∧
      ∃ e e', received (ofText longItem.compact) = .error e ∧ e.kind = .badRequest ∧
        received (ofJson longItem) = .error e' ∧ e'.kind = .badRequest := by
  have hexact : looseList.Exact := by simp [looseList, Json.Exact, Json.ExactItems,
    Json.ExactMembers, Json.Number.ofInt64]
  have hdepth : looseList.document.depth ≤ Document.depthLimit := by decide +kernel
  have hexact' : longItem.Exact := by simp [longItem, Json.Exact, Json.ExactItems]
  have hdepth' : longItem.document.depth ≤ Document.depthLimit := by decide +kernel
  have hlist : (received (ofJson looseList)).toOption.map
      (·.map fun o => (o.kind, o.path)) =
        some [(.add, "/name"), (.remove, "/attributes/\"\n")] := by decide +kernel
  have hnone : (received (ofJson longItem)).toOption.map (·.length) = none := by decide +kernel
  refine ⟨hexact, hdepth, hexact', hdepth', ?_, ?_⟩
  · rcases readings_agree looseList hexact hdepth with ⟨ops, htext, hvalue⟩ | ⟨e, e', -, -, he', -⟩
    · rw [hvalue] at hlist
      exact ⟨ops, htext, hvalue, Option.some.inj hlist⟩
    · rw [he'] at hlist
      cases hlist
  · rcases readings_agree longItem hexact' hdepth' with ⟨ops, -, hvalue⟩ | herror
    · rw [hvalue] at hnone
      cases hnone
    · exact herror

end Patch

end OrgForest
