import OrgForest.Organization.Basic

/-!
# Filter clauses

A clause asks one thing of an organization: whether a text it has compares in a certain way with a
given text, whether a timestamp does with a given instant, or whether a text is present at all.
Texts are compared by code points and timestamps as instants.

An organization that has no text for the attribute passes only a clause that asks for a difference.
Presence asks for a text that is not empty, so it never holds of a timestamp.
-/

namespace OrgForest.Filter

/-- An order comparison. -/
inductive Comparison where
  | equal
  | notEqual
  | greater
  | greaterOrEqual
  | less
  | lessOrEqual
deriving DecidableEq, Repr

/-- Where in a text a part of it is looked for. -/
inductive Part where
  | anywhere
  | start
  | tail
deriving DecidableEq, Repr

/-- An operator. -/
inductive Operator where
  | compare (c : Comparison)
  | part (p : Part)
  | present
deriving DecidableEq, Repr

/-- An attribute whose value is a text. -/
inductive TextAttribute where
  | id
  | name
  | description
  | status
  | parentId
  | custom (key : String)
deriving DecidableEq, Repr

/-- An attribute whose value is a timestamp. -/
inductive TimeAttribute where
  | created
  | lastModified
deriving DecidableEq, Repr

/-- An attribute. -/
inductive Attribute where
  | text (a : TextAttribute)
  | time (a : TimeAttribute)
deriving DecidableEq, Repr

/-- What one clause asks. -/
inductive Clause where
  | present (subject : Attribute)
  | compareText (subject : TextAttribute) (comparison : Comparison) (expected : String)
  | partOf (subject : TextAttribute) (part : Part) (expected : String)
  | compareTime (subject : TimeAttribute) (comparison : Comparison) (expected : Timestamp)
deriving DecidableEq

namespace Comparison

/-- Whether the comparison holds of an actual value that stands in this order to the expected one.
-/
def holds : Comparison → Ordering → Bool
  | .equal, o => o == .eq
  | .notEqual, o => o != .eq
  | .greater, o => o == .gt
  | .greaterOrEqual, o => o != .lt
  | .less, o => o == .lt
  | .lessOrEqual, o => o != .gt

end Comparison

/-- Whether the first list stands somewhere in the second. -/
def occursIn (part : List Char) : List Char → Bool
  | [] => part.isEmpty
  | c :: cs => part.isPrefixOf (c :: cs) || occursIn part cs

namespace Part

/-- Whether `part` stands in `whole` at the place. -/
def holds (p : Part) (part whole : List Char) : Bool :=
  match p with
  | .anywhere => occursIn part whole
  | .start => part.isPrefixOf whole
  | .tail => part.isSuffixOf whole

end Part

namespace TextAttribute

/-- The text that an organization has for the attribute. -/
def of (o : Organization) : TextAttribute → Option String
  | .id => some o.id
  | .name => some o.name
  | .description => o.description
  | .status => some o.status.text
  | .parentId => o.parentId
  | .custom key => o.attribute? key

end TextAttribute

namespace TimeAttribute

/-- The timestamp that an organization has for the attribute. -/
def of (o : Organization) : TimeAttribute → Timestamp
  | .created => o.created
  | .lastModified => o.lastModified

end TimeAttribute

namespace Clause

/-- The attribute that the clause is about. -/
def subject : Clause → Attribute
  | .present a => a
  | .compareText a _ _ => .text a
  | .partOf a _ _ => .text a
  | .compareTime a _ _ => .time a

/-- The operator of the clause. -/
def operator : Clause → Operator
  | .present _ => .present
  | .compareText _ c _ => .compare c
  | .partOf _ p _ => .part p
  | .compareTime _ c _ => .compare c

/-- Whether an organization passes the clause. -/
def holds (o : Organization) : Clause → Bool
  | .present (.text a) =>
    match a.of o with
    | some s => s != ""
    | none => false
  | .present (.time _) => false
  | .compareText a c expected =>
    match a.of o with
    | some s => c.holds (compare s expected)
    | none => c == .notEqual
  | .partOf a p expected =>
    match a.of o with
    | some s => p.holds expected.toList s.toList
    | none => false
  | .compareTime a c expected => c.holds (compare (a.of o) expected)

end Clause

end OrgForest.Filter
