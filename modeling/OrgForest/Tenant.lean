import OrgForest.Json.Decode
import OrgForest.Text.Blank

/-!
# Tenants

Every organization is bound to one tenant, known by a domain and by a number. A binding is made
together with its organization, removed together with it, and never changed. The numbers come from
a counter that wraps at the end of the signed 64-bit words.
-/

namespace OrgForest

/-- The tenant of an organization. -/
structure TenantBinding where
  organizationId : String
  tenantDomain : String
  tenantId : Int64
deriving DecidableEq, Repr

namespace TenantBinding

/-- A binding as JSON. -/
def toJson (b : TenantBinding) : Json :=
  .object [("organizationId", .string b.organizationId), ("tenantDomain", .string b.tenantDomain),
    ("tenantId", Json.ofInt64 b.tenantId)]

/-- How a binding is put together. -/
def shape : Shape (Option String × Option String × Option Int64) TenantBinding where
  name := "TenantBinding"
  fields := ["organizationId", "tenantDomain", "tenantId"]
  start := (none, none, none)
  put i d p :=
    match i with
    | 0 => return (some (← Decoder.text d), p.2)
    | 1 => return (p.1, some (← Decoder.text d), p.2.2)
    | _ => return (p.1, p.2.1, some (← Decoder.word d))
  finish p := return ⟨← Shape.require 0 p.1, ← Shape.require 1 p.2.1, ← Shape.require 2 p.2.2⟩

/-- Reads a binding from a value. -/
def ofJson (v : Json) : Except DecodeError TenantBinding := shape.decode .value v.document

end TenantBinding

namespace Tenant

/-- The signed word that a text spells: a sign or none, and digits. -/
def readWord? (cs : List Char) : Option Int64 :=
  let (negative, ds) :=
    match cs with
    | '-' :: ds => (true, ds)
    | '+' :: ds => (false, ds)
    | ds => (false, ds)
  match Text.takeDigits ds with
  | ([], _) => none
  | (_, _ :: _) => none
  | (ds, []) =>
    let n : Int := Text.natOfDigits 0 ds
    let i := if negative then -n else n
    if -9223372036854775808 ≤ i && i < 9223372036854775808 then some (Int64.ofInt i) else none

/-- The tenant number that a text spells between blanks. -/
def readId? (s : String) : Option Int64 := readWord? (Text.trim s.toList)

/-- A tenant number in writing. -/
def writeId (i : Int64) : String := String.ofList (Text.signed i.toInt)

/-- The next tenant of the counter: the domain is the id of the organization. -/
def provision (organizationId : String) (next : Int64) : TenantBinding × Int64 :=
  (⟨organizationId, organizationId, next⟩, next + 1)

end Tenant

end OrgForest
