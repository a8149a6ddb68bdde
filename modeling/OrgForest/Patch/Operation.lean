import OrgForest.Json.Decode
import OrgForest.Organization.Basic

/-!
# Patch operations

A patch is a list of operations, each with a kind, a path and, for some, a value. It is read from
JSON text or from a JSON value; in both a null value counts as none. A text that is no JSON text
is reported without detail.
-/

namespace OrgForest.Patch

/-- What an operation does at its path. -/
inductive Kind where
  | add
  | remove
  | replace
deriving DecidableEq, Repr

namespace Kind

/-- The name of a kind. -/
def text : Kind → String
  | .add => "add"
  | .remove => "remove"
  | .replace => "replace"

/-- A text that names no kind, in small letters. -/
structure Unknown where
  name : String
deriving DecidableEq, Repr

/-- The fault in words. -/
def Unknown.message (u : Unknown) : String :=
  s!"Unsupported patch operation '{u.name}', expected add, remove or replace"

/-- Reads a kind without regard to case and surrounding blanks. -/
def read (s : String) : Except Unknown Kind :=
  let name := Text.lower (Text.trimmed s)
  if name = "add" then .ok .add
  else if name = "remove" then .ok .remove
  else if name = "replace" then .ok .replace
  else .error ⟨name⟩

/-- A kind as a field of an operation. -/
def decode : Decoder Kind := fun d => do
  let s ← Decoder.text d
  match read s with
  | .ok k => return k
  | .error u => throw (.refused u.message)

end Kind

/-- One operation. -/
structure Operation where
  kind : Kind
  path : String
  value : Option Json

/-- Why a patch cannot be applied. -/
inductive PatchError where
  /-- The list of operations cannot be read; a detail is known if it is JSON at all. -/
  | malformed (detail : Option DecodeError)
  | relativePath (path : String)
  | missingKey
  | readOnly (path : String)
  | unknownPath (path : String)
  | required (path : String)
  | unknownAttribute (key : String)
  | notText (path : String) (value : Json)
  | missingValue (kind : Kind) (path : String)
  | blankName
  | unknownStatus (fault : Status.Unknown)

/-- The fault in words. -/
def PatchError.message : PatchError → String
  | .malformed none => "Malformed patch request"
  | .malformed (some e) => s!"Malformed patch request: {e.message}"
  | .relativePath p => s!"Patch path '{p}' must start with '/'"
  | .missingKey => "Patch path '/attributes/' is missing the attribute key"
  | .readOnly p => s!"Patch path '{p}' is read-only"
  | .unknownPath p => s!"Unsupported patch path '{p}'"
  | .required p => s!"Patch path '{p}' is required and cannot be removed"
  | .unknownAttribute k => s!"Attribute '{k}' does not exist and cannot be removed"
  | .notText p v => s!"Patch value for '{p}' must be a string, got {v.compact}"
  | .missingValue k p => s!"Patch operation '{k.text}' on '{p}' requires a value"
  | .blankName => "Organization name must not be blank"
  | .unknownStatus u => u.message

namespace Operation

/-- The operation that adds a value. -/
def add (path : String) (value : Json) : Operation := ⟨.add, path, some value⟩

/-- The operation that replaces a value. -/
def replace (path : String) (value : Json) : Operation := ⟨.replace, path, some value⟩

/-- The operation that removes a value. -/
def remove (path : String) : Operation := ⟨.remove, path, none⟩

/-- An operation as JSON. -/
def toJson (o : Operation) : Json :=
  .object <| [("op", .string o.kind.text), ("path", .string o.path)]
    ++ match o.value with
      | some v => [("value", v)]
      | none => []

/-- How deep a value may be nested within a list of operations that stands in a text. -/
def room : Source → Option Nat
  | .value => none
  | .text => some (Document.depthLimit - 2)

/-- How an operation is put together. -/
def shape (source : Source) :
    Shape (Option Kind × Option String × Option (Option Json)) Operation where
  name := "PatchOperation"
  fields := ["op", "path", "value"]
  start := (none, none, none)
  put i d p :=
    match i with
    | 0 => return (some (← Kind.decode d), p.2)
    | 1 => return (p.1, some (← Decoder.text d), p.2.2)
    | _ => return (p.1, p.2.1, some (← Decoder.optional (Decoder.value (room source)) d))
  finish p := return ⟨← Shape.require 0 p.1, ← Shape.require 1 p.2.1, p.2.2.getD none⟩

/-- A list of operations. -/
def decodeList (source : Source) : Decoder (List Operation) :=
  Decoder.list ((shape source).decode source)

end Operation

/-- Reads a list of operations from a JSON value. -/
def ofJson (v : Json) : Except PatchError (List Operation) :=
  match Operation.decodeList .value v.document with
  | .ok ops => .ok ops
  | .error e => .error (.malformed (some e))

/-- Reads a list of operations from a JSON text. -/
def ofText (text : String) : Except PatchError (List Operation) :=
  match Document.ofText? text with
  | none => .error (.malformed none)
  | some d =>
    match Operation.decodeList .text d with
    | .ok ops => .ok ops
    | .error e => .error (.malformed ((d.value? Document.depthLimit).map fun _ => e))

/-- A list of operations as JSON. -/
def toJson (ops : List Operation) : Json := .array (ops.map Operation.toJson)

end OrgForest.Patch
