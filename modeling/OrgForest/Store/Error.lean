/-!
# Failures of a store

A store fails when it cannot be reached, is too slow, finds its records contradicting each other,
or for a reason of its own. What a caller can put right is no failure: the operations report it as
an outcome.
-/

namespace OrgForest

/-- Why a call of a store failed. Times are in milliseconds. -/
inductive StoreError where
  | unavailable (reason : String) (retryAfter : Option Nat)
  | timeout (operation : String) (elapsed : Nat)
  | corruption (organizationId : String) (details : String)
  | backend (operation : String) (cause : Option String)
deriving DecidableEq, Repr

/-- Drops the zeros at the end of a numeral. -/
def dropZeros (cs : List Char) : List Char := (cs.reverse.dropWhile (· == '0')).reverse

/-- A span of milliseconds in writing: below one second in milliseconds, else in seconds with no
more places than needed. -/
def writeSpan (ms : Nat) : String :=
  if ms = 0 then "0ns"
  else if ms < 1000 then s!"{ms}ms"
  else
    let fraction := Nat.toDigits 10 (ms % 1000)
    match dropZeros (List.replicate (3 - fraction.length) '0' ++ fraction) with
    | [] => s!"{ms / 1000}s"
    | places => s!"{ms / 1000}.{String.ofList places}s"

namespace StoreError

/-- The failure in words. -/
def message : StoreError → String
  | .unavailable reason (some after) =>
    s!"organization store unavailable ({reason}), retry in {writeSpan after}"
  | .unavailable reason none => s!"organization store unavailable ({reason})"
  | .timeout operation elapsed => s!"store call '{operation}' timed out after {writeSpan elapsed}"
  | .corruption id details => s!"inconsistent records for organization '{id}': {details}"
  | .backend operation (some cause) => s!"store call '{operation}' failed: {cause}"
  | .backend operation none => s!"store call '{operation}' failed"

/-- Whether the call may succeed later. -/
def isTemporary : StoreError → Bool
  | .unavailable _ _ => true
  | .timeout _ _ => true
  | _ => false

/-- What lies behind the failure. -/
def cause? : StoreError → Option String
  | .backend _ cause => cause
  | _ => none

end StoreError

end OrgForest
