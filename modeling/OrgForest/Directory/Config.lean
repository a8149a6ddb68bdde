import OrgForest.Text.Diagnostic

/-!
# Configuration of a directory

A configuration bounds pages, names, depths, walks and scans, says where names have to be unique,
and holds the secret that signs cursors. A directory is a configuration without fault.
-/

namespace OrgForest

/-- Where the name of an organization has to be unique. -/
inductive NameScope where
  /-- Within a hierarchy, and among the roots. -/
  | hierarchy
  /-- Among all organizations. -/
  | global
deriving DecidableEq, Repr

/-- What a directory can be told. -/
structure Config where
  /-- The size of a page for which no size is asked. -/
  defaultPageLimit : Nat
  /-- The size of the largest page. -/
  maxPageLimit : Nat
  /-- The secret that signs cursors. -/
  cursorSecret : String
  nameScope : NameScope
  /-- The depth of the deepest organization, a root being at zero. -/
  maxDepth : Option Nat
  /-- The number of characters of the longest name. -/
  maxNameLength : Nat
  /-- How often a walk is tried while the tree changes. -/
  walkRetryLimit : Nat
  /-- How many organizations are scanned at a time. -/
  scanBatchSize : Nat
deriving DecidableEq

/-- What is wrong with a configuration. -/
inductive ConfigFault where
  | zeroPageLimit
  | defaultAboveMaximum
  | emptySecret
  | zeroNameLength
  | zeroWalkRetries
  | zeroBatchSize
deriving DecidableEq, Repr

/-- The fault in words. -/
def ConfigFault.message : ConfigFault → String
  | .zeroPageLimit => "Invalid configuration: Page limits must be greater than zero"
  | .defaultAboveMaximum =>
    "Invalid configuration: Default page limit cannot exceed the maximum page limit"
  | .emptySecret => "Invalid configuration: Cursor secret cannot be empty"
  | .zeroNameLength => "Invalid configuration: Maximum name length must be greater than zero"
  | .zeroWalkRetries => "Invalid configuration: Walk retry limit must be greater than zero"
  | .zeroBatchSize => "Invalid configuration: Scan batch size must be greater than zero"

namespace Config

/-- The configuration in which only the secret is chosen. -/
def standard (secret : String) : Config where
  defaultPageLimit := 15
  maxPageLimit := 100
  cursorSecret := secret
  nameScope := .hierarchy
  maxDepth := none
  maxNameLength := 255
  walkRetryLimit := 3
  scanBatchSize := 64

/-- The first fault of a configuration. -/
def fault? (c : Config) : Option ConfigFault :=
  if c.defaultPageLimit = 0 ∨ c.maxPageLimit = 0 then some .zeroPageLimit
  else if c.maxPageLimit < c.defaultPageLimit then some .defaultAboveMaximum
  else if c.cursorSecret = "" then some .emptySecret
  else if c.maxNameLength = 0 then some .zeroNameLength
  else if c.walkRetryLimit = 0 then some .zeroWalkRetries
  else if c.scanBatchSize = 0 then some .zeroBatchSize
  else none

/-- A configuration as shown in a message: the secret is kept back. -/
def describe (c : Config) : String :=
  "ManagerConfig " ++ Text.diagnosticFields [
    ("default_page_limit", toString c.defaultPageLimit),
    ("max_page_limit", toString c.maxPageLimit),
    ("cursor_secret", Text.diagnostic "<redacted>"),
    ("name_uniqueness", match c.nameScope with
      | .hierarchy => "Hierarchy"
      | .global => "Global"),
    ("max_depth", Text.diagnosticOption (c.maxDepth.map toString)),
    ("max_name_length", toString c.maxNameLength),
    ("walk_retry_limit", toString c.walkRetryLimit),
    ("scan_batch_size", toString c.scanBatchSize)]

end Config

/-- A directory of organizations: a configuration without fault. The records themselves are in the
store that a directory's actions are run on. -/
structure Directory where
  config : Config
  sound : config.fault? = none

namespace Directory

/-- The directory of a configuration, or the first fault of the configuration. -/
def ofConfig (c : Config) : Except ConfigFault Directory :=
  match h : c.fault? with
  | none => .ok ⟨c, h⟩
  | some fault => .error fault

end Directory

end OrgForest
