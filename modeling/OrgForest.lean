import OrgForest.Directory.Change
import OrgForest.Directory.Listing
import OrgForest.Directory.Lookup
import OrgForest.Program.Surroundings
import OrgForest.Proofs.Hierarchy.Lineage
import OrgForest.Proofs.Hierarchy.Way
import OrgForest.Proofs.Store.Outcome
import OrgForest.Proofs.Store.Consistent
import OrgForest.Proofs.Hierarchy.Climb
import OrgForest.Proofs.Store.Rank
import OrgForest.Proofs.Store.Scope
import OrgForest.Proofs.Store.Scan
import OrgForest.Proofs.Store.Batches
import OrgForest.Proofs.Hierarchy.Descend
import OrgForest.Proofs.Store.Structure
import OrgForest.Proofs.Program.Disturbed
import OrgForest.Proofs.Listing.Order
import OrgForest.Proofs.Program.Asks
import OrgForest.Proofs.Program.Versions
import OrgForest.Proofs.Program.Standing
import OrgForest.Proofs.Hierarchy.Attempts
import OrgForest.Proofs.Hierarchy.Standing
import OrgForest.Proofs.Hierarchy.Answers
import OrgForest.Proofs.Hierarchy.Views
import OrgForest.Proofs.Hierarchy.Distances
import OrgForest.Proofs.Store.Reach
import OrgForest.Proofs.Hierarchy.Broken
import OrgForest.Proofs.Program.Assures
import OrgForest.Proofs.Program.Fair
import OrgForest.Proofs.Text.Trim
import OrgForest.Proofs.Directory.Checks
import OrgForest.Proofs.Directory.Fair
import OrgForest.Proofs.Directory.Outcome
import OrgForest.Proofs.Directory.Step
import OrgForest.Proofs.Directory.History
import OrgForest.Proofs.Directory.Contained
import OrgForest.Proofs.Directory.Activity
import OrgForest.Proofs.Directory.Lineages
import OrgForest.Proofs.Directory.Depth
import OrgForest.Proofs.Directory.Naming
import OrgForest.Proofs.Directory.Asks
import OrgForest.Proofs.Directory.Overwrite
import OrgForest.Proofs.Json.Written
import OrgForest.Proofs.Time.Calendar
import OrgForest.Proofs.Listing.Slice
import OrgForest.Proofs.Listing.Token
import OrgForest.Proofs.Directory.Filling
import OrgForest.Proofs.Directory.Pages
import OrgForest.Proofs.Bytes.Base64
import OrgForest.Proofs.Text.Digits
import OrgForest.Proofs.Text.Utf8
import OrgForest.Proofs.Directory.Interleaved
import OrgForest.Proofs.Directory.Walks
import OrgForest.Proofs.Directory.Tokens
import OrgForest.Proofs.Directory.Inquiry
import OrgForest.Proofs.Directory.Blameless
import OrgForest.Proofs.Store.Lives
import OrgForest.Proofs.Patch.Keys
import OrgForest.Proofs.Directory.PutBack
import OrgForest.Proofs.Tenant
import OrgForest.Proofs.Directory.Tenancy
import OrgForest.Proofs.Locks
import OrgForest.Proofs.Locks.Visits
import OrgForest.Proofs.Except
import OrgForest.Proofs.Time.Denoted
import OrgForest.Proofs.Time.Strict
import OrgForest.Proofs.Filter.Token
import OrgForest.Proofs.Filter.Clauses
import OrgForest.Proofs.Filter.Grammar
import OrgForest.Proofs.Filter.Written
import OrgForest.Proofs.Filter.Compared
import OrgForest.Proofs.Filter.Presence
import OrgForest.Proofs.Filter.Listed
import OrgForest.Proofs.Filter.Joined
import OrgForest.Proofs.Json.Ordered
import OrgForest.Proofs.Json.Decoded
import OrgForest.Proofs.Organization.Json
import OrgForest.Proofs.Program.Decides
import OrgForest.Proofs.Store.Moved
import OrgForest.Proofs.Store.Undone
import OrgForest.Proofs.Directory.Below
import OrgForest.Proofs.Directory.Moves
import OrgForest.Proofs.Organization.Attributes
import OrgForest.Proofs.Patch.Edits
import OrgForest.Proofs.Patch.Paths
import OrgForest.Proofs.Patch.Repeated
import OrgForest.Proofs.Patch.Order
import OrgForest.Proofs.Patch.ReadBack
import OrgForest.Proofs.Patch.Readings
import OrgForest.Proofs.Directory.Patches
import OrgForest.Proofs.Directory.Additions
import OrgForest.Proofs.Directory.Locked
