import Exonym.Main
import Exonym.Naming.Lookup
import Exonym.Proofs.Format.Loader
import Exonym.Proofs.Gate.Rejection
import Exonym.Proofs.Gate.Stamps
import Exonym.Proofs.Graph.Building
import Exonym.Proofs.Graph.Stored
import Exonym.Proofs.Hierarchy.Closure
import Exonym.Proofs.Hierarchy.Cover
import Exonym.Proofs.Hierarchy.Reachability
import Exonym.Proofs.Hierarchy.Rehomed
import Exonym.Proofs.Ledger.Account
import Exonym.Proofs.Ledger.Choices
import Exonym.Proofs.Ledger.Derived
import Exonym.Proofs.Ledger.Exhaustion
import Exonym.Proofs.Ledger.Lengthened
import Exonym.Proofs.Ledger.Peeking
import Exonym.Proofs.Ledger.Permanence
import Exonym.Proofs.Ledger.Styled
import Exonym.Proofs.Naming.Apart
import Exonym.Proofs.Naming.Facade
import Exonym.Proofs.Naming.Identifiers
import Exonym.Proofs.Naming.Imports
import Exonym.Proofs.Naming.Keys
import Exonym.Proofs.Naming.Lookups
import Exonym.Proofs.Naming.Markers
import Exonym.Proofs.Naming.Total
import Exonym.Proofs.Naming.Yielding
import Exonym.Proofs.Order.Listings
import Exonym.Proofs.Order.Runs
import Exonym.Proofs.Overload.Duplicates
import Exonym.Proofs.Overload.Settled
import Exonym.Proofs.Pipeline.Conserved
import Exonym.Proofs.Pipeline.Repeated
import Exonym.Proofs.Toml.Settings
import Exonym.Proofs.TypeRef.Composed
import Exonym.Proofs.View.Exposed
import Exonym.Proofs.View.Fates
import Exonym.Proofs.View.References
import Exonym.Sample.Gallery
