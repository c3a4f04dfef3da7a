import TaggedItems.Catalog.Opening
import TaggedItems.Web.Service
import TaggedItems.Settings.Load
import TaggedItems.Proofs.Catalog.Refinement
import TaggedItems.Proofs.Query.RoundTrip
import TaggedItems.Proofs.Catalog.Keeping
import TaggedItems.Proofs.Catalog.Numbering
import TaggedItems.Proofs.Catalog.Ledger
import TaggedItems.Proofs.Catalog.Putting
import TaggedItems.Proofs.Web.Status
import TaggedItems.Proofs.Catalog.Deleting
import TaggedItems.Proofs.Web.RoundTrip
import TaggedItems.Proofs.Settings.Varying
import TaggedItems.Proofs.Catalog.Scanning
import TaggedItems.Proofs.Catalog.Retagging
import TaggedItems.Proofs.Catalog.Conditions
import TaggedItems.Proofs.Catalog.Commuting
import TaggedItems.Proofs.Query.Extending
import TaggedItems.Proofs.Query.Settling
import TaggedItems.Proofs.Collecting
import TaggedItems.Proofs.Naming
import TaggedItems.Proofs.Web.Listing
import TaggedItems.Proofs.Settings.Port
