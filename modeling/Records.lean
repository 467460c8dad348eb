import Records.Database
import Records.Json.Writer
import Records.Log.Logger
import Records.Proofs.Filter.Absent
import Records.Proofs.Filter.Equality
import Records.Proofs.Filter.Ranges
import Records.Proofs.Filter.Recursion
import Records.Proofs.Filter.Scoped
import Records.Proofs.Filter.Unordered
import Records.Proofs.Listing.Layers
import Records.Proofs.Listing.Lines
import Records.Proofs.Listing.Pages
import Records.Proofs.Listing.Return
import Records.Proofs.Listing.Sorted
import Records.Proofs.Record.Hidden
import Records.Proofs.Record.Paths
import Records.Proofs.Record.Unfolded
import Records.Proofs.Resource.Aftermath
import Records.Proofs.Resource.Agreement
import Records.Proofs.Resource.Deleted
import Records.Proofs.Resource.Failing
import Records.Proofs.Resource.Identity
import Records.Proofs.Resource.Isolated
import Records.Proofs.Resource.Loaded
import Records.Proofs.Resource.Marks
import Records.Proofs.Resource.Ownership
import Records.Proofs.Resource.Repeated
import Records.Proofs.Resource.RoundTrip
import Records.Proofs.Resource.Traces
import Records.Proofs.Resource.Trash
import Records.Proofs.Schema.CamelCase
import Records.Record.Draft
import Records.Request
import Records.Settings
