import ApkFormats.Main
import ApkFormats.Proofs.Dex.RoundTrip
import ApkFormats.Proofs.Failures
import ApkFormats.Proofs.Resource.Finding
import ApkFormats.Proofs.Resource.RoundTrip
import ApkFormats.Proofs.StringPool.Locality
import ApkFormats.Proofs.Xml.Extent
import ApkFormats.Proofs.Xml.RoundTrip
import ApkFormats.Proofs.Xml.Unclosed
import ApkFormats.Proofs.Xml.Bindings
import ApkFormats.Proofs.Xml.Unambiguous
import ApkFormats.Proofs.Resource.Pools
import ApkFormats.Proofs.Resource.Dangling
import ApkFormats.Proofs.Dex.Bounds
import ApkFormats.Proofs.Truncation
import ApkFormats.Proofs.Resource.Locality
import ApkFormats.Proofs.Resource.Enclosed
import ApkFormats.Proofs.Resource.Rearranged
import ApkFormats.Proofs.Resource.Accounting
import ApkFormats.Proofs.CommandLine.Settled
import ApkFormats.Proofs.Leb128.Stream
import ApkFormats.Proofs.CommandLine.JsonLines
import ApkFormats.Proofs.Log.Format
import ApkFormats.Proofs.Dex.Strings.Exact
import ApkFormats.Proofs.Dex.MemberRows
import ApkFormats.Proofs.Dex.SizeChecks
import ApkFormats.Proofs.Resource.EntryChunks
import ApkFormats.Proofs.Resource.Overlong
import ApkFormats.Proofs.Resource.Holes
import ApkFormats.Proofs.BitFields
import ApkFormats.Proofs.Leb128.Words
import ApkFormats.Proofs.Resource.DeclaredSizes
