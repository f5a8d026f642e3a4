import SegmentCatalog.Main
import SegmentCatalog.Proofs.Decoding
import SegmentCatalog.Proofs.Coherence
import SegmentCatalog.Proofs.Binary.Rounding
import SegmentCatalog.Proofs.Binary.RoundTrip
import SegmentCatalog.Proofs.Values
import SegmentCatalog.Proofs.Keys
import SegmentCatalog.Proofs.Recording
import SegmentCatalog.Proofs.Isolation
import SegmentCatalog.Proofs.References.Pieces
import SegmentCatalog.Proofs.References.Expansion
import SegmentCatalog.Proofs.References.Memo
import SegmentCatalog.Proofs.References.Compositional
import SegmentCatalog.Proofs.References.Lists
import SegmentCatalog.Proofs.References.Depth
import SegmentCatalog.Proofs.References.Calls
import SegmentCatalog.Proofs.References.Locality
import SegmentCatalog.Proofs.References.Shielding
import SegmentCatalog.Proofs.Stores.Edits
import SegmentCatalog.Proofs.Segments
import SegmentCatalog.Proofs.Decimal.Literals
import SegmentCatalog.Proofs.MachineWords
import SegmentCatalog.Proofs.PartitionFunctions
import SegmentCatalog.Proofs.Hashes.Murmur
import SegmentCatalog.Proofs.Hashes.Polynomial
import SegmentCatalog.Proofs.Orders.Scalars
import SegmentCatalog.Proofs.PropertyFile.Lines
import SegmentCatalog.Proofs.PropertyFile.Written
import SegmentCatalog.Proofs.PropertyFile.Verbatim
import SegmentCatalog.Proofs.Stores.Interchange
import SegmentCatalog.Proofs.Stores.Padding
import SegmentCatalog.Proofs.Equality
import SegmentCatalog.Proofs.PartitionEntries
import SegmentCatalog.Proofs.PartitionUnions
import SegmentCatalog.Proofs.Validity.Checks
import SegmentCatalog.Proofs.Validity.Conditions
import SegmentCatalog.Proofs.Validity.Decoding
import SegmentCatalog.Proofs.PropertyFile.Concatenation
import SegmentCatalog.Proofs.PropertyFile.Layout
import SegmentCatalog.Proofs.PropertyFile.Items
import SegmentCatalog.Proofs.Stores.Continuation
import SegmentCatalog.Proofs.Stores.Rearranged
import SegmentCatalog.Proofs.Text.Grammar
import SegmentCatalog.Proofs.Text.Spellings
import SegmentCatalog.Proofs.Text.UnitEscapes
import SegmentCatalog.Proofs.EmptyTexts
import SegmentCatalog.Proofs.Text.Protection
import SegmentCatalog.Proofs.JsonTexts
import SegmentCatalog.Proofs.Binary.JsonNumbers
import SegmentCatalog.Proofs.JsonViews
import SegmentCatalog.Proofs.Stores.Values
import SegmentCatalog.Proofs.PropertyFile.Grouping
import SegmentCatalog.Proofs.PropertyFile.Protected
import SegmentCatalog.Proofs.Bounds.Integers
import SegmentCatalog.Proofs.Bounds.Bytes
import SegmentCatalog.Proofs.Binary.FewestDigits
import SegmentCatalog.Proofs.Bounds.Floats
import SegmentCatalog.Proofs.Bounds.Fields
import SegmentCatalog.Proofs.Keywords
import SegmentCatalog.Proofs.Drafts
import SegmentCatalog.Proofs.Verification
import SegmentCatalog.Proofs.Text.Composition
import SegmentCatalog.Proofs.Commands
import SegmentCatalog.Proofs.PropertyFile.Recomposition
