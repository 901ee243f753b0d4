import SchcCore.Bit.Reader
import SchcCore.Packet.Coap
import SchcCore.Rule.Valid
import SchcCore.Packet.Field
import SchcCore.Tree.Lent
import SchcCore.Roundtrip.Residue
import SchcCore.Roundtrip.Extraction
import SchcCore.Decompress.Result
import SchcCore.Compress.Sharing
import SchcCore.Packet.Target
import SchcCore.Compress.Matching
import SchcCore.Roundtrip.Targets
import SchcCore.Roundtrip.Numbers
import SchcCore.Decompress.Safety
import SchcCore.Compress.Symmetry
import SchcCore.Bit.Session
import SchcCore.Runtime.Node
import SchcCore.Roundtrip.Conforming
import SchcCore.Roundtrip.Lengths
import SchcCore.Roundtrip.Exact
import SchcCore.Roundtrip.Undone
import SchcCore.Roundtrip.Elided
import SchcCore.Compress.Entered
import SchcCore.Tree.Shape
import SchcCore.Rule.Reordered
import SchcCore.Decompress.Summed
import SchcCore.Runtime.Modes
import SchcCore.Runtime.Delivery
import SchcCore.Runtime.Command
import SchcCore.Compress.Verdict
import SchcCore.Rule.Spelled
