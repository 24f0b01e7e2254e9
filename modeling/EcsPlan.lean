import EcsPlan.Main
import EcsPlan.Proofs.DiscoveryOrder
import EcsPlan.Proofs.Assignments
import EcsPlan.Proofs.Survivors
import EcsPlan.Proofs.Pinning
import EcsPlan.Proofs.Growth
import EcsPlan.Proofs.Headroom
import EcsPlan.Proofs.QueryMasks
import EcsPlan.Proofs.DroppedNames
import EcsPlan.Proofs.Reporting
import EcsPlan.Proofs.Isolation
import EcsPlan.Proofs.Lookups
import EcsPlan.Proofs.Relevance
import EcsPlan.Proofs.Json.Literals
import EcsPlan.Proofs.Json.Numerals
import EcsPlan.Proofs.Json.Trees
import EcsPlan.Proofs.Json.Layouts
import EcsPlan.Proofs.Json.Codecs
import EcsPlan.Proofs.RoundTrip
import EcsPlan.Proofs.Document
import EcsPlan.Proofs.Capacity
import EcsPlan.Proofs.Layers
import EcsPlan.Proofs.Widths
import EcsPlan.Proofs.BoundedSets
import EcsPlan.Proofs.Contradictions
import EcsPlan.Proofs.InPlace
import EcsPlan.Proofs.Restatements
import EcsPlan.Proofs.Unambiguous
import EcsPlan.Proofs.Json.Spellings
import EcsPlan.Proofs.Json.Faces
import EcsPlan.Proofs.Presentations
import EcsPlan.Proofs.Composition
