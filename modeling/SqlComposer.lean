import SqlComposer.CommandLine.Run
import SqlComposer.Compose.Log
import SqlComposer.Directive.Printer
import SqlComposer.Main
import SqlComposer.Migration.Json
import SqlComposer.Template.Reader
import SqlComposer.Watch.Recompiler
import SqlComposer.Proofs.Compose.Outcome
import SqlComposer.Proofs.Directive.RoundTrip
import SqlComposer.Proofs.Directive.Readable
import SqlComposer.Proofs.Token.Tiling
import SqlComposer.Proofs.Token.Scanning
import SqlComposer.Proofs.Directive.Enclosed
import SqlComposer.Proofs.Compose.Loading
import SqlComposer.Proofs.Store.Writing
import SqlComposer.Proofs.Watch.Freshness
import SqlComposer.Proofs.Compose.Stages
import SqlComposer.Proofs.Compose.Order
import SqlComposer.Proofs.Directive.Complaints
import SqlComposer.Proofs.Directive.Detection
import SqlComposer.Proofs.Template.Verbatim
import SqlComposer.Proofs.Directive.Extent
import SqlComposer.Proofs.Compose.Passage
import SqlComposer.Proofs.Template.Naming
import SqlComposer.Proofs.Compose.Names
import SqlComposer.Proofs.Token.Locality
import SqlComposer.Proofs.Token.Insertion
import SqlComposer.Proofs.Directive.Layout
import SqlComposer.Proofs.Directive.Isolation
import SqlComposer.Proofs.Directive.Locations
import SqlComposer.Proofs.Directive.Confined
import SqlComposer.Proofs.Compose.Overrides
import SqlComposer.Proofs.Template.Substitution
import SqlComposer.Proofs.Compose.Carrying
import SqlComposer.Proofs.Token.Quotation
import SqlComposer.Proofs.Token.Numbers
import SqlComposer.Proofs.Watch.Recompiling
import SqlComposer.Proofs.Token.Decoding
import SqlComposer.Proofs.Token.Spreading
import SqlComposer.Proofs.Token.Bytewise
import SqlComposer.Proofs.Watch.Signalling
import SqlComposer.Proofs.Migration.Flags
import SqlComposer.Proofs.Directive.NameLine
import SqlComposer.Proofs.CommandLine.Arguments
import SqlComposer.Proofs.Migration.Sanitizing
import SqlComposer.Proofs.Token.Lookahead
