import BraceParams.Main
import BraceParams.Proofs.Session
import BraceParams.Proofs.Pattern.Join
import BraceParams.Proofs.Pattern.Openings
import BraceParams.Proofs.Pattern.FirstGroup
import BraceParams.Proofs.Pattern.Expansion
import BraceParams.Proofs.Pattern.Composition
import BraceParams.Proofs.Pattern.FixedPoint
import BraceParams.Proofs.Pattern.Product
import BraceParams.Proofs.Pattern.Substitution
import BraceParams.Proofs.Pattern.Tree
import BraceParams.Proofs.Schema.Success
import BraceParams.Proofs.Schema.Checked
import BraceParams.Proofs.Schema.Grammar
import BraceParams.Proofs.Yaml.Written
import BraceParams.Proofs.Yaml.PlainScalar
import BraceParams.Proofs.Yaml.QuotedScalar
import BraceParams.Proofs.Yaml.BlockScalar
import BraceParams.Proofs.Yaml.Scan
import BraceParams.Proofs.Yaml.ScanBlock
import BraceParams.Proofs.Yaml.Nodes
import BraceParams.Proofs.Yaml.RoundTrip
import BraceParams.Proofs.Pattern.Matching
import BraceParams.Proofs.Pattern.Count
import BraceParams.Proofs.Pattern.Depth
import BraceParams.Proofs.Pattern.Octets
import BraceParams.Proofs.Pattern.Cut
import BraceParams.Proofs.Pattern.Segments
import BraceParams.Proofs.Pattern.Escapes
import BraceParams.Proofs.Report.NameLine
import BraceParams.Proofs.Report.Excerpt
import BraceParams.Proofs.Parse.Entries
import BraceParams.Proofs.Parse.Queries
import BraceParams.Proofs.CommandLine.Agreement
import BraceParams.Proofs.Parse.Place
import BraceParams.Proofs.Parse.Occurrence
import BraceParams.Proofs.Schema.Elements
import BraceParams.Proofs.Json.Read
import BraceParams.Proofs.Json.RoundTrip
import BraceParams.Proofs.Report.Advice
import BraceParams.Proofs.Report.Kind
import BraceParams.Proofs.Report.InvalidType
import BraceParams.Proofs.Report.UnknownField
import BraceParams.Proofs.Report.Rows
import BraceParams.Proofs.Report.Caret
import BraceParams.Proofs.Report.ShapeNames
import BraceParams.Proofs.Json.Documents
import BraceParams.Yaml.Token.Quoted
