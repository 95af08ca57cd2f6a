import MarkupForest.Annotation
import MarkupForest.Decimal.Shortest
import MarkupForest.Digest.Blake3
import MarkupForest.Event
import MarkupForest.Forest.Attach
import MarkupForest.Forest.Basic
import MarkupForest.Forest.Build
import MarkupForest.Forest.Command
import MarkupForest.Forest.Failure
import MarkupForest.Forest.Navigation
import MarkupForest.Id
import MarkupForest.Json.Basic
import MarkupForest.Json.Numeral
import MarkupForest.Json.Outline
import MarkupForest.Json.Reader
import MarkupForest.Kind
import MarkupForest.Proofs.Annotation
import MarkupForest.Proofs.Forest.Address
import MarkupForest.Proofs.Forest.Attachment
import MarkupForest.Proofs.Forest.Fingerprint
import MarkupForest.Proofs.Forest.Kept
import MarkupForest.Proofs.Forest.Memory
import MarkupForest.Proofs.Forest.Moves
import MarkupForest.Proofs.Forest.PageAddress
import MarkupForest.Proofs.Forest.Pageless
import MarkupForest.Proofs.Forest.Place
import MarkupForest.Proofs.Forest.Recording
import MarkupForest.Proofs.Forest.Representation
import MarkupForest.Proofs.Forest.Run
import MarkupForest.Proofs.Forest.Section
import MarkupForest.Proofs.Forest.Shape
import MarkupForest.Proofs.Forest.Silent
import MarkupForest.Proofs.Forest.Subtree
import MarkupForest.Proofs.Forest.Traversal
import MarkupForest.Proofs.Forest.WellFormed
import MarkupForest.Proofs.Json.AnyOrder
import MarkupForest.Proofs.Json.ReadBack
import MarkupForest.Proofs.Json.RoundTrip
import MarkupForest.Proofs.Tree.Argument
import MarkupForest.Proofs.Tree.Correspondence
import MarkupForest.Proofs.Tree.Hidden
import MarkupForest.Proofs.Tree.Json
import MarkupForest.Proofs.Tree.Reach
import MarkupForest.Proofs.Tree.Template
import MarkupForest.Proofs.Tree.Trace
import MarkupForest.Proofs.Uri.Counting
import MarkupForest.Proofs.Uri.Cut
import MarkupForest.Proofs.Uri.Numbering
import MarkupForest.Proofs.Uri.Overlap
import MarkupForest.Proofs.Uri.Quote
import MarkupForest.Proofs.Uri.Run
import MarkupForest.Proofs.Uri.Slug
import MarkupForest.Proofs.Uri.Tag
import MarkupForest.Record
import MarkupForest.Text.Lowercase
import MarkupForest.Text.Quoted
import MarkupForest.Text.Visible
import MarkupForest.Title
import MarkupForest.Tree
import MarkupForest.Tree.Contribution
import MarkupForest.Tree.Json
import MarkupForest.Tree.Markup
import MarkupForest.Tree.PlainText
import MarkupForest.Tree.Template
import MarkupForest.Tree.Trace
import MarkupForest.Tree.Walk
import MarkupForest.Uri.Escape
import MarkupForest.Uri.Issuer
import MarkupForest.Uri.Overlap
import MarkupForest.Uri.ScopedIssuer
import MarkupForest.Uri.Settings
import MarkupForest.Uri.Slug
import MarkupForest.Uri.Tally
