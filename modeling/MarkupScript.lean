import MarkupScript.Main
import MarkupScript.Proofs.RoundTrip
import MarkupScript.Proofs.Template.DocumentOrder
import MarkupScript.Proofs.Template.Regions
import MarkupScript.Proofs.Compile
import MarkupScript.Proofs.Parse.Delimiters
import MarkupScript.Proofs.Template.Unchanged
import MarkupScript.Proofs.Parse.Progress
import MarkupScript.Proofs.Template.Imports
import MarkupScript.Proofs.Print.TagsAndComparisons
import MarkupScript.Proofs.Template.ElementPairs
import MarkupScript.Proofs.Template.Accounting
import MarkupScript.Proofs.NewCallees
import MarkupScript.Proofs.CommandLine.Build
import MarkupScript.Proofs.Template.UnmatchedEnds
import MarkupScript.Proofs.Parse.Precedence
import MarkupScript.Proofs.Decorators
import MarkupScript.Proofs.Tree.Callbacks
import MarkupScript.Proofs.Token.Positions
import MarkupScript.Proofs.Token.LineEnds
import MarkupScript.Proofs.Parse.OpenElements
import MarkupScript.Proofs.Token.Escapes
import MarkupScript.Proofs.Json.Numbers
import MarkupScript.Proofs.Json.Text
import MarkupScript.Proofs.Json.Programs
import MarkupScript.Proofs.Parse.Placing
import MarkupScript.Proofs.Parse.SpanNesting
import MarkupScript.Proofs.Parse.Lookahead
