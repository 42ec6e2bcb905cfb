import TemplateMarkup.Entity
import TemplateMarkup.Error
import TemplateMarkup.Hints
import TemplateMarkup.Tree.Edit
import TemplateMarkup.Tree.Outline
import TemplateMarkup.Trim.Pass
import TemplateMarkup.Proofs.Ancestry
import TemplateMarkup.Proofs.Trim.Rules
import TemplateMarkup.Proofs.Trim.Passes
import TemplateMarkup.Proofs.Layout.Collapse
import TemplateMarkup.Proofs.Trim.Reach
import TemplateMarkup.Proofs.Trim.Idempotence
import TemplateMarkup.Proofs.Trim.Frame
import TemplateMarkup.Proofs.Trim.Places
import TemplateMarkup.Proofs.Places
import TemplateMarkup.Proofs.Trim.Logs
import TemplateMarkup.Proofs.Layout.Words
import TemplateMarkup.Proofs.Source.Moves
import TemplateMarkup.Proofs.Source.Context
import TemplateMarkup.Proofs.Source.Spans
import TemplateMarkup.Proofs.Source.Counts
import TemplateMarkup.Proofs.Source.Composition
import TemplateMarkup.Proofs.Source.Tiling
import TemplateMarkup.Proofs.Trim.Content
import TemplateMarkup.Proofs.Trim.Residue
import TemplateMarkup.Proofs.Trim.FixedPoints
import TemplateMarkup.Proofs.Trim.Convergence
import TemplateMarkup.Proofs.Layout.Runs
import TemplateMarkup.Proofs.Trim.Hints
import TemplateMarkup.Proofs.Hints
import TemplateMarkup.Proofs.TagName
import TemplateMarkup.Proofs.NameGrammar
import TemplateMarkup.Proofs.Relabel
import TemplateMarkup.Proofs.Trim.Metadata
import TemplateMarkup.Proofs.Json.Grammar
import TemplateMarkup.Proofs.Json.Strings
import TemplateMarkup.Proofs.Json.Reading
import TemplateMarkup.Proofs.Json.Skipping
import TemplateMarkup.Proofs.Json.Records
import TemplateMarkup.Proofs.Json.RoundTrip
import TemplateMarkup.Proofs.CharClass
import TemplateMarkup.Proofs.Json.Options
