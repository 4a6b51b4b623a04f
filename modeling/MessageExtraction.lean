import MessageExtraction.Main
import MessageExtraction.Proofs.Catalog.Entries
import MessageExtraction.Proofs.Catalog.SortedTexts
import MessageExtraction.Proofs.Catalog.Consistency
import MessageExtraction.Proofs.Extraction.SourceOrder
import MessageExtraction.Proofs.Extraction.Failures
import MessageExtraction.Proofs.Expression.Acceptance
import MessageExtraction.Proofs.Expression.Lexing
import MessageExtraction.Proofs.Expression.PlainStyle
import MessageExtraction.Proofs.Expression.RoundTrip
import MessageExtraction.Proofs.Expression.TranslatedStrings
import MessageExtraction.Proofs.Template.TextLines
import MessageExtraction.Proofs.Template.Regions
import MessageExtraction.Proofs.Template.Messages
import MessageExtraction.Proofs.Po.Lasting
import MessageExtraction.Proofs.Options.Loading
import MessageExtraction.Proofs.CommandLine.Writing
import MessageExtraction.Proofs.Expression.Occurrences
import MessageExtraction.Proofs.Script.MarkedCalls
import MessageExtraction.Proofs.Text.LowerCase
import MessageExtraction.Proofs.Project.Following
import MessageExtraction.Proofs.Project.Discovery
import MessageExtraction.Proofs.Project.Extensions
import MessageExtraction.Proofs.Expression.ReadingOrder
import MessageExtraction.Proofs.Template.Visits
import MessageExtraction.Proofs.Template.AttributeValues
import MessageExtraction.Proofs.Po.ReadBack
import MessageExtraction.Proofs.Expression.Lexicon
import MessageExtraction.Proofs.Expression.Cutting
import MessageExtraction.Proofs.Script.CommentBlocks
import MessageExtraction.Proofs.Script.LiteralForms
import MessageExtraction.Proofs.Catalog.Iteration
import MessageExtraction.Proofs.Template.Interpolations
import MessageExtraction.Proofs.Expression.LeadingBlanks
import MessageExtraction.Proofs.Markup.TextContent
import MessageExtraction.Proofs.Template.OneTimeBinding
import MessageExtraction.Proofs.Template.PlainText
import MessageExtraction.Proofs.Catalog.LineNumbers
import MessageExtraction.Proofs.Extraction.LineOffsets
import MessageExtraction.Proofs.Options.Overlay
import MessageExtraction.Proofs.Options.Stopping
import MessageExtraction.Proofs.Catalog.Insertion
import MessageExtraction.Proofs.Catalog.RenderedReferences
import MessageExtraction.Proofs.Template.Descent
import MessageExtraction.Proofs.Project.ShownPaths
import MessageExtraction.Proofs.Project.SortedUnion
