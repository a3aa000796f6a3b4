import MarkupGraft.Main
import MarkupGraft.Proofs.Store.Branch
import MarkupGraft.Proofs.Store.Nesting
import MarkupGraft.Resource.Library
import MarkupGraft.Proofs.Store.WellFormed
import MarkupGraft.Proofs.Store.Placement
import MarkupGraft.Proofs.Store.Numbering
import MarkupGraft.Proofs.Store.Rewriting
import MarkupGraft.Proofs.Store.Splicing
import MarkupGraft.Proofs.Store.Refinement
import MarkupGraft.Proofs.Store.Cutting
import MarkupGraft.Proofs.Store.Reading
import MarkupGraft.Proofs.Store.Session
import MarkupGraft.Proofs.Store.Handles
import MarkupGraft.Proofs.Markup.Reference
import MarkupGraft.Proofs.Markup.Piece
import MarkupGraft.Proofs.Markup.Printing
import MarkupGraft.Proofs.Markup.Tokens
import MarkupGraft.Proofs.Store.Scope
import MarkupGraft.Proofs.Store.Binding
import MarkupGraft.Proofs.Store.Writing
import MarkupGraft.Proofs.Markup.Produced
import MarkupGraft.Proofs.Store.Detached
import MarkupGraft.Proofs.Store.Surroundings
import MarkupGraft.Proofs.Store.Serialization
import MarkupGraft.Proofs.Store.Reserialization
import MarkupGraft.Proofs.Store.Site
import MarkupGraft.Proofs.Store.Slot
import MarkupGraft.Proofs.Store.Confinement
import MarkupGraft.Proofs.Store.Grafting
import MarkupGraft.Proofs.Store.Joining
import MarkupGraft.Proofs.Store.Concatenation
import MarkupGraft.Proofs.Markup.Truncation
import MarkupGraft.Proofs.Markup.Run
import MarkupGraft.Proofs.Markup.Tiling
import MarkupGraft.Proofs.Markup.Excerpt
import MarkupGraft.Proofs.Host.Part
import MarkupGraft.Proofs.Host.Passage
import MarkupGraft.Proofs.Host.Expansion
import MarkupGraft.Proofs.Query.Walk
import MarkupGraft.Proofs.Query.Axes
import MarkupGraft.Proofs.Query.NodeSet
import MarkupGraft.Proofs.Query.Lexeme
import MarkupGraft.Proofs.Query.Phrase
import MarkupGraft.Proofs.Query.Reader
import MarkupGraft.Proofs.Query.Reading
import MarkupGraft.Proofs.Query.Following
import MarkupGraft.Proofs.Query.Completeness
import MarkupGraft.Proofs.Query.Acceptance
import MarkupGraft.Proofs.Query.Rendering
import MarkupGraft.Proofs.Query.Roundtrip
import MarkupGraft.Proofs.Template.Comparison
import MarkupGraft.Proofs.Template.Insertion
import MarkupGraft.Proofs.Template.Ranking
import MarkupGraft.Proofs.Template.Sorting
import MarkupGraft.Proofs.Query.Closure
import MarkupGraft.Proofs.Template.Work
import MarkupGraft.Proofs.Template.Content
import MarkupGraft.Proofs.Template.Liveness
import MarkupGraft.Proofs.Store.Children
import MarkupGraft.Proofs.Template.Substitution
import MarkupGraft.Proofs.Template.Copies
import MarkupGraft.Proofs.Template.Repetition
import MarkupGraft.Proofs.Template.Guard
import MarkupGraft.Proofs.Template.Conflict
import MarkupGraft.Proofs.Store.Building
import MarkupGraft.Proofs.Template.Enclosure
import MarkupGraft.Proofs.Template.Outermost
import MarkupGraft.Proofs.Query.Union
import MarkupGraft.Proofs.Template.Atomicity
import MarkupGraft.Proofs.Template.Emission
import MarkupGraft.Proofs.Store.Holding
import MarkupGraft.Proofs.Template.Serving
import MarkupGraft.Proofs.Store.Among
import MarkupGraft.Proofs.Template.Settled
import MarkupGraft.Proofs.Template.Served
import MarkupGraft.Proofs.Template.Fixed
import MarkupGraft.Proofs.Template.Idempotence
import MarkupGraft.Proofs.Query.AttributeAxes
import MarkupGraft.Proofs.Query.Descent
import MarkupGraft.Proofs.Link.Path
import MarkupGraft.Proofs.Link.Relative
import MarkupGraft.Proofs.Link.Directory
import MarkupGraft.Proofs.Template.SourcePath
import MarkupGraft.Proofs.Link.Scheme
import MarkupGraft.Proofs.Link.Draft
import MarkupGraft.Proofs.Link.Page
import MarkupGraft.Proofs.Link.PageText
import MarkupGraft.Proofs.Template.PageLink
import MarkupGraft.Proofs.Store.Rescoping
import MarkupGraft.Proofs.Store.Composition
import MarkupGraft.Proofs.Resource.Directory
import MarkupGraft.Proofs.Text.Invalid
import MarkupGraft.Proofs.Markup.Marks
import MarkupGraft.Proofs.Markup.InvalidText
import MarkupGraft.Proofs.Host.Definition
import MarkupGraft.Proofs.Host.OwnTemplate
import MarkupGraft.Proofs.Template.Decoding
import MarkupGraft.Proofs.Query.Substring
import MarkupGraft.Proofs.Query.Spacing
import MarkupGraft.Proofs.Store.Prefix
import MarkupGraft.Proofs.Store.InnerText
import MarkupGraft.Proofs.Link.NormalForm
import MarkupGraft.Proofs.Markup.Escaping
import MarkupGraft.Proofs.Store.Counting
import MarkupGraft.Proofs.Store.Checked
import MarkupGraft.Proofs.Store.InBounds
