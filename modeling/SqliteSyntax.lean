import SqliteSyntax.Draft.Statement
import SqliteSyntax.Statement.Render
import SqliteSyntax.Proofs.Pieces.Numerals
import SqliteSyntax.Proofs.Pieces.Tidy
import SqliteSyntax.Proofs.Pieces.Rendered
import SqliteSyntax.Proofs.Pieces.StatementText
import SqliteSyntax.Proofs.Nodes.Nested
import SqliteSyntax.Proofs.Nodes.RaiseText
import SqliteSyntax.Proofs.Nodes.RaiseParts
import SqliteSyntax.Proofs.Nodes.Raise
import SqliteSyntax.Proofs.Quotes.Contents
import SqliteSyntax.Proofs.Quotes.StatementContents
import SqliteSyntax.Proofs.Quotes.BlankText
import SqliteSyntax.Proofs.Quotes.LeafText
import SqliteSyntax.Proofs.Quotes.StatementLeaves
import SqliteSyntax.Proofs.Quotes.StatementBlank
import SqliteSyntax.Proofs.Quotes.Closed
import SqliteSyntax.Proofs.Reading.Lexing
import SqliteSyntax.Proofs.Reading.Reader
import SqliteSyntax.Proofs.Reading.PlainText
import SqliteSyntax.Proofs.Reading.Tiers
import SqliteSyntax.Proofs.Reading.Forms
import SqliteSyntax.Proofs.Reading.Enclosed
import SqliteSyntax.Proofs.Reading.Primaries
import SqliteSyntax.Proofs.Reading.Readable
import SqliteSyntax.Proofs.Reading.ReadBack
import SqliteSyntax.Proofs.Reading.Parts
import SqliteSyntax.Proofs.Reading.Words
import SqliteSyntax.Proofs.Statements.Canonical
import SqliteSyntax.Proofs.Reading.Expressions
import SqliteSyntax.Proofs.Reading.Tables
import SqliteSyntax.Proofs.Reading.Queries
import SqliteSyntax.Proofs.Rules.Rebuilt
import SqliteSyntax.Proofs.Outside.OneStatement
import SqliteSyntax.Proofs.Reading.Unambiguous
import SqliteSyntax.Proofs.Drafts.Compounds
import SqliteSyntax.Proofs.Reading.TreeText
import SqliteSyntax.Proofs.Minimal.Needed
import SqliteSyntax.Proofs.Drafts.Upserts
import SqliteSyntax.Proofs.Drafts.Steps
import SqliteSyntax.Proofs.Drafts.Tables
import SqliteSyntax.Proofs.Drafts.References
import SqliteSyntax.Proofs.Reading.Literals
import SqliteSyntax.Proofs.Numbers.Grammar
import SqliteSyntax.Proofs.Numbers.RealText
import SqliteSyntax.Proofs.Nodes.Search
import SqliteSyntax.Proofs.Reading.Names
import SqliteSyntax.Proofs.Drafts.Conditions
import SqliteSyntax.Proofs.Moments.Chronology
