import QueryCompiler.Count
import QueryCompiler.Main
import QueryCompiler.Stored.Catalog
import QueryCompiler.Stored.Request
import QueryCompiler.Proofs.FlatCondition
import QueryCompiler.Proofs.Draft.Flattening
import QueryCompiler.Proofs.Draft.FirstFault
import QueryCompiler.Proofs.Draft.Expressible
import QueryCompiler.Proofs.Draft.Connected
import QueryCompiler.Proofs.Draft.Typed
import QueryCompiler.Proofs.Filter
import QueryCompiler.Proofs.ValidRequest
import QueryCompiler.Proofs.Coherence
import QueryCompiler.Proofs.Building
import QueryCompiler.Proofs.CatalogHistory
import QueryCompiler.Proofs.JoinTree
import QueryCompiler.Proofs.Sql.Parts
import QueryCompiler.Proofs.Sql.Checks
import QueryCompiler.Proofs.Sql.Renderable
import QueryCompiler.Proofs.Sql.Compilable
import QueryCompiler.Proofs.Explanation
import QueryCompiler.Proofs.Sql.Scope
import QueryCompiler.Proofs.Sql.StatementText
import QueryCompiler.Proofs.Sql.Agreement
import QueryCompiler.Proofs.Sql.SelectList
import QueryCompiler.Proofs.Sql.LiteralText
import QueryCompiler.Proofs.Sql.LiteralReading
import QueryCompiler.Proofs.Sql.Joining
import QueryCompiler.Proofs.Sql.Membership
import QueryCompiler.Proofs.Sql.Dependence
import QueryCompiler.Proofs.Sql.Lookups
import QueryCompiler.Proofs.Sql.Renaming
import QueryCompiler.Proofs.Sql.Nesting
import QueryCompiler.Proofs.Sql.Names
import QueryCompiler.Proofs.Sql.Fragment
import QueryCompiler.Proofs.Sql.Reading
import QueryCompiler.Proofs.Sql.Outside
import QueryCompiler.Proofs.Sql.Template
import QueryCompiler.Proofs.Decimal.Rounding
import QueryCompiler.Proofs.Decimal.Finite
import QueryCompiler.Proofs.Decimal.IntegerPrefix
import QueryCompiler.Proofs.Decimal.DecimalPrefix
import QueryCompiler.Proofs.Counting
import QueryCompiler.Proofs.Text.Longest
import QueryCompiler.Proofs.Json.Record
import QueryCompiler.Proofs.Json.Range
import QueryCompiler.Proofs.Stored.RoundTrip
import QueryCompiler.Proofs.Stored.Image
import QueryCompiler.Proofs.Decimal.Large
import QueryCompiler.Proofs.Json.Integers
import QueryCompiler.Proofs.Sql.IntegerLiterals
import QueryCompiler.Proofs.Checking
import QueryCompiler.Proofs.AliasUse
import QueryCompiler.Proofs.Toml.LineEnd
import QueryCompiler.Proofs.Toml.Texts
import QueryCompiler.Proofs.Toml.Lines
import QueryCompiler.Proofs.Sections
import QueryCompiler.Proofs.Json.NumberEnd
import QueryCompiler.Proofs.Stored.DateTimes
import QueryCompiler.Proofs.Stored.RequestText
import QueryCompiler.Proofs.Stored.Statements
