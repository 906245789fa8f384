import PathQuery.Connection
import PathQuery.Error
import PathQuery.Failure
import PathQuery.Filter
import PathQuery.Filter.Comparison
import PathQuery.Filter.Json
import PathQuery.Filter.Resolve
import PathQuery.Ident
import PathQuery.JoinTree
import PathQuery.JoinTree.SemiJoins
import PathQuery.Json
import PathQuery.Json.Document
import PathQuery.Json.Number
import PathQuery.Json.Token
import PathQuery.Number.Binary64
import PathQuery.Number.Decimal
import PathQuery.Number.Power
import PathQuery.Operator
import PathQuery.Query
import PathQuery.Relation
import PathQuery.Relation.SemiJoin
import PathQuery.Request
import PathQuery.Schema
import PathQuery.Settings
import PathQuery.Settings.Toml
import PathQuery.Sql.Guard
import PathQuery.Sql.Piece
import PathQuery.Sql.Render
import PathQuery.Statement
import PathQuery.StatementLog
import PathQuery.Table
import PathQuery.Text.Blank
import PathQuery.Text.CaseShifts
import PathQuery.Text.Digits
import PathQuery.Text.LetterCase
import PathQuery.Text.LetterRanges
import PathQuery.Text.WordCase
import PathQuery.Toml
import PathQuery.Toml.Document
import PathQuery.Toml.Token
import PathQuery.Value
import PathQuery.Value.Timestamp
import PathQuery.Value.Uuid
import PathQuery.Proofs.Filter.Narrowing
import PathQuery.Proofs.Outcome
import PathQuery.Proofs.Sql.Placeholders
import PathQuery.Proofs.JoinTree.Shape
import PathQuery.Proofs.JoinTree.Slots
import PathQuery.Proofs.Relation.Bodies
import PathQuery.Proofs.Sql.Markup
import PathQuery.Proofs.TwoRuns.Agreement
import PathQuery.Proofs.TwoRuns.Clauses
import PathQuery.Proofs.TwoRuns.Queries
import PathQuery.Proofs.Database.Engine
import PathQuery.Proofs.Database.Evaluation
import PathQuery.Proofs.JoinTree.Aliases
import PathQuery.Proofs.JoinTree.Anchored
import PathQuery.Proofs.JoinTree.Meaning
import PathQuery.Proofs.Request.InScope
import PathQuery.Proofs.Request.InnerJoins
import PathQuery.Proofs.Request.SameRows
import PathQuery.Proofs.Request.ToOneJoins
import PathQuery.Proofs.JoinTree.Scopes
import PathQuery.Proofs.Sql.WriteGuard
import PathQuery.Proofs.Query.LifeCycle
import PathQuery.Proofs.Request.Connectives
import PathQuery.Proofs.Request.Records
import PathQuery.Proofs.JoinTree.Calls
import PathQuery.Proofs.Filter.Traced
import PathQuery.Proofs.JoinTree.OneRow
import PathQuery.Proofs.Request.OneRow
import PathQuery.Proofs.Schema.Order
import PathQuery.Proofs.Filter.Written
import PathQuery.Proofs.Request.Columns
import PathQuery.Proofs.Sql.ReadBack
import PathQuery.Proofs.Relation.SemiJoins
import PathQuery.Proofs.Relation.KeyTests
import PathQuery.Proofs.Filter.Failures
import PathQuery.Proofs.Filter.Depth
import PathQuery.Proofs.Filter.Complements
import PathQuery.Proofs.Filter.Shaped
import PathQuery.Proofs.Sql.Writable
import PathQuery.Proofs.JoinTree.Writable
import PathQuery.Proofs.Request.Compiled
import PathQuery.Proofs.JoinTree.JoinLists
import PathQuery.Proofs.JoinTree.Chains
import PathQuery.Proofs.Sql.Lexemes
import PathQuery.Proofs.Request.Hooked
import PathQuery.Proofs.Sql.Predicates
import PathQuery.Proofs.JoinTree.Retained
import PathQuery.Proofs.Request.Predicates
import PathQuery.Proofs.TwoRuns.Memberships
import PathQuery.Proofs.Sql.Fillers
import PathQuery.Proofs.Sql.QuotedNames
import PathQuery.Proofs.Schema.BothSides
import PathQuery.Proofs.Query.KeyLookup
import PathQuery.Proofs.Relation.Converse
import PathQuery.Proofs.Sql.BoundValues
import PathQuery.Proofs.Filter.Subgroups
import PathQuery.Proofs.JoinTree.Loaded
import PathQuery.Proofs.Request.EagerLoads
import PathQuery.Proofs.Sql.Identifiers
import PathQuery.Proofs.Schema.Attributes
import PathQuery.Proofs.Schema.JoinColumns
import PathQuery.Proofs.Schema.ForeignKeys
import PathQuery.Proofs.StatementLog
import PathQuery.Proofs.JoinTree.Regrouped
import PathQuery.Proofs.JoinTree.Loops
