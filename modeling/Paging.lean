import Paging.Double.Basic
import Paging.Double.Decimal
import Paging.Double.Shortest
import Paging.Filter.Basic
import Paging.Filter.Clause
import Paging.Filter.Compile
import Paging.Filter.Group
import Paging.Filter.Literal
import Paging.Filter.Octets
import Paging.Filter.Operator
import Paging.Json.Basic
import Paging.Json.Document
import Paging.Json.Printer
import Paging.Json.Reader
import Paging.Json.Token
import Paging.Link.Basic
import Paging.Link.Follow
import Paging.Logged
import Paging.Numeral
import Paging.Paginate
import Paging.Plan
import Paging.QueryError
import Paging.Request.Basic
import Paging.Request.Reader
import Paging.Response
import Paging.Session
import Paging.Sort
import Paging.Sql.Compile
import Paging.Sql.Condition
import Paging.Sql.Statement
import Paging.Sql.Store
import Paging.Sql.Value
import Paging.Store
import Paging.Table
import Paging.Text.Blank
import Paging.Text.Form
import Paging.Text.Hex
import Paging.Text.Letters
import Paging.Text.Pieces
import Paging.Text.Utf8
import Paging.Window
import Paging.Proofs.Keyed
import Paging.Proofs.Tables
import Paging.Proofs.Grouping
import Paging.Proofs.Units
import Paging.Proofs.TopKeys
import Paging.Proofs.Truth
import Paging.Proofs.FlatFilters
import Paging.Proofs.Flattening
import Paging.Proofs.Meaning
import Paging.Proofs.Silence
import Paging.Proofs.FormText
import Paging.Proofs.JsonStrings
import Paging.Proofs.Navigation
import Paging.Proofs.LinkTargets
import Paging.Proofs.Windows
import Paging.Proofs.Walks
import Paging.Proofs.Tiling
import Paging.Proofs.Faults
import Paging.Proofs.Malformed
import Paging.Proofs.Partition
import Paging.Proofs.CombinedGroups
import Paging.Proofs.TokenGrammar
import Paging.Proofs.WhereObjects
import Paging.Proofs.Operands
import Paging.Proofs.Columns
import Paging.Proofs.PlanStages
import Paging.Proofs.PlannedColumns
import Paging.Proofs.Placeholders
import Paging.Proofs.BoundNumbers
import Paging.Proofs.JsonTexts
import Paging.Proofs.TokenLists
import Paging.Proofs.RequestTexts
import Paging.Proofs.Acceptance
import Paging.Proofs.PlanLayers
import Paging.Proofs.SortTokens
import Paging.Proofs.Validity
import Paging.Proofs.Orders
import Paging.Proofs.LinkTexts
import Paging.Proofs.Copies
import Paging.Proofs.Invariance
import Paging.Proofs.Histories
import Paging.Proofs.Paths
import Paging.Proofs.Projections
import Paging.Proofs.DecimalTexts
