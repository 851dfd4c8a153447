import SqlDialect.Catalog.Basic
import SqlDialect.Catalog.Step
import SqlDialect.Cli.Command
import SqlDialect.Cli.Environment
import SqlDialect.Cli.Flag
import SqlDialect.Cli.Perform
import SqlDialect.Cli.Run
import SqlDialect.Config.Basic
import SqlDialect.Config.File
import SqlDialect.Conversion.Converter
import SqlDialect.Conversion.Cache
import SqlDialect.Conversion.Memo
import SqlDialect.Conversion.Rule
import SqlDialect.Conversion.SessionPool
import SqlDialect.Identifier.Bare
import SqlDialect.Identifier.Basic
import SqlDialect.Identifier.Reserved
import SqlDialect.Job
import SqlDialect.Journal.Basic
import SqlDialect.Journal.Database
import SqlDialect.Journal.Location
import SqlDialect.Journal.Print
import SqlDialect.Journal.RowFile
import SqlDialect.Journal.Step
import SqlDialect.Journal.Store
import SqlDialect.Literal
import SqlDialect.Log.Basic
import SqlDialect.Log.Line
import SqlDialect.Main
import SqlDialect.Net.HostPort
import SqlDialect.Net.Ip
import SqlDialect.Number.Binary
import SqlDialect.Pattern.Basic
import SqlDialect.Pattern.CharSet
import SqlDialect.Pattern.Lemmas
import SqlDialect.Pattern.Search
import SqlDialect.Query.Call
import SqlDialect.Query.Count
import SqlDialect.Query.FoundRows
import SqlDialect.Query.Limit
import SqlDialect.Query.Operator
import SqlDialect.Query.Order
import SqlDialect.Query.ShowTables
import SqlDialect.Query.Upsert
import SqlDialect.Query.ZeroDate
import SqlDialect.Schema.Order
import SqlDialect.Schema.Report
import SqlDialect.Script.Replay
import SqlDialect.Script.Split
import SqlDialect.Script.Stream
import SqlDialect.Secure.Certificate
import SqlDialect.Secure.Curve
import SqlDialect.Secure.Der
import SqlDialect.Secure.KeyPair
import SqlDialect.Secure.Pem
import SqlDialect.Source.Dsn
import SqlDialect.Source.Server
import SqlDialect.Statement.Clause
import SqlDialect.Statement.Insert
import SqlDialect.Statement.Kind
import SqlDialect.Table.Alter
import SqlDialect.Table.Column
import SqlDialect.Table.ColumnType
import SqlDialect.Table.Create
import SqlDialect.Table.Definition
import SqlDialect.Table.Index
import SqlDialect.Target.Address
import SqlDialect.Target.Encryption
import SqlDialect.Target.Schema
import SqlDialect.Target.Seed
import SqlDialect.Target.Server
import SqlDialect.Target.Service
import SqlDialect.Target.Setting
import SqlDialect.Target.Url
import SqlDialect.Text.Bytes
import SqlDialect.Text.Case
import SqlDialect.Text.CaseTable
import SqlDialect.Text.Distance
import SqlDialect.Text.FileTree
import SqlDialect.Text.Named
import SqlDialect.Text.Numeral
import SqlDialect.Text.Path
import SqlDialect.Text.Percent
import SqlDialect.Text.PrintTable
import SqlDialect.Text.Quoted
import SqlDialect.Text.Space
import SqlDialect.Text.Utf8
import SqlDialect.Time.Calendar
import SqlDialect.Time.Duration
import SqlDialect.Time.Instant
import SqlDialect.Time.ZoneNames
import SqlDialect.Toml.Document
import SqlDialect.Toml.Grammar
import SqlDialect.Toml.Number
import SqlDialect.Toml.Text
import SqlDialect.Version
import SqlDialect.Proofs.Text.Bytes
import SqlDialect.Proofs.Text.Glyphs
import SqlDialect.Proofs.Text.Words
import SqlDialect.Proofs.Pattern.Semantics
import SqlDialect.Proofs.Pattern.Keyword
import SqlDialect.Proofs.Pattern.Ends
import SqlDialect.Proofs.Pattern.Preference
import SqlDialect.Proofs.Identifier.Names
import SqlDialect.Proofs.Identifier.Bare
import SqlDialect.Proofs.Literal.RoundTrip
import SqlDialect.Proofs.Literal.Separate
import SqlDialect.Proofs.Literal.Stray
import SqlDialect.Proofs.Statement.InsertHead
import SqlDialect.Proofs.Statement.InsertRead
import SqlDialect.Proofs.Statement.Cut
import SqlDialect.Proofs.Statement.Kept
import SqlDialect.Proofs.Conversion.Literals
import SqlDialect.Proofs.Conversion.Catalog
import SqlDialect.Proofs.Conversion.Rule
import SqlDialect.Proofs.Conversion.Memo
import SqlDialect.Proofs.Conversion.Sessions
import SqlDialect.Proofs.Conversion.Keys
import SqlDialect.Proofs.Query.Upsert
import SqlDialect.Proofs.Query.Settled
import SqlDialect.Proofs.Conversion.Faults
import SqlDialect.Proofs.Script.Split
import SqlDialect.Proofs.Script.Replay
import SqlDialect.Proofs.Pattern.Context
import SqlDialect.Proofs.Pattern.Spelling
import SqlDialect.Proofs.Statement.Numbering
import SqlDialect.Proofs.Statement.Comments
import SqlDialect.Proofs.Statement.SelectHead
import SqlDialect.Proofs.Query.Count
import SqlDialect.Proofs.Conversion.Remembered
import SqlDialect.Proofs.Identifier.Reading
import SqlDialect.Proofs.Table.IndexNames
import SqlDialect.Proofs.Conversion.IndexNames
import SqlDialect.Proofs.Pattern.Complete
import SqlDialect.Proofs.Conversion.Untouched
import SqlDialect.Proofs.Pattern.Phrase
import SqlDialect.Proofs.Text.OneLine
import SqlDialect.Proofs.Table.Options
import SqlDialect.Proofs.Conversion.Report
import SqlDialect.Proofs.Table.Items
import SqlDialect.Proofs.Identifier.TableName
import SqlDialect.Proofs.Identifier.Segments
import SqlDialect.Proofs.Conversion.TableNames
import SqlDialect.Proofs.Table.KeyLists
import SqlDialect.Proofs.Table.Backing
import SqlDialect.Proofs.Conversion.Backing
import SqlDialect.Proofs.Time.Calendar
import SqlDialect.Proofs.Time.Timestamp
import SqlDialect.Proofs.Journal.Log
import SqlDialect.Proofs.Statement.Nesting
import SqlDialect.Proofs.Query.Nesting
import SqlDialect.Proofs.Query.Marks
import SqlDialect.Proofs.Conversion.Nesting
import SqlDialect.Proofs.Conversion.QuotedNames
import SqlDialect.Proofs.Schema.Report
import SqlDialect.Proofs.Table.KeyClauses
import SqlDialect.Proofs.Table.Conservation
import SqlDialect.Proofs.Table.Specifications
import SqlDialect.Proofs.Table.Body
import SqlDialect.Proofs.Table.WrittenColumn
import SqlDialect.Proofs.Table.ReadColumn
import SqlDialect.Proofs.Conversion.Columns
import SqlDialect.Proofs.Literal.Requoted
import SqlDialect.Proofs.Query.LimitClause
import SqlDialect.Proofs.Query.Parameters
import SqlDialect.Proofs.Text.Absent
import SqlDialect.Proofs.Query.Absent
import SqlDialect.Proofs.Identifier.Absent
import SqlDialect.Proofs.Statement.Ending
import SqlDialect.Proofs.Query.UpsertClauses
import SqlDialect.Proofs.Conversion.InsertClauses
import SqlDialect.Proofs.Schema.Order
import SqlDialect.Proofs.Catalog.Entry
import SqlDialect.Proofs.Catalog.Keys
import SqlDialect.Proofs.Pattern.Barrier
import SqlDialect.Proofs.Statement.TopLevel
import SqlDialect.Proofs.Checked.Access
import SqlDialect.Proofs.Checked.Catalog
import SqlDialect.Proofs.Checked.Clause
import SqlDialect.Proofs.Checked.Conversion
import SqlDialect.Proofs.Checked.Count
import SqlDialect.Proofs.Checked.Insert
import SqlDialect.Proofs.Checked.Kind
import SqlDialect.Proofs.Checked.Literal
import SqlDialect.Proofs.Checked.Match
import SqlDialect.Proofs.Checked.Name
import SqlDialect.Proofs.Checked.Query
import SqlDialect.Proofs.Checked.Table
import SqlDialect.Proofs.Query.WholeCount
import SqlDialect.Proofs.Query.CountGroup
import SqlDialect.Proofs.Query.CountStable
import SqlDialect.Proofs.Query.LikeWord
import SqlDialect.Proofs.Query.Casts
import SqlDialect.Proofs.Query.LikeClauses
import SqlDialect.Proofs.Conversion.LikeOperators
import SqlDialect.Proofs.Script.Quoted
import SqlDialect.Proofs.Statement.Partner
import SqlDialect.Proofs.Identifier.Requoted
