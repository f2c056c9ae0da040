import PreparedSql.ArrayPool
import PreparedSql.Main
import PreparedSql.Wire
import PreparedSql.Proofs.Boundaries
import PreparedSql.Proofs.Scanning
import PreparedSql.Proofs.Shape
import PreparedSql.Proofs.SharedCompiler
import PreparedSql.Proofs.Watching
import PreparedSql.Proofs.Handles
import PreparedSql.Proofs.Retrying
import PreparedSql.Proofs.SessionHistory
import PreparedSql.Proofs.FreshRuns
import PreparedSql.Proofs.Placeholders
import PreparedSql.Proofs.PlanHistory
import PreparedSql.Proofs.VectorSupport
import PreparedSql.Proofs.CanonicalText
import PreparedSql.Proofs.ArrayReuse
import PreparedSql.Proofs.StringLiterals
import PreparedSql.Proofs.TimestampTrips
import PreparedSql.Proofs.Refusals
import PreparedSql.Proofs.EscapeStrings
import PreparedSql.Proofs.Hydration
import PreparedSql.Proofs.RepeatedColumns
import PreparedSql.Proofs.NestedRecords
import PreparedSql.Proofs.ColumnOrder
import PreparedSql.Proofs.ColumnNames
import PreparedSql.Proofs.HashInput
import PreparedSql.Proofs.SimpleCells
import PreparedSql.Proofs.ArrayText
import PreparedSql.Proofs.PlainWords
import PreparedSql.Proofs.IntegerText
import PreparedSql.Proofs.BoundNames
import PreparedSql.Proofs.TimeLimits
import PreparedSql.Proofs.ConfigurationFiles
import PreparedSql.Proofs.DriverUrls
import PreparedSql.Proofs.Visiting
import PreparedSql.Proofs.RowCuts
