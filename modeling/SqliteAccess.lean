import SqliteAccess.Access.Database
import SqliteAccess.Access.Lock
import SqliteAccess.Access.Manager
import SqliteAccess.Access.Mode
import SqliteAccess.Config.Duration
import SqliteAccess.Config.Location
import SqliteAccess.Config.PoolSettings
import SqliteAccess.Decimal.Binary
import SqliteAccess.Decimal.Fixed
import SqliteAccess.Decimal.Layout
import SqliteAccess.Decimal.Reader
import SqliteAccess.Decimal.Shortest
import SqliteAccess.Demo.Library
import SqliteAccess.Engine.Opener
import SqliteAccess.Engine.Scripted
import SqliteAccess.Failure
import SqliteAccess.Keyed
import SqliteAccess.Log.Correlation
import SqliteAccess.Log.Program
import SqliteAccess.Log.Record
import SqliteAccess.Log.Redaction
import SqliteAccess.Log.Timing
import SqliteAccess.Loop.Building
import SqliteAccess.Loop.Cancel
import SqliteAccess.Loop.Demonstrating
import SqliteAccess.Loop.Machine
import SqliteAccess.Loop.Managing
import SqliteAccess.Loop.Opening
import SqliteAccess.Loop.Pooling
import SqliteAccess.Loop.Procedure
import SqliteAccess.Loop.State
import SqliteAccess.Number
import SqliteAccess.Pool.Connection
import SqliteAccess.Pool.State
import SqliteAccess.Proofs.Access.Balance
import SqliteAccess.Proofs.Access.Chain
import SqliteAccess.Proofs.Access.ChainsKept
import SqliteAccess.Proofs.Access.Desk
import SqliteAccess.Proofs.Access.Flight
import SqliteAccess.Proofs.Access.Ground
import SqliteAccess.Proofs.Access.Guard
import SqliteAccess.Proofs.Access.Guarded
import SqliteAccess.Proofs.Access.Leases
import SqliteAccess.Proofs.Access.Lending
import SqliteAccess.Proofs.Access.Lent
import SqliteAccess.Proofs.Access.Loans
import SqliteAccess.Proofs.Access.LockPlaces
import SqliteAccess.Proofs.Access.LockSteps
import SqliteAccess.Proofs.Access.LoopSteps
import SqliteAccess.Proofs.Access.Manage
import SqliteAccess.Proofs.Access.Managed
import SqliteAccess.Proofs.Access.ManagerSteps
import SqliteAccess.Proofs.Access.Mutex
import SqliteAccess.Proofs.Access.Outer
import SqliteAccess.Proofs.Access.Points
import SqliteAccess.Proofs.Access.PoolSteps
import SqliteAccess.Proofs.Access.PooledSteps
import SqliteAccess.Proofs.Access.Returning
import SqliteAccess.Proofs.Access.Settling
import SqliteAccess.Proofs.Access.Sharing
import SqliteAccess.Proofs.Batch.Alone
import SqliteAccess.Proofs.Batch.Aloof
import SqliteAccess.Proofs.Batch.Borrowing
import SqliteAccess.Proofs.Batch.Exclusive
import SqliteAccess.Proofs.Batch.Hearing
import SqliteAccess.Proofs.Batch.Owners
import SqliteAccess.Proofs.Batch.Standing
import SqliteAccess.Proofs.Config.Settings
import SqliteAccess.Proofs.Demo.Ending
import SqliteAccess.Proofs.Life.Accounts
import SqliteAccess.Proofs.Life.Adrift
import SqliteAccess.Proofs.Life.Circle
import SqliteAccess.Proofs.Life.Closings
import SqliteAccess.Proofs.Life.Course
import SqliteAccess.Proofs.Life.Crossing
import SqliteAccess.Proofs.Life.Cycles
import SqliteAccess.Proofs.Life.Governing
import SqliteAccess.Proofs.Life.Handover
import SqliteAccess.Proofs.Life.Openings
import SqliteAccess.Proofs.Life.OrdinarySteps
import SqliteAccess.Proofs.Life.Prepared
import SqliteAccess.Proofs.Life.SettingUp
import SqliteAccess.Proofs.Life.ShuttingDown
import SqliteAccess.Proofs.Life.Singles
import SqliteAccess.Proofs.Life.Unmoved
import SqliteAccess.Proofs.Log.Attribution
import SqliteAccess.Proofs.Log.Calls
import SqliteAccess.Proofs.Log.Discretion
import SqliteAccess.Proofs.Log.Housekeeping
import SqliteAccess.Proofs.Log.Scopes
import SqliteAccess.Proofs.Loop.Act
import SqliteAccess.Proofs.Loop.Change
import SqliteAccess.Proofs.Loop.Nudge
import SqliteAccess.Proofs.Loop.Perform
import SqliteAccess.Proofs.Loop.Weight
import SqliteAccess.Proofs.Pool.Asleep
import SqliteAccess.Proofs.Pool.Attentive
import SqliteAccess.Proofs.Pool.Biding
import SqliteAccess.Proofs.Pool.Closable
import SqliteAccess.Proofs.Pool.Closing
import SqliteAccess.Proofs.Pool.Connections
import SqliteAccess.Proofs.Pool.Counters
import SqliteAccess.Proofs.Pool.Custody
import SqliteAccess.Proofs.Pool.Drain
import SqliteAccess.Proofs.Pool.Eviction
import SqliteAccess.Proofs.Pool.Expiry
import SqliteAccess.Proofs.Pool.Handles
import SqliteAccess.Proofs.Pool.Kept
import SqliteAccess.Proofs.Pool.Line
import SqliteAccess.Proofs.Pool.Move
import SqliteAccess.Proofs.Pool.Operations
import SqliteAccess.Proofs.Pool.Ownership
import SqliteAccess.Proofs.Pool.Releases
import SqliteAccess.Proofs.Pool.Removal
import SqliteAccess.Proofs.Pool.Retries
import SqliteAccess.Proofs.Pool.Rounds
import SqliteAccess.Proofs.Pool.Roused
import SqliteAccess.Proofs.Pool.Rousing
import SqliteAccess.Proofs.Pool.Run
import SqliteAccess.Proofs.Pool.Shutting
import SqliteAccess.Proofs.Pool.Sizes
import SqliteAccess.Proofs.Pool.Sound
import SqliteAccess.Proofs.Pool.Staff
import SqliteAccess.Proofs.Pool.Stroke
import SqliteAccess.Proofs.Pool.Sweep
import SqliteAccess.Proofs.Pool.Wakeups
import SqliteAccess.Proofs.Pool.Winding
import SqliteAccess.Proofs.Schema.Applying
import SqliteAccess.Proofs.Schema.Arrangement
import SqliteAccess.Proofs.Schema.Creation
import SqliteAccess.Proofs.Schema.Indexes
import SqliteAccess.Proofs.Schema.Keys
import SqliteAccess.Proofs.Schema.Placement
import SqliteAccess.Proofs.Sql.Flavours
import SqliteAccess.Proofs.Sql.Insert
import SqliteAccess.Proofs.Sql.Lexeme
import SqliteAccess.Proofs.Sql.Naming
import SqliteAccess.Proofs.Sql.Placeholders
import SqliteAccess.Proofs.Sql.Reading
import SqliteAccess.Proofs.Sql.Selecting
import SqliteAccess.Proofs.Sql.Union
import SqliteAccess.Proofs.Tenure.Closed
import SqliteAccess.Proofs.Tenure.LateRelease
import SqliteAccess.Schema.Blueprint
import SqliteAccess.Schema.Call
import SqliteAccess.Schema.Column
import SqliteAccess.Schema.Command
import SqliteAccess.Schema.Definition
import SqliteAccess.Session.Basic
import SqliteAccess.Session.Demo
import SqliteAccess.Session.Manager
import SqliteAccess.Session.Pool
import SqliteAccess.Sql.Dialect
import SqliteAccess.Sql.Identifier
import SqliteAccess.Sql.Query
import SqliteAccess.Sql.Statement
import SqliteAccess.Text.Blank
import SqliteAccess.Text.Digit
import SqliteAccess.Text.Hexadecimal
import SqliteAccess.Text.Interval
import SqliteAccess.Text.Lowercase
import SqliteAccess.Text.Lowercase.Table
import SqliteAccess.Text.Printable
import SqliteAccess.Text.Quoted
import SqliteAccess.Value
