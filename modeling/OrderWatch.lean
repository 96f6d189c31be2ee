import OrderWatch.Power
import OrderWatch.Text.Digits
import OrderWatch.Text.Blank
import OrderWatch.Decimal
import OrderWatch.Decimal.Sum
import OrderWatch.Decimal.Quotient
import OrderWatch.Decimal.Text
import OrderWatch.Floating
import OrderWatch.Time.Calendar
import OrderWatch.Time.Moment
import OrderWatch.Time.Rfc3339
import OrderWatch.Time.Clock
import OrderWatch.Json
import OrderWatch.Json.Number
import OrderWatch.Json.Reader
import OrderWatch.Json.Writer
import OrderWatch.Json.Decoder
import OrderWatch.Text.Word
import OrderWatch.Order.Status
import OrderWatch.Order.Terms
import OrderWatch.Order.Update
import OrderWatch.Order
import OrderWatch.Event
import OrderWatch.Event.Emission
import OrderWatch.Order.Codec
import OrderWatch.Event.Codec
import OrderWatch.Cache.Chain
import OrderWatch.Cache
import OrderWatch.Book
import OrderWatch.Journal
import OrderWatch.Tracker.Verdict
import OrderWatch.Tracker
import OrderWatch.Bus
import OrderWatch.Desk
import OrderWatch.Address
import OrderWatch.Settings
import OrderWatch.Yaml.Cursor
import OrderWatch.Yaml.Scalar
import OrderWatch.Yaml.Tag
import OrderWatch.Yaml.Token
import OrderWatch.Yaml.Lexer
import OrderWatch.Yaml.Node
import OrderWatch.Yaml.Schema
import OrderWatch.Yaml.Value
import OrderWatch.Yaml.Readable
import OrderWatch.Settings.Placeholder
import OrderWatch.Settings.Load
import OrderWatch.Tracker.Codec
import OrderWatch.Replay
import OrderWatch.Main
import OrderWatch.Proofs.Cache.Slots
import OrderWatch.Proofs.Cache.Ages
import OrderWatch.Proofs.Cache.Pile
import OrderWatch.Proofs.Cache.Steps
import OrderWatch.Proofs.Cache.Refinement
import OrderWatch.Proofs.Cache.Kept
import OrderWatch.Proofs.Book
import OrderWatch.Proofs.Decimal.Sum
import OrderWatch.Proofs.Order.Steps
import OrderWatch.Proofs.Order.Life
import OrderWatch.Proofs.Order.Response
import OrderWatch.Proofs.Desk.Run
import OrderWatch.Proofs.Desk.Records
import OrderWatch.Proofs.Desk.Closing
import OrderWatch.Proofs.Order.Accounts
import OrderWatch.Proofs.Cache.Loss
import OrderWatch.Proofs.Book.Loss
import OrderWatch.Proofs.Order.Seen
import OrderWatch.Proofs.Desk.Loss
import OrderWatch.Proofs.Desk.Expiry
import OrderWatch.Proofs.Desk.Redelivery
import OrderWatch.Proofs.Decimal.Rounding
import OrderWatch.Proofs.Decimal.Exact
import OrderWatch.Proofs.Order.Growth
import OrderWatch.Proofs.Order.Breakage
import OrderWatch.Proofs.Order.Filling
import OrderWatch.Proofs.Desk.Delivery
import OrderWatch.Proofs.Desk.Fills
import OrderWatch.Proofs.Cache.Layout
import OrderWatch.Proofs.Order.Progress
import OrderWatch.Proofs.Order.Channels
import OrderWatch.Proofs.Cache.Instant
import OrderWatch.Proofs.Cache.Living
import OrderWatch.Proofs.Book.Places
import OrderWatch.Proofs.Book.Simulation
import OrderWatch.Proofs.Desk.Simulation
import OrderWatch.Proofs.Desk.Sweeping
import OrderWatch.Proofs.Desk.Activity
import OrderWatch.Proofs.Desk.Retirement
import OrderWatch.Proofs.Order.Ends
import OrderWatch.Proofs.Desk.Policies
import OrderWatch.Proofs.Desk.Completions
import OrderWatch.Proofs.Desk.Latest
import OrderWatch.Proofs.Desk.Deeds
import OrderWatch.Proofs.Desk.Lapsing
import OrderWatch.Proofs.Desk.Commuting
import OrderWatch.Proofs.Bus
import OrderWatch.Proofs.Desk.Publication
import OrderWatch.Proofs.Replay
import OrderWatch.Proofs.Order.Outstanding
import OrderWatch.Proofs.Desk.Callbacks
import OrderWatch.Proofs.Desk.Ledger
import OrderWatch.Proofs.Cache.Stored
import OrderWatch.Proofs.Desk.Evictions
import OrderWatch.Proofs.Text.Digits
import OrderWatch.Proofs.Json.Reading
import OrderWatch.Proofs.Decimal.Text
import OrderWatch.Proofs.Time.Calendar
import OrderWatch.Proofs.Time.Rfc3339
import OrderWatch.Proofs.Json.Records
import OrderWatch.Proofs.Order.Codec
import OrderWatch.Proofs.Event.Codec
import OrderWatch.Proofs.Order.Restoring
import OrderWatch.Proofs.Cache.History
import OrderWatch.Proofs.Cache.Retention
import OrderWatch.Proofs.Book.Frame
import OrderWatch.Proofs.Desk.Frame
import OrderWatch.Proofs.Desk.Lifecycle
import OrderWatch.Proofs.Desk.Readback
import OrderWatch.Proofs.Desk.Naming
import OrderWatch.Proofs.Cache.Tally
import OrderWatch.Proofs.Desk.Gauges
import OrderWatch.Proofs.Settings.Placeholder
import OrderWatch.Proofs.Settings.Load
import OrderWatch.Proofs.Decimal.Quotient
import OrderWatch.Proofs.Decimal.Value
import OrderWatch.Proofs.Order.Average
import OrderWatch.Proofs.Time.Clock
import OrderWatch.Proofs.Desk.Timing
