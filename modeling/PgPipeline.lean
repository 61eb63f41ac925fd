import PgPipeline.Arena
import PgPipeline.ArrayLiteral
import PgPipeline.Auth.Mechanism
import PgPipeline.Auth.PasswordDigest
import PgPipeline.Auth.Scram
import PgPipeline.Auth.Scram.Server
import PgPipeline.ByteQueue
import PgPipeline.Bytes
import PgPipeline.Calendar
import PgPipeline.Config
import PgPipeline.Config.Percent
import PgPipeline.Config.Properties
import PgPipeline.Config.Url
import PgPipeline.Connection
import PgPipeline.Connection.Dispatch
import PgPipeline.Connection.Ending
import PgPipeline.Connection.History
import PgPipeline.Connection.Request
import PgPipeline.Connection.Response
import PgPipeline.Connection.Sending
import PgPipeline.Connection.Startup
import PgPipeline.Digest.Keyed
import PgPipeline.Digest.Md5
import PgPipeline.Digest.Sha2
import PgPipeline.Digest.Word
import PgPipeline.Failure
import PgPipeline.Json
import PgPipeline.Json.Reader
import PgPipeline.Json.Token
import PgPipeline.KeyOrder
import PgPipeline.Loop
import PgPipeline.Loop.History
import PgPipeline.Number.Binary
import PgPipeline.Number.FloatText
import PgPipeline.Number.Integer
import PgPipeline.Number.Shortest
import PgPipeline.Oid
import PgPipeline.Proofs.Accounting
import PgPipeline.Proofs.Answer
import PgPipeline.Proofs.ChannelBinding
import PgPipeline.Proofs.Coverage
import PgPipeline.Proofs.Ending
import PgPipeline.Proofs.Exchange
import PgPipeline.Proofs.Frame
import PgPipeline.Proofs.Greeting
import PgPipeline.Proofs.Ledger
import PgPipeline.Proofs.Login
import PgPipeline.Proofs.Move
import PgPipeline.Proofs.Pipeline
import PgPipeline.Proofs.Record
import PgPipeline.Proofs.Sequencer
import PgPipeline.Proofs.Settling
import PgPipeline.Row
import PgPipeline.Sequencer
import PgPipeline.Socket
import PgPipeline.Statement.Batch
import PgPipeline.Statement.Cache
import PgPipeline.Statement.Parameters
import PgPipeline.Statement.Server
import PgPipeline.Submission
import PgPipeline.Text.Base64
import PgPipeline.Text.Blank
import PgPipeline.Text.Cut
import PgPipeline.Text.Hidden
import PgPipeline.Text.Quoted
import PgPipeline.Text.Utf8
import PgPipeline.Tls.Certificate
import PgPipeline.Tls.ServerName
import PgPipeline.Value
import PgPipeline.Value.Binary
import PgPipeline.Value.Conversion
import PgPipeline.Value.Numeric
import PgPipeline.Value.Writer
import PgPipeline.Wire.Backend
import PgPipeline.Wire.Backend.Writer
import PgPipeline.Wire.Field
import PgPipeline.Wire.Frame
import PgPipeline.Wire.Frontend
import PgPipeline.Wire.Frontend.Reader
import PgPipeline.Proofs.Cache
import PgPipeline.Proofs.Hearing
import PgPipeline.Proofs.Serving
import PgPipeline.Proofs.Agreement
import PgPipeline.Proofs.Handling
import PgPipeline.Proofs.Cancellation
import PgPipeline.Proofs.Delivery
import PgPipeline.Proofs.Description
import PgPipeline.Proofs.Tally
import PgPipeline.Proofs.Matching
import PgPipeline.Proofs.Attempts
import PgPipeline.Proofs.Retry
import PgPipeline.Proofs.Repetition
import PgPipeline.Proofs.Course
import PgPipeline.Proofs.Finality
import PgPipeline.Proofs.ByteQueue
import PgPipeline.Proofs.Outflow
import PgPipeline.Proofs.NameReuse
import PgPipeline.Proofs.Parting
import PgPipeline.Proofs.Utf8
import PgPipeline.Proofs.Framing
import PgPipeline.Proofs.BackendRoundTrip
import PgPipeline.Proofs.FrontendRoundTrip
import PgPipeline.Proofs.Passage
import PgPipeline.Proofs.Encryption
import PgPipeline.Proofs.ArrayRoundTrip
import PgPipeline.Proofs.StartupRoundTrip
import PgPipeline.Proofs.SendOrder
import PgPipeline.Proofs.Parameters
import PgPipeline.Proofs.Sending
import PgPipeline.Proofs.Handshake
import PgPipeline.ByteQueue.History
import PgPipeline.Proofs.Fifo
import PgPipeline.Arena.History
import PgPipeline.Proofs.Lending
import PgPipeline.Proofs.Recency
import PgPipeline.Proofs.ArrayGroups
import PgPipeline.Proofs.ArrayNesting
import PgPipeline.Proofs.RowEncoding
import PgPipeline.Proofs.Chronicle
import PgPipeline.Proofs.Turnover
import PgPipeline.Proofs.Waiting
import PgPipeline.Proofs.Isolation
import PgPipeline.Proofs.NumericText
import PgPipeline.Proofs.BinaryRoundTrip
import PgPipeline.Proofs.ArrayShape
import PgPipeline.Auth.Scram.History
import PgPipeline.Proofs.Signature
import PgPipeline.Proofs.Escapes
import PgPipeline.Proofs.UrlOptions
import PgPipeline.Proofs.Truncation
import PgPipeline.Proofs.Confinement
import PgPipeline.Proofs.Selection
import PgPipeline.Proofs.Digits
import PgPipeline.Proofs.DayNumbers
import PgPipeline.Proofs.CalendarText
import PgPipeline.Proofs.TimeOfDay
import PgPipeline.Proofs.CertificateFields
import PgPipeline.Proofs.EmptyArrays
import PgPipeline.Proofs.Draining
