import HighVolumeBooking.Common.Date
import HighVolumeBooking.Common.ErrorCode
import HighVolumeBooking.Common.Json
import HighVolumeBooking.Machine.Run
import HighVolumeBooking.ReadCommitted.Discipline
import HighVolumeBooking.ReadCommitted.LockOrder
import HighVolumeBooking.ReadCommitted.Serializable
import HighVolumeBooking.Domain.Concert
import HighVolumeBooking.Domain.Outbox
import HighVolumeBooking.Domain.Point
import HighVolumeBooking.Infrastructure.Schema
import HighVolumeBooking.Application.UseCase
import HighVolumeBooking.Application.Locking
import HighVolumeBooking.ReadCommitted.Execution
import HighVolumeBooking.Application.Execution
import HighVolumeBooking.Guarantees.Serializability
import HighVolumeBooking.Guarantees.Sales
import HighVolumeBooking.Guarantees.Records
import HighVolumeBooking.Guarantees.Window
import HighVolumeBooking.Guarantees.Points
import HighVolumeBooking.Guarantees.Holds
import HighVolumeBooking.Guarantees.Holder
import HighVolumeBooking.Guarantees.Payable
import HighVolumeBooking.Application.Outbox
import HighVolumeBooking.Guarantees.Outbox
import HighVolumeBooking.Interleaving.Pool
import HighVolumeBooking.Common.JsonParse
import HighVolumeBooking.Application.DataPlatform
import HighVolumeBooking.Guarantees.DataPlatform
import HighVolumeBooking.Guarantees.HandOver
import HighVolumeBooking.Interleaving.Solo
import HighVolumeBooking.Guarantees.Delivered
import HighVolumeBooking.Redis.SortedSet
import HighVolumeBooking.Redis.Store
import HighVolumeBooking.Application.TokenQueue
import HighVolumeBooking.Guarantees.TokenQueue
import HighVolumeBooking.Guarantees.TokenServer
import HighVolumeBooking.Guarantees.Admission
import HighVolumeBooking.Guarantees.Entries
import HighVolumeBooking.Guarantees.Activation
import HighVolumeBooking.Guarantees.Revocation
import HighVolumeBooking.Guarantees.Usable
import HighVolumeBooking.Queueing.Line
import HighVolumeBooking.Guarantees.Fifo
import HighVolumeBooking.Application.Listing
import HighVolumeBooking.Guarantees.Listing
import HighVolumeBooking.Guarantees.Transparency
import HighVolumeBooking.Common.LocalTime
import HighVolumeBooking.Guarantees.Deadlines
import HighVolumeBooking.Interface.Response
import HighVolumeBooking.Guarantees.Position
import HighVolumeBooking.Interleaving.Waiting
import HighVolumeBooking.Guarantees.Coherence
import HighVolumeBooking.Common.JsValue
import HighVolumeBooking.Application.Transport
import HighVolumeBooking.Guarantees.Encoding
import HighVolumeBooking.Guarantees.Rendering
import HighVolumeBooking.Application.UserQueue
import HighVolumeBooking.Guarantees.Ranks
import HighVolumeBooking.Guarantees.Overtaking
import HighVolumeBooking.Guarantees.Estimates
import HighVolumeBooking.Guarantees.PaymentWindow
import HighVolumeBooking.Guarantees.LiveQueues
import HighVolumeBooking.Guarantees.LoneRequests
import HighVolumeBooking.Guarantees.Progress
import HighVolumeBooking.Guarantees.EndToEnd
import HighVolumeBooking.Guarantees.BoxOffice
import HighVolumeBooking.Guarantees.History
import HighVolumeBooking.Guarantees.Gateway
import HighVolumeBooking.Guarantees.Throttle
import HighVolumeBooking.Guarantees.QueueOrder
import HighVolumeBooking.Guarantees.Rivals
import HighVolumeBooking.Guarantees.Conflicts
import HighVolumeBooking.ReadCommitted.Explained
import HighVolumeBooking.Guarantees.Errors
import HighVolumeBooking.Guarantees.Backlog
import HighVolumeBooking.Guarantees.Buyers
import HighVolumeBooking.Interleaving.RelyGuarantee
import HighVolumeBooking.Guarantees.Snapshots
import HighVolumeBooking.Guarantees.Turns
import HighVolumeBooking.Guarantees.QueueThrottle
