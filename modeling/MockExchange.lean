import MockExchange.Lib.ByteMemory
import MockExchange.Lib.Tiling
import MockExchange.Lib.Transition
import MockExchange.Lib.ListUpdate
import MockExchange.PackedWord
import MockExchange.Layout
import MockExchange.Queue
import MockExchange.Invariant
import MockExchange.WriterSteps
import MockExchange.ReaderSteps
import MockExchange.ReleaseSteps
import MockExchange.StepCases
import MockExchange.Soundness
import MockExchange.LowWatermark
import MockExchange.Roster
import MockExchange.CasLoops
import MockExchange.Delivery
import MockExchange.Leave
import MockExchange.Uniform
import MockExchange.SplitPoll
import MockExchange.Operations
import MockExchange.Fifo
import MockExchange.Aborts
import MockExchange.JoinOrder
import MockExchange.CompleteDelivery
import MockExchange.Clearing
import MockExchange.FreeBytes
import MockExchange.Service
import MockExchange.Wraparound
import MockExchange.Backpressure
import MockExchange.Reservations
import MockExchange.FieldWidths
import MockExchange.HeaderProbe
import MockExchange.Publication
import MockExchange.Book
import MockExchange.Ledger
import MockExchange.Startup
import MockExchange.Closing
import MockExchange.ClaimBuffer
import MockExchange.ClaimRounds
import MockExchange.ClaimCompletion
import MockExchange.ClaimBatches
import MockExchange.WriteFrame
import MockExchange.Framing
import MockExchange.ReaderWrapper
import MockExchange.Subscription
import MockExchange.EraseOrder
import MockExchange.PublishOrder
import MockExchange.OrderEntry
import MockExchange.Handlers
import MockExchange.AbandonedClaims
import MockExchange.BroadcastRefinement
import MockExchange.PollBuffer
import MockExchange.ReadBuffer
import MockExchange.HeldMessage
import MockExchange.SubscriptionRuns
import MockExchange.CancelRuns
import MockExchange.AdminMessages
import MockExchange.Handles
import MockExchange.HandleAccounts
import MockExchange.UnlinkedFiles
import MockExchange.SpinPolicy
import MockExchange.AdminChannel
import MockExchange.AgentLifecycle
