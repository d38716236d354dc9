import AckerDB.Lib.Base64
import AckerDB.Lib.Kleene
import AckerDB.Core.Value
import AckerDB.Lib.Except
import AckerDB.Core.Wire
import AckerDB.Core.Bytes
import AckerDB.Database.Keys
import AckerDB.Database.Query.Dependencies
import AckerDB.Database.Access
import AckerDB.Database.Query.Reactivity
import AckerDB.Core.Result
import AckerDB.Core.Protocol
import AckerDB.Lib.Run
import AckerDB.Shared.Errors
import AckerDB.Subscriptions.Publication
import AckerDB.Subscriptions.Reactive.History
import AckerDB.Subscriptions.Reactive.Entry
import AckerDB.Subscriptions.Reactive.Ordered
import AckerDB.Subscriptions.Reactive.Freshness
import AckerDB.Subscriptions.Reactive.Staleness
import AckerDB.Database.MutationReplay
import AckerDB.Lib.Turn
import AckerDB.Runtime.Coordinator
import AckerDB.Runtime.Gate
import AckerDB.Runtime.WriterTurn
import AckerDB.Runtime.Atomicity
import AckerDB.Runtime.AtMostOnce
import AckerDB.Core.Frames
import AckerDB.Runtime.Answers
import AckerDB.Subscriptions.Reactive.Changes
import AckerDB.Subscriptions.Reactive.Legality
import AckerDB.Lib.Registry
import AckerDB.Subscriptions.Reactive.Bookkeeping
import AckerDB.Subscriptions.Reactive.Chaining
import AckerDB.Lib.DoublyLinked
import AckerDB.Subscriptions.Reactive.Window
import AckerDB.Subscriptions.Reactive.Ring
import AckerDB.Subscriptions.Reactive.Pacing
import AckerDB.Subscriptions.Reactive.Replay
import AckerDB.Subscriptions.Ordering
import AckerDB.Subscriptions.Progress
import AckerDB.Subscriptions.Settlement
import AckerDB.Subscriptions.Reactive.Coverage
import AckerDB.Lib.BinaryHeap
import AckerDB.Runtime.Admission
import AckerDB.Runtime.Conservation
import AckerDB.Runtime.Expiry
import AckerDB.Core.Canonical
import AckerDB.Lib.RowTable
import AckerDB.Subscriptions.Reactive.Identity
import AckerDB.Subscriptions.Reactive.DependencyIndex
import AckerDB.Database.ReplayRecovery
import AckerDB.Runtime.MutationScope
import AckerDB.Runtime.Nesting
import AckerDB.Database.Query.Filter
import AckerDB.Database.Query.Cursor
import AckerDB.Database.Query.Pagination
import AckerDB.Runtime.Jobs.Journal
import AckerDB.Runtime.Jobs.Transitions
import AckerDB.Runtime.Jobs.Machine
import AckerDB.Runtime.Jobs.Lifecycle
import AckerDB.Runtime.Jobs.Inversion
import AckerDB.Runtime.Jobs.Structure
import AckerDB.App.Invocation
import AckerDB.Auth.CredentialVault
import AckerDB.Runtime.Jobs.Recurrence
import AckerDB.Runtime.Jobs.Cron
import AckerDB.Runtime.Jobs.Retention
import AckerDB.Auth.Delegation
import AckerDB.Auth.Verification
import AckerDB.Auth.Lineage
import AckerDB.Auth.Leases
import AckerDB.Realtime.Hub
