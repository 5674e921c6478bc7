import Atlas.Lib.RowTable
import Atlas.Lib.Trace
import Atlas.Lib.Pointers
import Atlas.Lib.Endings
import Atlas.Lib.JsonText
import Atlas.Lib.JsonRoundTrip
import Atlas.Lib.Frontier
import Atlas.Lib.Lines
import Atlas.Lib.Chunks
import Atlas.Lib.Markers
import Atlas.Lib.RuleScript
import Atlas.Lib.RuleReading
import Atlas.Python
import Atlas.Toml
import Atlas.Persistence.SharedWrites
import Atlas.Persistence.WriteLedger
import Atlas.Memory.Rows
import Atlas.Memory.Durable
import Atlas.Memory.Explicit
import Atlas.Memory.Candidates
import Atlas.Memory.Lease
import Atlas.Memory.Publisher
import Atlas.Memory.Worker
import Atlas.Memory.Chats
import Atlas.Memory.Purge
import Atlas.Memory.Intake
import Atlas.Memory.Lifecycle
import Atlas.Memory.Decisions
import Atlas.Memory.System
import Atlas.Memory.Automaton
import Atlas.Memory.Settling
import Atlas.Memory.LeaseSteps
import Atlas.Memory.WorkerSteps
import Atlas.Memory.PublisherSteps
import Atlas.Memory.IntakeSteps
import Atlas.Memory.LifecycleSteps
import Atlas.Memory.DecisionSteps
import Atlas.Memory.Invariants
import Atlas.Memory.Fencing
import Atlas.Memory.Runs
import Atlas.Memory.Settlement
import Atlas.Memory.Transitions
import Atlas.Memory.Publications
import Atlas.Memory.Confirmation
import Atlas.Memory.Interleavings
import Atlas.Memory.Commands
import Atlas.Memory.Records
import Atlas.Memory.Bodies
import Atlas.Memory.GraphSteps
import Atlas.Memory.PublisherWrites
import Atlas.Memory.RecordSteps
import Atlas.Memory.DurableRows
import Atlas.Memory.PublisherFrame
import Atlas.Memory.PurgeSteps
import Atlas.Memory.Closure
import Atlas.Memory.Lineage
import Atlas.Memory.Anchors
import Atlas.Memory.Tombstones
import Atlas.Memory.LedgerSteps
import Atlas.Memory.LedgerCommands
import Atlas.Memory.Ledger
import Atlas.Memory.DerivativeSteps
import Atlas.Memory.DerivativeCommands
import Atlas.Memory.ChatErasure
import Atlas.Memory.Frozen
import Atlas.Memory.EvidenceSets
import Atlas.Memory.Reconcilable
import Atlas.Memory.EvidenceIndex
import Atlas.Memory.EvidenceUnique
import Atlas.Memory.ConflictRows
import Atlas.Memory.ReviewTokens
import Atlas.Memory.Conflicts
import Atlas.Memory.ChronicleSteps
import Atlas.Memory.Chronicle
import Atlas.Memory.Discovery
import Atlas.Memory.Sweeps
import Atlas.Actions.Rows
import Atlas.Actions.Authority
import Atlas.Actions.Recovery
import Atlas.Actions.Machine
import Atlas.Actions.AuthoritySteps
import Atlas.Actions.Attention
import Atlas.Actions.RunStatus
import Atlas.Actions.Doubts
import Atlas.Runtime.TaskState
import Atlas.Actions.Inference
import Atlas.Providers.Envelope
import Atlas.Runtime.Evidence
import Atlas.Lib.Windows
import Atlas.Memory.Guards
import Atlas.Runtime.Conversation
import Atlas.Runtime.WorkingContext
import Atlas.Runtime.VisibleHandles
import Atlas.Providers.ToolLoop
import Atlas.Providers.ToolLoopRuns
import Atlas.Providers.ToolRounds
import Atlas.Runtime.ManagedTasks
import Atlas.Runtime.OneInference
import Atlas.Runtime.ClaimProgress
import Atlas.Lib.Packing
import Atlas.Lib.Pages
import Atlas.Lib.Newest
import Atlas.Runtime.RunEvents
import Atlas.Runtime.EventStream
import Atlas.Runtime.TaskContract
import Atlas.Runtime.RuntimeFields
import Atlas.Runtime.PendingActions
import Atlas.Runtime.Completion
import Atlas.Runtime.RetryBudget
import Atlas.Notifications.Rows
import Atlas.Notifications.Threads
import Atlas.Notifications.OneOpen
import Atlas.Notifications.Bridge
import Atlas.Notifications.ThreadKeys
import Atlas.Lib.Numerals
import Atlas.Notifications.Hook
import Atlas.Notifications.Moves
import Atlas.Notifications.Awareness
import Atlas.Actions.Occurrences
import Atlas.Schedules.Filters
import Atlas.Schedules.Service
import Atlas.Schedules.Runner
import Atlas.Schedules.Watch
import Atlas.Schedules.RunnerSteps
import Atlas.Schedules.WakeOnce
import Atlas.Schedules.NoLostWake
import Atlas.Schedules.DuePoll
import Atlas.Schedules.Starvation
import Atlas.Schedules.Acknowledged
import Atlas.Schedules.Redaction
import Atlas.Schedules.FilterRoundTrip
import Atlas.Monitors.UnitAlarms
import Atlas.Monitors.AuthAlarm
import Atlas.Lib.Dialogue
import Atlas.Coding.Host
import Atlas.Coding.Server
import Atlas.Coding.Sessions
import Atlas.Coding.Workers
import Atlas.Coding.ToolSteps
import Atlas.Coding.CallSteps
import Atlas.Coding.Calls
import Atlas.Coding.Cancellation
import Atlas.Coding.Starting
import Atlas.Lib.Crowd
import Atlas.Auth.Database
import Atlas.Auth.Service
import Atlas.Auth.SingleUse
import Atlas.Control.HostFiles
import Atlas.Control.HostPolicy
import Atlas.Control.Staging
import Atlas.Control.PolicyLoading
import Atlas.Control.Polkit
import Atlas.Control.PolicyGrants
import Atlas.Control.ShellEnvironment
import Atlas.Integrations.McpServers
import Atlas.Integrations.OperationIds
import Atlas.Integrations.McpAnswers
import Atlas.Transcripts.Database
import Atlas.Transcripts.Repository
import Atlas.Transcripts.RecentTurns
import Atlas.Transcripts.Selection
import Atlas.Memory.TemporalOrder
import Atlas.Memory.OwnerPolicy
import Atlas.Memory.DeletionWalks
import Atlas.Memory.CommandOutcomes
import Atlas.Memory.DeletionLimit
import Atlas.Memory.Restoration
import Atlas.Memory.Constraints
import Atlas.Memory.SourceDeletion
import Atlas.Lib.Histories
import Atlas.Lib.Forum
import Atlas.Actions.LifeCycle
import Atlas.Actions.Dispatch
import Atlas.Capabilities.Registry
import Atlas.Capabilities.Calls
import Atlas.Capabilities.Discovery
import Atlas.Capabilities.Host
import Atlas.Capabilities.Conduct
import Atlas.Capabilities.Handlers
import Atlas.Capabilities.Safety
import Atlas.Capabilities.Dispatched
import Atlas.Capabilities.Doubt
import Atlas.Memory.Indexing
import Atlas.Memory.IndexCoverage
import Atlas.Memory.IndexRuns
import Atlas.Lib.Journal
import Atlas.Maintenance.Backup
import Atlas.Maintenance.Snapshots
import Atlas.Lib.Base64
import Atlas.Runtime.Observations
import Atlas.Runtime.FrozenEvidence
import Atlas.Runtime.EvidenceReads
