import QuokyPlatform.Foundations.Machine
import QuokyPlatform.Foundations.Table
import QuokyPlatform.Foundations.Tiling
import QuokyPlatform.Foundations.Occurrences
import QuokyPlatform.Foundations.PlainObject
import QuokyPlatform.Foundations.Date
import QuokyPlatform.Foundations.Text
import QuokyPlatform.Foundations.Except
import QuokyPlatform.Foundations.Program
import QuokyPlatform.Foundations.Discipline
import QuokyPlatform.Reminders.Domain
import QuokyPlatform.Reminders.Transitions
import QuokyPlatform.Reminders.Repository
import QuokyPlatform.Reminders.StoreInvariant
import QuokyPlatform.Reminders.Schedule
import QuokyPlatform.Reminders.Dispatch
import QuokyPlatform.Reminders.DispatchRuns
import QuokyPlatform.Reminders.AtMostOnce
import QuokyPlatform.ConnectorWrites.Receipts
import QuokyPlatform.ConnectorWrites.Executor
import QuokyPlatform.ConnectorWrites.SentAtMostOnce
import QuokyPlatform.TaskRuns.Evidence
import QuokyPlatform.TaskRuns.Store
import QuokyPlatform.TaskRuns.StoreInvariant
import QuokyPlatform.TaskRuns.ContinuationRuns
import QuokyPlatform.TaskRuns.SecurePath
import QuokyPlatform.Chunking.CodePoints
import QuokyPlatform.Chunking.TokenEstimate
import QuokyPlatform.Chunking.Boundaries
import QuokyPlatform.Chunking.Passages
import QuokyPlatform.Chunking.Partition
import QuokyPlatform.Chunking.Windows
import QuokyPlatform.Chunking.WindowPacking
import QuokyPlatform.Messages.Content
import QuokyPlatform.Messages.Rendering
import QuokyPlatform.Messages.Segments
import QuokyPlatform.Messages.SegmentSources
import QuokyPlatform.SurfaceGrants.Record
import QuokyPlatform.SurfaceGrants.RecordInvariant
import QuokyPlatform.SurfaceGrants.RecordRoundTrip
import QuokyPlatform.SurfaceGrants.RecordRuns
import QuokyPlatform.SurfaceGrants.RecordSeeds
import QuokyPlatform.SurfaceGrants.Confirmation
import QuokyPlatform.SurfaceGrants.ConfirmationInvariant
import QuokyPlatform.SurfaceGrants.ConfirmationRuns
import QuokyPlatform.Foundations.KeyedMutex
import QuokyPlatform.Foundations.LastWriter
import QuokyPlatform.Sessions.LastWritten
import QuokyPlatform.Foundations.Regex
import QuokyPlatform.Links.Neutralizer
import QuokyPlatform.Links.Rounds
import QuokyPlatform.Foundations.FileSystemLaws
import QuokyPlatform.WorkspaceWrites.ChangeSet
import QuokyPlatform.Previews.Delivered
import QuokyPlatform.Messages.DiscordSafety
import QuokyPlatform.AgentRuns.Budget
import QuokyPlatform.AgentRuns.Projection
import QuokyPlatform.AgentRuns.Executor
import QuokyPlatform.AgentRuns.RunInvariant
import QuokyPlatform.AgentRuns.RunBounds
import QuokyPlatform.Foundations.Comparator
import QuokyPlatform.Foundations.JsonText
import QuokyPlatform.Routing.Contracts
import QuokyPlatform.Routing.PolicyEngine
import QuokyPlatform.Routing.SameMeaning
import QuokyPlatform.Routing.Selection
import QuokyPlatform.InstanceLock.Exclusion
import QuokyPlatform.Gateway.Bounded
import QuokyPlatform.Chunking.Stratified
import QuokyPlatform.Chunking.PassageBounds
import QuokyPlatform.Chunking.TableRowNumbers
import QuokyPlatform.Messages.Budgets
import QuokyPlatform.Approvals.Rejection
import QuokyPlatform.ContextBuilding.BuildAllots
import QuokyPlatform.Reminders.RecurrenceCorrect
import QuokyPlatform.ConnectorWrites.PointerReturns
import QuokyPlatform.CodeWork.CommitsExactly
import QuokyPlatform.Documents.SectionsFair
import QuokyPlatform.Documents.EmphasisStripped
import QuokyPlatform.Delivery.ChunksBalanced
import QuokyPlatform.Memories.StoredAgain
import QuokyPlatform.Memories.CommandsComplete
import QuokyPlatform.Documents.SummaryFits
import QuokyPlatform.Backups.Runs
import QuokyPlatform.Egress.AddressClassified
import QuokyPlatform.CodeWork.CommitReported
import QuokyPlatform.CodeWork.PorcelainRead
import QuokyPlatform.Egress.BudgetsHold
import QuokyPlatform.NlRouting.ReferenceResolved
import QuokyPlatform.Reminders.EventFollowed
import QuokyPlatform.VectorStore.Durable
import QuokyPlatform.AgentPlans.Validator
import QuokyPlatform.Foundations.Reordering
import QuokyPlatform.AgentPlans.Placement
import QuokyPlatform.AgentPlans.Checked
import QuokyPlatform.AgentPlans.Finished
import QuokyPlatform.AgentPlans.Suggestions
import QuokyPlatform.AgentPlans.Accepted
import QuokyPlatform.Locks.KeyedQueues
import QuokyPlatform.CredentialGuard.KeyWords
import QuokyPlatform.Documents.Readout
import QuokyPlatform.Quarantine.Prompt
import QuokyPlatform.Quarantine.Summarizer
import QuokyPlatform.Quarantine.Sent
import QuokyPlatform.Listings.Merged
import QuokyPlatform.DiscordTables.LinesKept
