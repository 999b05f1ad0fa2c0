import Orqalis.Domain.Base
import Orqalis.Lib.Crash
import Orqalis.Domain.Agent
import Orqalis.Domain.Run
import Orqalis.Domain.Task
import Orqalis.Domain.Acceptance
import Orqalis.Domain.Approval
import Orqalis.Domain.Event
import Orqalis.Domain.Execution
import Orqalis.Persistence.Records
import Orqalis.Core.StateMachine
import Orqalis.Persistence.Auxiliary
import Orqalis.Persistence.Documents
import Orqalis.Persistence.Projections
import Orqalis.Persistence.Capsule
import Orqalis.Persistence.Staging
import Orqalis.Persistence.RoundTrip
import Orqalis.Persistence.Recovery
import Orqalis.Persistence.Commit
import Orqalis.Persistence.Store
import Orqalis.Persistence.Discovery
import Orqalis.Persistence.Session
import Orqalis.Persistence.Index
import Orqalis.Persistence.Rejection
import Orqalis.Lib.System
import Orqalis.Persistence.Locking
import Orqalis.Persistence.Leases
import Orqalis.Persistence.Concurrency
import Orqalis.Persistence.Holding
import Orqalis.Persistence.Histories
import Orqalis.Persistence.Lives
import Orqalis.Persistence.NoLostUpdate
import Orqalis.Persistence.Log
import Orqalis.Persistence.Metadata
import Orqalis.Persistence.Identity
import Orqalis.Observability.LiveView
import Orqalis.Observability.Timing
import Orqalis.Observability.Analytics
import Orqalis.Lib.Json
import Orqalis.Persistence.Manifest
import Orqalis.Core.Primitives
import Orqalis.Core.RuntimeSupport
import Orqalis.Core.Approvals
import Orqalis.Core.TaskRuntime
import Orqalis.Core.Work
import Orqalis.Delivery.Gates
import Orqalis.Core.Orchestrator
import Orqalis.Core.PlanRevision
import Orqalis.Core.Goals
import Orqalis.Core.Recovery
import Orqalis.Execution.Workers
import Orqalis.Execution.Review
import Orqalis.Delivery.Services
import Orqalis.Core.Repair
import Orqalis.Core.Commands
import Orqalis.Core.Frame
import Orqalis.Core.Effects
import Orqalis.Core.Aside
import Orqalis.Core.Reach
import Orqalis.Core.Ledger
import Orqalis.Core.Movement
import Orqalis.Core.Suspension
import Orqalis.Core.Currency
import Orqalis.Core.Labor
import Orqalis.Core.Progress
import Orqalis.Core.PlanHistory
import Orqalis.Core.Budget
import Orqalis.Core.Phases
import Orqalis.Core.Denial
import Orqalis.Core.Consent
import Orqalis.Core.Attempts
import Orqalis.Core.Authority
import Orqalis.Core.Fulfilment
import Orqalis.Core.Quiescence
import Orqalis.Lib.Readiness
import Orqalis.Core.Dependencies
import Orqalis.Core.Replays
import Orqalis.Core.Course
import Orqalis.Execution.AtMostOnce
import Orqalis.Core.ContextWave
import Orqalis.Core.Scheduler
import Orqalis.Delivery.Guardian
import Orqalis.Delivery.Staging
import Orqalis.Delivery.TreeDigest
import Orqalis.Execution.Sandbox
import Orqalis.Lib.Text
import Orqalis.Lib.Walk
import Orqalis.Lib.Breadth
import Orqalis.Lib.Compact
import Orqalis.Lib.Sweep
import Orqalis.Lib.LongestChain
import Orqalis.Lib.Utf8
import Orqalis.Lib.Loads
import Orqalis.Lib.Nesting
import Orqalis.Persistence.Encoding
import Orqalis.Persistence.EventLog
import Orqalis.Git.Status
import Orqalis.Lib.Marker
import Orqalis.Delivery.Documentation
import Orqalis.Skills.Registry
import Orqalis.Tasks.History
import Orqalis.Memory.Records
import Orqalis.Memory.Frontmatter
import Orqalis.Memory.Curated
import Orqalis.Memory.Moves
import Orqalis.Memory.Lifecycle
import Orqalis.Memory.Supersession
import Orqalis.Lib.Chains
import Orqalis.Memory.Validation
import Orqalis.Memory.Saving
import Orqalis.Memory.Rejection
import Orqalis.Memory.Approval
import Orqalis.Memory.Refresh
import Orqalis.Memory.Navigation
import Orqalis.Context.Sizing
import Orqalis.Context.Builder
import Orqalis.Lib.Base64
import Orqalis.Tasks.Pages
import Orqalis.Graph.Models
import Orqalis.Graph.Queries
import Orqalis.Lib.Fields
import Orqalis.Graph.Contracts
import Orqalis.Graph.LoadState
import Orqalis.Lib.Folds
import Orqalis.Graph.Paths
import Orqalis.Graph.Assemble
import Orqalis.Graph.Links
import Orqalis.Graph.RelativeImports
import Orqalis.Graph.WellFormed
import Orqalis.Graph.Engine
import Orqalis.Lib.Grouping
import Orqalis.Indexing.Terms
import Orqalis.Indexing.Rebuild
import Orqalis.Lib.SemVer
import Orqalis.Npm.Versions
import Orqalis.Npm.Precedence
import Orqalis.Npm.Update
import Orqalis.Lib.Schema
import Orqalis.Providers.Schemas
import Orqalis.Providers.Answers
import Orqalis.Delivery.Commits
import Orqalis.Delivery.Resumption
