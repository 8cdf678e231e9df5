import Drnt.Lib.Dict
import Drnt.Lib.Coroutine
import Drnt.Lib.Trace
import Drnt.Lib.Rerun
import Drnt.Lib.EventLoop
import Drnt.Lib.Discipline
import Drnt.Lib.Plan
import Drnt.Lib.Drive
import Drnt.Lib.Json
import Drnt.Lib.Utf8
import Drnt.Lib.TextMode
import Drnt.Lib.Loads
import Drnt.Lib.Dumps
import Drnt.Lib.RoundTrip
import Drnt.Lib.Surrogates
import Drnt.Lib.Encodable
import Drnt.Lib.Indented
import Drnt.Lib.HashChain
import Drnt.Lib.Framing
import Drnt.Envelope
import Drnt.Events
import Drnt.Orchestrator.World
import Drnt.Orchestrator.Task
import Drnt.Orchestrator.PermissionChecker
import Drnt.Orchestrator.Worker
import Drnt.Orchestrator.Submit
import Drnt.Orchestrator.Override
import Drnt.Orchestrator.Review
import Drnt.Orchestrator.Pipeline
import Drnt.Orchestrator.Recovery
import Drnt.Orchestrator.System
import Drnt.Orchestrator.Protocol
import Drnt.Orchestrator.Conduct
import Drnt.Orchestrator.Refinement
import Drnt.Orchestrator.Custody
import Drnt.Orchestrator.Execution
import Drnt.Orchestrator.Trial
import Drnt.Orchestrator.Idempotency
import Drnt.Orchestrator.FailClosed
import Drnt.Orchestrator.ReviewGate
import Drnt.Orchestrator.Retry
import Drnt.Orchestrator.Listing
import Drnt.Orchestrator.Terminal
import Drnt.Orchestrator.Atomic
import Drnt.Orchestrator.Egress
import Drnt.Orchestrator.SourceStore
import Drnt.Orchestrator.FirstWriter
import Drnt.Orchestrator.Survival
import Drnt.Orchestrator.Suspension
import Drnt.Orchestrator.Footprint
import Drnt.Orchestrator.Recorded
import Drnt.Orchestrator.StateTable
import Drnt.Orchestrator.StartupFilters
import Drnt.Orchestrator.Accounts
import Drnt.Orchestrator.WriteThrough
import Drnt.Lib.History
import Drnt.Lib.SlidingWindow
import Drnt.Connectivity.Monitor
import Drnt.Connectivity.Breaker
import Drnt.Connectivity.RateLimiter
import Drnt.Audit.Records
import Drnt.Audit.Integrity
import Drnt.Audit.Tamper
import Drnt.Audit.Repair
import Drnt.Audit.Digests
import Drnt.Audit.Atomicity
import Drnt.Audit.TextLines
import Drnt.Audit.StartupGate
import Drnt.Audit.Day
import Drnt.Audit.Validator
import Drnt.Audit.Grammar
import Drnt.Audit.Client
import Drnt.Audit.Writer
import Drnt.Audit.Ledger
import Drnt.Audit.Runs
import Drnt.Audit.Wire
import Drnt.Audit.Standalone
import Drnt.Audit.Delivery
import Drnt.Audit.Vocabulary
import Drnt.Lib.PosixPath
import Drnt.WorkerProxy.Registry
import Drnt.WorkerProxy.Run
import Drnt.Runtime.Manifest
import Drnt.Runtime.Blueprint
import Drnt.Runtime.EgressRoutes
import Drnt.Context.Packager
import Drnt.Context.Noninterference
import Drnt.Context.Merging
import Drnt.Trust.Registry
import Drnt.Trust.Gates
import Drnt.Trust.Pipeline
import Drnt.Wal.Replay
import Drnt.Wal.Reconcile
import Drnt.Wal.Models
import Drnt.Wal.Saving
import Drnt.Wal.Warranted
import Drnt.Orchestrator.Classifier
import Drnt.Lib.Glob
import Drnt.Gateway.Serving
import Drnt.Orchestrator.Redispatch
import Drnt.Runtime.Launch
