import Drnt.Events
import Drnt.Lib.Dict
import Mathlib.Tactic.Simps.Basic

/-! What the orchestrator process and its database hold, and the single assignments that
its coroutines make. The trace is history: it records what left the process. -/
namespace Drnt.Orchestrator

open Lib

inductive JobStatus
  | submitted | classified | dispatched | responseReceived | delivered | failed | revoked
  | proposalReady | closedNoAction
  deriving DecidableEq, Repr

def JobStatus.value : JobStatus → String
  | submitted => "submitted"
  | classified => "classified"
  | dispatched => "dispatched"
  | responseReceived => "response_received"
  | delivered => "delivered"
  | failed => "failed"
  | revoked => "revoked"
  | proposalReady => "proposal_ready"
  | closedNoAction => "closed_no_action"

/-- A job without its id, under which it is kept. The fields that hold what another service
sent are JSON; null stands for None. An error text is kept as the pieces that its f-string
joins. -/
structure Job where
  rawInput : String
  inputModality : String
  device : String
  status : JobStatus
  createdAt : UtcTime
  classifiedAt : Option UtcTime := none
  dispatchedAt : Option UtcTime := none
  responseReceivedAt : Option UtcTime := none
  deliveredAt : Option UtcTime := none
  requestCategory : Option String := none
  routingRecommendation : Option String := none
  candidateModels : Option (List String) := none
  governingCapabilityId : Option String := none
  result : Json := .null
  resultId : Json := .null
  error : Option (List Json) := none
  parentJobId : Option JobId := none
  revokedAt : Option UtcTime := none
  overrideType : Option String := none
  lastFailingCapabilityId : Json := .null
  walLevel : Option Int := none
  idempotencyKey : Option String := none
  recoveryDispatchCount : Nat := 0
  proposalId : Option Uuid7 := none
  responseHash : Json := .null
  confidence : Option PyFloat := none
  reviewDecision : Option String := none
  clientSource : Option String := none
  clientSourceEventId : Option String := none
  clientTimestamp : Option String := none
  intentEquivalenceHash : Option String := none
  deriving DecidableEq, Repr

def terminalReviewDecisions : List String := ["approve", "edit", "reject", "decline_to_act"]

structure WorkerContext where
  workerId : String
  jobId : JobId
  capabilityId : String
  blueprintId : String
  image : String
  deriving DecidableEq, Repr

structure ReviewPayload where
  jobId : JobId
  decision : String
  resultId : String
  responseHash : String
  modifiedResult : Option String
  decisionIdempotencyKey : String
  deriving DecidableEq, Repr

structure Reply where
  statusCode : Nat
  body : Json
  deriving DecidableEq, Repr

structure ReviewIdempotencyRecord where
  payloadIdentity : ReviewPayload
  outcome : Reply
  applied : Bool
  deriving DecidableEq, Repr

structure SourceEventRecord where
  jobId : JobId
  intentEquivalenceHash : String
  clientSource : String
  clientSourceEventId : String
  deriving DecidableEq, Repr

inductive HubState
  | active | suspended | awaitingAuthority
  deriving DecidableEq, Repr

def HubState.value : HubState → String
  | active => "active"
  | suspended => "suspended"
  | awaitingAuthority => "awaiting_authority"

structure ReviewPolicy where
  costGateUsd : Option Rat := none
  reviewGate : String := "none"
  deriving DecidableEq, Repr

/-- An action's entry in a level's policies: the string "blocked", an object with gates,
or a value that has no `get`. -/
inductive Policy
  | blocked
  | gates (p : ReviewPolicy)
  | other
  deriving DecidableEq, Repr

structure Capability where
  capabilityId : String
  actionPolicies : Dict String (Dict String Policy)

structure CapabilityState where
  effectiveWalLevel : Int
  status : String
  deriving DecidableEq, Repr

/-- The rows of the jobs table in rowid order, and the state table by key prefix. -/
structure Database where
  jobs : Dict JobId Job
  records : Dict String JobId
  reviewRecords : Dict String ReviewIdempotencyRecord
  sourceEventRecords : Dict String SourceEventRecord
  hub : Option HubState

inductive OutboundCall
  | worker (workerId prompt model : String)
  | localGenerate (prompt : String)
  | egress (routeId capabilityId targetModel prompt assembledPayloadHash : String)
      (walPermissionCheckRef : Uuid7)
  deriving DecidableEq, Repr

/-- What became of a durable event: the writer took it, the writer refused it, or the
client gave up. -/
inductive Verdict
  | acknowledged | rejected | lost
  deriving DecidableEq, Repr

/-- What the permission check of a pipeline run leaves to its later stages. -/
structure Permit where
  checkRef : Uuid7
  result : String
  deliveryHold : Bool
  holdType : Option String
  deriving DecidableEq, Repr

inductive RecoveryAction
  | noAction | reClassify | reDispatch | reDispatchStale | skipped | deliver
  | recoveryExhausted
  deriving DecidableEq, Repr

/-- The history of the process. A dispatch is recorded with the permit under which it is
made, a call with the event of its dispatch, a review's human.reviewed event with the key of
the call, a result file that could not be written with its id, and the recovery pass with
what it did to each job and which it could not queue again. -/
inductive Obs
  | attempted (e : Event)
  | answered (e : Event) (v : Verdict)
  | bestEffort (e : Event)
  | unwritten (resultId : Json)
  | enqueued (j : JobId)
  | authorised (dispatch : Event) (permit : Permit)
  | called (dispatch : Event) (c : OutboundCall)
  | reviewed (key : String) (e : Event)
  | recovered (j : JobId) (action : Option RecoveryAction)
  | unqueued (j : JobId)
  deriving DecidableEq, Repr

inductive Phase
  | stopped | starting | serving
  deriving DecidableEq, Repr

/-- `processing` is the job_id of the worker loop between `queue.get` and `task_done`. -/
structure World where
  phase : Phase
  jobs : Dict JobId Job
  queue : List JobId
  processing : Option JobId
  polling : Bool
  workerContexts : Dict JobId WorkerContext
  activeContexts : Dict String WorkerContext
  records : Dict String JobId
  reviewRecords : Dict String ReviewIdempotencyRecord
  sourceEventRecords : Dict String SourceEventRecord
  sourceEventLocks : List String
  hub : HubState
  capabilities : Dict String Capability
  capabilityStates : Dict String CapabilityState
  availableRoutes : List String
  db : Option Database
  artifacts : List (Json × String)
  issued : List Uuid7
  trace : List Obs

namespace Database

/-- INSERT OR REPLACE: a row with the same primary key, or with the same non-null value
of the unique idempotency_key column, makes way for the new one. -/
def replaceJob (db : Database) (j : JobId) (job : Job) : Database :=
  { db with
    jobs := (db.jobs.filter fun i row => !decide (i = j ∨
      (row.idempotencyKey = job.idempotencyKey ∧ job.idempotencyKey ≠ none))).set j job }

end Database

namespace World

def job? (w : World) (j : JobId) : Option Job := w.jobs.get? j

/-- The row of a job, if there is a database with one. -/
def row? (w : World) (j : JobId) : Option Job := w.db.bind fun db => db.jobs.get? j

@[simps] def record (w : World) (o : Obs) : World := { w with trace := w.trace ++ [o] }

@[simps] def issue (w : World) (u : Uuid7) : World := { w with issued := u :: w.issued }

@[simps] def addJob (w : World) (j : JobId) (job : Job) : World :=
  { w with jobs := w.jobs.set j job }

@[simps] def updateJob (w : World) (j : JobId) (f : Job → Job) : World :=
  { w with jobs := w.jobs.modify j f }

def persistedDb (w : World) (j : JobId) : Option Database :=
  match w.db, w.jobs.get? j with
  | some db, some job => some (db.replaceJob j job)
  | db, _ => db

@[simps] def persistJob (w : World) (j : JobId) : World := { w with db := w.persistedDb j }

@[simps] def enqueue (w : World) (j : JobId) : World :=
  { w with queue := w.queue ++ [j], trace := w.trace ++ [.enqueued j] }

@[simps] def dequeue (w : World) (j : JobId) : World :=
  { w with queue := w.queue.tail, processing := some j }

@[simps] def taskDone (w : World) : World := { w with processing := none }

@[simps] def setPolling (w : World) (b : Bool) : World := { w with polling := b }

@[simps] def setPhase (w : World) (p : Phase) : World := { w with phase := p }

@[simps] def setHub (w : World) (h : HubState) : World :=
  { w with hub := h, db := w.db.map fun db => { db with hub := some h } }

@[simps] def setWorkerContext (w : World) (j : JobId) (c : WorkerContext) : World :=
  { w with workerContexts := w.workerContexts.set j c }

@[simps] def popWorkerContext (w : World) (j : JobId) : World :=
  { w with workerContexts := w.workerContexts.erase j }

@[simps] def activate (w : World) (c : WorkerContext) : World :=
  { w with activeContexts := w.activeContexts.set c.workerId c }

@[simps] def deactivate (w : World) (workerId : String) : World :=
  { w with activeContexts := w.activeContexts.erase workerId }

@[simps] def writeArtifact (w : World) (resultId : Json) (content : String) : World :=
  { w with artifacts := w.artifacts ++ [(resultId, content)] }

@[simps] def lockSource (w : World) (key : String) : World :=
  { w with sourceEventLocks := key :: w.sourceEventLocks }

@[simps] def unlockSource (w : World) (key : String) : World :=
  { w with sourceEventLocks := w.sourceEventLocks.erase key }

@[simps] def storeKey (w : World) (key : String) (j : JobId) : World :=
  { w with
    records := w.records.set key j
    db := w.db.map fun db => { db with records := db.records.set key j } }

@[simps] def storeReview (w : World) (key : String) (r : ReviewIdempotencyRecord) : World :=
  { w with
    reviewRecords := w.reviewRecords.set key r
    db := w.db.map fun db => { db with reviewRecords := db.reviewRecords.set key r } }

@[simps] def reserveSource (w : World) (key : String) (r : SourceEventRecord) : World :=
  { w with
    sourceEventRecords := w.sourceEventRecords.set key r
    db := w.db.map fun db => { db with sourceEventRecords := db.sourceEventRecords.set key r } }

@[simps] def cacheSource (w : World) (key : String) (r : SourceEventRecord) : World :=
  { w with sourceEventRecords := w.sourceEventRecords.set key r }

@[simps] def releaseSource (w : World) (key : String) (j : JobId) : World :=
  { w with
    sourceEventRecords := w.sourceEventRecords.filter fun k r => !(k = key && r.jobId = j)
    db := w.db.map fun db =>
      { db with sourceEventRecords :=
          db.sourceEventRecords.filter fun k r => !(k = key && r.jobId = j) } }

end World

end Drnt.Orchestrator
