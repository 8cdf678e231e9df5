import Drnt.Orchestrator.System

/-! The protocol that the coroutines of the orchestrator follow among themselves: who may
change what a job is, and in which order. A view of the process keeps what the protocol is
about and leaves everything else open. -/
namespace Drnt.Orchestrator

open Lib Lib.Coop

section View

/-- The part of a job on which the handlers and the pipeline agree or collide. -/
structure Core where
  status : JobStatus
  overrideType : Option String := none
  reviewDecision : Option String := none
  parentJobId : Option JobId := none
  idempotencyKey : Option String := none
  sourceKey : Option String := none
  lastFailingCapabilityId : Json := .null
  error : Option (List Json) := none
  recoveryDispatchCount : Nat := 0
  deriving DecidableEq, Repr

/-- The key of the source event that a job was made for. -/
def Job.sourceKey? (job : Job) : Option String :=
  match job.clientSource, job.clientSourceEventId with
  | some clientSource, some clientSourceEventId =>
    some (sourceEventKey clientSource clientSourceEventId)
  | _, _ => none

def Job.core (job : Job) : Core where
  status := job.status
  overrideType := job.overrideType
  reviewDecision := job.reviewDecision
  parentJobId := job.parentJobId
  idempotencyKey := job.idempotencyKey
  sourceKey := job.sourceKey?
  lastFailingCapabilityId := job.lastFailingCapabilityId
  error := job.error
  recoveryDispatchCount := job.recoveryDispatchCount

namespace Core

def withStatus (st : JobStatus) (c : Core) : Core := { c with status := st }

/-- A status that ends the job, with an error text if there is one to note. -/
def closes (st : JobStatus) (error : Option (List Json)) (c : Core) : Core :=
  { c with status := st, error := error.or c.error }

def fails (error : List Json) (c : Core) : Core := { c with status := .failed, error := some error }

/-- The count of the recovery pass. -/
def recount (c : Core) : Core := { c with recoveryDispatchCount := c.recoveryDispatchCount + 1 }

def submitted (key : String) (sourceKey : Option String) : Core :=
  { status := .submitted, idempotencyKey := some key, sourceKey := sourceKey }

def successor (parent : JobId) : Core := { status := .classified, parentJobId := some parent }

end Core

/-- `row`, `kept` and `mapped` are what the database holds of the jobs, of the review outcomes
and of the source events, if one is attached; `reviews` and `cached` are in memory. -/
@[ext] structure View where
  phase : Phase
  core : JobId → Option Core
  attached : Bool
  row : JobId → Option Core
  queue : List JobId
  processing : Option JobId
  records : String → Option JobId
  reviews : String → Option ReviewIdempotencyRecord
  kept : String → Option ReviewIdempotencyRecord
  cached : String → Option SourceEventRecord
  mapped : String → Option SourceEventRecord
  issued : List Uuid7
  trace : List Obs

def World.view (w : World) : View where
  phase := w.phase
  core j := (w.job? j).map Job.core
  attached := w.db.isSome
  row j := (w.db.bind fun db => db.jobs.get? j).map Job.core
  queue := w.queue
  processing := w.processing
  records := w.records.get?
  reviews := w.reviewRecords.get?
  kept k := w.db.bind fun db => db.reviewRecords.get? k
  cached := w.sourceEventRecords.get?
  mapped k := w.db.bind fun db => db.sourceEventRecords.get? k
  issued := w.issued
  trace := w.trace

namespace View

/-- The row of a job after the job `j` has been written out. -/
def persisted (v : View) (j i : JobId) : Option Core :=
  match v.attached, v.core j with
  | true, some c =>
    if i = j then some c
    else (v.row i).filter fun r =>
      !decide (r.idempotencyKey = c.idempotencyKey ∧ c.idempotencyKey ≠ none)
  | _, _ => v.row i

/-- The mapping that is authoritative for a source event. -/
def source? (v : View) (key : String) : Option SourceEventRecord :=
  (v.mapped key).or (v.cached key)

/-- The job can be had from memory or from its row. -/
def Loadable (v : View) (j : JobId) : Prop := (∃ c, v.core j = some c) ∨ ∃ c, v.row j = some c

/-- The audit client has answered about an event of this type for the job. -/
def Answered (v : View) (type : String) (j : JobId) (e : Event) : Prop :=
  e.eventType = type ∧ e.jobId = some j ∧ ∃ verdict, verdict ≠ .lost ∧ .answered e verdict ∈ v.trace

/-- The audit client has answered about some event of this type for the job. -/
def Told (v : View) (type : String) (j : JobId) : Prop := ∃ e, v.Answered type j e

/-- Some durable event could not be delivered. -/
def Lost (v : View) : Prop := ∃ e, .answered e .lost ∈ v.trace

/-- Some result file could not be written. -/
def Unwritten (v : View) : Prop := ∃ resultId, .unwritten resultId ∈ v.trace

end View

end View

section Acts

/-- What a single write does to the view. -/
inductive Act
  | quiet
  | mint (u : Uuid7)
  | revise (j : JobId) (g : Core → Core)
  | add (j : JobId) (c : Core)
  | persist (j : JobId)
  | enqueue (j : JobId)
  | dequeue (j : JobId)
  | taskDone
  | observe (o : Obs)
  | bind (key : String) (j : JobId)
  | conclude (key : String) (r : ReviewIdempotencyRecord)
  | map (key : String) (r : SourceEventRecord)
  | cache (key : String) (r : SourceEventRecord)
  | unmap (key : String) (j : JobId)
  | enter (p : Phase)

def Act.apply : Act → View → View
  | quiet, v => v
  | mint u, v => { v with issued := u :: v.issued }
  | revise j g, v => { v with core := fun i => if i = j then (v.core j).map g else v.core i }
  | add j c, v => { v with core := fun i => if i = j then some c else v.core i }
  | persist j, v => { v with row := v.persisted j }
  | enqueue j, v => { v with queue := v.queue ++ [j], trace := v.trace ++ [.enqueued j] }
  | dequeue j, v => { v with queue := v.queue.tail, processing := some j }
  | taskDone, v => { v with processing := none }
  | observe o, v => { v with trace := v.trace ++ [o] }
  | bind key j, v =>
      { v with records := fun k => if k = key then some j else v.records k }
  | conclude key r, v =>
      { v with
        reviews := fun k => if k = key then some r else v.reviews k
        kept := fun k => if v.attached ∧ k = key then some r else v.kept k }
  | map key r, v =>
      { v with
        cached := fun k => if k = key then some r else v.cached k
        mapped := fun k => if v.attached ∧ k = key then some r else v.mapped k }
  | cache key r, v => { v with cached := fun k => if k = key then some r else v.cached k }
  | unmap key j, v =>
      { v with
        cached := fun k => (v.cached k).filter fun r => !(k = key && r.jobId = j)
        mapped := fun k => (v.mapped k).filter fun r => !(k = key && r.jobId = j) }
  | enter p, v => { v with phase := p }

/-- An update of jobs that acts on their cores as a given function. -/
def ActsAs (f : Job → Job) (g : Core → Core) : Prop := ∀ job, (f job).core = g job.core

end Acts

section Tokens

/-- A human decision on a job: an override with the status it found, or a review. -/
inductive Decision
  | override (overrideType : String) (status : JobStatus)
  | review (p : ReviewPayload)
  deriving DecidableEq, Repr

namespace Decision

/-- A pre-delivery job fails, any other is revoked; an escalation always revokes. -/
def overrideEnd (t : String) (status : JobStatus) : JobStatus :=
  if t = "modify" then .delivered
  else if status.preDelivery ∧ t ≠ "escalate" then .failed
  else .revoked

def reviewEnd (decision : String) : JobStatus :=
  if decision = "reject" then .failed
  else if decision = "decline_to_act" then .closedNoAction
  else .delivered

/-- The status that a decision leads to. -/
def endStatus : Decision → JobStatus
  | override t status => overrideEnd t status
  | review p => reviewEnd p.decision

/-- The lifecycle event of a status that ends a job. -/
def endType (d : Decision) : String := "job." ++ d.endStatus.value

/-- The guard that a handler sets before its first await. -/
def reserve : Decision → Core → Core
  | override t _, c => { c with overrideType := some t }
  | review p, c =>
      { c with
        reviewDecision := some p.decision
        status := if p.decision = "decline_to_act" then .closedNoAction else c.status }

end Decision

/-- A decision is reserved on the job, announced by its human event and by its lifecycle
event, and settled on the job; a review then stores its outcome. It is aborted by an event
that cannot be delivered. -/
inductive DecisionPhase
  | accepted | reserved | announced | ending | settled
  | concluded (r : ReviewIdempotencyRecord)
  | aborted
  deriving DecidableEq, Repr

def DecisionPhase.outcome? : DecisionPhase → Option ReviewIdempotencyRecord
  | concluded r => some r
  | accepted | reserved | announced | ending | settled | aborted => none

/-- The human event of the decision is out, and none of its events was lost since. -/
def DecisionPhase.told : DecisionPhase → Bool
  | announced | ending | settled => true
  | accepted | reserved | concluded _ | aborted => false

/-- The successor of an override: its id, then its record waiting to be queued. -/
inductive Successor
  | none | minted (j : JobId) | waiting (j : JobId) | made
  deriving DecidableEq, Repr

/-- What a submission has to do with the mapping of its source event: it has made it, found
it, or made it and taken it back. -/
inductive Lease
  | none
  | reserved (key : String) (r : SourceEventRecord)
  | found (key : String) (r : SourceEventRecord)
  | released (key : String)
  deriving DecidableEq, Repr

/-- The key of the source event for which a job can be stored. -/
def Lease.key? : Lease → Option String
  | reserved key _ => some key
  | none | found _ _ | released _ => Option.none

inductive SubmitPhase
  | start | minted (j : JobId) | claimed (key : String) (j : JobId) | stored (j : JobId) | ended
  deriving DecidableEq, Repr

/-- How far the pipeline has come with a job: nothing is authorised yet, a dispatch is
authorised, the job is about to be failed, proposed or delivered, or the run has closed it. -/
inductive Stage
  | opened
  | dispatched (e : Event) (permit : Permit)
  | failing
  | proposed
  | delivering
  | closed
  deriving DecidableEq, Repr

def Stage.done : Stage → Bool
  | proposed | closed => true
  | opened | dispatched _ _ | failing | delivering => false

/-- The recovery pass is between two jobs, or at work on one; then every job is kept. -/
inductive BootPhase
  | rising | between
  | failing (j : JobId) | resetting (j : JobId) | queueing (j : JobId) | delivering (j : JobId)
  | kept
  deriving DecidableEq, Repr

/-- `again` marks a submission whose key is stored for a job that is not in memory. -/
inductive Tok
  | idle
  | refused
  | submits (again : Bool) (l : Lease) (p : SubmitPhase)
  | decides (j : JobId) (d : Decision) (p : DecisionPhase) (succ : Successor)
  | decided (j : JobId) (d : Decision) (outcome : Option ReviewIdempotencyRecord)
  | defers (p : ReviewPayload) (phase : DecisionPhase)
  | repeats (r : ReviewIdempotencyRecord)
  | fetches (j : JobId)
  | works (j : JobId) (stage : Stage)
  | boots (todo : List JobId) (p : BootPhase)
  | polls (accepting : Option JobId)
  deriving DecidableEq, Repr

namespace Tok

/-- A coroutine never suspends between a check and the write that depends on it. -/
def parks : Tok → Prop
  | decides _ _ .accepted _ | defers _ .accepted | fetches _ | submits _ _ (.stored _)
  | boots _ .rising => False
  | _ => True

/-- A finished call keeps only what later calls depend on. -/
def retire : Tok → Tok
  | submits again l _ => submits again l .ended
  | decides j d p _ => decided j d p.outcome?
  | decided j d o => decided j d o
  | defers _ (.concluded r) | repeats r => repeats r
  | refused => refused
  | idle | defers _ _ | fetches _ | works _ _ | boots _ _ | polls _ => idle

theorem retire_parks (τ : Tok) : τ.retire.parks := by
  cases τ with
  | defers p phase => cases phase <;> trivial
  | _ => trivial

end Tok

end Tokens

section Rules

/-- The events whose emission moves a job on. -/
def lifecycleTypes : List String :=
  ["job.dispatched", "job.response_received", "job.proposal_ready", "job.delivered",
    "job.failed", "job.revoked", "job.closed_no_action"]

def Obs.Harmless : Obs → Prop
  | .attempted e => e.eventType ∉ "human.override" :: lifecycleTypes
  | .answered _ _ | .bestEffort _ | .unwritten _ => True
  | .enqueued _ | .authorised _ _ | .called _ _ | .reviewed _ _ | .recovered _ _ | .unqueued _ =>
      False

/-- A lifecycle event of a given type about the job. -/
def Lifecycle (type : String) (j : JobId) (e : Event) : Prop :=
  e.eventType = type ∧ e.jobId = some j

/-- The job fails with an error text, and with or without a capability to blame. -/
def Fails (error : List Json) (g : Core → Core) : Prop :=
  ∀ c, g c = { c.fails error with lastFailingCapabilityId := (g c).lastFailingCapabilityId }

def queueFullError : List Json := [.text "pipeline_queue_full"]

def pipelineError : List Json := [.text "pipeline_error"]

def recoveryExhaustedError : List Json := [.text "recovery_exhausted"]

/-- The statuses from which the recovery pass queues a job again. -/
def queueable : List JobStatus := [.submitted, .classified, .dispatched]

/-- _derive_proposal_hold_reason has a reason. -/
def Permit.holds (p : Permit) : Prop := (holdReason p.deliveryHold p.holdType).isSome

/-- The writes that a coroutine may make, by how far it has come. -/
inductive Allowed : Tok → View → Act → Tok → Prop
  -- anyone at any time
  | quiet {τ v} : Allowed τ v .quiet τ
  | persist {τ v} (j : JobId) : Allowed τ v (.persist j) τ
  | note {τ v o} (h : o.Harmless) : Allowed τ v (.observe o) τ
  | mint {τ v} (u : Uuid7) : Allowed τ v (.mint u) τ
  -- submitting
  | mintJob {v j again l} (fresh : j ∉ v.issued) :
      Allowed (.submits again l .start) v (.mint j) (.submits again l (.minted j))
  | map {v key r j} (free : v.mapped key = none ∧ (v.attached = true ∨ v.cached key = none))
      (mine : r.jobId = j) :
      Allowed (.submits false .none (.minted j)) v (.map key r)
        (.submits false (.reserved key r) (.minted j))
  | find {v key r p} (found : v.source? key = some r) :
      Allowed (.submits false .none p) v (.cache key r) (.submits false (.found key r) p)
  | bind {v k j l} (free : v.records k = none) :
      Allowed (.submits false l (.minted j)) v (.bind k j) (.submits false l (.claimed k j))
  | store {v k j again l p e} (ready : p = .claimed k j ∨ again = true ∧ p = .minted j)
      (answered : v.Answered "job.submitted" j e) :
      Allowed (.submits again l p) v (.add j (.submitted k l.key?)) (.submits again l (.stored j))
  | enqueueNew {v j again l} (kept : v.attached → ∃ c, v.row j = some c) :
      Allowed (.submits again l (.stored j)) v (.enqueue j) (.submits again l .ended)
  | failNew {v j again l} (kept : v.attached → ∃ c, v.row j = some c) :
      Allowed (.submits again l (.stored j)) v (.revise j (.fails queueFullError))
        (.submits again l .ended)
  | unmap {v key r p} (gone : ¬ v.Loadable r.jobId) :
      Allowed (.submits false (.reserved key r) p) v (.unmap key r.jobId)
        (.submits false (.released key) p)
  -- deciding
  | reserve {v j d succ} :
      Allowed (.decides j d .accepted succ) v (.revise j d.reserve) (.decides j d .reserved succ)
  | reserveAgain {v j t st p succ} (taken : p ≠ .accepted) :
      Allowed (.decides j (.override t st) p succ) v (.revise j (Decision.override t st).reserve)
        (.decides j (.override t st) p succ)
  | announce {v j t st succ e} (h : Lifecycle "human.override" j e)
      (kept : ∀ c, v.row j = some c → c.overrideType.isSome) :
      Allowed (.decides j (.override t st) .reserved succ) v (.observe (.attempted e))
        (.decides j (.override t st) .announced succ)
  | announceReview {v j p succ e} :
      Allowed (.decides j (.review p) .reserved succ) v
        (.observe (.reviewed p.decisionIdempotencyKey e)) (.decides j (.review p) .announced succ)
  | endEvent {v j d succ e} (h : Lifecycle d.endType j e) :
      Allowed (.decides j d .announced succ) v (.observe (.attempted e))
        (.decides j d .ending succ)
  | settle {v j d succ g error} (told : v.Told d.endType j)
      (h : g = .closes d.endStatus error ∨ g = fun c => d.reserve (c.closes d.endStatus error)) :
      Allowed (.decides j d .ending succ) v (.revise j g) (.decides j d .settled succ)
  | conclude {v j p r succ phase} (payload : r.payloadIdentity = p)
      (ok : r.outcome.statusCode = 200)
      (ready : phase = .settled ∨
        phase = .ending ∧ p.decision = "decline_to_act" ∧ v.Told "job.closed_no_action" j) :
      Allowed (.decides j (.review p) phase succ) v (.conclude p.decisionIdempotencyKey r)
        (.decides j (.review p) (.concluded r) succ)
  | abort {v j d p succ e} (taken : p ≠ .accepted) :
      Allowed (.decides j d p succ) v (.observe (.answered e .lost)) (.decides j d .aborted succ)
  | announceDefer {v p e} :
      Allowed (.defers p .accepted) v (.observe (.reviewed p.decisionIdempotencyKey e))
        (.defers p .announced)
  | defer {v p r} (payload : r.payloadIdentity = p) (ok : r.outcome.statusCode = 200) :
      Allowed (.defers p .announced) v (.conclude p.decisionIdempotencyKey r)
        (.defers p (.concluded r))
  | mintSuccessor {v j t st p i} (announced : p = .announced ∨ p = .settled)
      (fresh : i ∉ v.issued) :
      Allowed (.decides j (.override t st) p .none) v (.mint i)
        (.decides j (.override t st) p (.minted i))
  | storeSuccessor {v j d p i} :
      Allowed (.decides j d p (.minted i)) v (.add i (.successor j)) (.decides j d p (.waiting i))
  | enqueueSuccessor {v j d p i} :
      Allowed (.decides j d p (.waiting i)) v (.enqueue i) (.decides j d p .made)
  | failSuccessor {v j d p i} :
      Allowed (.decides j d p (.waiting i)) v (.revise i (.fails queueFullError))
        (.decides j d p .made)
  -- the pipeline
  | fetch {v j} (head : v.queue.head? = some j) (free : v.processing = none) :
      Allowed (.fetches j) v (.dequeue j) (.works j .opened)
  | classify {v j} :
      Allowed (.works j .opened) v (.revise j (.withStatus .classified)) (.works j .opened)
  | authorise {v j e permit check} (checked : v.Answered "wal.permission_check" j check)
      (ref : check.sourceEventId = permit.checkRef) (h : Lifecycle "job.dispatched" j e) :
      Allowed (.works j .opened) v (.observe (.authorised e permit))
        (.works j (.dispatched e permit))
  | dispatch {v j e permit} :
      Allowed (.works j (.dispatched e permit)) v (.observe (.attempted e))
        (.works j (.dispatched e permit))
  | call {v j e permit c} (answered : v.Answered "job.dispatched" j e) :
      Allowed (.works j (.dispatched e permit)) v (.observe (.called e c))
        (.works j (.dispatched e permit))
  | receive {v j e permit e'} (h : Lifecycle "job.response_received" j e') :
      Allowed (.works j (.dispatched e permit)) v (.observe (.attempted e'))
        (.works j (.dispatched e permit))
  | progress {v j e permit st} (status : st = .dispatched ∨ st = .responseReceived) :
      Allowed (.works j (.dispatched e permit)) v (.revise j (.withStatus st))
        (.works j (.dispatched e permit))
  | propose {v j e permit} (held : permit.holds) :
      Allowed (.works j (.dispatched e permit)) v (.revise j (.withStatus .proposalReady))
        (.works j .proposed)
  | proposeEvent {v j e} (h : Lifecycle "job.proposal_ready" j e) :
      Allowed (.works j .proposed) v (.observe (.attempted e)) (.works j .closed)
  | deliverEvent {v j e permit e'} (free : ¬ permit.holds) (h : Lifecycle "job.delivered" j e') :
      Allowed (.works j (.dispatched e permit)) v (.observe (.attempted e'))
        (.works j .delivering)
  | deliver {v j} (told : v.Told "job.delivered" j) :
      Allowed (.works j .delivering) v (.revise j (.withStatus .delivered)) (.works j .closed)
  | failEvent {v j stage e} (ready : stage.done = false) (h : Lifecycle "job.failed" j e) :
      Allowed (.works j stage) v (.observe (.attempted e)) (.works j .failing)
  | fail {v j stage error g} (ready : stage.done = true → v.Lost) (h : Fails error g)
      (told : v.Told "job.failed" j ∨ v.Lost ∨ error = pipelineError) :
      Allowed (.works j stage) v (.revise j g) (.works j .closed)
  | close {v j stage} (done : ∀ c, v.core j = some c → c.status = .delivered) :
      Allowed (.works j stage) v .quiet (.works j .closed)
  | release {v j stage} (ready : stage.done = true ∨ v.core j = none) :
      Allowed (.works j stage) v .taskDone .idle
  -- the startup
  | boot {v todo} : Allowed (.boots todo .rising) v (.enter .starting) (.boots todo .between)
  | bootFailEvent {v todo j e} (mem : j ∈ todo) (h : Lifecycle "job.failed" j e)
      (status : ∀ c, v.core j = some c → c.status ∈ queueable) :
      Allowed (.boots todo .between) v (.observe (.attempted e))
        (.boots (todo.filter (· ≠ j)) (.failing j))
  | bootFail {v todo j} (told : v.Told "job.failed" j) :
      Allowed (.boots todo (.failing j)) v (.revise j (.fails recoveryExhaustedError))
        (.boots todo .between)
  | bootReset {v todo j} (mem : j ∈ todo) (status : ∀ c, v.core j = some c → c.status ∈ queueable)
      (under : ∀ c, v.core j = some c → c.recoveryDispatchCount < maxRecoveryDispatches) :
      Allowed (.boots todo .between) v (.revise j (.withStatus .classified))
        (.boots (todo.filter (· ≠ j)) (.resetting j))
  | bootRecount {v todo j}
      (under : ∀ c, v.core j = some c → c.recoveryDispatchCount < maxRecoveryDispatches) :
      Allowed (.boots todo (.resetting j)) v (.revise j .recount) (.boots todo (.queueing j))
  | bootCount {v todo j} (mem : j ∈ todo) (status : ∀ c, v.core j = some c → c.status ∈ queueable)
      (under : ∀ c, v.core j = some c → c.recoveryDispatchCount < maxRecoveryDispatches) :
      Allowed (.boots todo .between) v (.revise j .recount)
        (.boots (todo.filter (· ≠ j)) (.queueing j))
  | bootEnqueue {v todo j} :
      Allowed (.boots todo (.queueing j)) v (.enqueue j) (.boots todo .between)
  | bootDrop {v todo j} :
      Allowed (.boots todo (.queueing j)) v (.observe (.unqueued j)) (.boots todo .between)
  | bootDeliverEvent {v todo j e} (mem : j ∈ todo) (h : Lifecycle "job.delivered" j e)
      (status : ∀ c, v.core j = some c → c.status = .responseReceived) :
      Allowed (.boots todo .between) v (.observe (.attempted e))
        (.boots (todo.filter (· ≠ j)) (.delivering j))
  | bootDeliver {v todo j} (told : v.Told "job.delivered" j) :
      Allowed (.boots todo (.delivering j)) v (.revise j (.withStatus .delivered))
        (.boots todo .between)
  | bootScan {v todo j action}
      (why : j ∈ todo → action = some .skipped ∨
        ∀ c, v.core j = some c → c.status ∉ .responseReceived :: queueable) :
      Allowed (.boots todo .between) v (.observe (.recovered j action))
        (.boots (todo.filter (· ≠ j)) .between)
  | bootKept {v todo u}
      (kept : ∀ j c r, v.core j = some c → v.row j = some r →
        r.recoveryDispatchCount = c.recoveryDispatchCount) :
      Allowed (.boots todo .between) v (.mint u) (.boots todo .kept)
  | serve {v} : Allowed (.boots [] .kept) v (.enter .serving) .idle
  -- the auto-accept loop
  | acceptEvent {v o j e} (h : e.eventType = "human.reviewed")
      (delivered : ∀ c, v.core j = some c → c.status = .delivered) :
      Allowed (.polls o) v (.observe (.attempted e)) (.polls (some j))
  | autoAccept {v j} :
      Allowed (.polls (some j)) v
        (.revise j fun c => { c with overrideType := some "auto_delivered" }) (.polls none)

/-- What no write takes back. -/
structure View.Grows (v v' : View) : Prop where
  trace : v.trace <+: v'.trace
  records : ∀ {k j}, v.records k = some j → v'.records k = some j
  core : ∀ {j c}, v.core j = some c → ∃ c', v'.core j = some c'
  issued : ∀ {u}, u ∈ v.issued → u ∈ v'.issued

end Rules

end Drnt.Orchestrator
