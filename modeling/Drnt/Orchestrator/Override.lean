import Drnt.Orchestrator.Worker

/-! The override handler and its four branches. -/
namespace Drnt.Orchestrator

open Lib Lib.Coop

inductive OverrideReply
  | notFound
  | noOp (reason : String)
  | cancelled
  | revoked
  | redirected (successor : JobId)
  | revokedAndRedirected (successor : JobId)
  | modified (modifiedResultId : Uuid7)
  | escalated (successor : JobId)
  | error (reason : String)
  deriving DecidableEq, Repr

def OverrideReply.status : OverrideReply → String
  | notFound => "not_found"
  | noOp _ => "no_op"
  | cancelled => "cancelled"
  | revoked => "revoked"
  | redirected _ => "redirected"
  | revokedAndRedirected _ => "revoked_and_redirected"
  | modified _ => "modified"
  | escalated _ => "escalated"
  | error _ => "error"

structure OverrideRequest where
  overrideType : String
  target : String
  detail : String
  device : String
  modifiedResult : Option String
  deriving DecidableEq, Repr

def terminalStates : List JobStatus := [.delivered, .failed, .revoked]

def conditionalDemotionTypes : List String := ["cancel", "redirect"]

def sentinelFailureIds : List String := ["egress_config", "egress_connectivity", "worker_sandbox"]

/-- Membership in a frozenset raises on a value that cannot be hashed. -/
def isSentinelFailure : Json → Except Exc Bool
  | .str s => .ok (decide (s ∈ sentinelFailureIds.map py))
  | .arr _ | .obj _ => .error .typeError
  | _ => .ok false

def JobStatus.preDelivery : JobStatus → Bool
  | submitted | classified | dispatched | responseReceived => true
  | delivered | failed | revoked | proposalReady | closedNoAction => false

/-- Why an override of this job is refused before anything is done. -/
def overrideRefusal (job : Job) : Option String :=
  if job.status ∈ terminalStates ∧ job.status ≠ .delivered then some "job_already_terminal"
  else if job.reviewDecision.any (· ∈ terminalReviewDecisions) then some "already_reviewed"
  else if job.overrideType.isSome then some "already_overridden"
  else none

def reserveOverride (j : JobId) (overrideType : String) : Task Unit := do
  updateJob j fun job => { job with overrideType := some overrideType }
  persistJob j

def successorJob (originalId : JobId) (original : Job) (createdAt : UtcTime) (target : String)
    (entry : ModelEntry) : Job where
  rawInput := original.rawInput
  inputModality := original.inputModality
  device := original.device
  status := .classified
  createdAt := createdAt
  classifiedAt := some createdAt
  parentJobId := some originalId
  requestCategory := original.requestCategory
  routingRecommendation := some (if target = "route.local" then "local" else "cloud")
  candidateModels := some [entry.candidateModel]
  governingCapabilityId := some target
  confidence := some ⟨"1.0"⟩

def spawnSuccessor (original : JobId) (target : String) : Task JobId := do
  let newJobId ← uuid7
  let createdAt ← now
  match modelOf? target with
  | none => throw (.valueError ("Unknown capability_id for redirect: " ++ target))
  | some entry =>
    let job ← deref original
    let successor := successorJob original job createdAt target entry
    update (·.addJob newJobId successor)
    persistJob newJobId
    let _ ← emit (eventJobClassified newJobId (job.requestCategory.getD "unknown") ⟨"1.0"⟩
      (target = "route.local") (if target = "route.local" then "local" else "cloud")
      [entry.candidateModel] target)
    if !(← putNowait newJobId) then
      updateJob newJobId fun job =>
        { job with status := .failed, error := some [.text "pipeline_queue_full"] }
      persistJob newJobId
    return newJobId

/-- The end of an override before delivery: the job fails. -/
def failOverridden (j : JobId) (overrideType errorClass detail : String) : Task Unit := do
  let job ← deref j
  let _ ← emit (eventJobFailed j (.text errorClass) (.text detail)
    (.textOrNull job.governingCapabilityId))
  updateJob j fun job =>
    { job with
      status := .failed
      error := some [.text errorClass]
      overrideType := some overrideType }

/-- The end of an override of a job that is held or delivered: the job is revoked. -/
def revokeOverridden (j : JobId) (overrideType reason : String) (sourceEventId : Uuid7)
    (successor : Option JobId) : Task Unit := do
  let _ ← emit (eventJobRevoked j reason sourceEventId successor [])
  let revokedAt ← now
  updateJob j fun job =>
    { job with
      status := .revoked
      revokedAt := some revokedAt
      overrideType := some overrideType }

def overrideCancel (j : JobId) (r : OverrideRequest) (preDelivery : Bool) : Task OverrideReply := do
  let event ← emit (eventHumanOverride j "cancel" r.target r.detail r.device)
  if preDelivery then
    failOverridden j "cancel" "override_cancel" "Cancelled by user"
    return .cancelled
  else
    revokeOverridden j "cancel" "user_cancel" event.sourceEventId none
    return .revoked

def overrideRedirect (j : JobId) (r : OverrideRequest) (preDelivery : Bool) :
    Task OverrideReply := do
  let event ← emit (eventHumanOverride j "redirect" r.target r.detail r.device)
  if preDelivery then
    failOverridden j "redirect" "override_redirect" ("Redirected to " ++ r.detail)
    let successor ← spawnSuccessor j r.detail
    return .redirected successor
  else
    let successor ← spawnSuccessor j r.detail
    revokeOverridden j "redirect" "escalation_supersede" event.sourceEventId (some successor)
    return .revokedAndRedirected successor

def modifyResult (cfg : Settings) (j : JobId) (r : OverrideRequest) (modified : String)
    (alreadyDelivered : Bool) : Task OverrideReply := do
  reserveOverride j "modify"
  let _ ← emit (eventHumanOverride j "modify" r.target r.detail r.device)
  let modifiedResultId ← uuid7
  writeResult (.text modifiedResultId.text) (.text modified)
  let job ← deref j
  let _ ← emit (eventHumanReviewed j "modified" r.device 0 (some r.detail)
    (some modifiedResultId) (some (cfg.sha256 modified)) job.resultId)
  updateJob j fun job => { job with result := .text modified, overrideType := some "modify" }
  if !alreadyDelivered then
    let _ ← emit (eventJobDelivered j)
    let deliveredAt ← now
    updateJob j fun job => { job with status := .delivered, deliveredAt := some deliveredAt }
  return .modified modifiedResultId

def overrideModify (cfg : Settings) (j : JobId) (r : OverrideRequest) (status : JobStatus) :
    Task OverrideReply :=
  match r.modifiedResult with
  | none | some "" => return .error "modified_result_required"
  | some modified =>
    if status = .responseReceived ∨ status = .delivered then
      modifyResult cfg j r modified (status = .delivered)
    else
      return .error "no_result_to_modify"

def overrideEscalate (j : JobId) (r : OverrideRequest) : Task OverrideReply := do
  let event ← emit (eventHumanOverride j "escalate" r.target r.detail r.device)
  let successor ← spawnSuccessor j r.detail
  revokeOverridden j "escalate" "escalation_supersede" event.sourceEventId (some successor)
  return .escalated successor

def demotionDraft (j : JobId) (capabilityId overrideType : String) : Draft where
  eventType := "wal.demoted"
  jobId := j
  capabilityId := capabilityId
  walLevel := some (-1)
  payload := [("capability_id", .text capabilityId), ("from_level", .int 0),
    ("to_level", .int (-1)), ("trigger", .text "override"),
    ("override_type", .text overrideType)]

def demoteForOverride (cfg : Settings) (capabilityId : Option String) (j : JobId)
    (overrideType : String) : Task Unit :=
  match cfg.demotionEngine, capabilityId with
  | true, some capabilityId => do
    let _ ← emit (demotionDraft j capabilityId overrideType)
  | _, _ => return ()

/-- What follows an override that took effect: the job is persisted, its worker torn down
and, for a cancel or redirect, its capability demoted. -/
def finishOverride (cfg : Settings) (j : JobId) (overrideType : String) : Task Unit := do
  persistJob j
  let context := (← world).workerContexts.get? j
  update (·.popWorkerContext j)
  match context, cfg.workerLifecycle with
  | some ctx, some _ => teardownWorker ctx
  | _, _ => pure ()
  if overrideType ∈ conditionalDemotionTypes then
    let job ← deref j
    let sentinel ← orRaise (isSentinelFailure job.lastFailingCapabilityId)
    if !sentinel then
      demoteForOverride cfg job.governingCapabilityId j overrideType

def overrideBranch (cfg : Settings) (j : JobId) (r : OverrideRequest) (status : JobStatus) :
    Task OverrideReply :=
  if r.overrideType = "cancel" then overrideCancel j r status.preDelivery
  else if r.overrideType = "redirect" then overrideRedirect j r status.preDelivery
  else if r.overrideType = "modify" then overrideModify cfg j r status
  else if r.overrideType = "escalate" then overrideEscalate j r
  else return .error "unknown_override_type"

def OverrideReply.isError : OverrideReply → Bool
  | error _ => true
  | _ => false

/-- An override that passed the guards, with the status it found. -/
def runOverride (cfg : Settings) (j : JobId) (r : OverrideRequest) (status : JobStatus) :
    Task OverrideReply := do
  if r.overrideType ∈ ["cancel", "redirect", "escalate"] then
    reserveOverride j r.overrideType
  -- the guard of a proposal is set for every type, before the type is looked at
  if status = .proposalReady then
    reserveOverride j r.overrideType
  let reply ← overrideBranch cfg j r status
  if !reply.isError then
    finishOverride cfg j r.overrideType
  return reply

def overrideJob (cfg : Settings) (j : JobId) (r : OverrideRequest) : Task OverrideReply := do
  match (← world).job? j with
  | none => return .notFound
  | some job =>
    match overrideRefusal job with
    | some reason => return .noOp reason
    | none => runOverride cfg j r job.status

end Drnt.Orchestrator
