import Drnt.Orchestrator.Task

/-! The review handler of proposals. -/
namespace Drnt.Orchestrator

open Lib Lib.Coop

structure ReviewRequest where
  decision : String
  resultId : String
  responseHash : String
  decisionIdempotencyKey : String
  modifiedResult : Option String
  deriving DecidableEq, Repr

def ReviewRequest.payload (j : JobId) (r : ReviewRequest) : ReviewPayload where
  jobId := j
  decision := r.decision
  resultId := r.resultId
  responseHash := r.responseHash
  modifiedResult := r.modifiedResult
  decisionIdempotencyKey := r.decisionIdempotencyKey

def keyConflictReply : Reply :=
  ⟨409, .fields [("error", .text "decision_idempotency_key_conflict"),
    ("message", .text ("decision_idempotency_key already used with a " ++
      "different review payload."))]⟩

def jobNotFoundReply (j : JobId) : Reply :=
  ⟨404, .fields [("error", .text "job_not_found"), ("job_id", .text j.text)]⟩

def wrongStatusReply (job : Job) : Reply :=
  ⟨409, .fields [("error", .text "wrong_status"), ("current_status", .text job.status.value),
    ("current_result_id", job.resultId), ("current_response_hash", job.responseHash),
    ("message", .text ("Review not permitted for job in status '" ++ job.status.value ++
      "'; only proposal_ready jobs without an override are reviewable."))]⟩

def staleReply (job : Job) : Reply :=
  ⟨409, .fields [("error", .text "stale_decision"), ("current_status", .text job.status.value),
    ("current_result_id", job.resultId), ("current_response_hash", job.responseHash),
    ("message", .text ("Review request result_id/response_hash does not match " ++
      "the current authoritative proposal."))]⟩

def modifiedResultRequiredReply : Reply :=
  ⟨422, .fields [("error", .text "modified_result_required"),
    ("message", .text "modified_result is required when decision == 'edit'")]⟩

def modifiedResultNotAllowedReply (decision : String) : Reply :=
  ⟨422, .fields [("error", .text "modified_result_not_allowed"),
    ("message", .text ("modified_result must be absent or null when " ++ "decision == '" ++
      decision ++ "'"))]⟩

def unknownDecisionReply (decision : String) : Reply :=
  ⟨422, .fields [("error", .text "unknown_decision"), ("decision", .text decision)]⟩

def decidedReply (status decision : String) (j : JobId) (job : Job) : Reply :=
  ⟨200, .fields [("status", .text status), ("job_id", .text j.text),
    ("decision", .text decision), ("result_id", job.resultId),
    ("response_hash", job.responseHash)]⟩

def editedReply (j : JobId) (modifiedResultId : Uuid7) (modifiedResultHash : String)
    (derivedFromResultId : Json) : Reply :=
  ⟨200, .fields [("status", .text "delivered"), ("job_id", .text j.text),
    ("decision", .text "edit"), ("result_id", .text modifiedResultId.text),
    ("response_hash", .text modifiedResultHash),
    ("derived_from_result_id", derivedFromResultId)]⟩

/-- The answer to a call whose decision key has a stored outcome. -/
def replayReply (record : ReviewIdempotencyRecord) (payload : ReviewPayload) : Reply :=
  if record.payloadIdentity = payload then record.outcome else keyConflictReply

/-- The answer to a review that a job does not admit, by its state and the request. -/
def reviewRefusal (job : Job) (r : ReviewRequest) : Option Reply :=
  if job.status ≠ .proposalReady then some (wrongStatusReply job)
  else if job.overrideType.isSome then some (wrongStatusReply job)
  else if job.resultId ≠ .text r.resultId ∨ job.responseHash ≠ .text r.responseHash then
    some (staleReply job)
  else if r.decision = "edit" then
    if r.modifiedResult = none ∨ r.modifiedResult = some "" then some modifiedResultRequiredReply
    else none
  else if r.modifiedResult.isSome then some (modifiedResultNotAllowedReply r.decision)
  else none

section Handlers

variable (j : JobId) (r : ReviewRequest) (device : String)

/-- The first-writer guard of a terminal decision. -/
def reserveReview (decision : String) : Task Unit := do
  updateJob j fun job => { job with reviewDecision := some decision }
  persistJob j

/-- Emit the human.reviewed event of the call. -/
def emitDecision (draft : Draft) : Task Unit := do
  let e ← build draft
  update (·.record (.reviewed r.decisionIdempotencyKey e))
  let _ ← emitDurable e

def emitReviewed (decision : String) : Task Unit :=
  emitDecision r (eventHumanReviewed j decision device 0 none none none .null)

def storeOutcome (reply : Reply) : Task Reply := do
  update (·.storeReview r.decisionIdempotencyKey ⟨r.payload j, reply, true⟩)
  return reply

def reviewApprove : Task Reply := do
  reserveReview j "approve"
  emitReviewed j r device "approve"
  let _ ← emit (eventJobDelivered j)
  let deliveredAt ← now
  updateJob j fun job => { job with status := .delivered, deliveredAt := some deliveredAt }
  persistJob j
  let job ← deref j
  storeOutcome j r (decidedReply "delivered" "approve" j job)

def reviewEdit (cfg : Settings) (modifiedResult : String) : Task Reply := do
  reserveReview j "edit"
  let modifiedResultId ← uuid7
  let modifiedResultHash := cfg.sha256 modifiedResult
  writeResult (.text modifiedResultId.text) (.text modifiedResult)
  let derivedFromResultId := (← deref j).resultId
  emitDecision r (eventHumanReviewed j "edit" device 0 none (some modifiedResultId)
    (some modifiedResultHash) derivedFromResultId)
  let _ ← emit (eventJobDelivered j)
  let deliveredAt ← now
  updateJob j fun job =>
    { job with
      result := .text modifiedResult
      resultId := .text modifiedResultId.text
      responseHash := .text modifiedResultHash
      status := .delivered
      deliveredAt := some deliveredAt }
  persistJob j
  storeOutcome j r (editedReply j modifiedResultId modifiedResultHash derivedFromResultId)

def reviewReject : Task Reply := do
  reserveReview j "reject"
  emitReviewed j r device "reject"
  let capabilityId := (← deref j).governingCapabilityId
  let _ ← emit (eventJobFailed j (.text "review_reject") (.text "Rejected via review")
    (.textOrNull capabilityId))
  updateJob j fun job =>
    { job with status := .failed, error := some [.text "review_reject"] }
  persistJob j
  let job ← deref j
  storeOutcome j r (decidedReply "failed" "reject" j job)

/-- A deferral sets no guard: the job stays reviewable. -/
def reviewDefer : Task Reply := do
  emitReviewed j r device "defer"
  let job ← deref j
  storeOutcome j r (decidedReply "deferred" "defer" j job)

def reviewDeclineToAct : Task Reply := do
  updateJob j fun job =>
    { job with reviewDecision := some "decline_to_act", status := .closedNoAction }
  persistJob j
  emitReviewed j r device "decline_to_act"
  let job ← deref j
  let _ ← emit (eventJobClosedNoAction j job.resultId job.responseHash "decline_to_act"
    r.decisionIdempotencyKey job.governingCapabilityId "decline_to_act")
  let job ← deref j
  storeOutcome j r (decidedReply "closed_no_action" "decline_to_act" j job)

def reviewBranch (cfg : Settings) : Task Reply :=
  if r.decision = "approve" then reviewApprove j r device
  else if r.decision = "edit" then reviewEdit j r device cfg (r.modifiedResult.getD "")
  else if r.decision = "reject" then reviewReject j r device
  else if r.decision = "defer" then reviewDefer j r device
  else if r.decision = "decline_to_act" then reviewDeclineToAct j r device
  else return unknownDecisionReply r.decision

def reviewJob (cfg : Settings) : Task Reply := do
  let w ← world
  match w.reviewRecords.get? r.decisionIdempotencyKey with
  | some record => return replayReply record (r.payload j)
  | none =>
    match w.job? j with
    | none => return jobNotFoundReply j
    | some job =>
      match reviewRefusal job r with
      | some reply => return reply
      | none => reviewBranch j r device cfg

end Handlers

end Drnt.Orchestrator
