import Drnt.Orchestrator.PermissionChecker
import Drnt.Orchestrator.Worker

/-! The background pipeline of a job, stage by stage. A stage that ends the run answers none. -/
namespace Drnt.Orchestrator

open Lib Lib.Coop

/-- The local variables that classification leaves to the later stages. -/
structure Route where
  routing : Option String
  models : Option (List String)
  capabilityId : String
  routeId : String
  deriving DecidableEq, Repr

/-- models[0] -/
def Route.model (route : Route) : Except Exc String :=
  match route.models with
  | some (model :: _) => .ok model
  | _ => .error .typeError

def failJob (j : JobId) (error : List Json) : Task Unit := do
  updateJob j fun job => { job with status := .failed, error := some error }
  persistJob j

/-- A job that arrives classified, by a human override or from recovery, keeps its route. -/
def presetRoute? (job : Job) : Option Route :=
  match job.status, job.governingCapabilityId with
  | .classified, some capabilityId =>
    some ⟨job.routingRecommendation, job.candidateModels, capabilityId,
      ((modelOf? capabilityId).map (·.routeId)).getD "unknown"⟩
  | _, _ => none

def classifyJob (j : JobId) (rawInput : String) : Task Route := do
  let c : Classification ← orRaise (← perform (.classify rawInput))
  let entry := modelMap c.recommendedModel
  let _ ← emit (eventJobClassified j c.category c.confidence c.localCapable c.routing
    [entry.candidateModel] entry.capabilityId)
  let classifiedAt ← now
  updateJob j fun job =>
    { job with
      status := .classified
      classifiedAt := some classifiedAt
      requestCategory := some c.category
      routingRecommendation := some c.routing
      candidateModels := some [entry.candidateModel]
      governingCapabilityId := some entry.capabilityId
      confidence := some c.confidence }
  return ⟨some c.routing, some [entry.candidateModel], entry.capabilityId, entry.routeId⟩

def classifyStage (j : JobId) (job : Job) : Task Route := do
  let route ← match presetRoute? job with
    | some route => pure route
    | none => classifyJob j job.rawInput
  updateJob j fun job => { job with walLevel := some 0 }
  persistJob j
  return route

/-- The circuit breaker gate: an unavailable cloud route fails the job. -/
def circuitStage (cfg : Settings) (j : JobId) (route : Route) : Task (Option Unit) := do
  if route.routing = some "cloud" ∧ cfg.connectivityMonitor ∧
      route.routeId ∉ (← world).availableRoutes then
    let _ ← emit (eventJobQueued j "connectivity" 0 none)
    let _ ← emit (eventJobFailed j (.text "route_unavailable")
      (.text ("Circuit breaker OPEN for route " ++ route.routeId)) .null)
    failJob j [.text ("route_unavailable: circuit breaker OPEN for " ++ route.routeId)]
    return none
  else
    return some ()

def dispatchAction (route : Route) : String :=
  if route.routing = some "local" then "dispatch_local"
  else if route.capabilityId = "route.multi" then "dispatch_multi"
  else "dispatch_cloud"

def stubCheck (j : JobId) (capabilityId : String) : Draft :=
  eventWalPermissionCheck j capabilityId "dispatch" 0 (some 0) "allowed" false none none none none

def permissionStage (cfg : Settings) (j : JobId) (route : Route) : Task (Option Permit) := do
  if cfg.permissionChecker then
    let action := dispatchAction route
    let result ← checkPermission route.capabilityId action { jobId := j } none
    if result.result = "blocked" then
      let reason := result.blockReason.getD "None"
      let _ ← emit (eventJobFailed j (.text "permission_denied")
        (.text ("Action '" ++ action ++ "' blocked: " ++ reason)) .null)
      failJob j [.text ("permission_denied: " ++ reason)]
      return none
    else
      -- a result that is held before dispatch goes on: the stub of the first version
      return some ⟨result.sourceEventId, result.result, result.deliveryHold, result.holdType⟩
  else
    let event ← emit (stubCheck j route.capabilityId)
    return some ⟨event.sourceEventId, "allowed", false, none⟩

/-- The worker of the job, if workers are in use. -/
def prepareStage (cfg : Settings) (j : JobId) : Task (Option (Option WorkerContext)) :=
  match cfg.workerLifecycle with
  | none => return some none
  | some _ =>
    (do
      let ctx ← prepareWorker j
      update (·.setWorkerContext j ctx)
      return some (some ctx)).tryCatch fun _ => do
        failJob j [.text "worker_preparation_failed"]
        return none

def blockedCloudRoutes (routes : List EgressRoute) (capabilityId : String) : List String :=
  (routes.filter fun r => r.provider ≠ "ollama" ∧ capabilityId ∈ r.allowedCapabilities ∧
    !r.enabled).map (·.routeId)

def fallbackStage (cfg : Settings) (j : JobId) (route : Route) : Task Unit := do
  match route.routing, cfg.egressRegistry with
  | some "local", some routes =>
    let blocked := blockedCloudRoutes routes route.capabilityId
    if !blocked.isEmpty then
      let _ ← emit (eventEgressFallbackToLocal j blocked "local" route.capabilityId)
  | _, _ => return ()

structure Prompt where
  text : String
  contextPackageId : Option Uuid7 := none
  payloadHash : Option String := none
  deriving DecidableEq, Repr

def packageStage (cfg : Settings) (j : JobId) (route : Route) : Task Prompt := do
  let rawInput := (← deref j).rawInput
  if route.routing = some "cloud" then
    match cfg.packager with
    | some transform =>
      let _ ← orRaise route.model
      let p ← package cfg transform j rawInput
      return { text := p.assembledPayload, contextPackageId := some p.contextPackageId,
               payloadHash := some p.assembledPayloadHash }
    | none =>
      throw (.runtime ("Context packager is not initialized — cannot dispatch cloud job " ++
        j.text ++ " without context packaging (fail-closed)"))
  else
    return { text := rawInput }

def dispatchDraft (j : JobId) (model : String) (route : Route) (permit : Permit)
    (prompt : Prompt) : Draft :=
  eventJobDispatched j model route.routeId permit.checkRef (prompt.payloadHash.getD "") none
    prompt.contextPackageId

/-- A dispatch: the model and the job.dispatched event. -/
structure Dispatch where
  model : String
  event : Event
  deriving DecidableEq, Repr

def dispatchStage (j : JobId) (route : Route) (permit : Permit) (prompt : Prompt) :
    Task Dispatch := do
  let model ← orRaise route.model
  let event ← build (dispatchDraft j model route permit prompt)
  update (·.record (.authorised event permit))
  let _ ← emitDurable event
  let dispatchedAt ← now
  updateJob j fun job => { job with status := .dispatched, dispatchedAt := some dispatchedAt }
  persistJob j
  return ⟨model, event⟩

structure Response where
  text : Json
  latencyMs : Json
  tokenIn : Json
  tokenOut : Json
  costUsd : Json
  resultId : Json
  responseHash : Json
  finishReason : Json
  deriving DecidableEq, Repr

/-- The first sixteen hex digits of the hash of a response text. -/
def shortHash (cfg : Settings) (text : Json) : Except Exc String :=
  match text with
  | .str s =>
    match decode? s with
    | some t => .ok (String.ofList ((cfg.sha256 t).toList.take 16))
    | none => .error .unicodeError
  | _ => .error .attributeError

/-- A response produced on this machine gets a fresh result id and a short hash. -/
def localResponse (cfg : Settings) (text latencyMs tokenIn tokenOut : Json) : Task Response := do
  let resultId ← uuid7
  let hash ← orRaise (shortHash cfg text)
  return ⟨text, latencyMs, tokenIn, tokenOut, .float ⟨"0.0"⟩, .text resultId.text, .text hash,
    .text "stop"⟩

def teardownFailed (j : JobId) : Option WorkerContext → Task Unit
  | none => return ()
  | some ctx => do
    teardownWorker ctx
    update (·.popWorkerContext j)

def workerResponse (cfg : Settings) (j : JobId) (d : Dispatch) (ctx : WorkerContext)
    (prompt : String) : Task (Option Response) :=
  (do
    let r ← executeInWorker ctx d.event prompt d.model
    let response ← localResponse cfg r.responseText r.latencyMs r.tokenCountIn r.tokenCountOut
    return some response).tryCatch fun e => do
      let _ ← emit (eventJobFailed j (.text "worker_execution_failed") (.text e.message) .null)
      failJob j [.text "worker_execution_failed"]
      teardownFailed j (some ctx)
      return none

def generateResponse (cfg : Settings) (d : Dispatch) (prompt : String) :
    Task (Option Response) := do
  update (·.record (.called d.event (.localGenerate prompt)))
  let r : LocalResponse ← orRaise (← perform (.generate prompt))
  let response ← localResponse cfg r.text (.int r.latencyMs) r.tokenCountIn r.tokenCountOut
  return some response

/-- The reply of the gateway as an object; anything else has no `get`. -/
def replyFields (reply : HttpReply) : Except Exc (List (PyStr × Json)) :=
  match reply.body with
  | none => .error (.valueError "Expecting value")
  | some (.obj fields) => .ok fields
  | some _ => .error .attributeError

def getOr (fields : List (PyStr × Json)) (key : String) (default : Json) : Json :=
  (Json.field? (py key) fields).getD default

def gatewayResponse (fields : List (PyStr × Json)) (fallbackId : Uuid7) : Response where
  text := getOr fields "response_text" (.text "")
  latencyMs := getOr fields "latency_ms" (.int 0)
  tokenIn := getOr fields "token_count_in" (.int 0)
  tokenOut := getOr fields "token_count_out" (.int 0)
  costUsd := getOr fields "cost_estimate_usd" (.float ⟨"0.0"⟩)
  resultId := getOr fields "result_id" (.text fallbackId.text)
  responseHash := getOr fields "response_hash" (.text "")
  finishReason := getOr fields "finish_reason" (.text "stop")

def egressCall (route : Route) (permit : Permit) (prompt : Prompt) (model : String) :
    OutboundCall :=
  .egress route.routeId route.capabilityId model prompt.text (prompt.payloadHash.getD "")
    permit.checkRef

def egressResponse (j : JobId) (route : Route) (permit : Permit) (prompt : Prompt)
    (d : Dispatch) (ctx : Option WorkerContext) : Task (Option Response) := do
  let call := egressCall route permit prompt d.model
  update (·.record (.called d.event call))
  let reply : HttpReply ← orRaise (← perform (.dispatch call))
  let fields ← orRaise (replyFields reply)
  let status := getOr fields "status" .null
  if status = .text "blocked" ∨ status = .text "error" then
    let failureType := getOr fields "failure_type" (.text "unknown")
    let detail := getOr fields "detail" (.text "")
    let _ ← emit (eventJobFailed j failureType detail failureType)
    updateJob j fun job =>
      { job with
        status := .failed
        error := some [failureType, .text ": ", detail]
        lastFailingCapabilityId := failureType }
    persistJob j
    teardownFailed j ctx
    return none
  else
    let fallbackId ← uuid7
    return some (gatewayResponse fields fallbackId)

def responseStage (cfg : Settings) (j : JobId) (route : Route) (permit : Permit)
    (prompt : Prompt) (d : Dispatch) (ctx : Option WorkerContext) : Task (Option Response) :=
  if route.routing = some "local" then
    match ctx, cfg.workerLifecycle with
    | some ctx, some true => workerResponse cfg j d ctx prompt.text
    | _, _ => generateResponse cfg d prompt.text
  else
    egressResponse j route permit prompt d ctx

def recordStage (j : JobId) (route : Route) (model : String) (r : Response) : Task Unit := do
  let _ ← emit (eventModelResponse j model route.routeId r.latencyMs r.tokenIn r.tokenOut
    r.costUsd r.resultId r.responseHash r.finishReason)
  let _ ← emit (eventJobResponseReceived j model r.latencyMs r.tokenIn r.tokenOut r.costUsd
    r.resultId r.responseHash)
  let receivedAt ← now
  updateJob j fun job =>
    { job with
      status := .responseReceived
      responseReceivedAt := some receivedAt
      result := r.text
      resultId := r.resultId
      responseHash := r.responseHash }
  persistJob j
  writeResult r.resultId r.text

/-- _derive_proposal_hold_reason -/
def holdReason (deliveryHold : Bool) (holdType : Option String) : Option String :=
  if deliveryHold then some "pre_delivery"
  else if holdType = some "on_accept" then some "on_accept"
  else none

def teardownStage (cfg : Settings) (j : JobId) (ctx : Option WorkerContext) : Task Unit :=
  match ctx, cfg.workerLifecycle with
  | some ctx, some _ => teardownFailed j (some ctx)
  | _, _ => return ()

def proposeStage (j : JobId) (route : Route) (model : String) (r : Response) (reason : String) :
    Task Unit := do
  let proposalId ← match (← deref j).proposalId with
    | some proposalId => pure proposalId
    | none => uuid7
  updateJob j fun job =>
    { job with proposalId := some proposalId, status := .proposalReady }
  persistJob j
  let confidence := (← deref j).confidence
  let _ ← emit (eventJobProposalReady j proposalId r.resultId r.responseHash model
    route.capabilityId confidence none reason)

def deliverStage (j : JobId) : Task Unit := do
  let _ ← emit (eventJobDelivered j)
  let deliveredAt ← now
  updateJob j fun job => { job with status := .delivered, deliveredAt := some deliveredAt }
  persistJob j

/-- The end of a run: a held result becomes a proposal, any other is delivered. -/
def closeStage (cfg : Settings) (j : JobId) (route : Route) (permit : Permit) (model : String)
    (r : Response) (ctx : Option WorkerContext) : Task Unit := do
  match holdReason permit.deliveryHold permit.holdType with
  | some reason => proposeStage j route model r reason
  | none => deliverStage j
  teardownStage cfg j ctx

/-- From the permit on. -/
def dispatchAndClose (cfg : Settings) (j : JobId) (route : Route) (permit : Permit)
    (ctx : Option WorkerContext) : Task Unit := do
  fallbackStage cfg j route
  let prompt ← packageStage cfg j route
  let d ← dispatchStage j route permit prompt
  match ← responseStage cfg j route permit prompt d ctx with
  | none => return ()
  | some response =>
    recordStage j route d.model response
    closeStage cfg j route permit d.model response ctx

def runPipeline (cfg : Settings) (j : JobId) : Task Unit := do
  match (← world).job? j with
  | none => return ()
  | some job =>
    let route ← classifyStage j job
    match ← circuitStage cfg j route with
    | none => return ()
    | some () =>
      match ← permissionStage cfg j route with
      | none => return ()
      | some permit =>
        match ← prepareStage cfg j with
        | none => return ()
        | some ctx => dispatchAndClose cfg j route permit ctx

/-- The except branch of the worker loop. -/
def pipelineFailed (cfg : Settings) (j : JobId) : Task Unit := do
  match (← world).job? j with
  | some job =>
    if job.status ≠ .delivered then
      failJob j [.text "pipeline_error"]
  | none => pure ()
  let context := (← world).workerContexts.get? j
  update (·.popWorkerContext j)
  match context, cfg.workerLifecycle with
  | some ctx, some _ => (teardownWorker ctx).tryCatch fun _ => pure ()
  | _, _ => pure ()

/-- One iteration of the worker loop, for the job at the head of the queue. -/
def workerIteration (cfg : Settings) (j : JobId) : Task Unit := do
  update (·.dequeue j)
  (do
    if (← world).hub ≠ HubState.active then
      perform .hubActive
    runPipeline cfg j).tryCatch fun _ => pipelineFailed cfg j
  update (·.taskDone)

end Drnt.Orchestrator
