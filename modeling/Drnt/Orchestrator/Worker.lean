import Drnt.Orchestrator.Task

/-! Preparing, using and tearing down the worker of a job, and packaging the context of a
cloud dispatch. -/
namespace Drnt.Orchestrator

open Lib Lib.Coop

def failPreparation {α : Type} (job : JobId) (capabilityId error : String) : Task α := do
  let _ ← emit (eventWorkerPreparationFailed job capabilityId error)
  throw (.workerPreparation error)

/-- The checks before the manifest: the job names a capability of the registry whose
runtime state is active. -/
def preparationError? (w : World) (job : Job) : Option String :=
  match job.governingCapabilityId with
  | none | some "" => some "job has no governing_capability_id"
  | some capabilityId =>
    match w.capabilities.get? capabilityId with
    | none => some ("capability '" ++ capabilityId ++ "' not found in registry")
    | some _ =>
      match w.capabilityStates.get? capabilityId with
      | none => some ("capability '" ++ capabilityId ++ "' has no runtime state")
      | some entry =>
        if entry.status = "active" then none
        else some ("capability '" ++ capabilityId ++ "' is " ++ entry.status ++
          ", cannot prepare worker")

def orUnknown : Option String → String
  | none | some "" => "unknown"
  | some s => s

def prepareWorker (j : JobId) : Task WorkerContext := do
  let job ← deref j
  let capabilityId := orUnknown job.governingCapabilityId
  match preparationError? (← world) job with
  | some error => failPreparation j capabilityId error
  | none =>
    let manifest : ManifestReport ← perform (.manifest capabilityId)
    let _ ← emit (eventManifestValidated manifest.manifestId capabilityId manifest.workerType
      manifest.valid manifest.errors.length manifest.warnings.length manifest.errors)
    if !manifest.valid then
      failPreparation j capabilityId
        ("manifest validation failed: " ++ manifest.errorsText)
    else
      match (← perform (.blueprint manifest.manifestId) : Except String Blueprint) with
      | .error e => failPreparation j capabilityId ("blueprint generation failed: " ++ e)
      | .ok blueprint =>
        let _ ← emit (eventBlueprintCreated blueprint.blueprintId manifest.manifestId
          capabilityId blueprint.networkMode blueprint.mountCount blueprint.capDropCount
          blueprint.memoryLimit)
        let workerId : String ← perform .workerId
        let ctx : WorkerContext :=
          { workerId, jobId := j, capabilityId, blueprintId := blueprint.blueprintId,
            image := blueprint.image }
        update (·.activate ctx)
        let _ ← emit (eventWorkerPrepared workerId j capabilityId blueprint.blueprintId
          manifest.manifestId)
        return ctx

def teardownWorker (ctx : WorkerContext) : Task Unit := do
  let report : TeardownReport ← perform (.teardownReport ctx.workerId)
  let _ ← emit (eventWorkerTeardown ctx.workerId ctx.jobId report.totalEgressRequests
    report.deniedEgressRequests report.durationSeconds)
  update (·.deactivate ctx.workerId)

/-- The part of execute_in_worker under its try: the container run and its completion event. -/
def runInWorker (ctx : WorkerContext) (dispatch : Event) (prompt model : String) :
    Task WorkerResult := do
  update (·.record (.called dispatch (.worker ctx.workerId prompt model)))
  let result ← orRaise (← perform (.execute ctx.workerId prompt model))
  let _ ← emit (eventWorkerExecutionCompleted ctx.workerId ctx.jobId ctx.capabilityId
    (orUnknown result.containerId) result.exitCode result.success result.latencyMs
    result.tokenCountIn result.tokenCountOut result.error)
  if result.success then
    return result
  else
    throw (.workerExecution ("worker execution failed: " ++ result.error.getD "None"))

def executeInWorker (ctx : WorkerContext) (dispatch : Event) (prompt model : String) :
    Task WorkerResult := do
  let _ ← emit (eventWorkerExecutionStarted ctx.workerId ctx.jobId ctx.capabilityId "pending"
    ctx.image "text_generation")
  (runInWorker ctx dispatch prompt model).tryCatch fun e => do
    match e with
    | .workerPreparation _ => throw e
    | .workerExecution _ => throw e
    | _ =>
      let _ ← emit (eventWorkerExecutionCompleted ctx.workerId ctx.jobId ctx.capabilityId
        "unknown" (-1) false (.int 0) (.int 0) (.int 0) (some e.message))
      throw (.workerPreparation ("unexpected error during worker execution: " ++ e.message))

structure PackageResult where
  contextPackageId : Uuid7
  assembledPayload : String
  assembledPayloadHash : String
  deriving DecidableEq, Repr

def stripDetail (packageId fieldId : Uuid7) (j : JobId) (span : Span) : Draft :=
  eventContextStripDetail packageId j fieldId.text "user_input" span.start span.stop
    span.sensitivityClass (if span.action = "strip" then "stripped" else "generalized")
    ("Matched " ++ span.sensitivityClass ++ " pattern: " ++ span.patternSource)

/-- ContextPackager.package; storing the context object answers with its hash. -/
def package (cfg : Settings) (transform : String → String × List Span) (j : JobId)
    (rawInput : String) : Task PackageResult := do
  let contextPackageId ← uuid7
  let fieldId ← uuid7
  let (assembledPayload, spans) := transform rawInput
  let assembledPayloadHash := cfg.sha256 assembledPayload
  let contextObjectHash : String ← orRaise (← perform (.storeContext contextPackageId))
  let _ ← emit (eventContextPackaged contextPackageId j
    (if spans.isEmpty then [fieldId.text] else [])
    (if spans.isEmpty then [] else [fieldId.text]) (assembledPayload.length / 4)
    assembledPayloadHash contextObjectHash)
  Co.each spans fun span => do
    let _ ← emit (stripDetail contextPackageId fieldId j span)
  return { contextPackageId, assembledPayload, assembledPayloadHash }

end Drnt.Orchestrator
