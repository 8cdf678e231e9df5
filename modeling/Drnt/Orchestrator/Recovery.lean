import Drnt.Orchestrator.Task

/-! Starting the process: what a restart loads, the recovery pass over the jobs it finds,
and the auto-accept loop that runs beside the pipeline. -/
namespace Drnt.Orchestrator

open Lib Lib.Coop

section Restart

def resident (job : Job) : Bool := job.status ∉ [.delivered, .failed, .revoked]

def loadJobs (rows : Dict JobId Job) : Dict JobId Job := rows.filter fun _ job => resident job

/-- _purge_terminal_keys: a key is kept while its job has a row that is not delivered or
failed. -/
def Database.purgeTerminalKeys (db : Database) : Database :=
  { db with records := db.records.filter fun _ j =>
      (db.jobs.get? j).any fun row => row.status ∉ [.delivered, .failed] }

/-- The process after a restart: what the database holds, the files, and the history. -/
def World.restart (w : World) : World where
  phase := .stopped
  jobs := (w.db.map fun db => loadJobs db.jobs).getD ∅
  queue := []
  processing := none
  polling := false
  workerContexts := ∅
  activeContexts := ∅
  records := (w.db.map fun db => db.purgeTerminalKeys.records).getD ∅
  reviewRecords := (w.db.map fun db => db.reviewRecords).getD ∅
  sourceEventRecords := (w.db.map fun db => db.sourceEventRecords).getD ∅
  sourceEventLocks := []
  hub := (w.db.bind fun db => db.hub).getD .active
  capabilities := w.capabilities
  capabilityStates := w.capabilityStates
  availableRoutes := w.availableRoutes
  db := w.db.map Database.purgeTerminalKeys
  artifacts := w.artifacts
  issued := w.issued
  trace := w.trace

end Restart

def maxRecoveryDispatches : Nat := 2

structure RecoveryReport where
  jobsScanned : Nat := 0
  jobsRecovered : Nat := 0
  jobsSkipped : Nat := 0
  jobsFailed : Nat := 0
  deriving DecidableEq, Repr

def RecoveryReport.count (r : RecoveryReport) (action : Option RecoveryAction) :
    RecoveryReport :=
  let scanned := { r with jobsScanned := r.jobsScanned + 1 }
  match action with
  | none | some .noAction => scanned
  | some .skipped => { scanned with jobsSkipped := r.jobsSkipped + 1 }
  | some .recoveryExhausted => { scanned with jobsFailed := r.jobsFailed + 1 }
  | some _ => { scanned with jobsRecovered := r.jobsRecovered + 1 }

/-- _check_dispatch_cap: whether the job may be dispatched again; at the cap it fails. -/
def checkDispatchCap (j : JobId) : Task Bool := do
  if (← deref j).recoveryDispatchCount ≥ maxRecoveryDispatches then
    let _ ← emit (eventJobFailed j (.text "recovery_exhausted")
      (.text "Recovery re-dispatch cap (2) exceeded") .null)
    updateJob j fun job =>
      { job with status := .failed, error := some [.text "recovery_exhausted"] }
    return false
  else
    return true

def enqueueForRecovery (j : JobId) : Task Unit := do
  updateJob j fun job => { job with recoveryDispatchCount := job.recoveryDispatchCount + 1 }
  let _ ← emit (eventJobQueued j "recovery" 0 none)
  if !(← putNowait j) then
    update (·.record (.unqueued j))

def recoverQueued (j : JobId) (action : RecoveryAction) : Task RecoveryAction := do
  if ← checkDispatchCap j then
    enqueueForRecovery j
    return action
  else
    return .recoveryExhausted

def stale (cfg : Settings) (job : Job) (now : UtcTime) : Bool :=
  match job.dispatchedAt with
  | none => true
  | some dispatchedAt =>
    decide ((cfg.staleThresholdSeconds * 1000000 : Int) ≤ now.micros - dispatchedAt.micros)

def recoverDispatched (cfg : Settings) (j : JobId) (now : UtcTime) : Task RecoveryAction := do
  if !stale cfg (← deref j) now then
    return .skipped
  else if ← checkDispatchCap j then
    updateJob j fun job => { job with status := .classified }
    enqueueForRecovery j
    return .reDispatchStale
  else
    return .recoveryExhausted

def recoverResponseReceived (j : JobId) : Task RecoveryAction := do
  let _ ← emit (eventJobDelivered j)
  let deliveredAt ← now
  updateJob j fun job => { job with status := .delivered, deliveredAt := some deliveredAt }
  return .deliver

def recoverJob (cfg : Settings) (j : JobId) (now : UtcTime) : Task (Option RecoveryAction) := do
  match (← deref j).status with
  | .failed | .revoked | .delivered => return some .noAction
  | .submitted => return some (← recoverQueued j .reClassify)
  | .classified => return some (← recoverQueued j .reDispatch)
  | .dispatched => return some (← recoverDispatched cfg j now)
  | .responseReceived => return some (← recoverResponseReceived j)
  | .proposalReady | .closedNoAction => return none

def recoverAll (cfg : Settings) (now : UtcTime) : List JobId → RecoveryReport →
    Task RecoveryReport
  | [], report => return report
  | j :: rest, report => do
    let action ← recoverJob cfg j now
    update (·.record (.recovered j action))
    recoverAll cfg now rest (report.count action)

def RecoveryReport.summary (r : RecoveryReport) : Json :=
  .fields [("jobs_scanned", .nat r.jobsScanned), ("jobs_recovered", .nat r.jobsRecovered),
    ("jobs_skipped", .nat r.jobsSkipped), ("jobs_failed", .nat r.jobsFailed)]

/-- The part of the lifespan that touches jobs: recovery, persisting what it changed, the
startup event, the authority self-check, and then serving. -/
def startup (cfg : Settings) : Task Unit := do
  update (·.setPhase .starting)
  let startedAt ← now
  let report ← recoverAll cfg startedAt (← world).jobs.keys {}
  Co.each (← world).jobs.keys persistJob
  let _ ← emit (eventSystemStartup none none none none [] (some report.summary))
  if !(← perform .recentHeartbeat : Bool) then
    update (·.setHub .awaitingAuthority)
  update (·.setPhase .serving)

/-- A delivered job of level 2 or more that nobody has overridden, and since when. -/
def autoAcceptable (job : Job) : Option UtcTime :=
  if job.status = .delivered ∧ job.overrideType = none ∧ 2 ≤ job.walLevel.getD 0 then
    job.deliveredAt
  else none

def checkAutoAccept (cfg : Settings) (j : JobId) : Task Unit := do
  match autoAcceptable (← deref j) with
  | none => return ()
  | some deliveredAt =>
    let at_ ← now
    if (cfg.autoAcceptWindowSeconds * 1000000 : Int) ≤ at_.micros - deliveredAt.micros then
      let _ ← emit (eventHumanReviewed j "auto_delivered" "system"
        (cfg.autoAcceptWindowSeconds * 1000) none none none .null)
      updateJob j fun job => { job with overrideType := some "auto_delivered" }
      persistJob j

/-- One poll of the auto-accept loop. -/
def autoAcceptPoll (cfg : Settings) : Task Unit := do
  update (·.setPolling true)
  Co.each (← world).jobs.keys fun j => (checkAutoAccept cfg j).tryCatch fun _ => pure ()
  update (·.setPolling false)

end Drnt.Orchestrator
