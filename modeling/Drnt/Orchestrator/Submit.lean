import Drnt.Orchestrator.Task

/-! Submitting jobs: the idempotency store and the two submit paths. -/
namespace Drnt.Orchestrator

open Lib Lib.Coop

section Store

/-- check_and_store: the job that already holds the key, or the key becomes this job's. -/
def checkAndStore (key : String) (j : JobId) : Task (Option JobId) := do
  match (← world).records.get? key with
  | some existing => return some existing
  | none =>
    update (·.storeKey key j)
    return none

inductive SourceVerdict
  | new | equivalent | conflict
  deriving DecidableEq, Repr

def sourceEventKey (clientSource clientSourceEventId : String) : String :=
  clientSource ++ ":" ++ clientSourceEventId

/-- The mapping that is authoritative for a source event: the database row if there is a
database with one, else the one in memory. -/
def World.sourceRecord? (w : World) (key : String) : Option SourceEventRecord :=
  match w.db.bind fun db => db.sourceEventRecords.get? key with
  | some record => some record
  | none => w.sourceEventRecords.get? key

/-- The key has no row in an attached database, so that the insert succeeds. -/
def World.insertsSource (w : World) (key : String) : Bool :=
  match w.db with
  | none => false
  | some db => (db.sourceEventRecords.get? key).isNone

def checkAndStoreSourceEvent (record : SourceEventRecord) :
    Task (SourceVerdict × SourceEventRecord) := do
  let key := sourceEventKey record.clientSource record.clientSourceEventId
  let w ← world
  if w.insertsSource key then
    update (·.reserveSource key record)
    return (.new, record)
  else
    match w.sourceRecord? key with
    | some existing =>
      update (·.cacheSource key existing)
      if existing.intentEquivalenceHash = record.intentEquivalenceHash then
        return (.equivalent, existing)
      else
        return (.conflict, existing)
    | none =>
      update (·.cacheSource key record)
      return (.new, record)

/-- release_source_event: only a reservation that still maps to this job is removed. -/
def releaseSourceEvent (clientSource clientSourceEventId : String) (j : JobId) : Task Unit :=
  update (·.releaseSource (sourceEventKey clientSource clientSourceEventId) j)

end Store

structure Submission where
  rawInput : String
  inputModality : String
  device : String
  idempotencyKey : Option String
  clientSource : Option String
  clientSourceEventId : Option String
  clientTimestamp : Option String
  deriving DecidableEq, Repr

/-- Where a submission comes from, as the job records it. -/
structure Lineage where
  clientSource : Option String := none
  clientSourceEventId : Option String := none
  intentHash : Option String := none
  deriving DecidableEq, Repr

def submittedJob (s : Submission) (l : Lineage) (key : String) (createdAt : UtcTime) :
    Job where
  rawInput := s.rawInput
  inputModality := s.inputModality
  device := s.device
  status := .submitted
  createdAt := createdAt
  idempotencyKey := some key
  clientSource := l.clientSource
  clientSourceEventId := l.clientSourceEventId
  clientTimestamp := s.clientTimestamp
  intentEquivalenceHash := l.intentHash

/-- The new job of a submission; what the audit client answered is not looked at. -/
def materialize (s : Submission) (l : Lineage) (jobId : JobId) (key : String) : Task JobId := do
  let createdAt ← now
  let job := submittedJob s l key createdAt
  let _ ← emit (eventJobSubmitted jobId s.rawInput s.inputModality s.device l.clientSource
    l.clientSourceEventId s.clientTimestamp l.intentHash)
  update (·.addJob jobId job)
  persistJob jobId
  if ← putNowait jobId then
    return jobId
  else
    updateJob jobId fun job =>
      { job with status := .failed, error := some [.text "pipeline_queue_full"] }
    persistJob jobId
    throw .queueFull

def createJob (s : Submission) (l : Lineage) (jobId : JobId) (key : String) : Task JobId := do
  match ← checkAndStore key jobId with
  | some existing =>
    if ((← world).job? existing).isSome then
      return existing
    else
      -- the stored job is not in memory: a new one is created under the same key
      materialize s l jobId key
  | none => materialize s l jobId key

/-- A job that is in memory or has a row, as the source-event path looks for it. -/
def World.loadable (w : World) (j : JobId) : Bool :=
  (w.job? j).isSome || (w.db.bind fun db => db.jobs.get? j).isSome

def awaitJobLoadable (j : JobId) : Nat → Task Bool
  | 0 => return false
  | attempts + 1 => do
    let _ : Unit ← orRaise (← perform .sleep)
    if (← world).loadable j then
      return true
    else
      awaitJobLoadable j attempts

/-- The part of submit_job that runs under the lock of the source event. -/
def submitLocked (cfg : Settings) (s : Submission) (clientSource clientSourceEventId : String) :
    Task JobId := do
  let intentHash := cfg.intentHash s.rawInput s.inputModality
  let candidate ← uuid7
  let (verdict, record) ← checkAndStoreSourceEvent
    ⟨candidate, intentHash, clientSource, clientSourceEventId⟩
  match verdict with
  | .equivalent =>
    let loaded ← do
      if (← world).loadable record.jobId then
        pure true
      else
        awaitJobLoadable record.jobId 5
    if loaded then
      return record.jobId
    else
      let event ← build (eventSourceEventDivergence record.jobId clientSource clientSourceEventId)
      emitBestEffort event
      throw (.sourceEventPending record.jobId)
  | .conflict =>
    let _ ← emit (eventSourceEventConflict record.jobId clientSource clientSourceEventId
      record.intentEquivalenceHash intentHash)
    throw (.sourceEventConflict record.jobId)
  | .new =>
    let key ← uuid7
    (createJob s ⟨some clientSource, some clientSourceEventId, some intentHash⟩ candidate
      key.text).tryCatch fun e => do
        -- except Exception: a cancellation passes by
        if e ≠ .cancelled then
          if !(← world).loadable candidate then
            releaseSourceEvent clientSource clientSourceEventId candidate
        throw e

def submitSourceEvent (cfg : Settings) (s : Submission)
    (clientSource clientSourceEventId : String) : Task JobId := do
  let key := sourceEventKey clientSource clientSourceEventId
  if key ∈ (← world).sourceEventLocks then
    let _ : Unit ← orRaise (← perform (.sourceLock key))
  update (·.lockSource key)
  let job ← (submitLocked cfg s clientSource clientSourceEventId).tryCatch fun e => do
    update (·.unlockSource key)
    throw e
  update (·.unlockSource key)
  return job

def submitPlain (s : Submission) : Task JobId := do
  let key ← match s.idempotencyKey with
    | some key => pure key
    | none => do
      let u ← uuid7
      pure u.text
  let jobId ← uuid7
  createJob s {} jobId key

def submitJob (cfg : Settings) (s : Submission) : Task JobId :=
  match s.clientSource, s.clientSourceEventId with
  | some clientSource, some clientSourceEventId =>
    submitSourceEvent cfg s clientSource clientSourceEventId
  | _, _ => submitPlain s

end Drnt.Orchestrator
