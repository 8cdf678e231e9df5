import Drnt.Orchestrator.World
import Drnt.Lib.Plan

/-! The requests of the orchestrator's coroutines and the steps they share. A request
that suspends is an await; the others read a clock, a generator or a local subsystem. -/
namespace Drnt.Orchestrator

open Lib Lib.Coop

inductive Exc
  | timeout
  | queueFull
  | dangling
  | runtime (message : String)
  | valueError (message : String)
  | attributeError
  | typeError
  | unicodeError
  | workerPreparation (message : String)
  | workerExecution (message : String)
  | sourceEventConflict (originalJobId : JobId)
  | sourceEventPending (originalJobId : JobId)
  | cancelled
  | other (message : String)
  deriving DecidableEq, Repr

def Exc.message : Exc → String
  | timeout => "Failed to emit durable event after 3 attempts"
  | queueFull | dangling | cancelled => ""
  | runtime m | valueError m | workerPreparation m | workerExecution m | other m => m
  | attributeError => "object has no attribute"
  | typeError => "unhashable type"
  | unicodeError => "surrogates not allowed"
  | sourceEventConflict _ =>
      "Same source event identity was replayed with changed intent. " ++
        "Duplicate execution was blocked. Human reconfirmation path is " ++
        "required before changed intent can be acted on."
  | sourceEventPending _ =>
      "Source event already maps to an existing job that is not yet " ++
        "durable. Duplicate execution was blocked. Retry shortly."

inductive ModelKey
  | localModel | claude | chatgpt | gemini
  deriving DecidableEq, Repr

structure ModelEntry where
  capabilityId : String
  candidateModel : String
  routeId : String
  deriving DecidableEq, Repr

/-- MODEL_MAP, in its order. -/
def modelMap : ModelKey → ModelEntry
  | .localModel => ⟨"route.local", "llama3.1:8b", "ollama-llama3-local"⟩
  | .claude => ⟨"route.cloud.claude", "claude-sonnet-4-20250514", "claude-sonnet-default"⟩
  | .chatgpt => ⟨"route.cloud.openai", "gpt-4o", "openai-gpt4o-default"⟩
  | .gemini => ⟨"route.cloud.gemini", "gemini-2.0-flash", "google-gemini-default"⟩

def modelKeys : List ModelKey := [.localModel, .claude, .chatgpt, .gemini]

/-- The reverse lookup of a capability in MODEL_MAP. -/
def modelOf? (capabilityId : String) : Option ModelEntry :=
  (modelKeys.map modelMap).find? fun entry => entry.capabilityId = capabilityId

/-- What the classifier's parser hands on. -/
structure Classification where
  category : String
  localCapable : Bool
  routing : String
  recommendedModel : ModelKey
  confidence : PyFloat
  deriving DecidableEq, Repr

structure LocalResponse where
  text : Json
  tokenCountIn : Json
  tokenCountOut : Json
  latencyMs : Int
  deriving DecidableEq, Repr

structure WorkerResult where
  success : Bool
  responseText : Json
  tokenCountIn : Json
  tokenCountOut : Json
  latencyMs : Json
  exitCode : Int
  containerId : Option String
  error : Option String
  deriving DecidableEq, Repr

/-- An HTTP reply; the body is absent when it is not JSON. -/
structure HttpReply where
  statusCode : Nat
  body : Option Json
  deriving DecidableEq, Repr

/-- `errorsText` is the error list as an f-string shows it. -/
structure ManifestReport where
  manifestId : String
  workerType : String
  valid : Bool
  errors : List String
  errorsText : String
  warnings : List String
  deriving DecidableEq, Repr

structure Blueprint where
  blueprintId : String
  networkMode : String
  mountCount : Nat
  capDropCount : Nat
  memoryLimit : String
  image : String
  deriving DecidableEq, Repr

structure TeardownReport where
  totalEgressRequests : Nat
  deniedEgressRequests : Nat
  durationSeconds : PyFloat
  deriving DecidableEq, Repr

inductive Req
  | uuid7
  | now
  | workerId
  | manifest (capabilityId : String)
  | blueprint (manifestId : String)
  | teardownReport (workerId : String)
  | recentHeartbeat
  | writeFile (name : Json)
  | storeContext (packageId : Uuid7)
  | emitDurable (e : Event)
  | emitBestEffort (e : Event)
  | sleep
  | hubActive
  | sourceLock (key : String)
  | classify (rawInput : String)
  | generate (prompt : String)
  | execute (workerId prompt model : String)
  | dispatch (c : OutboundCall)
  deriving DecidableEq, Repr

def Ans : Req → Type
  | .uuid7 => Uuid7
  | .now => UtcTime
  | .workerId => String
  | .manifest _ => ManifestReport
  | .blueprint _ => Except String Blueprint
  | .teardownReport _ => TeardownReport
  | .recentHeartbeat => Bool
  | .writeFile _ => Except Exc Unit
  | .storeContext _ => Except Exc String
  | .emitDurable _ => Except Exc Bool
  | .emitBestEffort _ | .sleep | .sourceLock _ => Except Exc Unit
  | .hubActive => Unit
  | .classify _ => Except Exc Classification
  | .generate _ => Except Exc LocalResponse
  | .execute _ _ _ => Except Exc WorkerResult
  | .dispatch _ => Except Exc HttpReply

def suspends : Req → Bool
  | .emitDurable _ | .emitBestEffort _ | .sleep | .hubActive | .sourceLock _ | .classify _
  | .generate _ | .execute _ _ _ | .dispatch _ => true
  | .uuid7 | .now | .workerId | .manifest _ | .blueprint _ | .teardownReport _
  | .recentHeartbeat | .writeFile _ | .storeContext _ => false

abbrev sig : Sig where
  State := World
  Req := Req
  Ans := Ans
  suspends := suspends
  Exc := Exc

abbrev Task (α : Type) := Co sig α

structure EgressRoute where
  routeId : String
  provider : String
  allowedCapabilities : List String
  enabled : Bool

structure Span where
  start : Nat
  stop : Nat
  sensitivityClass : String
  action : String
  patternSource : String

/-- What a deployment fixes: which subsystems are attached, and the functions that the
orchestrator takes from libraries. -/
structure Settings where
  permissionChecker : Bool
  demotionEngine : Bool
  connectivityMonitor : Bool
  /-- Whether the lifecycle has an executor. -/
  workerLifecycle : Option Bool
  /-- The packager's scan and rewrite of a text. -/
  packager : Option (String → String × List Span)
  egressRegistry : Option (List EgressRoute)
  sha256 : String → String
  intentHash : String → String → String
  autoAcceptWindowSeconds : Nat
  staleThresholdSeconds : Nat
  hostname : String

def eventQueueBound : Nat := 256

section Steps

def world : Task World := Co.read

def update (f : World → World) : Task Unit := Co.modify f

def perform (q : Req) : Task (Ans q) := Co.perform (S := sig) q

def orRaise {α : Type} : Except Exc α → Task α
  | .ok a => .ret a
  | .error e => .raise e

def uuid7 : Task Uuid7 := do
  let u : Uuid7 ← perform .uuid7
  update (·.issue u)
  return u

def now : Task UtcTime := perform .now

def build (draft : Draft) : Task Event := do
  let sourceEventId ← uuid7
  let timestamp ← now
  return buildEvent draft sourceEventId timestamp

/-- AuditLogClient.emit_durable: true when the writer has the event, false when it has
rejected it, and an exception when it could not be reached. -/
def emitDurable (e : Event) : Task Bool := do
  update (·.record (.attempted e))
  match (← perform (.emitDurable e) : Except Exc Bool) with
  | .ok true =>
    update (·.record (.answered e .acknowledged))
    return true
  | .ok false =>
    update (·.record (.answered e .rejected))
    return false
  | .error x =>
    update (·.record (.answered e .lost))
    throw x

def emitBestEffort (e : Event) : Task Unit := do
  update (·.record (.bestEffort e))
  orRaise (← perform (.emitBestEffort e))

/-- Build an event and emit it durably; the answer of the client is not looked at. -/
def emit (draft : Draft) : Task Event := do
  let e ← build draft
  let _ ← emitDurable e
  return e

/-- Follow a reference to a job record. -/
def deref (j : JobId) : Task Job := do
  match (← world).job? j with
  | some job => return job
  | none => throw .dangling

def updateJob (j : JobId) (f : Job → Job) : Task Unit := update (·.updateJob j f)

def persistJob (j : JobId) : Task Unit := update (·.persistJob j)

/-- queue.put_nowait: whether the queue had room. -/
def putNowait (j : JobId) : Task Bool := do
  if (← world).queue.length < eventQueueBound then
    update (·.enqueue j)
    return true
  else
    return false

/-- _write_result: the content is written as UTF-8 text under the result id. -/
def writeResult (resultId content : Json) : Task Unit := do
  match content with
  | .str s =>
    match decode? s with
    | some text =>
      match (← perform (.writeFile resultId) : Except Exc Unit) with
      | .ok () => update (·.writeArtifact resultId text)
      | .error e =>
        update (·.record (.unwritten resultId))
        throw e
    | none => throw .unicodeError
  | _ => throw .typeError

theorem outcome_world {α : Type} {f : World → Task α} {w w' : World} {res : Except Exc α}
    {admits : World → (q : Req) → Ans q → Prop} :
    (world >>= f).Outcome admits w res w' ↔ (f w).Outcome admits w res w' := Iff.rfl

end Steps

end Drnt.Orchestrator
