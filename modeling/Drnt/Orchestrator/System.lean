import Drnt.Orchestrator.Submit
import Drnt.Orchestrator.Override
import Drnt.Orchestrator.Review
import Drnt.Orchestrator.Pipeline
import Drnt.Orchestrator.Recovery

/-! The orchestrator as a system of coroutines. -/
namespace Drnt.Orchestrator

open Lib Lib.Coop

/-- What can be started: the startup, the two loops' iterations, the requests of clients,
and changes that other subsystems make to what the checks read. -/
inductive Call
  | startup
  | worker (j : JobId)
  | autoAccept
  | submit (s : Submission)
  | override (j : JobId) (r : OverrideRequest)
  | review (j : JobId) (r : ReviewRequest) (device : String)
  | checkPermission (capabilityId action : String) (ctx : JobContext)
      (dependencyMode : Option String)
  | setHub (target : HubState) (reason : String)
  | configure (capabilities : Dict String Capability)
      (states : Dict String CapabilityState) (routes : List String)

def Call.Res : Call → Type
  | submit _ => JobId
  | override _ _ => OverrideReply
  | review _ _ _ => Reply
  | checkPermission _ _ _ _ => PermissionResult
  | startup | worker _ | autoAccept | setHub _ _ | configure _ _ _ => Unit

/-- suspend, resume and confirm_authority: the change of state, and its event in a task of
its own. -/
def changeHub (hostname : String) (target : HubState) (reason : String) : Task Unit := do
  let old := (← world).hub
  if old ≠ target then
    update (·.setHub target)
    (do let _ ← emit (eventHubStateChange old.value target.value reason hostname)).tryCatch
      fun _ => pure ()

def World.configured (w : World) (capabilities : Dict String Capability)
    (states : Dict String CapabilityState) (routes : List String) : World :=
  { w with capabilities := capabilities, capabilityStates := states, availableRoutes := routes }

def body (cfg : Settings) : (c : Call) → Co sig c.Res
  | .startup => startup cfg
  | .worker j => workerIteration cfg j
  | .autoAccept => autoAcceptPoll cfg
  | .submit s => submitJob cfg s
  | .override j r => overrideJob cfg j r
  | .review j r device => reviewJob j r device cfg
  | .checkPermission capabilityId action ctx mode => checkPermission capabilityId action ctx mode
  | .setHub target reason => changeHub cfg.hostname target reason
  | .configure capabilities states routes => update (·.configured capabilities states routes)

/-- Requests are served once startup has finished; the worker takes the head of the queue
when it is free. -/
def mayStart (w : World) : Call → Prop
  | .startup => w.phase = .stopped
  | .worker j => w.phase = .serving ∧ w.processing = none ∧ w.queue.head? = some j
  | .autoAccept => w.phase = .serving ∧ w.polling = false
  | .configure _ _ _ => True
  | .submit _ | .override _ _ | .review _ _ _ | .checkPermission _ _ _ _ | .setHub _ _ =>
      w.phase = .serving

def isCancelled {α : Type} : Except Exc α → Bool
  | .error .cancelled => true
  | _ => false

/-- The durable events whose emission is part of the request of a submission. -/
def submissionTypes : List String := ["job.submitted", "source_event.conflict"]

/-- A generated id is fresh (no earlier id, and no text that is a key of the store), a lock
is granted when it is free, and the worker goes on when the hub is active. The task of a
submission can be cancelled at each of its awaits. Apart from that, a lock, a sleep and a
best-effort event do not fail, and every other request can get any answer of its type. -/
def mayAnswer (w : World) : (q : Req) → Ans q → Prop
  | .uuid7, (u : Uuid7) => u ∉ w.issued ∧ w.records.get? u.text = none
  | .hubActive, _ => w.hub = .active
  | .sourceLock key, (a : Except Exc Unit) =>
      a = .ok () ∧ key ∉ w.sourceEventLocks ∨ a = .error .cancelled
  | .sleep, (a : Except Exc Unit) | .emitBestEffort _, (a : Except Exc Unit) =>
      a = .ok () ∨ a = .error .cancelled
  | .emitDurable e, (a : Except Exc Bool) =>
      isCancelled a = true → e.eventType ∈ submissionTypes
  | .classify _, (a : Except Exc Classification) => isCancelled a = false
  | .generate _, (a : Except Exc LocalResponse) => isCancelled a = false
  | .execute _ _ _, (a : Except Exc WorkerResult) => isCancelled a = false
  | .dispatch _, (a : Except Exc HttpReply) => isCancelled a = false
  | .writeFile _, (a : Except Exc Unit) => isCancelled a = false
  | .storeContext _, (a : Except Exc String) => isCancelled a = false
  | .now, _ | .workerId, _ | .manifest _, _ | .blueprint _, _ | .teardownReport _, _
  | .recentHeartbeat, _ => True

abbrev orchestrator (cfg : Settings) : Machine sig where
  Tag := Call
  Res := Call.Res
  body := body cfg
  starts := mayStart
  answers := mayAnswer
  reboot w w' := w' = w.restart

end Drnt.Orchestrator
