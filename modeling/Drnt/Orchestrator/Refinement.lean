import Drnt.Orchestrator.Refinement.Submit
import Drnt.Orchestrator.Refinement.Override
import Drnt.Orchestrator.Refinement.Review
import Drnt.Orchestrator.Refinement.Pipeline
import Drnt.Orchestrator.Refinement.Recovery

/-! Every coroutine of the orchestrator follows the protocol. -/
namespace Drnt.Orchestrator

open Lib Lib.Coop

/-- The refinement: whatever a call is and whenever it may start, each of its writes is a
write of the protocol, and it ends as the protocol says. -/
theorem body_follows {cfg : Settings} {w : World} {t : Call} (may : mayStart w t) :
    Follows discipline (first t w) w (body cfg t) (Ends cfg t) := by
  cases t with
  | startup => exact startup_follows
  | worker j => exact workerIteration_follows may
  | autoAccept => exact autoAcceptPoll_follows
  | submit s => exact submitJob_follows
  | override j r => exact overrideJob_follows
  | review j r device => exact reviewJob_follows
  | checkPermission capabilityId action ctx mode => exact checkPermission_ends
  | setHub target reason => exact changeHub_follows
  | configure capabilities states routes => exact configure_follows

theorem plan_sound (cfg : Settings) : (plan cfg).Sound where
  follows may := body_follows may
  answers {w q a} h := by
    cases q with
    | uuid7 => exact h
    | sourceLock key => exact h.imp (·.1) id
    | _ => trivial

end Drnt.Orchestrator
