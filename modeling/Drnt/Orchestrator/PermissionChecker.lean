import Drnt.Orchestrator.Task

/-! The evaluator of action policies; every check emits a durable event. -/
namespace Drnt.Orchestrator

open Lib Lib.Coop

structure JobContext where
  jobId : JobId
  estCost : Option Rat := none
  humanApproved : Bool := false
  resultAccepted : Bool := false
  deriving DecidableEq, Repr

structure PermissionDecision where
  result : String
  deliveryHold : Bool := false
  holdType : Option String := none
  blockReason : Option String := none
  dependencyMode : Option String := none
  capabilityId : String := ""
  requestedAction : String := ""
  currentLevel : Int := 0
  requiredLevel : Option Int := none
  deriving DecidableEq, Repr

/-- A decision with the id of the event that records it. -/
structure PermissionResult extends PermissionDecision where
  sourceEventId : Uuid7
  deriving DecidableEq, Repr

def levelPolicy? (cap : Capability) (level : Int) (action : String) : Option Policy :=
  ((cap.actionPolicies.get? (toString level)).getD ∅).get? action

/-- The lowest WAL level at which the action is not blocked. -/
def computeRequiredLevel (cap : Capability) (action : String) : Option Int :=
  [0, 1, 2, 3].find? fun level => match levelPolicy? cap level action with
    | none | some .blocked => false
    | some _ => true

/-- get_effective_wal: a suspended capability is at level -1. -/
def effectiveWal? (w : World) (capabilityId : String) : Option Int :=
  (w.capabilityStates.get? capabilityId).map fun entry =>
    if entry.status = "suspended" then -1 else entry.effectiveWalLevel

/-- The verdict of the two gates of a policy, without the fields that every result shares. -/
def gateVerdict (gates : ReviewPolicy) (ctx : JobContext) : PermissionDecision :=
  if (do let gate ← gates.costGateUsd; let cost ← ctx.estCost; return decide (cost > gate)).getD
      false then
    { result := "held", holdType := some "cost_approval" }
  else if gates.reviewGate = "pre_action" then
    if ctx.humanApproved then { result := "allowed" }
    else { result := "held", holdType := some "pre_action" }
  else if gates.reviewGate = "pre_delivery" then
    { result := "allowed", deliveryHold := true }
  else if gates.reviewGate = "post_action" then { result := "allowed" }
  else if gates.reviewGate = "on_accept" then
    if ctx.resultAccepted then { result := "allowed" }
    else { result := "held", holdType := some "on_accept" }
  else { result := "allowed" }

/-- The decision of check_permission; a policy that is neither "blocked" nor an object
raises. -/
def decidePermission (w : World) (capabilityId action : String) (ctx : JobContext)
    (dependencyMode : Option String) : Except Exc PermissionDecision :=
  let base : PermissionDecision :=
    { result := "blocked", dependencyMode, capabilityId, requestedAction := action }
  match w.capabilities.get? capabilityId with
  | none => .ok { base with blockReason := some "unknown_capability" }
  | some cap =>
    match effectiveWal? w capabilityId with
    | none => .ok { base with blockReason := some "unknown_capability" }
    | some level =>
      let atLevel := { base with
        currentLevel := level
        requiredLevel := computeRequiredLevel cap action }
      if level = -1 then .ok { atLevel with blockReason := some "suspended" }
      else match levelPolicy? cap level action with
        | none | some .blocked => .ok { atLevel with blockReason := some "action_not_permitted" }
        | some .other => .error .attributeError
        | some (.gates gates) =>
          let verdict := gateVerdict gates ctx
          .ok { atLevel with
            result := verdict.result
            deliveryHold := verdict.deliveryHold
            holdType := verdict.holdType }

def permissionEvent (result : PermissionDecision) (ctx : JobContext) : Draft :=
  eventWalPermissionCheck ctx.jobId result.capabilityId result.requestedAction
    result.currentLevel result.requiredLevel result.result result.deliveryHold result.holdType
    result.blockReason result.dependencyMode (some result.currentLevel)

def emitAndAttach (result : PermissionDecision) (ctx : JobContext) : Task PermissionResult := do
  let event ← emit (permissionEvent result ctx)
  return { result with sourceEventId := event.sourceEventId }

def checkPermission (capabilityId action : String) (ctx : JobContext)
    (dependencyMode : Option String) : Task PermissionResult := do
  let result ← orRaise (decidePermission (← world) capabilityId action ctx dependencyMode)
  emitAndAttach result ctx

end Drnt.Orchestrator
