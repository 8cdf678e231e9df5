import Drnt.Events
import Drnt.Lib.Dict

/-! The connectivity monitor: a circuit breaker for each egress route. -/
namespace Drnt.Connectivity

open Lib

section Breaker

inductive CircuitState | closed | open_ | halfOpen
  deriving DecidableEq, Repr

def CircuitState.value : CircuitState → String
  | .closed => "closed"
  | .open_ => "open"
  | .halfOpen => "half_open"

/-- CircuitState(value), which raises on any other text. -/
def CircuitState.ofValue? (s : String) : Option CircuitState :=
  if s = "closed" then some .closed
  else if s = "open" then some .open_
  else if s = "half_open" then some .halfOpen
  else none

theorem CircuitState.ofValue?_value (s : CircuitState) : ofValue? s.value = some s := by
  cases s <;> rfl

def failuresToOpen : Nat := 2

def successesToClosed : Nat := 3

structure RouteHealth where
  routeId : String
  state : CircuitState := .closed
  consecutiveFailures : Nat := 0
  consecutiveSuccesses : Nat := 0
  lastProbeTime : Option UtcTime := none
  lastSuccessTime : Option UtcTime := none
  lastFailureTime : Option UtcTime := none
  deriving DecidableEq, Repr

/-- What a row of the table state holds of a route. -/
structure Row where
  state : String
  consecutiveFailures : Nat
  consecutiveSuccesses : Nat
  lastSuccessTime : Option UtcTime
  lastFailureTime : Option UtcTime
  lastProbeTime : Option UtcTime
  deriving DecidableEq, Repr

def RouteHealth.row (rh : RouteHealth) : Row where
  state := rh.state.value
  consecutiveFailures := rh.consecutiveFailures
  consecutiveSuccesses := rh.consecutiveSuccesses
  lastSuccessTime := rh.lastSuccessTime
  lastFailureTime := rh.lastFailureTime
  lastProbeTime := rh.lastProbeTime

/-- The result of a probe in the counters. -/
def RouteHealth.count (rh : RouteHealth) (success : Bool) (now : UtcTime) : RouteHealth :=
  if success then
    { rh with
      consecutiveSuccesses := rh.consecutiveSuccesses + 1
      consecutiveFailures := 0
      lastSuccessTime := some now }
  else
    { rh with
      consecutiveFailures := rh.consecutiveFailures + 1
      consecutiveSuccesses := 0
      lastFailureTime := some now }

/-- The state that the counters and the old state give. -/
def RouteHealth.newState (rh : RouteHealth) : CircuitState :=
  if failuresToOpen ≤ rh.consecutiveFailures then .open_
  else if successesToClosed ≤ rh.consecutiveSuccesses then .closed
  else if rh.state = .open_ ∧ 1 ≤ rh.consecutiveSuccesses then .halfOpen
  else if rh.state = .closed ∧ rh.consecutiveFailures = 1 then .closed
  else rh.state

def stateMap : CircuitState → String
  | .open_ => "down"
  | .closed => "up"
  | .halfOpen => "degraded"

end Breaker

section Monitor

/-- The rows of the table state under `circuit:`, by the rest of their keys. -/
abbrev Table := Dict String Row

/-- The monitor, its database, and the events it has handed to `_emit_event`. -/
structure World where
  health : Dict String RouteHealth
  db : Table
  emitted : List Event

/-- A row is read into the entry of its route; a value that is no state ends the loop. -/
def loadRows (health : Dict String RouteHealth) : List (String × Row) → Dict String RouteHealth
  | [] => health
  | (routeId, data) :: rows =>
    match health.get? routeId with
    | none => loadRows health rows
    | some rh =>
      match CircuitState.ofValue? data.state with
      | none => health
      | some state =>
        loadRows (health.set routeId { rh with
          state := state
          consecutiveFailures := data.consecutiveFailures
          consecutiveSuccesses := data.consecutiveSuccesses
          lastSuccessTime := data.lastSuccessTime.or rh.lastSuccessTime
          lastFailureTime := data.lastFailureTime.or rh.lastFailureTime
          lastProbeTime := data.lastProbeTime.or rh.lastProbeTime }) rows

def fresh (routes : List String) : Dict String RouteHealth :=
  routes.foldl (fun health rid => health.set rid { routeId := rid }) ∅

/-- A monitor on a database; what was emitted before stays emitted. -/
def start (routes : List String) (db : Table) (emitted : List Event) : World :=
  ⟨loadRows (fresh routes) db.entries, db, emitted⟩

def World.getRouteHealth (w : World) (routeId : String) : Option RouteHealth := w.health.get? routeId

def RouteHealth.available (rh : RouteHealth) : Bool := rh.state = .closed ∨ rh.state = .halfOpen

def World.isRouteAvailable (w : World) (routeId : String) : Bool :=
  match w.health.get? routeId with
  | none => false
  | some rh => rh.available

def World.getAvailableRoutes (w : World) : List String :=
  (w.health.entries.filter fun (_, rh) => rh.available).map Prod.fst

/-- A probe: the status that the route answered with, if it did, and what an event about it
would be built with. -/
structure Probe where
  routeId : String
  now : UtcTime
  statusCode : Option Nat
  queuedCount : Nat
  sourceEventId : Uuid7
  timestamp : UtcTime

def Probe.success (p : Probe) : Bool := p.statusCode.any (· < 500)

def onStateChange (p : Probe) (newState : CircuitState) : Event :=
  buildEvent (eventSystemConnectivityHubCloud (stateMap newState) [p.routeId] p.queuedCount)
    p.sourceEventId p.timestamp

def World.recordResult (w : World) (rh : RouteHealth) (p : Probe) : World :=
  let counted := rh.count p.success p.now
  let rh' := { counted with state := counted.newState }
  { health := w.health.set p.routeId rh'
    db := w.db.set p.routeId rh'.row
    emitted := if rh'.state ≠ rh.state then w.emitted ++ [onStateChange p rh'.state] else w.emitted }

/-- A route that is not configured is not probed. -/
def World.probeRoute (w : World) (p : Probe) : World :=
  match w.health.get? p.routeId with
  | none => w
  | some rh => w.recordResult { rh with lastProbeTime := some p.now } p

end Monitor

end Drnt.Connectivity
