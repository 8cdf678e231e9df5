import Drnt.Wal.State

/-! The process around the capability state: the registry, the audit log and what is on its
way to it. The state manager's memory and its file are one here, since every operation saves
what it changes before the next await. -/
namespace Drnt.Wal

open Lib Lib.Coop

section Registry

/-- What a promotion needs; thresholds and flags that the file leaves out are 0 and false. -/
structure Criteria where
  evaluableOutcomes : Rat := 0
  calendarSpanDays : Rat := 0
  approvalScoreMin : Rat := 0
  zeroStripFailures : Bool := false
  zeroCancelRedirect : Bool := false
  edgeCaseCountMin : Rat := 0
  zeroIncidents : Bool := false
  zeroEgressCatches : Bool := false
  deriving DecidableEq

/-- A capability of an accepted registry. The criteria of the key "l_to_m", where m is
l + 1, stand under l. -/
structure Capability where
  capabilityName : PyStr
  desiredWalLevel : Int
  maxWal : Int
  promotionCriteria : Dict Int Criteria := ∅
  desired_nonneg : 0 ≤ desiredWalLevel := by decide
  desired_le_max : desiredWalLevel ≤ maxWal := by decide
  max_le : maxWal ≤ 3 := by decide
  deriving DecidableEq

abbrev Registry := Dict PyStr Capability

/-- An accepted capabilities.json: the hash of its bytes, and its capabilities. -/
structure ConfigFile where
  configHash : PyStr
  capabilities : Registry
  deriving DecidableEq

def sentinelFailureIds : List PyStr :=
  ["egress_config", "egress_connectivity", "worker_sandbox"].map py

def isSentinel (cap : PyStr) : Bool := cap ∈ sentinelFailureIds

end Registry

section Events

inductive Trigger | stripFailure | error | override | modelChange | anomaly | manual
  deriving DecidableEq

structure PromotionEvidence where
  evaluableOutcomes : Nat := 0
  calendarSpanDays : Rat := 0
  approvalScore : Rat := 0
  stripFailures : Nat := 0
  cancelRedirectOverrides : Nat := 0
  edgeCases : Nat := 0
  deriving DecidableEq

inductive Body
  | promoted (cap name : PyStr) (fromLevel toLevel : Int)
  | demoted (cap name : PyStr) (fromLevel toLevel : Int) (trigger : Trigger)
      (incidentRef : Option PyStr)
  | decayed (cap : PyStr) (fromLevel windowDays : Int) (outcomesInWindow : Nat) (minRequired : Int)
      (lastOutcome : Option Stamp)
  | jobOverridden (cap overrideType jobId : PyStr)
  | configChange (previous : Option PyStr) (new : PyStr)
  | modelChange (previous new : PyStr) (affected : List PyStr)
  | startup (configHash : PyStr) (model version : Option PyStr)
  | promotionRecommended (cap : PyStr) (currentLevel : Int) (evidence : PromotionEvidence)
  deriving DecidableEq

structure Event where
  sourceEventId : PyStr
  body : Body
  deriving DecidableEq

/-- The level change that a WAL event tells of; the job manager's own event claims the step
from 0 to -1. -/
def Body.change? : Body → Option (PyStr × Int × Int)
  | .promoted cap _ f t | .demoted cap _ f t _ _ => some (cap, f, t)
  | .decayed cap f .. => some (cap, f, f - 1)
  | .jobOverridden cap .. => some (cap, 0, -1)
  | .configChange .. | .modelChange .. | .startup .. | .promotionRecommended .. => none

/-- The capability that a decay is about to lower, and the level that it starts from. -/
def Body.decay? : Body → Option (PyStr × Int)
  | .decayed cap f .. => some (cap, f)
  | .promoted .. | .demoted .. | .jobOverridden .. | .configChange .. | .modelChange ..
  | .startup .. | .promotionRecommended .. => none

/-- The events that go out before the change they tell of. -/
def Body.announces : Body → Bool
  | .promoted .. | .decayed .. => true
  | .demoted _ _ _ _ trigger _ => trigger = .manual
  | .jobOverridden .. | .configChange .. | .modelChange .. | .startup ..
  | .promotionRecommended .. => false

end Events

section Worlds

/-- How far the process is: no startup yet, in `reconcile`, past it, started. -/
inductive Phase | down | reconciling | starting | up
  deriving DecidableEq

def Phase.rank : Phase → Nat
  | .down => 0
  | .reconciling => 1
  | .starting => 2
  | .up => 3

/-- What has happened to capabilities, for the statements about runs. -/
inductive Happening
  | entered (cap : PyStr) (before : Option Int) (level : Int) (at_ : Int)
  | recorded (cap : PyStr)
  | overridden (cap : PyStr) (exempt : Bool)
  deriving DecidableEq

/-- `inFlight` are the events whose emit is under way, `unlogged` those of them that the log
does not hold yet, in the order sent; `history` is newest first; `unsettled` says that a
reconcile has written since the metadata was last written. -/
structure World where
  state : TrustState := {}
  saved : Bool := false
  registry : Registry := ∅
  configHash : PyStr := []
  phase : Phase := .down
  log : List Event := []
  inFlight : List Event := []
  unlogged : List Event := []
  clock : Int := 0
  unsettled : Bool := false
  history : List Happening := []

namespace World

def entryAt? (s : World) (cap : PyStr) : Option Entry := s.state.entries.get? cap

def level? (s : World) (cap : PyStr) : Option Int := (s.entryAt? cap).map Entry.effective

/-- The level that a capability enters when its entry is changed. -/
def entrance (cap : PyStr) (f : Entry → Entry) (s : World) : List Happening :=
  match s.entryAt? cap with
  | none => []
  | some e =>
    if (f e).effective = e.effective then []
    else [.entered cap (some e.effective) (f e).effective s.clock]

/-- Change an entry and save. -/
def edit (cap : PyStr) (f : Entry → Entry) (s : World) : World :=
  { s with
    state := { s.state with entries := s.state.entries.modify cap f }
    unsettled := s.unsettled || s.phase = .reconciling
    history := s.entrance cap f ++ s.history }

def note (h : Happening) (s : World) : World := { s with history := h :: s.history }

def recordOutcome (cap : PyStr) (o : Outcome) (s : World) : World :=
  (s.edit cap (·.withCounters (.record o))).note (.recorded cap)

/-- `registry.load`. -/
def loadRegistry (file : ConfigFile) (s : World) : World :=
  { s with registry := file.capabilities, configHash := file.configHash }

def initializeFromRegistry (s : World) : World :=
  { s with
    state := { entries := s.registry.keys.foldl (fun d cap => d.set cap {}) ∅ }
    saved := true
    history := s.registry.keys.map (fun cap => .entered cap none 0 s.clock) ++ s.history }

/-- The phases only advance. -/
def enter (phase : Phase) (s : World) : World :=
  if s.phase.rank < phase.rank then { s with phase := phase } else s

/-- The metadata takes the place of whatever stood under its key. -/
def updateMeta (model digest : Option PyStr) (s : World) : World :=
  { s with
    state := { entries := s.state.entries.erase metaKey
               metadata := some ⟨s.configHash, model, digest⟩ }
    saved := true
    unsettled := false }

def send (e : Event) (s : World) : World :=
  { s with inFlight := s.inFlight ++ [e], unlogged := s.unlogged ++ [e] }

def record (e : Event) (s : World) : World :=
  { s with log := s.log ++ [e], unlogged := s.unlogged.erase e }

/-- The emit of an event is over; one that was never logged is lost. -/
def arrive (e : Event) (logged : Bool) (s : World) : World :=
  { s with inFlight := s.inFlight.erase e
           unlogged := if logged then s.unlogged else s.unlogged.erase e }

def tick (d : Nat) (s : World) : World := { s with clock := s.clock + d }

/-- What the next process finds; the log may still get events that were on their way. -/
def restart (late : List Event) (s : World) : World :=
  { s with registry := ∅, configHash := [], phase := .down, log := s.log ++ late,
           inFlight := [], unlogged := [] }

end World

inductive Delivery | accepted | rejected | lost

/-- An emit waits for its event to reach the log, and then for the acknowledgement. -/
inductive Req
  | deliver (e : Event)
  | acknowledge (e : Event)
  | ollamaModelInfo
  | uuid7

def Req.Ans : Req → Type
  | .deliver _ => Delivery
  | .acknowledge _ => Bool
  | .ollamaModelInfo => Option PyStr × Option PyStr
  | .uuid7 => PyStr

def Req.suspends : Req → Bool
  | .deliver _ | .acknowledge _ | .ollamaModelInfo => true
  | .uuid7 => false

inductive Error
  | unknownCapability (cap : PyStr)
  | unknownCapabilityRequest (cap : PyStr)
  | badTimestamp
  | overflow
  | timeout
  deriving DecidableEq

abbrev sig : Sig := ⟨World, Req, Req.Ans, Req.suspends, Error⟩

abbrev Prog := Co sig

end Worlds

section Operations

def world : Prog World := Co.read

def update (f : World → World) : Prog Unit := Co.modify f

def orRaise {α : Type} (e : Error) : Option α → Prog α
  | some a => return a
  | none => throw e

/-- `emit_durable`: whether the log writer took the event is not looked at by its callers. -/
def emitDurable (e : Event) : Prog Unit := do
  update (·.send e)
  match ← Co.perform (S := sig) (.deliver e) with
  | .accepted =>
    update (·.record e)
    let acknowledged : Bool ← Co.perform (S := sig) (.acknowledge e)
    update (·.arrive e true)
    if acknowledged then return () else throw .timeout
  | .rejected => update (·.arrive e false)
  | .lost =>
    update (·.arrive e false)
    throw .timeout

/-- Build an event and emit it; the result is its source_event_id. -/
def emit (body : Body) : Prog PyStr := do
  let id ← Co.perform (S := sig) .uuid7
  emitDurable ⟨id, body⟩
  return id

def entry (cap : PyStr) : Prog Entry := do
  orRaise (.unknownCapability cap) ((← world).entryAt? cap)

def getEffectiveWal (cap : PyStr) : Prog Int := return (← entry cap).effective

def edit (cap : PyStr) (f : Entry → Entry) : Prog Unit := do
  let _ ← entry cap
  update (·.edit cap f)

def setEffectiveWal (cap : PyStr) (level : Int) : Prog Unit := edit cap (·.setLevel level)

def demote (cap : PyStr) (toLevel : Int) : Prog Unit := edit cap (·.demote toLevel)

def resetCounters (cap : PyStr) : Prog Unit := edit cap (·.withCounters .reset)

def recordOutcome (cap : PyStr) (o : Outcome) : Prog Unit := do
  let _ ← entry cap
  update (·.recordOutcome cap o)

def recordFailure (cap : PyStr) (f : Failure) : Prog Unit := edit cap (·.withCounters (.fail f))

def evictOldFailures (cap : PyStr) : Prog Unit := do
  let e ← entry cap
  let kept ← orRaise .badTimestamp (recent? (← world).clock e.counters.recentFailures)
  edit cap (·.withCounters (.evict kept))

def getRecentFailureCount (cap : PyStr) : Prog Nat := do
  evictOldFailures cap
  return (← entry cap).counters.recentFailures.length

def setFirstJobDate (cap : PyStr) (ts : Stamp) : Prog Unit := do
  let e ← entry cap
  if e.counters.firstJobDate = none then edit cap (·.withCounters (.firstJob ts))

end Operations

end Drnt.Wal
