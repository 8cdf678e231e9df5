import Drnt.Wal.System
import Drnt.Lib.Dumps
import Drnt.Lib.EventLoop

/-! What changes the WAL levels: the demotion engine, the decay evaluator and the startup; and
the promotion monitor, which only recommends. -/
namespace Drnt.Wal

open Lib Lib.Coop

section DemotionEngine

/-- A demotion, or why there is none. -/
inductive DemotionResult
  | demoted (cap : PyStr) (fromLevel toLevel : Int) (trigger : Trigger) (sourceEventId : PyStr)
  | kept (reason : String)

def executeDemotion (cap : PyStr) (toLevel : Int) (trigger : Trigger)
    (sourceEventId : Option PyStr) : Prog DemotionResult := do
  let fromLevel ← getEffectiveWal cap
  let config := (← world).registry.get? cap
  let name := (config.map (·.capabilityName)).getD cap
  demote cap toLevel
  resetCounters cap
  match sourceEventId with
  | some id => if id ≠ [] then edit cap (·.withCounters (.incident id))
  | none => pure ()
  let id ← emit (.demoted cap name fromLevel toLevel trigger sourceEventId)
  return .demoted cap fromLevel toLevel trigger id

def contextPackage : PyStr := py "context.package"

def handleStripFailure (sourceEventId : PyStr) : Prog DemotionResult := do
  if (← world).registry.get? contextPackage |>.isNone then
    return .kept "context.package not in registry"
  if (← getEffectiveWal contextPackage) = -1 then return .kept "already_suspended"
  executeDemotion contextPackage (-1) .stripFailure (some sourceEventId)

def handleJobFailure (cap sourceEventId : PyStr) (timestamp : Stamp) : Prog DemotionResult := do
  if isSentinel cap then return .kept "sentinel_excluded"
  if (← world).registry.get? cap |>.isNone then return .kept "unregistered_capability"
  recordFailure cap ⟨timestamp, sourceEventId⟩
  let count ← getRecentFailureCount cap
  if count < failureDemotionThreshold then return .kept "below_threshold"
  let current ← getEffectiveWal cap
  if current ≤ 0 then return .kept "already_at_floor"
  executeDemotion cap (current - 1) .error (some sourceEventId)

/-- Whether the override follows a failure of the infrastructure. -/
def exempt (priorFailure : Option PyStr) : Bool := priorFailure.any isSentinel

def handleOverrideDemotion (overrideType cap : PyStr) (priorFailure : Option PyStr)
    (sourceEventId : PyStr) : Prog DemotionResult := do
  if overrideType ≠ py "cancel" ∧ overrideType ≠ py "redirect" then
    return .kept "not_demotion_override"
  update (·.note (.overridden cap (exempt priorFailure)))
  let current ← getEffectiveWal cap
  if current < 1 then return .kept "wal_below_threshold"
  if exempt priorFailure then return .kept "sentinel_failure_exemption"
  executeDemotion cap (current - 1) .override (some sourceEventId)

def handleModelChange (sourceEventId : Option PyStr) : List PyStr → Prog (List DemotionResult)
  | [] => return []
  | cap :: rest => do
    let current ← getEffectiveWal cap
    if current = 0 then handleModelChange sourceEventId rest
    else do
      let result ← executeDemotion cap 0 .modelChange sourceEventId
      return result :: (← handleModelChange sourceEventId rest)

def handleApprovalDecay (cap : PyStr) : Prog DemotionResult := do
  if (← getEffectiveWal cap) ≠ 3 then return .kept "not_wal_3"
  match score? (← entry cap).counters.evaluableOutcomes with
  | none => return .kept "no_outcomes"
  | some score =>
    if 99 / 100 ≤ score then return .kept "score_acceptable"
    executeDemotion cap 2 .anomaly none

/-- `JobManager._demote_for_override`, which only emits. -/
def demoteForOverride (engine : Bool) (cap : Option PyStr) (jobId overrideType : PyStr) :
    Prog Unit := do
  if engine then
    match cap with
    | none => return ()
    | some cap => let _ ← emit (.jobOverridden cap overrideType jobId)

end DemotionEngine

section DecayEvaluator

structure DecayPolicy where
  windowDays : Int
  minOutcomes : Int

structure DecayConfig where
  systemDefaults : Dict Int DecayPolicy := ∅
  capabilityOverrides : Dict PyStr (Dict Int DecayPolicy) := ∅
  enabled : Bool := true

/-- A policy as the configuration has it, and a dictionary of them under "wal_1" to "wal_3". -/
structure RawPolicy where
  windowDays : Option Int := none
  minOutcomes : Option Int := none

abbrev RawPolicies := Dict PyStr RawPolicy

structure ConfigData where
  decayPolicy : Option RawPolicies := none
  decayOverrides : Dict PyStr RawPolicies := ∅

def levelKeyMap : List (PyStr × Int) := [(py "wal_1", 1), (py "wal_2", 2), (py "wal_3", 3)]

/-- The texts of the ValueErrors. -/
def notPositive (label key field : PyStr) (got : Int) : PyStr :=
  label ++ py " " ++ key ++ py ": " ++ field ++ py " must be > 0, got " ++ Dumps.int got

def notStricter (cap : PyStr) (level : Int) (field relation : PyStr) (got default : Int) : PyStr :=
  py "Override for " ++ cap ++ py " WAL-" ++ Dumps.int level ++ py ": " ++ field ++ py " (" ++
    Dumps.int got ++ py ") " ++ relation ++ py " system default (" ++ Dumps.int default ++
    py ") — overrides must be stricter"

def parsePolicy (label key : PyStr) (entry : RawPolicy) : Except PyStr DecayPolicy :=
  let window := entry.windowDays.getD 0
  let minimum := entry.minOutcomes.getD 0
  if window ≤ 0 then .error (notPositive label key (py "window_days") window)
  else if minimum ≤ 0 then .error (notPositive label key (py "min_outcomes") minimum)
  else .ok ⟨window, minimum⟩

/-- One key of the level map after the other. -/
def parseKeys (raw : RawPolicies) (label : PyStr) (result : Dict Int DecayPolicy) :
    List (PyStr × Int) → Except PyStr (Dict Int DecayPolicy)
  | [] => .ok result
  | (key, level) :: rest =>
    match raw.get? key with
    | none => parseKeys raw label result rest
    | some entry =>
      match parsePolicy label key entry with
      | .error message => .error message
      | .ok policy => parseKeys raw label (result.set level policy) rest

def parsePolicyDict (raw : RawPolicies) (label : PyStr) : Except PyStr (Dict Int DecayPolicy) :=
  parseKeys raw label ∅ levelKeyMap

/-- The message about the first policy of an override that is laxer than the system's. -/
def laxer? (systemDefaults : Dict Int DecayPolicy) (cap : PyStr) (level : Int)
    (policy : DecayPolicy) : Option PyStr :=
  match systemDefaults.get? level with
  | none => none
  | some default =>
    if default.windowDays < policy.windowDays then
      some (notStricter cap level (py "window_days") (py "exceeds") policy.windowDays
        default.windowDays)
    else if policy.minOutcomes < default.minOutcomes then
      some (notStricter cap level (py "min_outcomes") (py "is less than") policy.minOutcomes
        default.minOutcomes)
    else none

def parseOverrides (systemDefaults : Dict Int DecayPolicy)
    (overrides : Dict PyStr (Dict Int DecayPolicy)) :
    List (PyStr × RawPolicies) → Except PyStr (Dict PyStr (Dict Int DecayPolicy))
  | [] => .ok overrides
  | (cap, raw) :: rest =>
    match parsePolicyDict raw (py "override[" ++ cap ++ py "]") with
    | .error message => .error message
    | .ok override =>
      match override.entries.findSome? fun (level, policy) =>
          laxer? systemDefaults cap level policy with
      | some message => .error message
      | none => parseOverrides systemDefaults (overrides.set cap override) rest

/-- Without a "decay_policy" decay is disabled. -/
def loadDecayConfig (data : ConfigData) : Except PyStr DecayConfig :=
  match data.decayPolicy with
  | none => .ok { enabled := false }
  | some raw =>
    match parsePolicyDict raw (py "system_defaults") with
    | .error message => .error message
    | .ok systemDefaults =>
      match parseOverrides systemDefaults ∅ data.decayOverrides.entries with
      | .error message => .error message
      | .ok overrides => .ok ⟨systemDefaults, overrides, true⟩

structure DecayAction where
  cap : PyStr
  fromLevel : Int
  outcomesInWindow : Nat
  windowDays : Int
  minRequired : Int

/-- The policy of the capability, else that of the system. -/
def DecayConfig.policy? (config : DecayConfig) (cap : PyStr) (level : Int) : Option DecayPolicy :=
  match (config.capabilityOverrides.get? cap).bind (·.get? level) with
  | some policy => some policy
  | none => config.systemDefaults.get? level

/-- datetime.min and datetime.max, and the days of timedelta.max. -/
def earliest : Int := -62135596800 * 1000000

def latest : Int := 253402300800 * 1000000 - 1

def maxDays : Nat := 999999999

/-- `now - timedelta(days=...)`, where now is a datetime; one that is not a datetime overflows. -/
def cutoff? (now windowDays : Int) : Option Int :=
  let cutoff := now - windowDays * day
  if windowDays.natAbs ≤ maxDays ∧ earliest ≤ cutoff ∧ (cutoff ≤ latest ∨ cutoff ≤ now) then
    some cutoff
  else none

/-- The outcomes at or after the cutoff, and the latest timestamp; an unreadable one raises. -/
def countOutcomesInWindow (cutoff : Int) : List Outcome → Option Nat
  | [] => some 0
  | o :: rest =>
    match o.timestamp with
    | none => countOutcomesInWindow cutoff rest
    | some ts => do
      let t ← ts.utc?
      let count ← countOutcomesInWindow cutoff rest
      return if cutoff ≤ t then count + 1 else count

def lastOutcomeTimestamp : Option (Int × Stamp) → List Outcome → Option Stamp
  | latest, [] => latest.map Prod.snd
  | latest, o :: rest =>
    match o.timestamp, o.timestamp.bind Stamp.utc?, latest with
    | some ts, some t, none => lastOutcomeTimestamp (some (t, ts)) rest
    | some ts, some t, some (t', ts') =>
      lastOutcomeTimestamp (some (if t' < t then (t, ts) else (t', ts'))) rest
    | _, _, latest => lastOutcomeTimestamp latest rest

/-- The evaluation of one capability; the level is the stored one, whatever the status. -/
def evaluateCapability (config : DecayConfig) (now : Int) (cap : PyStr) :
    Prog (Option DecayAction) := do
  let e ← entry cap
  let current := e.effectiveWalLevel
  if current < 1 then return none
  match config.policy? cap current with
  | none => return none
  | some policy =>
    let outcomes := e.counters.evaluableOutcomes
    let cutoff ← orRaise .overflow (cutoff? now policy.windowDays)
    let inWindow ← orRaise .badTimestamp (countOutcomesInWindow cutoff outcomes)
    if policy.minOutcomes ≤ inWindow then return none
    let _ ← emit (.decayed cap current policy.windowDays inWindow policy.minOutcomes
      (lastOutcomeTimestamp none outcomes))
    demote cap (current - 1)
    resetCounters cap
    return some ⟨cap, current, inWindow, policy.windowDays, policy.minOutcomes⟩

def evaluateAll (config : DecayConfig) (now : Int) : List PyStr → Prog (List DecayAction)
  | [] => return []
  | cap :: rest => do
    let action ← evaluateCapability config now cap
    return action.toList ++ (← evaluateAll config now rest)

def evaluate (config : DecayConfig) : Prog (List DecayAction) := do
  if config.enabled then evaluateAll config (← world).clock (← world).state.entries.keys
  else return []

/-- At most so many passes. -/
def evaluateStartup (config : DecayConfig) : Nat → Prog (List DecayAction)
  | 0 => return []
  | passes + 1 => do
    match ← evaluate config with
    | [] => return []
    | actions => return actions ++ (← evaluateStartup config passes)

end DecayEvaluator

section PromotionMonitor

inductive PromotionCheckResult
  | ready (cap : PyStr) (currentLevel : Int) (evidence : PromotionEvidence)
      (sourceEventId : PyStr)
  | notReady (cap : PyStr) (currentLevel : Int) (reason : String)

def spanDays (now first : Int) : Rat := (now - first : Int) / (day : Rat)

/-- round: the nearest number with so many digits, of two the one that ends even. -/
def roundTo (digits : Nat) (x : Rat) : Rat :=
  let scale : Rat := (10 ^ digits : Nat)
  let low := (x * scale).floor
  let rest := x * scale - low
  let nearest := if rest < 1 / 2 then low else if 1 / 2 < rest then low + 1 else low + low % 2
  nearest / scale

/-- The evidence for a promotion, or why there is none. -/
def weigh (criteria : Criteria) (now : Int) (c : Counters) :
    Prog (Except String PromotionEvidence) := do
  let outcomes := c.evaluableOutcomes.length
  if (outcomes : Rat) < criteria.evaluableOutcomes then return .error "insufficient_outcomes"
  match c.firstJobDate with
  | none => return .error "no_first_job_date"
  | some ts =>
    let first ← orRaise .badTimestamp ts.instant?
    let span := spanDays now first
    if span < criteria.calendarSpanDays then return .error "insufficient_span"
    match score? c.evaluableOutcomes with
    | none => return .error "no_outcomes_for_score"
    | some score =>
      if score < criteria.approvalScoreMin then return .error "score_below_threshold"
      -- zero_strip_failures, zero_cancel_redirect and zero_egress_catches are taken to hold
      if criteria.zeroIncidents ∧ c.lastIncidentSourceEventId.isSome then
        return .error "incident_exists"
      return .ok
        { evaluableOutcomes := outcomes
          calendarSpanDays := roundTo 1 span
          approvalScore := roundTo 4 score
          edgeCases := if 0 < criteria.edgeCaseCountMin then 1 else 0 }

def checkPromotion (cap : PyStr) : Prog PromotionCheckResult := do
  let current ← getEffectiveWal cap
  if current = -1 then return .notReady cap (-1) "suspended"
  match (← world).registry.get? cap with
  | none => return .notReady cap 0 "unknown_capability"
  | some config =>
    if config.maxWal < current + 1 then return .notReady cap current "exceeds_max_wal"
    match config.promotionCriteria.get? current with
    | none => return .notReady cap current "promotion_not_available"
    | some criteria =>
      match ← weigh criteria (← world).clock (← entry cap).counters with
      | .error reason => return .notReady cap current reason
      | .ok evidence =>
        let id ← emit (.promotionRecommended cap current evidence)
        return .ready cap current evidence id

def checkEach : List PyStr → Prog (List PromotionCheckResult)
  | [] => return []
  | cap :: rest =>
    if py "_" <+: cap then checkEach rest
    else do
      let result ← checkPromotion cap
      return result :: (← checkEach rest)

def checkAll : Prog (List PromotionCheckResult) := do checkEach (← world).registry.keys

/-- The admin route that records the outcome of a review. -/
def recordReviewOutcome (cap disposition : PyStr) : Prog PromotionCheckResult := do
  if (← world).registry.get? cap |>.isNone then throw (.unknownCapabilityRequest cap)
  let timestamp : Stamp := .aware (← world).clock
  recordOutcome cap ⟨disposition, some timestamp⟩
  setFirstJobDate cap timestamp
  checkPromotion cap

end PromotionMonitor

end Drnt.Wal
