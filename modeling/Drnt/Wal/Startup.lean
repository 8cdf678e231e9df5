import Drnt.Wal.Handlers

/-! The startup sequence, and all calls on the capability state as one system. -/
namespace Drnt.Wal

open Lib Lib.Coop

section Reconcile

/-- One capability of `reconcile`; the result is the number of WAL events. -/
def reconcileCapability (cap : PyStr) (config : Capability) : Prog Nat := do
  let desired := config.desiredWalLevel
  let effective ← getEffectiveWal cap
  if desired = effective then return 0
  if effective < desired then
    let _ ← emit (.promoted cap config.capabilityName effective desired)
    setEffectiveWal cap desired
    if effective = -1 then edit cap (·.activate)
    return 1
  else
    let _ ← emit (.demoted cap config.capabilityName effective desired .manual none)
    demote cap desired
    resetCounters cap
    return 1

def reconcile : List (PyStr × Capability) → Prog Nat
  | [] => return 0
  | (cap, config) :: rest => do
    let events ← reconcileCapability cap config
    return events + (← reconcile rest)

end Reconcile

section Run

/-- What a startup finds: an accepted registry, if it is one, and the errors of the gate
relaxation and of sensitivity.json. -/
structure Files where
  config : Option ConfigFile
  gateErrors : List PyStr := []
  sensitivityErrors : List PyStr := []

inductive StartupResult
  | failed
  | succeeded (configHash : PyStr) (ollamaModel : Option PyStr) (reconciliationEvents : Nat)
  deriving DecidableEq

/-- Step 6: reconcile if the configuration is not the last one. -/
def compareConfig : Prog Nat := do
  let s ← world
  let previous := s.state.metadata.map (·.lastConfigHash)
  if previous = some s.configHash then
    update (·.enter .starting)
    return 0
  else
    update (·.enter .reconciling)
    let events ← reconcile s.registry.entries
    let _ ← emit (.configChange previous s.configHash)
    update (·.enter .starting)
    return events

/-- Step 4 and on: the state is there, and reconciled. -/
def settle : Prog Nat := do
  if (← world).saved then compareConfig
  else do
    update World.initializeFromRegistry
    compareConfig

/-- The capabilities that a model change affects. -/
def affected (registry : Registry) : List PyStr := registry.keys.filter fun cap => ¬ py "_" <+: cap

/-- Whether the model is known to have changed. -/
def modelChanged (last : Option Metadata) (model digest : Option PyStr) : Bool :=
  match last.bind (·.lastOllamaModel), model with
  | some previous, some new =>
    previous ≠ new ∨ last.bind (·.lastOllamaDigest) ≠ digest
  | _, _ => false

/-- Step 7, where `last` is the metadata that the startup has found. -/
def checkModel (last : Option Metadata) (model digest : Option PyStr) : Prog Unit := do
  if modelChanged last model digest then
    let caps := affected (← world).registry
    let id ← emit (.modelChange ((last.bind (·.lastOllamaModel)).getD []) (model.getD []) caps)
    let _ ← handleModelChange (some id) caps

/-- Steps 7 to 10. -/
def conclude (last : Option Metadata) (events : Nat) : Prog StartupResult := do
  let (model, digest) : Option PyStr × Option PyStr ← Co.perform (S := sig) .ollamaModelInfo
  checkModel last model digest
  update (·.updateMeta model digest)
  let hash := (← world).configHash
  let _ ← emit (.startup hash model digest)
  update (·.enter .up)
  return .succeeded hash model events

/-- `startup.run`; the files that are refused leave the state alone. -/
def startup (files : Files) : Prog StartupResult := do
  match files.config with
  | none => return .failed
  | some file =>
    update (·.loadRegistry file)
    if files.gateErrors ≠ [] ∨ files.sensitivityErrors ≠ [] then return .failed
    let last := (← world).state.metadata
    let events ← settle
    conclude last events

end Run

section Machine

inductive Tag
  | startup (files : Files)
  | stripFailure (sourceEventId : PyStr)
  | jobFailure (cap sourceEventId : PyStr) (timestamp : Stamp)
  | overrideDemotion (overrideType cap : PyStr) (priorFailure : Option PyStr)
      (sourceEventId : PyStr)
  | modelChange (caps : List PyStr) (sourceEventId : Option PyStr)
  | approvalDecay (cap : PyStr)
  | jobOverride (engine : Bool) (cap : Option PyStr) (jobId overrideType : PyStr)
  | evaluate (config : DecayConfig)
  | evaluateStartup (config : DecayConfig) (passes : Nat)
  | recordOutcome (cap disposition : PyStr)
  | checkPromotion (cap : PyStr)
  | checkAll
  | tick (d : Nat)

def Tag.Res : Tag → Type
  | .startup _ => StartupResult
  | .stripFailure _ | .jobFailure .. | .overrideDemotion .. | .approvalDecay _ => DemotionResult
  | .modelChange .. => List DemotionResult
  | .evaluate _ | .evaluateStartup .. => List DecayAction
  | .recordOutcome .. | .checkPromotion _ => PromotionCheckResult
  | .checkAll => List PromotionCheckResult
  | .jobOverride .. | .tick _ => Unit

def Tag.body : (t : Tag) → Prog t.Res
  | .startup files => Wal.startup files
  | .stripFailure id => handleStripFailure id
  | .jobFailure cap id timestamp => handleJobFailure cap id timestamp
  | .overrideDemotion type cap prior id => handleOverrideDemotion type cap prior id
  | .modelChange caps id => handleModelChange id caps
  | .approvalDecay cap => handleApprovalDecay cap
  | .jobOverride engine cap jobId type => demoteForOverride engine cap jobId type
  | .evaluate config => Wal.evaluate config
  | .evaluateStartup config passes => Wal.evaluateStartup config passes
  | .recordOutcome cap disposition => recordReviewOutcome cap disposition
  | .checkPromotion cap => Wal.checkPromotion cap
  | .checkAll => Wal.checkAll
  | .tick d => update (·.tick d)

/-- The calls come once the process is up; a startup comes before. -/
def Tag.Starts (s : World) : Tag → Prop
  | .startup _ => s.phase = .down
  | .tick _ => True
  | .stripFailure _ | .jobFailure .. | .overrideDemotion .. | .modelChange .. | .approvalDecay _
  | .jobOverride .. | .evaluate _ | .evaluateStartup .. | .recordOutcome .. | .checkPromotion _
  | .checkAll => s.phase = .up

def machine : Machine sig where
  Tag := Tag
  Res := Tag.Res
  body := Tag.body
  starts := Tag.Starts
  answers _ _ _ := True
  reboot s s' := ∃ late, (∀ e ∈ late, e ∈ s.unlogged) ∧ s' = s.restart late

/-- No state file and an empty log. -/
def initial : Config machine := Config.boot machine {}

end Machine

end Drnt.Wal
