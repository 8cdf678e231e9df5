import Drnt.Lib.Dumps
import Mathlib.Data.List.DropRight

/-! Runtime manifests and their validation. -/
namespace Drnt.Runtime

open Lib

section Schema

def allowedVolumeBasePaths : List PyStr := ["/inbox", "/outbox", "/skills", "/tmp", "/work"].map py

def forbiddenVolumePaths : List PyStr :=
  ["/", "/etc", "/proc", "/sys", "/dev", "/boot", "/root", "/home"].map py

/-- In sorted order. -/
def requiredDroppedCapabilities : List PyStr :=
  ["MKNOD", "NET_RAW", "SYS_ADMIN", "SYS_PTRACE"].map py

def workerTypeMinWal? (workerType : PyStr) : Option Int :=
  if workerType = py "ollama_local" then some 0
  else if workerType = py "cloud_adapter" then some 0
  else if workerType = py "tool_executor" then some 1
  else none

def auditLogPath : PyStr := py "/var/drnt/audit"

structure VolumeMount where
  path : PyStr
  mode : PyStr
  hostPath : PyStr

structure NetworkPolicy where
  egressAllow : List PyStr := []
  egressDenyAll : Bool := true

structure ResourceLimits where
  maxMemoryMb : Int := 256
  maxCpuSeconds : Int := 60
  maxWallSeconds : Int := 120
  maxDiskMb : Int := 100

structure SecurityPolicy where
  dropCapabilities : List PyStr := [py "ALL"]
  noNewPrivileges : Bool := true

structure SystemResourceCeilings where
  maxMemoryMb : Int := 512
  maxWallSeconds : Int := 300

structure RuntimeManifest where
  capabilityId : PyStr
  workerType : PyStr
  volumes : List VolumeMount := []
  network : NetworkPolicy := {}
  resources : ResourceLimits := {}
  security : SecurityPolicy := {}
  manifestId : PyStr

end Schema

section Validation

structure ManifestValidationResult where
  errors : List PyStr
  warnings : List PyStr

def ManifestValidationResult.valid (r : ManifestValidationResult) : Bool := r.errors.isEmpty

/-- What the validator is built with, and what the registry and the state manager tell it of a
capability: none stands for KeyError. -/
structure ManifestValidator where
  registered : PyStr → Bool
  status : PyStr → Option PyStr
  effectiveWal : PyStr → Option Int
  egressEndpoints : PyStr → Option (List PyStr)
  ceilings : SystemResourceCeilings := {}

/-- The volume path without its trailing slashes; the root stays. -/
def normalized (path : PyStr) : PyStr :=
  if path = py "/" then py "/" else path.rdropWhile (· = Loads.ch '/')

def Below (base path : PyStr) : Prop := (base ++ py "/").isPrefixOf path = true

instance (base path : PyStr) : Decidable (Below base path) :=
  inferInstanceAs (Decidable (_ = true))

def forbiddenError (path : PyStr) : PyStr :=
  py "volume path '" ++ path ++ py "' is a forbidden mount point"

def basePathError (path : PyStr) : PyStr :=
  py "volume path '" ++ path ++ py "' is not under an allowed base path (" ++
    py "/inbox, /outbox, /skills, /tmp, /work" ++ py ")"

def auditError (path : PyStr) : PyStr :=
  py "volume '" ++ path ++ py "' mounted rw overlaps with audit log path '" ++ auditLogPath ++ py "'"

def checkVolume (vol : VolumeMount) : List PyStr :=
  let path := normalized vol.path
  if path ∈ forbiddenVolumePaths ∨ vol.path ∈ forbiddenVolumePaths then [forbiddenError vol.path]
  else
    (if allowedVolumeBasePaths.any fun base => path = base ∨ Below base path then []
      else [basePathError vol.path]) ++
    if vol.mode = py "rw" ∧
        (path = auditLogPath ∨ Below auditLogPath path ∨ Below path auditLogPath) then
      [auditError vol.path]
    else []

def volumeWarnings (vol : VolumeMount) : List PyStr :=
  if vol.path = py "/tmp" ∧ vol.mode = py "rw" then
    [py "manifest declares /tmp rw but no cleanup policy"]
  else []

namespace ManifestValidator

variable (v : ManifestValidator) (m : RuntimeManifest)

def checkCapabilityExists : List PyStr :=
  if v.registered m.capabilityId then []
  else [py "capability_id '" ++ m.capabilityId ++ py "' not found in capability registry"]

def checkCapabilityActive : List PyStr :=
  match v.status m.capabilityId with
  | none => []
  | some status =>
    if status = py "active" then []
    else [py "capability '" ++ m.capabilityId ++ py "' is in state '" ++ status ++
      py "', must be 'active'"]

def checkWalLevel : List PyStr :=
  match workerTypeMinWal? m.workerType with
  | none => [py "unknown worker_type '" ++ m.workerType ++ py "'"]
  | some minWal =>
    match v.effectiveWal m.capabilityId with
    | none => []
    | some effectiveWal =>
      if effectiveWal < minWal then
        [py "worker_type '" ++ m.workerType ++ py "' requires WAL >= " ++ Dumps.int minWal ++
          py ", but capability '" ++ m.capabilityId ++ py "' has effective WAL " ++
          Dumps.int effectiveWal]
      else []

def checkVolumes : List PyStr := m.volumes.flatMap checkVolume

def checkEgressDenyAll : List PyStr :=
  if m.network.egressDenyAll then []
  else [py "egress_deny_all must be True; workers cannot declare open egress"]

def authorized : List PyStr := (v.egressEndpoints m.capabilityId).getD []

def checkEgressEndpoints : List PyStr :=
  m.network.egressAllow.flatMap fun endpoint =>
    if endpoint ∈ v.authorized m then []
    else [py "egress endpoint '" ++ endpoint ++ py "' not authorized for capability '" ++
      m.capabilityId ++ py "' in egress policy"]

def checkDropCapabilities : List PyStr :=
  if py "ALL" ∈ m.security.dropCapabilities then []
  else match requiredDroppedCapabilities.filter (· ∉ m.security.dropCapabilities) with
    | [] => []
    | missing => [py "drop_capabilities missing required entries: [" ++
        (py ", ").intercalate (missing.map fun c => py "'" ++ c ++ py "'") ++ py "]"]

def checkNoNewPrivileges : List PyStr :=
  if m.security.noNewPrivileges then []
  else [py "no_new_privileges must be True; privilege escalation is not permitted"]

def checkMemoryCeiling : List PyStr :=
  if v.ceilings.maxMemoryMb < m.resources.maxMemoryMb then
    [py "max_memory_mb (" ++ Dumps.int m.resources.maxMemoryMb ++
      py ") exceeds system ceiling (" ++ Dumps.int v.ceilings.maxMemoryMb ++ py ")"]
  else []

def checkWallTimeCeiling : List PyStr :=
  if v.ceilings.maxWallSeconds < m.resources.maxWallSeconds then
    [py "max_wall_seconds (" ++ Dumps.int m.resources.maxWallSeconds ++
      py ") exceeds system ceiling (" ++ Dumps.int v.ceilings.maxWallSeconds ++ py ")"]
  else []

/-- Every violation is reported. -/
def validate : ManifestValidationResult where
  errors := v.checkCapabilityExists m ++ v.checkCapabilityActive m ++ v.checkWalLevel m ++
    checkVolumes m ++ checkEgressDenyAll m ++ v.checkEgressEndpoints m ++
    checkDropCapabilities m ++ checkNoNewPrivileges m ++ v.checkMemoryCeiling m ++
    v.checkWallTimeCeiling m
  warnings := m.volumes.flatMap volumeWarnings

end ManifestValidator

end Validation

section Accepted

variable {v : ManifestValidator} {m : RuntimeManifest}

/-- An accepted manifest has passed each rule. -/
structure Accepted (v : ManifestValidator) (m : RuntimeManifest) : Prop where
  volumes : ∀ vol ∈ m.volumes, checkVolume vol = []
  egress : ∀ endpoint ∈ m.network.egressAllow, endpoint ∈ v.authorized m
  memory : m.resources.maxMemoryMb ≤ v.ceilings.maxMemoryMb

theorem accepted_of_valid (valid : (v.validate m).valid = true) : Accepted v m := by
  have none := List.isEmpty_iff.mp valid
  simp only [ManifestValidator.validate, List.append_eq_nil_iff] at none
  obtain ⟨⟨⟨⟨⟨⟨⟨-, volumes⟩, -⟩, egress⟩, -⟩, -⟩, memory⟩, -⟩ := none
  constructor
  case volumes => exact List.flatMap_eq_nil_iff.mp volumes
  case egress =>
    intro endpoint mem
    have checked := List.flatMap_eq_nil_iff.mp egress endpoint mem
    by_contra other
    rw [if_neg other] at checked
    cases checked
  case memory =>
    by_contra exceeds
    rw [ManifestValidator.checkMemoryCeiling, if_pos (Int.not_le.mp exceeds)] at memory
    cases memory

end Accepted

end Drnt.Runtime
