import Drnt.Runtime.Manifest
import Drnt.Lib.PosixPath
import Drnt.Lib.RoundTrip
import Drnt.Lib.Dict

/-! Blueprints of containers, generated from validated manifests. -/
namespace Drnt.Runtime

open Lib

section Engine

structure ContainerMount where
  source : PyStr
  target : PyStr
  readOnly : Bool

structure ContainerNetworkConfig where
  networkMode : PyStr
  dns : List PyStr := []
  egressAllow : List PyStr

structure ContainerSecurityConfig where
  capDrop : List PyStr
  capAdd : List PyStr
  readOnlyRootfs : Bool := true
  noNewPrivileges : Bool := true
  seccompProfilePath : PyStr := py "default"
  tmpfsMounts : List PyStr := [py "/tmp:size=64m,noexec,nosuid"]

structure ContainerResourceConfig where
  memoryLimit : PyStr
  cpuPeriod : Int := 100000
  cpuQuota : Int
  pidsLimit : Int := 256
  storageSize : PyStr

structure ContainerConfig where
  image : PyStr
  command : List PyStr := []
  workingDir : PyStr := py "/work"
  environment : Dict PyStr PyStr := ∅
  labels : Dict PyStr PyStr

structure SandboxBlueprint where
  blueprintId : PyStr
  manifestId : PyStr
  capabilityId : PyStr
  createdAt : PyStr
  containerConfig : ContainerConfig
  mounts : List ContainerMount
  networkConfig : ContainerNetworkConfig
  securityConfig : ContainerSecurityConfig
  resourceConfig : ContainerResourceConfig

structure BlueprintEngine where
  baseDir : PyStr
  image : PyStr

/-- The engine keeps its base directory without trailing slashes. -/
def BlueprintEngine.init (baseDir : PyStr) (image : PyStr) : BlueprintEngine where
  baseDir := baseDir.rdropWhile (· = Loads.ch '/')
  image := image

namespace BlueprintEngine

variable (engine : BlueprintEngine) (m : RuntimeManifest)

def buildContainerConfig (createdAt : PyStr) : ContainerConfig where
  image := engine.image
  labels := ((((Dict.empty.set (py "drnt.manifest_id") m.manifestId).set
    (py "drnt.capability_id") m.capabilityId).set (py "drnt.worker_type") m.workerType).set
    (py "drnt.created_at") createdAt)

def mount (vol : VolumeMount) : ContainerMount where
  source := engine.baseDir ++ vol.hostPath
  target := vol.path
  readOnly := vol.mode = py "ro"

def buildMounts : List ContainerMount := m.volumes.map engine.mount

def buildNetworkConfig : ContainerNetworkConfig where
  networkMode := if m.network.egressAllow ≠ [] then py "drnt-sandbox" else py "none"
  egressAllow := m.network.egressAllow

def buildSecurityConfig : ContainerSecurityConfig where
  capDrop := [py "ALL"]
  capAdd := if m.workerType = py "cloud_adapter" then [py "NET_BIND_SERVICE"] else []

def megabytes (n : Int) : PyStr := Dumps.int n ++ py "m"

def buildResourceConfig : ContainerResourceConfig where
  memoryLimit := megabytes m.resources.maxMemoryMb
  cpuQuota := m.resources.maxCpuSeconds * 100000
  storageSize := megabytes m.resources.maxDiskMb

/-- The identifier and the time are new each time; the error names the violations. -/
def generate (blueprintId createdAt : PyStr) (result : ManifestValidationResult) :
    Except (List PyStr) SandboxBlueprint :=
  if result.valid then .ok {
    blueprintId
    manifestId := m.manifestId
    capabilityId := m.capabilityId
    createdAt
    containerConfig := engine.buildContainerConfig m createdAt
    mounts := engine.buildMounts m
    networkConfig := buildNetworkConfig m
    securityConfig := buildSecurityConfig m
    resourceConfig := buildResourceConfig m }
  else .error result.errors

end BlueprintEngine

end Engine

section Paths

def names (path : PyStr) : List PyStr := PosixPath.resolve (Loads.ch '/') (Loads.ch '.') path

/-- A path is a directory or below it, once dots are resolved. -/
def Inside (base path : PyStr) : Prop := names base <+: names path

def Overlaps (a b : PyStr) : Prop := Inside a b ∨ Inside b a

instance (base path : PyStr) : Decidable (Inside base path) :=
  inferInstanceAs (Decidable (_ <+: _))

instance (a b : PyStr) : Decidable (Overlaps a b) := inferInstanceAs (Decidable (_ ∨ _))

/-- A host path comes back to the base directory: the segments behind its slash return, or,
glued to the last name of the base directory, it resolves inside nevertheless. -/
def ComesBack (baseDir : PyStr) : PyStr → Prop
  | [] => True
  | c :: rest =>
    if c = Loads.ch '/' then PosixPath.Returns (Loads.ch '.') (names baseDir)
      (PosixPath.segments (Loads.ch '/') rest)
    else Inside baseDir (baseDir.rdropWhile (· = Loads.ch '/') ++ c :: rest)

theorem names_trimmed (baseDir : PyStr) :
    names (baseDir.rdropWhile (· = Loads.ch '/')) = names baseDir :=
  PosixPath.resolve_rdropWhile baseDir

theorem comesBack_iff (baseDir hostPath : PyStr) :
    Inside baseDir (baseDir.rdropWhile (· = Loads.ch '/') ++ hostPath) ↔
      ComesBack baseDir hostPath := by
  cases hostPath with
  | nil =>
    rw [List.append_nil, Inside, names_trimmed]
    exact iff_of_true (List.prefix_refl _) trivial
  | cons c rest =>
    by_cases slash : c = Loads.ch '/'
    · subst slash
      rw [ComesBack, if_pos rfl, Inside, ← names_trimmed baseDir]
      exact PosixPath.inside_append
    · rw [ComesBack, if_neg slash]

/-- An allowed base path is one name below the root, and not that of the audit log. -/
theorem allowed_names : ∀ base ∈ allowedVolumeBasePaths,
    names base = [base.drop 1] ∧ base.drop 1 ≠ py "var" := by
  have table : (allowedVolumeBasePaths.all fun base =>
      names base = [base.drop 1] ∧ base.drop 1 ≠ py "var") = true := by decide +kernel
  intro base mem
  exact of_decide_eq_true (List.all_eq_true.mp table base mem)

theorem audit_names : names auditLogPath = [py "var", py "drnt", py "audit"] := by decide +kernel

/-- What follows an allowed base path leads below one exactly when its segments return there. -/
theorem inside_allowed {base rest : PyStr} (allowed : base ∈ allowedVolumeBasePaths) :
    (∃ other ∈ allowedVolumeBasePaths, Inside other (base ++ Loads.ch '/' :: rest)) ↔
      ∃ other ∈ allowedVolumeBasePaths, PosixPath.Returns (Loads.ch '.') (names other)
        (PosixPath.segments (Loads.ch '/') rest) := by
  by_cases climbs :
      (PosixPath.net (Loads.ch '.') (PosixPath.segments (Loads.ch '/') rest)).1 = 0
  · have stays : PosixPath.Returns (Loads.ch '.') (names base)
        (PosixPath.segments (Loads.ch '/') rest) := by simp [PosixPath.Returns, climbs]
    exact iff_of_true ⟨base, allowed, PosixPath.inside_append.mpr stays⟩ ⟨base, allowed, stays⟩
  · -- the base path is left, and what is named after it decides
    have left_ : 1 - (PosixPath.net (Loads.ch '.') (PosixPath.segments (Loads.ch '/') rest)).1 =
        0 := by omega
    refine exists_congr fun other => and_congr_right fun listed => ?_
    have walked : names (base ++ Loads.ch '/' :: rest) =
        (PosixPath.net (Loads.ch '.') (PosixPath.segments (Loads.ch '/') rest)).2 := by
      rw [names, PosixPath.resolve_append, PosixPath.walk_net]
      have one : PosixPath.resolve (Loads.ch '/') (Loads.ch '.') base = [base.drop 1] :=
        (allowed_names base allowed).1
      rw [one, List.length_singleton, left_]
      rfl
    rw [Inside, walked, PosixPath.Returns, (allowed_names other listed).1, List.length_singleton,
      left_, List.drop_zero]

/-- Nothing inside an allowed base path overlaps the audit log. -/
theorem apart_from_audit {base path : PyStr} (allowed : base ∈ allowedVolumeBasePaths)
    (inside : Inside base path) : ¬Overlaps auditLogPath path := by
  obtain ⟨one, other⟩ := allowed_names base allowed
  obtain ⟨rest, path_names⟩ := inside
  rw [one] at path_names
  have first {a b : PyStr} {s t : List PyStr} (h : a :: s <+: b :: t) : a = b :=
    (List.cons_prefix_cons.mp h).1
  intro overlaps
  cases overlaps with
  | inl below =>
    rw [Inside, audit_names, ← path_names] at below
    exact other (first below).symm
  | inr above =>
    rw [Inside, audit_names, ← path_names] at above
    exact other (first above)

end Paths

section Grants

/-- What a blueprint may grant at most. -/
structure Granted (v : ManifestValidator) (m : RuntimeManifest) (baseDir : PyStr)
    (b : SandboxBlueprint) : Prop where
  sources : ∀ mount ∈ b.mounts, Inside baseDir mount.source
  targets : ∀ mount ∈ b.mounts, ∃ base ∈ allowedVolumeBasePaths, Inside base mount.target
  writable : ∀ (i : Nat) (vol : VolumeMount) (mount : ContainerMount),
    m.volumes[i]? = some vol → b.mounts[i]? = some mount → mount.readOnly = false →
    vol.mode = py "rw"
  audit : ∀ mount ∈ b.mounts, mount.readOnly = false → ¬Overlaps auditLogPath mount.target
  memory : ∃ mb, b.resourceConfig.memoryLimit = BlueprintEngine.megabytes mb ∧
    0 < mb ∧ mb ≤ v.ceilings.maxMemoryMb
  egress : ∀ endpoint ∈ b.networkConfig.egressAllow, endpoint ∈ v.authorized m
  network : b.networkConfig.egressAllow = [] → b.networkConfig.networkMode = py "none"

/-- A declared volume stays within what validation is meant to allow. -/
structure Confined (baseDir : PyStr) (vol : VolumeMount) : Prop where
  host : ComesBack baseDir vol.hostPath
  path : ∀ base ∈ allowedVolumeBasePaths, ∀ rest, vol.path = base ++ Loads.ch '/' :: rest →
    ∃ other ∈ allowedVolumeBasePaths, PosixPath.Returns (Loads.ch '.') (names other)
      (PosixPath.segments (Loads.ch '/') rest)
  mode : vol.mode = py "ro" ∨ vol.mode = py "rw"

/-- The validator takes a path that is an allowed base path or continues it. -/
theorem accepted_path {vol : VolumeMount} (accepted : checkVolume vol = []) :
    ∃ base ∈ allowedVolumeBasePaths,
      vol.path = base ∨ ∃ rest, vol.path = base ++ Loads.ch '/' :: rest := by
  dsimp only [checkVolume] at accepted
  split at accepted
  case isTrue => cases accepted
  case isFalse permitted =>
    have based := (List.append_eq_nil_iff.mp accepted).1
    have found : (allowedVolumeBasePaths.any fun base =>
        normalized vol.path = base ∨ Below base (normalized vol.path)) = true := by
      by_contra none
      rw [if_neg none] at based
      cases based
    obtain ⟨base, listed, fits⟩ := List.any_eq_true.mp found
    have root : vol.path ≠ py "/" := by
      intro root
      exact permitted (.inr (by rw [root]; decide))
    have trimmed : normalized vol.path = vol.path.rdropWhile (· = Loads.ch '/') := if_neg root
    refine ⟨base, listed, ?_⟩
    rw [trimmed] at fits
    cases of_decide_eq_true fits with
    | inl same =>
      have whole : base ++ vol.path.rtakeWhile (· = Loads.ch '/') = vol.path := by
        rw [← same, List.rdropWhile_append_rtakeWhile]
      cases slashes : vol.path.rtakeWhile (· = Loads.ch '/') with
      | nil => exact .inl (by rw [← whole, slashes, List.append_nil])
      | cons c rest =>
        have slash : c = Loads.ch '/' := by
          have mem : c ∈ vol.path.rtakeWhile (· = Loads.ch '/') := by
            rw [slashes]
            exact List.mem_cons_self
          have taken := List.mem_rtakeWhile_imp mem
          simpa using taken
        exact .inr ⟨rest, by rw [← whole, slashes, slash]⟩
    | inr below =>
      obtain ⟨rest, eq⟩ := (List.isPrefixOf_iff_prefix.mp below).trans (List.rdropWhile_prefix _ _)
      exact .inr ⟨rest, by rw [← eq, List.append_assoc]; rfl⟩

theorem megabytes_injective : Function.Injective BlueprintEngine.megabytes :=
  fun _ _ h => Loads.int_injective (List.append_cancel_right h)

theorem granted_iff (v : ManifestValidator) (m : RuntimeManifest)
    (baseDir image blueprintId createdAt : PyStr) (valid : (v.validate m).valid = true) :
    ∃ b, (BlueprintEngine.init baseDir image).generate m blueprintId createdAt (v.validate m) =
        .ok b ∧
      (Granted v m baseDir b ↔
        (∀ vol ∈ m.volumes, Confined baseDir vol) ∧ 0 < m.resources.maxMemoryMb) := by
  have accepted := accepted_of_valid valid
  refine ⟨_, if_pos valid, ?_⟩
  set engine := BlueprintEngine.init baseDir image
  constructor
  · intro granted
    constructor
    · intro vol mem
      have mounted : engine.mount vol ∈ engine.buildMounts m := List.mem_map_of_mem mem
      constructor
      case host => exact (comesBack_iff baseDir vol.hostPath).mp (granted.sources _ mounted)
      case path =>
        intro base allowed rest eq
        have target := granted.targets _ mounted
        exact (inside_allowed allowed).mp (eq ▸ target)
      case mode =>
        by_cases ro : vol.mode = py "ro"
        · exact .inl ro
        · obtain ⟨i, at_⟩ := List.getElem?_of_mem mem
          have there : (engine.buildMounts m)[i]? = some (engine.mount vol) := by
            rw [BlueprintEngine.buildMounts, List.getElem?_map, at_]
            rfl
          exact .inr (granted.writable i vol _ at_ there (decide_eq_false ro))
    · obtain ⟨mb, same, positive, -⟩ := granted.memory
      rw [megabytes_injective same]
      exact positive
  · rintro ⟨confined, positive⟩
    have targets : ∀ vol ∈ m.volumes, ∃ base ∈ allowedVolumeBasePaths, Inside base vol.path := by
      intro vol mem
      obtain ⟨base, allowed, same | ⟨rest, eq⟩⟩ := accepted_path (accepted.volumes vol mem)
      · exact ⟨base, allowed, same ▸ List.prefix_refl _⟩
      · exact eq ▸ (inside_allowed allowed).mpr ((confined vol mem).path base allowed rest eq)
    constructor
    case sources =>
      intro mount mounted
      obtain ⟨vol, mem, rfl⟩ := List.mem_map.mp mounted
      exact (comesBack_iff baseDir vol.hostPath).mpr (confined vol mem).host
    case targets =>
      intro mount mounted
      obtain ⟨vol, mem, rfl⟩ := List.mem_map.mp mounted
      exact targets vol mem
    case writable =>
      intro i vol mount at_ there writable
      have same : mount = engine.mount vol := by
        rw [BlueprintEngine.buildMounts, List.getElem?_map, at_] at there
        exact (Option.some.inj there).symm
      rw [same] at writable
      have mem := List.mem_of_getElem? at_
      exact (confined vol mem).mode.resolve_left (of_decide_eq_false writable)
    case audit =>
      intro mount mounted _
      obtain ⟨vol, mem, rfl⟩ := List.mem_map.mp mounted
      obtain ⟨base, allowed, inside⟩ := targets vol mem
      exact apart_from_audit allowed inside
    case memory => exact ⟨m.resources.maxMemoryMb, rfl, positive, accepted.memory⟩
    case egress => exact accepted.egress
    case network =>
      intro none
      exact if_neg (not_not.mpr none)

end Grants

section Sample

/-- The validator of a repository that knows the capability route.local at level 0. -/
def sampleValidator : ManifestValidator where
  registered c := c = py "route.local"
  status c := if c = py "route.local" then some (py "active") else none
  effectiveWal c := if c = py "route.local" then some 0 else none
  egressEndpoints c := if c = py "route.local" then some [py "ollama:11434"] else none

def sampleManifest (path mode hostPath : String) : RuntimeManifest where
  capabilityId := py "route.local"
  workerType := py "ollama_local"
  volumes := [⟨py path, py mode, py hostPath⟩]
  manifestId := py "manifest"

def sampleBlueprint (m : RuntimeManifest) : Except (List PyStr) SandboxBlueprint :=
  (BlueprintEngine.init (py "/var/drnt/workers") (py "drnt-worker:latest")).generate m
    (py "blueprint") (py "2026-01-01T00:00:00.000000Z") (sampleValidator.validate m)

/-- A writable mount over the audit log, by a path that begins like an allowed one. -/
theorem audit_mounted :
    let m := sampleManifest "/work/../var/drnt/audit" "rw" "/job/work"
    ∃ b, sampleBlueprint m = .ok b ∧ ¬Granted sampleValidator m (py "/var/drnt/workers") b := by
  intro m
  have valid : (sampleValidator.validate m).valid = true := by decide +kernel
  rw [sampleBlueprint, BlueprintEngine.generate, if_pos valid]
  refine ⟨_, rfl, ?_⟩
  intro granted
  have overlaps : Overlaps auditLogPath (py "/work/../var/drnt/audit") := by decide +kernel
  have writable : decide (py "rw" = py "ro") = false := by decide +kernel
  exact granted.audit _ (List.mem_singleton_self _) writable overlaps

/-- An inbox to read, a directory to work in, and the endpoint of the local model. -/
def workManifest : RuntimeManifest :=
  { sampleManifest "/inbox" "ro" "/job/inbox" with
    volumes := [⟨py "/inbox", py "ro", py "/job/inbox"⟩, ⟨py "/work", py "rw", py "/job/work"⟩]
    network := { egressAllow := [py "ollama:11434"] } }

theorem granted_iff_witness :
    ∃ b, sampleBlueprint workManifest = .ok b ∧ b.mounts.map (·.readOnly) = [true, false] ∧
      b.networkConfig.egressAllow = [py "ollama:11434"] ∧
      Granted sampleValidator workManifest (py "/var/drnt/workers") b := by
  have valid : (sampleValidator.validate workManifest).valid = true := by decide +kernel
  obtain ⟨b, generated, iff⟩ := granted_iff sampleValidator workManifest (py "/var/drnt/workers")
    (py "drnt-worker:latest") (py "blueprint") (py "2026-01-01T00:00:00.000000Z") valid
  have made := generated
  rw [BlueprintEngine.generate, if_pos valid] at made
  cases made
  refine ⟨_, generated, by decide +kernel, rfl, iff.mpr ⟨?_, by decide⟩⟩
  have both : ∀ vol ∈ workManifest.volumes,
      Inside (py "/var/drnt/workers")
        ((py "/var/drnt/workers").rdropWhile (· = Loads.ch '/') ++ vol.hostPath) ∧
      (vol.path ∈ allowedVolumeBasePaths) ∧ (vol.mode = py "ro" ∨ vol.mode = py "rw") := by
    decide +kernel
  intro vol mem
  obtain ⟨host, path, mode⟩ := both vol mem
  refine ⟨(comesBack_iff ..).mp host, fun base allowed rest eq => ?_, mode⟩
  exact (inside_allowed allowed).mp ⟨vol.path, path, eq ▸ List.prefix_refl _⟩

end Sample

end Drnt.Runtime
