import Drnt.WorkerProxy.Registry
import Drnt.Lib.PosixPath
import Drnt.Lib.Dict
import Drnt.Lib.Checks

/-! Requests to the worker proxy: their validation, and what is handed to Docker. -/
namespace Drnt.WorkerProxy

open Lib

section Requests

structure ContainerRunRequest where
  image : PyStr
  name : PyStr
  labels : Dict PyStr PyStr := ∅
  environment : Dict PyStr PyStr := ∅
  volumes : Dict PyStr (Dict PyStr PyStr) := ∅
  securityOpt : List PyStr := []
  memLimit : PyStr := Lib.py "256m"
  pidsLimit : Int := 64
  capDrop : List PyStr := [Lib.py "ALL"]
  readOnly : Bool := true
  tmpfs : Dict PyStr PyStr := ∅
  networkMode : Option PyStr := none
  network : Option PyStr := none
  wallTimeout : Int := 300

/-- Why a request is refused. -/
inductive Rejection
  | capDrop | readOnly | securityOpt
  | networkMode (mode : PyStr)
  | image (image : PyStr)
  | noNetwork
  | network (network : PyStr)
  | networkBesideNone
  | volume (source : PyStr)
  | memParse
  | memLimit (limit cap : PyStr)
  | pidsLimit (limit cap : Int)
  | wallTimeout (limit cap : Int)
  | label (actual : Option PyStr)
  deriving DecidableEq, Repr

def sandboxBasePath : PyStr := Lib.py "/var/drnt/workers/"

def sandboxContainerPath : PyStr := Lib.py "/var/drnt/workers"

/-- The validators of single fields; every failure is reported. -/
def fieldErrors (req : ContainerRunRequest) : List Rejection :=
  (if Lib.py "ALL" ∈ req.capDrop then [] else [.capDrop]) ++
  (if req.readOnly then [] else [.readOnly]) ++
  (if Lib.py "no-new-privileges" ∈ req.securityOpt then [] else [.securityOpt]) ++
  match req.networkMode with
  | none => []
  | some mode => if mode = Lib.py "none" then [] else [.networkMode mode]

def checkNetwork (reg : Registry) (req : ContainerRunRequest) : Except Rejection Unit :=
  match req.networkMode, req.network with
  | none, none => .error .noNetwork
  | none, some network =>
    if network ∈ reg.allowedNetworks then .ok () else .error (.network network)
  | some _, some _ => .error .networkBesideNone
  | some _, none => .ok ()

def checkVolumes (reg : Registry) : List PyStr → Except Rejection Unit
  | [] => .ok ()
  | src :: rest =>
    if sandboxBasePath.isPrefixOf src then checkVolumes reg rest
    else if src ∈ reg.allowedVolumeNames then checkVolumes reg rest
    else .error (.volume src)

variable (py : Interpreter)

def checkMemory (reg : Registry) (req : ContainerRunRequest) : Except Rejection Unit :=
  match parseMemBytes py req.memLimit, parseMemBytes py reg.caps.memLimitMax with
  | some mem, some cap =>
    if cap < mem then .error (.memLimit req.memLimit reg.caps.memLimitMax) else .ok ()
  | _, _ => .error .memParse

def enforceRegistryAllowlist (reg : Registry) (req : ContainerRunRequest) :
    Except Rejection Unit := do
  if req.image ∉ reg.approvedImages then throw (.image req.image)
  checkNetwork reg req
  checkVolumes reg req.volumes.keys
  checkMemory py reg req
  if reg.caps.pidsLimitMax < req.pidsLimit then
    throw (.pidsLimit req.pidsLimit reg.caps.pidsLimitMax)
  if reg.caps.wallTimeoutMax < req.wallTimeout then
    throw (.wallTimeout req.wallTimeout reg.caps.wallTimeoutMax)
  let marker := req.labels.get? (Lib.py "drnt.role")
  if marker ≠ some (Lib.py "worker") then throw (.label marker)

/-- The validators of the model; the allowlist is looked at when the fields are valid. -/
def validate (reg : Registry) (req : ContainerRunRequest) : Except (List Rejection) Unit :=
  match fieldErrors req with
  | [] => (enforceRegistryAllowlist py reg req).mapError ([·])
  | errors => .error errors

end Requests

section Containers

structure CreateKwargs where
  image : PyStr
  name : PyStr
  labels : Dict PyStr PyStr
  environment : Dict PyStr PyStr
  volumes : Dict PyStr (Dict PyStr PyStr)
  capDrop : List PyStr
  readOnly : Bool
  securityOpt : List PyStr
  memLimit : PyStr
  pidsLimit : Int
  tmpfs : Dict PyStr PyStr
  detach : Bool := true
  networkMode : Option PyStr
  network : Option PyStr

/-- The host path of a source, for a sandbox at `base`. -/
def translate (base src : PyStr) : PyStr :=
  if (sandboxContainerPath ++ [Loads.ch '/']).isPrefixOf src then
    base ++ src.drop sandboxContainerPath.length
  else if src = sandboxContainerPath then base
  else src

def translateVolumes (hostSandboxBase : Option PyStr) (volumes : Dict PyStr (Dict PyStr PyStr)) :
    Dict PyStr (Dict PyStr PyStr) :=
  match hostSandboxBase with
  | none | some [] => volumes
  | some base => volumes.entries.foldl (fun translated e => translated.set (translate base e.1) e.2) ∅

/-- The arguments with which _run_container_sync creates the container. -/
def createKwargs (hostSandboxBase : Option PyStr) (req : ContainerRunRequest) : CreateKwargs where
  image := req.image
  name := req.name
  labels := req.labels
  environment := req.environment
  volumes := translateVolumes hostSandboxBase req.volumes
  capDrop := req.capDrop
  readOnly := req.readOnly
  securityOpt := req.securityOpt
  memLimit := req.memLimit
  pidsLimit := req.pidsLimit
  tmpfs := req.tmpfs
  networkMode := req.networkMode.filter (· ≠ [])
  network := if req.networkMode.any (· ≠ []) then none else req.network.filter (· ≠ [])

end Containers

section Accepted

variable {py : Interpreter} {reg : Registry} {req : ContainerRunRequest}

/-- A request is accepted when every check passes. -/
theorem allowlist_iff : enforceRegistryAllowlist py reg req = .ok () ↔
    req.image ∈ reg.approvedImages ∧ checkNetwork reg req = .ok () ∧
    checkVolumes reg req.volumes.keys = .ok () ∧ checkMemory py reg req = .ok () ∧
    req.pidsLimit ≤ reg.caps.pidsLimitMax ∧ req.wallTimeout ≤ reg.caps.wallTimeoutMax ∧
    req.labels.get? (Lib.py "drnt.role") = some (Lib.py "worker") := by
  unfold enforceRegistryAllowlist
  refine Checks.guard_ok.trans (and_congr not_not ?_)
  refine Checks.check_ok.trans (and_congr_right fun _ => ?_)
  refine Checks.check_ok.trans (and_congr_right fun _ => ?_)
  refine Checks.check_ok.trans (and_congr_right fun _ => ?_)
  refine Checks.guard_ok.trans (and_congr Int.not_lt ?_)
  refine Checks.guard_ok.trans (and_congr Int.not_lt ?_)
  by_cases marked : req.labels.get? (Lib.py "drnt.role") = some (Lib.py "worker")
  · simp [marked, pure, Except.pure]
  · simp [marked, throw, throwThe, MonadExceptOf.throw]

theorem validate_iff : validate py reg req = .ok () ↔
    fieldErrors req = [] ∧ enforceRegistryAllowlist py reg req = .ok () := by
  unfold validate
  cases fieldErrors req with
  | nil => cases enforceRegistryAllowlist py reg req <;> simp [Except.mapError]
  | cons e errors => simp

theorem checkVolumes_iff {sources : List PyStr} : checkVolumes reg sources = .ok () ↔
    ∀ src ∈ sources, sandboxBasePath <+: src ∨ src ∈ reg.allowedVolumeNames := by
  induction sources with
  | nil => simp [checkVolumes]
  | cons src rest ih =>
    rw [checkVolumes, List.forall_mem_cons, ← ih, ← List.isPrefixOf_iff_prefix]
    by_cases base : sandboxBasePath.isPrefixOf src = true
    · simp [base]
    · by_cases named : src ∈ reg.allowedVolumeNames
      · simp [base, named]
      · simp [base, named]

theorem checkMemory_iff : checkMemory py reg req = .ok () ↔
    ∃ mem cap, parseMemBytes py req.memLimit = some mem ∧
      parseMemBytes py reg.caps.memLimitMax = some cap ∧ mem ≤ cap := by
  unfold checkMemory
  cases parseMemBytes py req.memLimit with
  | none => simp
  | some mem =>
    cases parseMemBytes py reg.caps.memLimitMax with
    | none => simp
    | some cap => simp

end Accepted

section Sandbox

variable {py : Interpreter} {reg : Registry} {req : ContainerRunRequest}

def Inside (base path : PyStr) : Prop := PosixPath.Inside (Loads.ch '/') (Loads.ch '.') base path

instance (base path : PyStr) : Decidable (Inside base path) :=
  inferInstanceAs (Decidable (PosixPath.Inside _ _ base path))

/-- A path below a directory comes back to it after all its dots. -/
def StaysIn (base rest : PyStr) : Prop :=
  PosixPath.Returns (Loads.ch '.') (PosixPath.resolve (Loads.ch '/') (Loads.ch '.') base)
    (PosixPath.segments (Loads.ch '/') rest)

theorem inside_iff {base rest : PyStr} :
    Inside base (base ++ Loads.ch '/' :: rest) ↔ StaysIn base rest :=
  PosixPath.inside_append

theorem inside_root (path : PyStr) : Inside [] path := List.nil_prefix

theorem staysIn_root (rest : PyStr) : StaysIn [] rest :=
  (PosixPath.inside_walk ..).mp List.nil_prefix

theorem sandbox_path (rest : PyStr) :
    sandboxBasePath ++ rest = sandboxContainerPath ++ Loads.ch '/' :: rest := by
  have base : sandboxBasePath = sandboxContainerPath ++ [Loads.ch '/'] := by decide
  rw [base, List.append_assoc, List.singleton_append]

theorem translate_below (base rest : PyStr) :
    translate base (sandboxBasePath ++ rest) = base ++ Loads.ch '/' :: rest := by
  have below : (sandboxContainerPath ++ [Loads.ch '/']).isPrefixOf
      (sandboxContainerPath ++ Loads.ch '/' :: rest) = true :=
    List.isPrefixOf_iff_prefix.mpr ⟨rest, by rw [List.append_assoc]; rfl⟩
  rw [sandbox_path, translate, if_pos below, List.drop_left]

theorem translate_other {base src : PyStr} (other : ¬sandboxBasePath <+: src) :
    translate base src = if src = sandboxContainerPath then base else src := by
  have other : ¬(sandboxContainerPath ++ [Loads.ch '/']).isPrefixOf src = true :=
    fun below => other (List.isPrefixOf_iff_prefix.mp below)
  rw [translate, if_neg other]

/-- The sources handed to Docker are those of the request, each translated. -/
theorem mem_sources {base src : PyStr} (resolved : base ≠ []) :
    src ∈ (createKwargs (some base) req).volumes.keys ↔
      ∃ asked ∈ req.volumes.keys, translate base asked = src := by
  cases base with
  | nil => exact absurd rfl resolved
  | cons c base =>
    have written := Dict.mem_keys_foldl_set (f := translate (c :: base)) (j := src)
      req.volumes.entries ∅
    rw [Dict.keys_empty, or_iff_right List.not_mem_nil] at written
    exact written

end Sandbox

section Limits

variable (py : Interpreter)

/-- Memory as Docker enforces it, in bytes; none is unlimited. -/
def dockerMemory (memLimit : PyStr) : Option Int :=
  (parseMemBytes py memLimit).filter fun bytes => bytes ≠ 0 ∧ bytes ≠ -1

/-- Processes as Docker counts them; none is unlimited. -/
def dockerPids (pidsLimit : Int) : Option Int := if 0 < pidsLimit then some pidsLimit else none

/-- The container's limits are finite and within the caps. -/
structure Capped (caps : RegistryCaps) (kwargs : CreateKwargs) : Prop where
  memory : ∃ bytes cap, dockerMemory py kwargs.memLimit = some bytes ∧
    parseMemBytes py caps.memLimitMax = some cap ∧ bytes ≤ cap
  pids : ∃ pids, dockerPids kwargs.pidsLimit = some pids ∧ pids ≤ caps.pidsLimitMax

variable {py} {reg : Registry} {req : ContainerRunRequest}

end Limits

section Sample

/-- The interpreter on ASCII. -/
def ascii : Interpreter where
  lower s := s.map fun c => if 0x41 ≤ c.val ∧ c.val ≤ 0x5a then Fin.ofNat _ (c.val + 0x20) else c
  isDigit c := decide (0x30 ≤ c.val ∧ c.val ≤ 0x39)
  decimal? c := if 0x30 ≤ c.val ∧ c.val ≤ 0x39 then some (c.val - 0x30) else none

/-- The registry of the repository's configuration. -/
def configured : Registry where
  approvedImages := [Lib.py "drnt-worker:latest"]
  allowedNetworks := [Lib.py "drnt-sandbox"]
  allowedVolumeNames := [Lib.py "drnt-sandbox-workdir"]
  caps := {}

def sampleRequest (source memLimit : String) : ContainerRunRequest where
  image := Lib.py "drnt-worker:latest"
  name := Lib.py "worker"
  labels := Dict.empty.set (Lib.py "drnt.role") (Lib.py "worker")
  volumes := Dict.empty.set (Lib.py source)
    (Dict.empty.set (Lib.py "bind") (Lib.py "/inbox"))
  securityOpt := [Lib.py "no-new-privileges"]
  memLimit := Lib.py memLimit
  network := some (Lib.py "drnt-sandbox")

def mountpoint : PyStr := Lib.py "/var/lib/docker/volumes/drnt-sandbox-workdir/_data"

end Sample

end Drnt.WorkerProxy
