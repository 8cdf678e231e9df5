import Drnt.Envelope
import Drnt.Runtime.Blueprint
import Drnt.Runtime.EgressRoutes
import Drnt.WorkerProxy.Run

/-! From the manifest of a capability to the container that the worker proxy creates. -/
namespace Drnt.Runtime

open Lib
open WorkerProxy (ContainerRunRequest Interpreter Registry CreateKwargs createKwargs parseMemBytes)

section Executor

def slash : CodePoint := Loads.ch '/'

def dot : CodePoint := Loads.ch '.'

/-- A path object: its root and its parts, without empty ones and dots. -/
structure Path where
  root : PyStr
  parts : List PyStr
  deriving DecidableEq

namespace Path

/-- Exactly two slashes in front are a root of their own. -/
def rootOf (text : PyStr) : PyStr :=
  if text.head? ≠ some slash then []
  else if text[1]? ≠ some slash ∨ text[2]? = some slash then py "/"
  else py "//"

def parse (text : PyStr) : Path where
  root := rootOf text
  parts := (PosixPath.segments slash text).filter fun s => s ≠ [] ∧ s ≠ [dot]

/-- The `/` of a path and a text. -/
def join (p : Path) (name : PyStr) : Path :=
  let q := parse name
  if q.root ≠ [] then q else ⟨p.root, p.parts ++ q.parts⟩

def text (p : Path) : PyStr :=
  if p.root = [] ∧ p.parts = [] then py "." else p.root ++ (py "/").intercalate p.parts

end Path

/-- What the executor reads of the security configuration. -/
structure SecurityConfig where
  seccompProfile : Option PyStr
  networkMode : PyStr
  memLimit : PyStr
  pidsLimit : Int
  tmpfs : Dict PyStr PyStr

structure WorkerExecutor where
  sandboxBaseDir : Path
  ollamaUrl : PyStr

namespace WorkerExecutor

variable (executor : WorkerExecutor) (workerId jobId capabilityId image : PyStr)

def sandboxDir : Path := executor.sandboxBaseDir.join (jobId ++ py "_" ++ workerId)

def bind (target mode : PyStr) : Dict PyStr PyStr :=
  (Dict.empty.set (py "bind") target).set (py "mode") mode

def securityOptions (seccompProfile : Option PyStr) : List PyStr :=
  py "no-new-privileges" :: match seccompProfile with
    | none | some [] => []
    | some profile => [py "seccomp=" ++ profile]

/-- The body of the request to the worker proxy. -/
def requestBody (security : SecurityConfig) (wallTimeout : Int) : ContainerRunRequest where
  image := image
  name := py "drnt-worker-" ++ jobId.take 12 ++ py "-" ++ workerId.take 8
  labels := (((Dict.empty.set (py "drnt.worker_id") workerId).set (py "drnt.job_id") jobId).set
    (py "drnt.capability_id") capabilityId).set (py "drnt.role") (py "worker")
  environment := (((Dict.empty.set (py "OLLAMA_URL") executor.ollamaUrl).set
    (py "DRNT_WORKER_ID") workerId).set (py "DRNT_JOB_ID") jobId).set
    (py "DRNT_CAPABILITY") capabilityId
  volumes := (Dict.empty.set ((executor.sandboxDir workerId jobId).join (py "inbox")).text
    (bind (py "/inbox") (py "ro"))).set
    ((executor.sandboxDir workerId jobId).join (py "outbox")).text
    (bind (py "/outbox") (py "rw"))
  capDrop := [py "ALL"]
  readOnly := true
  securityOpt := securityOptions security.seccompProfile
  memLimit := security.memLimit
  pidsLimit := security.pidsLimit
  tmpfs := security.tmpfs
  networkMode := if security.networkMode = py "none" then some (py "none") else none
  network := if security.networkMode = py "none" then none else some security.networkMode
  wallTimeout := wallTimeout

end WorkerExecutor

end Executor

section Lifecycle

/-- Its registry is the validator's, and so is its state manager where it has one. -/
structure WorkerLifecycle where
  validator : ManifestValidator
  stateManager : Bool
  blueprintEngine : BlueprintEngine
  egressStore : EgressPolicyStore
  seccompProfileContent : Option PyStr

/-- The text before the first colon and the text behind it. -/
def partition (entry : PyStr) : PyStr × PyStr :=
  let mount := entry.takeWhile (· ≠ Loads.ch ':')
  (mount, (entry.drop mount.length).drop 1)

def tmpfsMounts (entries : List PyStr) : Dict PyStr PyStr :=
  entries.foldl (fun mounts entry => mounts.set (partition entry).1 (partition entry).2) ∅

namespace WorkerLifecycle

variable (lifecycle : WorkerLifecycle)

/-- What execute_in_worker hands on of a blueprint. -/
def securityConfig (b : SandboxBlueprint) : SecurityConfig where
  seccompProfile :=
    if b.securityConfig.seccompProfilePath ≠ [] then lifecycle.seccompProfileContent else none
  networkMode := b.networkConfig.networkMode
  memLimit := b.resourceConfig.memoryLimit
  pidsLimit := b.resourceConfig.pidsLimit
  tmpfs := tmpfsMounts b.securityConfig.tmpfsMounts

/-- What the preparation looks up before it makes a manifest. -/
def checkCapability (capabilityId : PyStr) : Except (List PyStr) Unit := do
  if capabilityId = [] then throw [py "job has no governing_capability_id"]
  if ¬ lifecycle.validator.registered capabilityId then
    throw [py "capability '" ++ capabilityId ++ py "' not found in registry"]
  if lifecycle.stateManager then
    match lifecycle.validator.status capabilityId with
    | none => throw [py "capability '" ++ capabilityId ++ py "' has no runtime state"]
    | some status =>
      if status ≠ py "active" then
        throw [py "capability '" ++ capabilityId ++ py "' is " ++ status ++
          py ", cannot prepare worker"]

/-- From a capability to the request: the manifest, its validation, the blueprint, the body. The
errors are those of the preparation. -/
def launch (executor : WorkerExecutor) (capabilityId : PyStr) (providerDependencies : List PyStr)
    (manifestId blueprintId createdAt : PyStr) (jobId : JobId) (workerId : PyStr) :
    Except (List PyStr) ContainerRunRequest := do
  lifecycle.checkCapability capabilityId
  let manifest := buildManifestForCapability lifecycle.egressStore capabilityId
    providerDependencies manifestId
  let blueprint ← lifecycle.blueprintEngine.generate manifest blueprintId createdAt
    (lifecycle.validator.validate manifest)
  return executor.requestBody workerId (py jobId.text) manifest.capabilityId
    blueprint.containerConfig.image (lifecycle.securityConfig blueprint)
    manifest.resources.maxWallSeconds

end WorkerLifecycle

end Lifecycle

section Directories

variable {name : PyStr}

/-- A name of a file: no slash in it, not empty, no dots. -/
structure PlainName (name : PyStr) : Prop where
  filled : name ≠ []
  undotted : name ≠ [dot]
  climbless : name ≠ [dot, dot]
  whole : slash ∉ name

theorem segments_plain (whole : slash ∉ name) : PosixPath.segments slash name = [name] := by
  induction name with
  | nil => rfl
  | cons c name ih =>
    have other : c ≠ slash := fun same => whole (same ▸ List.mem_cons_self ..)
    rw [PosixPath.segments, if_neg other, ih fun mem => whole (List.mem_cons_of_mem _ mem)]

theorem parse_plain (plain : PlainName name) : Path.parse name = ⟨[], [name]⟩ := by
  have relative : name.head? ≠ some slash := fun head =>
    plain.whole (List.mem_of_mem_head? head)
  rw [Path.parse, Path.rootOf, if_pos relative, segments_plain plain.whole]
  simp [plain.filled, plain.undotted]

theorem join_plain (plain : PlainName name) (p : Path) :
    p.join name = ⟨p.root, p.parts ++ [name]⟩ := by
  rw [Path.join, parse_plain plain]
  rfl

theorem intercalate_concat {sep : PyStr} {parts : List PyStr} (named : parts ≠ []) :
    sep.intercalate (parts ++ [name]) = sep.intercalate parts ++ (sep ++ name) := by
  induction parts with
  | nil => exact absurd rfl named
  | cons part parts ih =>
    rw [List.cons_append, List.intercalate_cons_of_ne_nil (by simp)]
    cases parts with
    | nil => simp
    | cons next rest =>
      rw [ih (by simp), List.intercalate_cons_cons]
      simp only [List.append_assoc]

theorem text_join {p : Path} (plain : PlainName name) (named : p.parts ≠ []) :
    (p.join name).text = p.text ++ slash :: name := by
  rw [join_plain plain, Path.text, Path.text, if_neg (by simp), if_neg (by simp [named]),
    intercalate_concat named, List.append_assoc]
  rfl

/-- The directory of a job's worker in the sandbox volume. -/
def workerDir (jobId : JobId) (workerId : PyStr) : PyStr := py jobId.text ++ py "_" ++ workerId

/-- The text of a UUID: hexadecimal digits and hyphens. -/
def UuidText (s : PyStr) : Prop := ∀ c ∈ s, c ∈ py "0123456789abcdef-"

theorem digits_text (width n : Nat) :
    UuidText ((Uuid7.hexDigits width n).map CodePoint.ofChar) := by
  have table : ∀ d : Fin 16, CodePoint.ofChar (Uuid7.hexDigit d.val) ∈ py "0123456789abcdef-" := by
    decide
  induction width with
  | zero => simp [Uuid7.hexDigits, UuidText]
  | succ width ih =>
    have same : Uuid7.hexDigit (n / 16 ^ width % 16) = Uuid7.hexDigit (n / 16 ^ width) := by
      rw [Uuid7.hexDigit, Nat.mod_mod, Uuid7.hexDigit]
    have digit := same ▸ table ⟨n / 16 ^ width % 16, Nat.mod_lt _ (by decide)⟩
    rw [Uuid7.hexDigits, List.map_cons]
    exact List.forall_mem_cons.mpr ⟨digit, ih⟩

theorem digits_length (width n : Nat) : (Uuid7.hexDigits width n).length = width := by
  induction width with
  | zero => rfl
  | succ width ih => rw [Uuid7.hexDigits, List.length_cons, ih]

theorem job_text (j : JobId) : UuidText (py j.text) ∧ (py j.text).length = 36 := by
  rw [py, Uuid7.text, String.toList_ofList, Uuid7.chars]
  constructor
  · have dash : CodePoint.ofChar '-' ∈ py "0123456789abcdef-" := by decide
    have seven : CodePoint.ofChar '7' ∈ py "0123456789abcdef-" := by decide
    have hex (width n : Nat) := digits_text width n
    simp only [UuidText, List.map_append, List.map_cons, List.forall_mem_append,
      List.forall_mem_cons] at hex ⊢
    exact ⟨⟨⟨⟨hex 8 _, dash, hex 4 _⟩, dash, seven, hex 3 _⟩, dash, hex 4 _⟩, dash, hex 12 _⟩
  · simp only [List.length_map, List.length_append, List.length_cons, digits_length]

theorem workerDir_plain (j : JobId) {w : PyStr} (uuid : UuidText w) :
    PlainName (workerDir j w) := by
  have length : (workerDir j w).length = 37 + w.length := by
    rw [workerDir, List.length_append, List.length_append, (job_text j).2]
    rfl
  constructor
  case filled =>
    intro empty
    rw [empty, List.length_nil] at length
    omega
  case undotted =>
    intro dots
    rw [dots, List.length_singleton] at length
    omega
  case climbless =>
    intro dots
    rw [dots] at length
    simp only [List.length_cons, List.length_nil] at length
    omega
  case whole =>
    intro mem
    have other : slash ∉ py "0123456789abcdef-" := by decide
    have mark : slash ∉ py "_" := by decide
    rcases List.mem_append.mp mem with front | last
    · rcases List.mem_append.mp front with job | line
      · exact other ((job_text j).1 _ job)
      · exact mark line
    · exact other (uuid _ last)

/-- Different workers have different directories. -/
theorem workerDir_injective {j j' : JobId} {w w' : PyStr} (same : workerDir j w = workerDir j' w') :
    py j.text = py j'.text ∧ w = w' := by
  rw [workerDir, workerDir, List.append_assoc, List.append_assoc] at same
  obtain ⟨jobs, rest⟩ := List.append_inj same ((job_text j).2.trans (job_text j').2.symm)
  exact ⟨jobs, List.append_cancel_left rest⟩

end Directories

section Containment

variable {interp : Interpreter} {reg : Registry} {lifecycle : WorkerLifecycle}
  {executor : WorkerExecutor} {capabilityId manifestId blueprintId createdAt workerId : PyStr}
  {providerDependencies : List PyStr} {jobId : JobId} {base : PyStr} {req : ContainerRunRequest}

/-- How the interpreter reads the digits and the unit of a memory limit. -/
structure ReadsAscii (interp : Interpreter) : Prop where
  lower : ∀ s, (∀ c ∈ s, c ∈ py "0123456789m") → interp.lower s = s
  decimal : ∀ d : Fin 10, interp.decimal? (.ofChar (Nat.digitChar d.val)) = some d.val

/-- The endpoints that the policy store gives a capability. -/
def WorkerLifecycle.egressAllow (lifecycle : WorkerLifecycle) (capabilityId : PyStr) : List PyStr :=
  ((lifecycle.egressStore.get? (.str capabilityId)).map (·.allowedEndpoints)).getD []

/-- What the preparation of a worker depends on. -/
structure Preparable (lifecycle : WorkerLifecycle) (capabilityId : PyStr) : Prop where
  named : capabilityId ≠ []
  registered : lifecycle.validator.registered capabilityId = true
  stateful : lifecycle.stateManager = true → lifecycle.validator.status capabilityId ≠ none
  active : ∀ status, lifecycle.validator.status capabilityId = some status → status = py "active"
  wal : ∀ n, lifecycle.validator.effectiveWal capabilityId = some n → 0 ≤ n
  egress : ∀ endpoint ∈ lifecycle.egressAllow capabilityId,
    endpoint ∈ (lifecycle.validator.egressEndpoints capabilityId).getD []
  memory : 256 ≤ lifecycle.validator.ceilings.maxMemoryMb
  wallTime : 120 ≤ lifecycle.validator.ceilings.maxWallSeconds

/-- What the registry of the proxy has to allow. -/
structure Admits (interp : Interpreter) (reg : Registry) (image : PyStr) (egress : List PyStr) :
    Prop where
  image : image ∈ reg.approvedImages
  network : egress ≠ [] → py "drnt-sandbox" ∈ reg.allowedNetworks
  memory : ∃ cap, parseMemBytes interp reg.caps.memLimitMax = some cap ∧ 256 * 1024 * 1024 ≤ cap
  pids : 256 ≤ reg.caps.pidsLimitMax
  wallTime : 120 ≤ reg.caps.wallTimeoutMax

/-- The host directory of a worker. -/
def hostDir (base : PyStr) (jobId : JobId) (workerId : PyStr) : PyStr :=
  base ++ slash :: workerDir jobId workerId

/-- The container as Docker is asked for it. -/
structure Locked (interp : Interpreter) (lifecycle : WorkerLifecycle) (capabilityId base : PyStr)
    (jobId : JobId) (workerId : PyStr) (kwargs : CreateKwargs) : Prop where
  image : kwargs.image = lifecycle.blueprintEngine.image
  capabilities : kwargs.capDrop = [py "ALL"]
  readOnly : kwargs.readOnly = true
  securityOpt : kwargs.securityOpt =
    WorkerExecutor.securityOptions lifecycle.seccompProfileContent
  network : kwargs.networkMode =
      (if lifecycle.egressAllow capabilityId = [] then some (py "none") else none) ∧
    kwargs.network =
      if lifecycle.egressAllow capabilityId = [] then none else some (py "drnt-sandbox")
  memory : WorkerProxy.dockerMemory interp kwargs.memLimit = some (256 * 1024 * 1024)
  pids : WorkerProxy.dockerPids kwargs.pidsLimit = some 256
  mounts : kwargs.volumes.entries =
    [(hostDir base jobId workerId ++ py "/inbox", WorkerExecutor.bind (py "/inbox") (py "ro")),
      (hostDir base jobId workerId ++ py "/outbox", WorkerExecutor.bind (py "/outbox") (py "rw"))]
  inside : ∀ src ∈ kwargs.volumes.keys, WorkerProxy.Inside base src

theorem digits_read (reads : ReadsAscii interp) :
    IntText.intOf interp.decimal? [Loads.ch '2', Loads.ch '5', Loads.ch '6'] = some 256 := by
  have trimmed : IntText.trimInt [Loads.ch '2', Loads.ch '5', Loads.ch '6'] =
    [Loads.ch '2', Loads.ch '5', Loads.ch '6'] := by decide
  have two : interp.decimal? (Loads.ch '2') = some 2 := reads.decimal 2
  have five : interp.decimal? (Loads.ch '5') = some 5 := reads.decimal 5
  have six : interp.decimal? (Loads.ch '6') = some 6 := reads.decimal 6
  have signs : Loads.ch '2' ≠ Loads.ch '-' ∧ Loads.ch '2' ≠ Loads.ch '+' := by decide
  have marks : Loads.ch '2' ≠ Loads.ch '_' ∧ Loads.ch '5' ≠ Loads.ch '_' ∧
    Loads.ch '6' ≠ Loads.ch '_' := by decide
  unfold IntText.intOf
  rw [trimmed]
  simp [IntText.readDigits, signs, marks, two, five, six, Loads.maxStrDigits]

theorem memory_read (reads : ReadsAscii interp) :
    parseMemBytes interp (BlueprintEngine.megabytes 256) = some (256 * 1024 * 1024) := by
  have limit : BlueprintEngine.megabytes 256 = py "256m" := by decide
  have stripped : IntText.strip (py "256m") = py "256m" := by decide
  have ascii : (py "256m").all (· ∈ py "0123456789m") = true := by decide
  have lower : interp.lower (py "256m") = py "256m" := reads.lower _ (by simpa using ascii)
  have last : (py "256m").getLast? = some (Loads.ch 'm') := by decide
  have unit : WorkerProxy.multiplier? (Loads.ch 'm') = some (1024 * 1024) := by decide
  have front : (py "256m").dropLast = [Loads.ch '2', Loads.ch '5', Loads.ch '6'] := by
    decide
  rw [limit, parseMemBytes, stripped, lower]
  simp only [last, unit, front, digits_read reads, Option.map_some]
  exact congrArg some (by omega)

theorem if_nil_iff {c : Prop} [Decidable c] {error : PyStr} :
    (if c then [] else [error]) = [] ↔ c := by
  by_cases h : c <;> simp [h]

theorem else_nil_iff {c : Prop} [Decidable c] {error : PyStr} :
    (if c then [error] else []) = [] ↔ ¬ c := by
  by_cases h : c <;> simp [h]

theorem workerType_known (m : RuntimeManifest)
    (known : m.workerType = py "ollama_local" ∨ m.workerType = py "cloud_adapter") :
    workerTypeMinWal? m.workerType = some 0 := by
  have local_ : workerTypeMinWal? (py "ollama_local") = some 0 := by decide
  have cloud : workerTypeMinWal? (py "cloud_adapter") = some 0 := by decide
  rcases known with same | same
  · rw [same, local_]
  · rw [same, cloud]

/-- The checks before the manifest fail with one error. -/
theorem checkCapability_spec (lifecycle : WorkerLifecycle) (capabilityId : PyStr) :
    (lifecycle.checkCapability capabilityId = .ok () ∧ capabilityId ≠ [] ∧
      (lifecycle.stateManager = true → lifecycle.validator.status capabilityId ≠ none)) ∨
    ∃ e, lifecycle.checkCapability capabilityId = .error [e] ∧
      ¬ Preparable lifecycle capabilityId := by
  unfold WorkerLifecycle.checkCapability
  by_cases named : capabilityId = []
  · right
    rw [if_pos named]
    exact ⟨_, rfl, fun able => able.named named⟩
  rw [if_neg named]
  by_cases registered : lifecycle.validator.registered capabilityId = true
  case neg =>
    right
    rw [if_pos registered]
    exact ⟨_, rfl, fun able => registered able.registered⟩
  rw [if_neg (not_not.mpr registered)]
  cases managed : lifecycle.stateManager with
  | false => exact .inl ⟨rfl, named, by simp⟩
  | true =>
    cases known : lifecycle.validator.status capabilityId with
    | none => exact .inr ⟨_, rfl, fun able => able.stateful managed known⟩
    | some status =>
      by_cases active : status = py "active"
      · exact .inl ⟨if_neg (not_not.mpr active), named, by simp⟩
      · exact .inr ⟨_, if_pos active, fun able => active (able.active status known)⟩

open ManifestValidator in
/-- The manifest of every capability passes the rules about volumes and privileges. -/
theorem valid_iff (lifecycle : WorkerLifecycle) {capabilityId : PyStr}
    (providerDependencies : List PyStr) (manifestId : PyStr) (filled : capabilityId ≠ [])
    (stateful : lifecycle.stateManager = true → lifecycle.validator.status capabilityId ≠ none) :
    (lifecycle.validator.validate (buildManifestForCapability lifecycle.egressStore capabilityId
      providerDependencies manifestId)).valid = true ↔ Preparable lifecycle capabilityId := by
  set m := buildManifestForCapability lifecycle.egressStore capabilityId providerDependencies
    manifestId with built
  have named : m.capabilityId = capabilityId := rfl
  have volumes : checkVolumes m = [] := by
    have work (x : PyStr) : checkVolume ⟨py "/work", py "rw", x⟩ = [] :=
      (show checkVolume ⟨py "/work", py "rw", []⟩ = [] by decide)
    have tmp (x : PyStr) : checkVolume ⟨py "/tmp", py "rw", x⟩ = [] :=
      (show checkVolume ⟨py "/tmp", py "rw", []⟩ = [] by decide)
    show [_, _].flatMap checkVolume = []
    simp [work, tmp]
  have type : workerTypeMinWal? m.workerType = some 0 := by
    apply workerType_known
    show (if _ then py "ollama_local" else py "cloud_adapter") = _ ∨
      (if _ then py "ollama_local" else py "cloud_adapter") = _
    split
    · exact .inl rfl
    · exact .inr rfl
  have closed : checkEgressDenyAll m = [] := rfl
  have dropped : checkDropCapabilities m = [] := if_pos (List.mem_singleton_self _)
  have unprivileged : checkNoNewPrivileges m = [] := rfl
  rw [ManifestValidationResult.valid, List.isEmpty_iff]
  simp only [validate, volumes, closed, dropped, unprivileged, List.append_eq_nil_iff,
    List.append_nil]
  have known : lifecycle.validator.checkCapabilityExists m = [] ↔
      lifecycle.validator.registered capabilityId = true := if_nil_iff
  have status : lifecycle.validator.checkCapabilityActive m = [] ↔
      ∀ status, lifecycle.validator.status capabilityId = some status → status = py "active" := by
    rw [checkCapabilityActive, named]
    cases lifecycle.validator.status capabilityId with
    | none => simp
    | some status => simp
  have wal : lifecycle.validator.checkWalLevel m = [] ↔
      ∀ n, lifecycle.validator.effectiveWal capabilityId = some n → 0 ≤ n := by
    rw [checkWalLevel, type, named]
    cases lifecycle.validator.effectiveWal capabilityId with
    | none => simp
    | some n => simp
  have egress : lifecycle.validator.checkEgressEndpoints m = [] ↔
      ∀ endpoint ∈ lifecycle.egressAllow capabilityId,
        endpoint ∈ (lifecycle.validator.egressEndpoints capabilityId).getD [] := by
    rw [checkEgressEndpoints, List.flatMap_eq_nil_iff]
    exact forall₂_congr fun endpoint mem => if_nil_iff
  have memory : lifecycle.validator.checkMemoryCeiling m = [] ↔
      256 ≤ lifecycle.validator.ceilings.maxMemoryMb := else_nil_iff.trans Int.not_lt
  have wall : lifecycle.validator.checkWallTimeCeiling m = [] ↔
      120 ≤ lifecycle.validator.ceilings.maxWallSeconds := else_nil_iff.trans Int.not_lt
  rw [known, status, wal, egress, memory, wall]
  constructor
  · rintro ⟨⟨⟨⟨⟨known, active⟩, wal⟩, egress⟩, memory⟩, wall⟩
    exact ⟨filled, known, stateful, active, wal, egress, memory, wall⟩
  · intro able
    exact ⟨⟨⟨⟨⟨able.registered, able.active⟩, able.wal⟩, able.egress⟩, able.memory⟩, able.wallTime⟩

/-- The file of a worker as the proxy is told of it. -/
theorem worker_file {file : PyStr} (plain : PlainName file)
    (placed : executor.sandboxBaseDir = .parse WorkerProxy.sandboxContainerPath)
    (uuid : UuidText workerId) :
    ((executor.sandboxDir workerId (py jobId.text)).join file).text =
      WorkerProxy.sandboxBasePath ++ (workerDir jobId workerId ++ slash :: file) := by
  have dir := workerDir_plain jobId uuid
  have parsed : Path.parse WorkerProxy.sandboxContainerPath =
      ⟨py "/", [py "var", py "drnt", py "workers"]⟩ := by decide
  have printed : (⟨py "/", [py "var", py "drnt", py "workers"]⟩ : Path).text ++ [slash] =
      WorkerProxy.sandboxBasePath := by decide
  have joined : executor.sandboxDir workerId (py jobId.text) =
      executor.sandboxBaseDir.join (workerDir jobId workerId) := rfl
  rw [joined, placed, parsed, text_join plain (by rw [join_plain dir]; simp),
    text_join dir (by simp), ← printed]
  simp only [List.append_assoc, List.cons_append, List.nil_append]

/-- Where the file is on the host. -/
theorem translated_file (file : PyStr) : WorkerProxy.translate base
    (WorkerProxy.sandboxBasePath ++ (workerDir jobId workerId ++ slash :: file)) =
      hostDir base jobId workerId ++ slash :: file := by
  rw [WorkerProxy.translate_below, hostDir, List.append_assoc]
  rfl

/-- The names of a worker's file: those of the base directory, then its own two. -/
theorem file_names {file : PyStr} (plain : PlainName file) (uuid : UuidText workerId) :
    names (hostDir base jobId workerId ++ slash :: file) =
      names base ++ [workerDir jobId workerId, file] := by
  have dir := workerDir_plain jobId uuid
  have one {name : PyStr} (plain : PlainName name) (at_ : List PyStr) :
      PosixPath.walk dot at_ (PosixPath.segments slash name) = at_ ++ [name] := by
    rw [segments_plain plain.whole]
    simp [PosixPath.walk, PosixPath.step, plain.filled, plain.undotted, plain.climbless]
  show PosixPath.resolve slash dot _ = PosixPath.resolve slash dot base ++ _
  rw [PosixPath.resolve_append slash dot, hostDir, PosixPath.resolve_append slash dot,
    one dir, one plain, List.append_assoc]
  rfl

theorem inbox_plain : PlainName (py "inbox") := by
  constructor <;> decide

theorem outbox_plain : PlainName (py "outbox") := by
  constructor <;> decide

/-- The request for a worker of a capability. -/
def workerRequest (executor : WorkerExecutor) (lifecycle : WorkerLifecycle)
    (capabilityId : PyStr) (jobId : JobId) (workerId : PyStr) : ContainerRunRequest :=
  executor.requestBody workerId (py jobId.text) capabilityId lifecycle.blueprintEngine.image
    { seccompProfile := lifecycle.seccompProfileContent
      networkMode :=
        if lifecycle.egressAllow capabilityId ≠ [] then py "drnt-sandbox" else py "none"
      memLimit := BlueprintEngine.megabytes 256
      pidsLimit := 256
      tmpfs := tmpfsMounts [py "/tmp:size=64m,noexec,nosuid"] } 120

/-- The preparation of what can be prepared ends in the request, and that of anything else in
errors. -/
theorem launch_spec (lifecycle : WorkerLifecycle) (executor : WorkerExecutor) (capabilityId : PyStr)
    (providerDependencies : List PyStr) (manifestId blueprintId createdAt : PyStr) (jobId : JobId)
    (workerId : PyStr) :
    (Preparable lifecycle capabilityId ∧ lifecycle.launch executor capabilityId
      providerDependencies manifestId blueprintId createdAt jobId workerId =
        .ok (workerRequest executor lifecycle capabilityId jobId workerId)) ∨
    (¬ Preparable lifecycle capabilityId ∧ ∃ e errors, lifecycle.launch executor capabilityId
      providerDependencies manifestId blueprintId createdAt jobId workerId =
        .error (e :: errors)) := by
  rcases checkCapability_spec lifecycle capabilityId with ⟨passed, named, stateful⟩ | ⟨e, failed, unable⟩
  · have valid := valid_iff lifecycle providerDependencies manifestId named stateful
    by_cases able : Preparable lifecycle capabilityId
    · refine .inl ⟨able, ?_⟩
      unfold WorkerLifecycle.launch BlueprintEngine.generate
      simp only [passed, valid.mpr able]
      rfl
    · refine .inr ⟨able, ?_⟩
      have invalid := mt valid.mp able
      unfold WorkerLifecycle.launch BlueprintEngine.generate
      simp only [passed, invalid]
      cases errors : (lifecycle.validator.validate (buildManifestForCapability
        lifecycle.egressStore capabilityId providerDependencies manifestId)).errors with
      | nil => simp [ManifestValidationResult.valid, errors] at invalid
      | cons e rest => exact ⟨e, rest, rfl⟩
  · refine .inr ⟨unable, e, [], ?_⟩
    rw [WorkerLifecycle.launch, failed]
    rfl

theorem made_request (made : lifecycle.launch executor capabilityId providerDependencies manifestId
    blueprintId createdAt jobId workerId = .ok req) :
    req = workerRequest executor lifecycle capabilityId jobId workerId := by
  rcases launch_spec lifecycle executor capabilityId providerDependencies manifestId blueprintId
    createdAt jobId workerId with ⟨-, launched⟩ | ⟨-, e, errors, failed⟩
  · exact (Except.ok.inj (launched.symm.trans made)).symm
  · cases failed.symm.trans made

/-- A worker without endpoints has no network, and any other is in the sandbox network. -/
theorem request_networks (executor : WorkerExecutor) (lifecycle : WorkerLifecycle)
    (capabilityId : PyStr) (jobId : JobId) (workerId : PyStr) :
    (workerRequest executor lifecycle capabilityId jobId workerId).networkMode =
      (if lifecycle.egressAllow capabilityId = [] then some (py "none") else none) ∧
    (workerRequest executor lifecycle capabilityId jobId workerId).network =
      if lifecycle.egressAllow capabilityId = [] then none else some (py "drnt-sandbox") := by
  have different : py "drnt-sandbox" ≠ py "none" := by decide
  simp only [workerRequest, WorkerExecutor.requestBody]
  by_cases alone : lifecycle.egressAllow capabilityId = []
  · simp [alone]
  · simp [alone, different]

theorem pair_entries {α : Type} {a b : PyStr} (apart : a ≠ b) (x y : α) :
    ((Dict.empty.set a x).set b y).entries = [(a, x), (b, y)] := by
  simp [Dict.set, Dict.empty, apart, replace]

theorem request_volumes
    (placed : executor.sandboxBaseDir = .parse WorkerProxy.sandboxContainerPath)
    (uuid : UuidText workerId) :
    (workerRequest executor lifecycle capabilityId jobId workerId).volumes =
      (Dict.empty.set (WorkerProxy.sandboxBasePath ++
          (workerDir jobId workerId ++ slash :: py "inbox"))
        (WorkerExecutor.bind (py "/inbox") (py "ro"))).set
        (WorkerProxy.sandboxBasePath ++ (workerDir jobId workerId ++ slash :: py "outbox"))
        (WorkerExecutor.bind (py "/outbox") (py "rw")) := by
  rw [← worker_file inbox_plain placed uuid, ← worker_file outbox_plain placed uuid]
  rfl

theorem request_sources
    (placed : executor.sandboxBaseDir = .parse WorkerProxy.sandboxContainerPath)
    (uuid : UuidText workerId) : ∀ src ∈
      (workerRequest executor lifecycle capabilityId jobId workerId).volumes.keys,
      src = WorkerProxy.sandboxBasePath ++ (workerDir jobId workerId ++ slash :: py "inbox") ∨
      src = WorkerProxy.sandboxBasePath ++ (workerDir jobId workerId ++ slash :: py "outbox") := by
  intro src mem
  rw [request_volumes placed uuid] at mem
  rcases Dict.mem_keys_set.mp mem with mem | same
  · rcases Dict.mem_keys_set.mp mem with none_ | same
    · cases none_
    · exact .inl same
  · exact .inr same

/-- The proxy takes the request exactly when its registry allows what every worker needs. -/
theorem admits_iff (reads : ReadsAscii interp)
    (placed : executor.sandboxBaseDir = .parse WorkerProxy.sandboxContainerPath)
    (uuid : UuidText workerId) :
    WorkerProxy.validate interp reg (workerRequest executor lifecycle capabilityId jobId workerId) =
      .ok () ↔ Admits interp reg lifecycle.blueprintEngine.image
        (lifecycle.egressAllow capabilityId) := by
  have networks := request_networks executor lifecycle capabilityId jobId workerId
  set req := workerRequest executor lifecycle capabilityId jobId workerId with made
  have fields : WorkerProxy.fieldErrors req = [] := by
    have dropped : py "ALL" ∈ req.capDrop := List.mem_singleton_self _
    have unprivileged : py "no-new-privileges" ∈ req.securityOpt := List.mem_cons_self ..
    have sealed : req.readOnly = true := rfl
    rw [WorkerProxy.fieldErrors, if_pos dropped, if_pos unprivileged, sealed, networks.1]
    by_cases alone : lifecycle.egressAllow capabilityId = []
    · simp [alone]
    · simp [alone]
  have network : WorkerProxy.checkNetwork reg req = .ok () ↔
      (lifecycle.egressAllow capabilityId ≠ [] → py "drnt-sandbox" ∈ reg.allowedNetworks) := by
    rw [WorkerProxy.checkNetwork, networks.1, networks.2]
    by_cases alone : lifecycle.egressAllow capabilityId = []
    · simp [alone]
    · simp [alone]
  have volumes : WorkerProxy.checkVolumes reg req.volumes.keys = .ok () := by
    apply WorkerProxy.checkVolumes_iff.mpr
    intro src mem
    left
    rcases request_sources placed uuid src mem with rfl | rfl
    · exact List.prefix_append ..
    · exact List.prefix_append ..
  have memory : WorkerProxy.checkMemory interp reg req = .ok () ↔
      ∃ cap, parseMemBytes interp reg.caps.memLimitMax = some cap ∧ 256 * 1024 * 1024 ≤ cap := by
    rw [WorkerProxy.checkMemory_iff]
    show (∃ mem cap, parseMemBytes interp (BlueprintEngine.megabytes 256) = some mem ∧ _) ↔ _
    rw [memory_read reads]
    simp
  have label : req.labels.get? (py "drnt.role") = some (py "worker") := by
    rw [made]
    exact Dict.get?_set_self ..
  rw [WorkerProxy.validate_iff, WorkerProxy.allowlist_iff, network, memory]
  constructor
  · rintro ⟨-, image, network, -, memory, pids, wall, -⟩
    exact ⟨image, network, memory, pids, wall⟩
  · intro admits
    exact ⟨fields, admits.image, admits.network, volumes, admits.memory, admits.pids,
      admits.wallTime, label⟩

theorem createKwargs_volumes (resolved : base ≠ []) (req : ContainerRunRequest) :
    (createKwargs (some base) req).volumes = req.volumes.entries.foldl
      (fun translated e => translated.set (WorkerProxy.translate base e.1) e.2) ∅ := by
  cases base with
  | nil => exact absurd rfl resolved
  | cons c base => rfl

/-- The two mounts of a worker, below the host directory of the sandbox volume. -/
theorem request_mounts
    (placed : executor.sandboxBaseDir = .parse WorkerProxy.sandboxContainerPath)
    (uuid : UuidText workerId) (resolved : base ≠ []) : (createKwargs (some base)
      (workerRequest executor lifecycle capabilityId jobId workerId)).volumes.entries =
    [(hostDir base jobId workerId ++ py "/inbox", WorkerExecutor.bind (py "/inbox") (py "ro")),
      (hostDir base jobId workerId ++ py "/outbox",
        WorkerExecutor.bind (py "/outbox") (py "rw"))] := by
  have boxes : slash :: py "inbox" ≠ slash :: py "outbox" := by decide
  have apart (front : PyStr) : front ++ slash :: py "inbox" ≠ front ++ slash :: py "outbox" :=
    fun same => boxes (List.append_cancel_left same)
  have asked := pair_entries (apart (WorkerProxy.sandboxBasePath ++ workerDir jobId workerId))
    (WorkerExecutor.bind (py "/inbox") (py "ro")) (WorkerExecutor.bind (py "/outbox") (py "rw"))
  rw [List.append_assoc, List.append_assoc, ← request_volumes placed uuid] at asked
  rw [createKwargs_volumes resolved, asked]
  simp only [List.foldl_cons, List.foldl_nil, translated_file]
  exact pair_entries (apart _) _ _

theorem mount_names
    (placed : executor.sandboxBaseDir = .parse WorkerProxy.sandboxContainerPath)
    (uuid : UuidText workerId) (resolved : base ≠ []) : ∀ src ∈ (createKwargs (some base)
      (workerRequest executor lifecycle capabilityId jobId workerId)).volumes.keys,
      ∃ file, names src = names base ++ [workerDir jobId workerId, file] := by
  intro src mem
  rw [Dict.keys, request_mounts placed uuid resolved] at mem
  simp only [List.map_cons, List.map_nil, List.mem_cons, List.not_mem_nil, or_false] at mem
  rcases mem with rfl | rfl
  · exact ⟨_, file_names inbox_plain uuid⟩
  · exact ⟨_, file_names outbox_plain uuid⟩

theorem locked (reads : ReadsAscii interp)
    (placed : executor.sandboxBaseDir = .parse WorkerProxy.sandboxContainerPath)
    (uuid : UuidText workerId) (resolved : base ≠ []) :
    Locked interp lifecycle capabilityId base jobId workerId (createKwargs (some base)
      (workerRequest executor lifecycle capabilityId jobId workerId)) := by
  have networks := request_networks executor lifecycle capabilityId jobId workerId
  constructor
  case image => rfl
  case capabilities => rfl
  case readOnly => rfl
  case securityOpt => rfl
  case network =>
    show Option.filter _ _ = _ ∧ (if Option.any _ _ then none else Option.filter _ _) = _
    rw [networks.1, networks.2]
    by_cases alone : lifecycle.egressAllow capabilityId = []
    · simp [alone]
      decide
    · simp [alone]
      decide
  case memory =>
    show (parseMemBytes interp (BlueprintEngine.megabytes 256)).filter _ = _
    rw [memory_read reads]
    rfl
  case pids => rfl
  case mounts => exact request_mounts placed uuid resolved
  case inside =>
    intro src mem
    obtain ⟨file, below⟩ := mount_names placed uuid resolved src mem
    show names base <+: names src
    exact below ▸ List.prefix_append ..

/-- No directory of a worker is, or is in, a directory of another worker. -/
theorem launches_apart {lifecycle' : WorkerLifecycle} {executor' : WorkerExecutor}
    {capabilityId' manifestId' blueprintId' createdAt' workerId' : PyStr}
    {providerDependencies' : List PyStr} {jobId' : JobId} {req' : ContainerRunRequest}
    (placed : executor.sandboxBaseDir = .parse WorkerProxy.sandboxContainerPath)
    (placed' : executor'.sandboxBaseDir = .parse WorkerProxy.sandboxContainerPath)
    (uuid : UuidText workerId) (uuid' : UuidText workerId') (resolved : base ≠ [])
    (made : lifecycle.launch executor capabilityId providerDependencies manifestId blueprintId
      createdAt jobId workerId = .ok req)
    (made' : lifecycle'.launch executor' capabilityId' providerDependencies' manifestId'
      blueprintId' createdAt' jobId' workerId' = .ok req')
    (other : jobId.text ≠ jobId'.text ∨ workerId ≠ workerId') :
    ∀ src ∈ (createKwargs (some base) req).volumes.keys,
    ∀ src' ∈ (createKwargs (some base) req').volumes.keys, ¬ Overlaps src src' := by
  have apart : workerDir jobId workerId ≠ workerDir jobId' workerId' := by
    intro same
    obtain ⟨jobs, workers⟩ := workerDir_injective same
    rcases other with other | other
    · exact other (by simpa [decode?_py] using congrArg decode? jobs)
    · exact other workers
  intro src mem src' mem'
  rw [made_request made] at mem
  rw [made_request made'] at mem'
  obtain ⟨file, named⟩ := mount_names placed uuid resolved src mem
  obtain ⟨file', named'⟩ := mount_names placed' uuid' resolved src' mem'
  unfold Overlaps Inside
  rw [named, named', List.prefix_append_right_inj, List.prefix_append_right_inj]
  rintro (below | above)
  · exact apart (List.cons_prefix_cons.mp below).1
  · exact apart (List.cons_prefix_cons.mp above).1.symm

end Containment

section Sample

def sampleProfile : PyStr := py "\x7b\"defaultAction\": \"SCMP_ACT_ERRNO\"\x7d"

def sampleLifecycle : WorkerLifecycle where
  validator := sampleValidator
  stateManager := true
  blueprintEngine := .init (py "/var/drnt/workers") (py "drnt-worker:latest")
  egressStore := ∅
  seccompProfileContent := some sampleProfile

def sampleExecutor : WorkerExecutor := ⟨.parse (py "/var/drnt/workers/"), py "http://ollama:11434"⟩

def sampleJob (n : Nat) : JobId := ⟨0x19B7A000000, 0, Fin.ofNat _ n⟩

def sampleWorker : PyStr := py "3f2b8c1e-9a4d-4e6f-8b7a-0c1d2e3f4a5b"

def sampleLaunch (n : Nat) : Except (List PyStr) ContainerRunRequest :=
  sampleLifecycle.launch sampleExecutor (py "route.local") [] [] [] [] (sampleJob n) sampleWorker

-- the local route asks for no network
example : (sampleLaunch 1).toOption.map (·.networkMode) = some (some (py "none")) := by
  decide +kernel

theorem ascii_reads : ReadsAscii WorkerProxy.ascii where
  lower s plain := by
    have small : (py "0123456789m").all (fun c => !decide (0x41 ≤ c.val ∧ c.val ≤ 0x5a)) =
      true := by decide
    have same : ∀ c ∈ s, (if 0x41 ≤ c.val ∧ c.val ≤ 0x5a then Fin.ofNat _ (c.val + 0x20) else c) =
        id c := by
      intro c mem
      have low := List.all_eq_true.mp small c (plain c mem)
      exact if_neg (of_decide_eq_false (Bool.not_eq_true' _ ▸ low))
    exact (List.map_congr_left same).trans (List.map_id s)
  decimal := by decide

theorem sample_placed :
    sampleExecutor.sandboxBaseDir = .parse WorkerProxy.sandboxContainerPath := by
  decide

theorem sample_uuid : UuidText sampleWorker := by
  have digits : sampleWorker.all (· ∈ py "0123456789abcdef-") = true := by decide
  simpa [UuidText] using digits

theorem sample_preparable : Preparable sampleLifecycle (py "route.local") := by
  constructor
  case named => decide
  case registered => decide
  case stateful => exact fun _ => by decide
  case active =>
    intro status found
    have known : sampleLifecycle.validator.status (py "route.local") = some (py "active") := by
      decide
    exact Option.some.inj (found.symm.trans known)
  case wal =>
    intro n found
    have known : sampleLifecycle.validator.effectiveWal (py "route.local") = some 0 := by
      decide
    exact (Option.some.inj (found.symm.trans known)).ge
  case egress => exact fun endpoint mem => by cases mem
  case memory => decide
  case wallTime => decide

theorem launches_apart_jobs : ∃ req req', sampleLaunch 1 = .ok req ∧ sampleLaunch 2 = .ok req' ∧
    ∀ src ∈ (createKwargs (some WorkerProxy.mountpoint) req).volumes.keys,
    ∀ src' ∈ (createKwargs (some WorkerProxy.mountpoint) req').volumes.keys,
      ¬ Overlaps src src' := by
  have made (n : Nat) : sampleLaunch n = .ok (workerRequest sampleExecutor sampleLifecycle
      (py "route.local") (sampleJob n) sampleWorker) := by
    rcases launch_spec sampleLifecycle sampleExecutor (py "route.local") [] [] [] [] (sampleJob n)
      sampleWorker with ⟨-, launched⟩ | ⟨unable, -⟩
    · exact launched
    · exact absurd sample_preparable unable
  exact ⟨_, _, made 1, made 2, launches_apart sample_placed sample_placed sample_uuid sample_uuid
    (by decide +kernel) (made 1) (made 2) (.inl (by decide +kernel))⟩

end Sample

end Drnt.Runtime
