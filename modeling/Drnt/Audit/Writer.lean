import Drnt.Audit.Repair
import Drnt.Audit.Validator
import Drnt.Audit.Day
import Drnt.Lib.Dumps

/-! The audit log writer: commits events in order, each on a line of its day's file. -/
namespace Drnt.Audit

open Lib

section Files

namespace Disk

def exists? (d : Disk) (name : String) : Bool := d.logs.any (·.name = name)

/-- The file of a name, if there is one. -/
def read? (d : Disk) (name : String) : Option Bytes := (d.logs.find? (·.name = name)).map (·.data)

def appended (name : String) (data : Bytes) (f : LogFile) : LogFile :=
  if f.name = name then { f with data := f.data ++ data } else f

theorem appended_name (name : String) (data : Bytes) (f : LogFile) :
    (appended name data f).name = f.name := by
  unfold appended
  split <;> rfl

/-- A file without data, in its place. -/
def create (d : Disk) (name : String) : Disk where
  logs := d.logs.filter (·.name < name) ++ ⟨name, []⟩ :: d.logs.filter (name < ·.name)
  sorted := by
    refine List.pairwise_append.mpr ⟨d.sorted.filter _, List.pairwise_cons.mpr ⟨?_, d.sorted.filter _⟩,
      ?_⟩
    · intro f mem
      simpa using (List.mem_filter.mp mem).2
    · intro f hf g hg
      have before : f.name < name := by simpa using (List.mem_filter.mp hf).2
      rcases List.mem_cons.mp hg with rfl | hg
      · exact before
      · exact before.trans (by simpa using (List.mem_filter.mp hg).2)
  quarantine := d.quarantine

/-- Opening for appending creates a file that is not there. -/
def openFile (d : Disk) (name : String) : Disk := if d.exists? name then d else d.create name

def append (d : Disk) (name : String) (data : Bytes) : Disk where
  logs := d.logs.map (appended name data)
  sorted := by simpa only [List.pairwise_map, appended_name] using d.sorted
  quarantine := d.quarantine

end Disk

/-- The name of a day's file. -/
def getFilePath (date : String) : String := "drnt-audit-" ++ date ++ ".jsonl"

end Files

section Recovery

variable (py : Python)

structure ChainState where
  prevHash : PyStr
  sequence : Nat
  seenIds : List Json
  deriving DecidableEq, Repr

/-- The loop over the lines of a file, which skips what is not JSON. -/
def recoverLines (c : ChainState) : List PyStr → Except Raised ChainState
  | [] => .ok c
  | line :: rest =>
    if line = [] then recoverLines c rest
    else match Loads.loads py line with
      | .error .decode => recoverLines c rest
      | .error .value => .error .value
      | .error .recursion => .error .recursion
      | .ok (.obj fields) =>
        let id := (Json.field? (Lib.py "source_event_id") fields).getD (.str [])
        if hashable id then
          recoverLines ⟨computeHash py line, c.sequence + 1, id :: c.seenIds⟩ rest
        else .error .type
      | .ok _ => .error .attribute

def recoverFiles (d : Disk) (c : ChainState) : List Day → Except Raised ChainState
  | [] => .ok c
  | day :: rest =>
    match d.read? (getFilePath day.text) with
    | none => recoverFiles d c rest
    | some data =>
      match TextMode.read data with
      | none => .error .unicodeDecode
      | some lines => do recoverFiles d (← recoverLines py c lines) rest

/-- The clock is read once for today and once more for yesterday. -/
def recoverChainState (d : Disk) (today later : Day) : Except Raised ChainState :=
  recoverFiles py d ⟨genesisHash py, 0, []⟩ (later.yesterday.toList ++ [today])

end Recovery

section Service

/-- The memory of the service. -/
structure Writer where
  prevHash : PyStr
  sequence : Nat
  seenSourceIds : List Json
  currentDate : String
  beBuffer : List (String × PyStr)
  deriving DecidableEq, Repr

structure Service where
  disk : Disk
  writer : Writer

structure CommittedEvent where
  schemaVersion : Json
  eventId : Uuid7
  sourceEventId : Json
  timestamp : Json
  committedAt : String
  eventType : Json
  jobId : Json
  parentJobId : Json
  capabilityId : Json
  walLevel : Json
  source : Json
  prevHash : PyStr
  durability : Json
  payload : Json
  deriving DecidableEq, Repr

def CommittedEvent.toDict (e : CommittedEvent) : List (PyStr × Json) :=
  [(Lib.py "schema_version", e.schemaVersion), (Lib.py "event_id", .text e.eventId.text),
    (Lib.py "source_event_id", e.sourceEventId), (Lib.py "timestamp", e.timestamp),
    (Lib.py "committed_at", .text e.committedAt), (Lib.py "event_type", e.eventType),
    (Lib.py "job_id", e.jobId), (Lib.py "parent_job_id", e.parentJobId),
    (Lib.py "capability_id", e.capabilityId), (Lib.py "wal_level", e.walLevel),
    (Lib.py "source", e.source), (Lib.py "prev_hash", .str e.prevHash),
    (Lib.py "durability", e.durability), (Lib.py "payload", e.payload)]

def CommittedEvent.jsonLine (e : CommittedEvent) : PyStr := Dumps.dumps false (.obj e.toDict)

/-- The answer to a client. -/
inductive Response
  | ack (eventId : Uuid7) (committedAt : String) (prevHash : PyStr) (sequence : Nat)
  | error (message : PyStr)
  | duplicate (sourceEventId : Json)
  deriving DecidableEq, Repr

def Response.toDict : Response → List (PyStr × Json)
  | ack eventId committedAt prevHash sequence =>
    [(Lib.py "status", .text "ok"), (Lib.py "event_id", .text eventId.text),
      (Lib.py "committed_at", .text committedAt), (Lib.py "prev_hash", .str prevHash),
      (Lib.py "sequence", .nat sequence)]
  | error message => [(Lib.py "status", .text "error"), (Lib.py "message", .str message)]
  | duplicate sourceEventId =>
    [(Lib.py "status", .text "duplicate"), (Lib.py "source_event_id", sourceEventId)]

/-- A step of the service; an exception keeps what was done before it. -/
abbrev Act := EStateM Raised Service

/-- The file is opened, then the text is encoded. -/
def appendLine (date : String) (line : PyStr) : Act Unit := do
  let name := getFilePath date
  modify fun s => { s with disk := s.disk.openFile name }
  match Utf8.encode (line ++ [TextMode.lineFeed]) with
  | none => throw .unicodeEncode
  | some data => modify fun s => { s with disk := s.disk.append name data }

def appendLines : List (String × PyStr) → Act Unit
  | [] => pure ()
  | (date, line) :: rest => do
    appendLine date line
    appendLines rest

def flushBestEffort : Act Unit := do
  let s ← get
  appendLines s.writer.beBuffer
  modify fun s => { s with writer.beBuffer := [] }

variable (host : Host)

def initialize_ (d : Disk) (today later start : Day) : Except Raised Writer := do
  let c ← recoverChainState host.toPython d today later
  return ⟨c.prevHash, c.sequence, c.seenIds, start.text, []⟩

/-- The event of a message, with the fields that the writer adds. -/
def committedEvent (data : String → Json) (eventId : Uuid7) (committedAt : String)
    (prevHash : PyStr) : CommittedEvent where
  schemaVersion := data "schema_version"
  eventId := eventId
  sourceEventId := data "source_event_id"
  timestamp := data "timestamp"
  committedAt := committedAt
  eventType := data "event_type"
  jobId := data "job_id"
  parentJobId := data "parent_job_id"
  capabilityId := data "capability_id"
  walLevel := data "wal_level"
  source := data "source"
  prevHash := prevHash
  durability := data "durability"
  payload := data "payload"

def commitEvent (data : String → Json) (now : UtcTime) (eventId : Uuid7) : Act CommittedEvent := do
  let date := now.date.text
  -- on the first event of another day the buffer goes to the old day's file
  if date ≠ (← get).writer.currentDate then flushBestEffort
  modify fun s => { s with writer.currentDate := date }
  return committedEvent data eventId now.isoformat (← get).writer.prevHash

def writeEvent (e : CommittedEvent) : Act Unit := do
  let line := e.jsonLine
  let date := String.ofList (e.committedAt.toList.take 10)
  if e.durability = .text "durable" then
    flushBestEffort
    appendLine date line
  else
    modify fun s => { s with writer.beBuffer := s.writer.beBuffer ++ [(date, line)] }
  match Utf8.encode line with
  | none => throw .unicodeEncode
  | some data => modify fun s => { s with
      writer.prevHash := host.sha256 data
      writer.sequence := s.writer.sequence + 1
      writer.seenSourceIds := e.sourceEventId :: s.writer.seenSourceIds }

/-- data[name], which validation has found. -/
def field (data : Json) (name : String) : Json := (data.get? (Lib.py name)).getD .null

def handleEvent (data : Json) (now : UtcTime) (eventId : Uuid7) : Act Response := do
  match validateEvent host data with
  | .error fault => throw fault
  | .ok (some message) => return .error message
  | .ok none =>
    if field data "source_event_id" ∈ (← get).writer.seenSourceIds then
      return .duplicate (field data "source_event_id")
    let e ← commitEvent (field data) now eventId
    writeEvent host e
    return .ack e.eventId e.committedAt e.prevHash (← get).writer.sequence

end Service

end Drnt.Audit
