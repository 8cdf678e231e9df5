import Drnt.Audit.Tamper
import Drnt.Lib.Dict
import Mathlib.Data.String.Basic

/-! repair_tail, which can stop between any two of its steps and be run again. -/
namespace Drnt.Audit

open Lib

section Program

/-- A log directory: its log files, each name once and in order, and its quarantine. -/
structure Disk where
  logs : List LogFile
  sorted : logs.Pairwise fun f g => f.name < g.name
  quarantine : Dict String Bytes

namespace Disk

def keep (d : Disk) (name : String) (data : Bytes) : Disk :=
  { d with quarantine := d.quarantine.set name data }

def truncated (name : String) (size : Nat) (f : LogFile) : LogFile :=
  if f.name = name then { f with data := f.data.take size } else f

theorem truncated_name (name : String) (size : Nat) (f : LogFile) :
    (truncated name size f).name = f.name := by
  unfold truncated
  split <;> rfl

def truncate (d : Disk) (name : String) (size : Nat) : Disk where
  logs := d.logs.map (truncated name size)
  sorted := by simpa only [List.pairwise_map, truncated_name] using d.sorted
  quarantine := d.quarantine

def unlink (d : Disk) (name : String) : Disk where
  logs := d.logs.filter (·.name ≠ name)
  sorted := d.sorted.filter _
  quarantine := d.quarantine

end Disk

/-- The steps that change files. A copy creates a quarantine file, writes its chunks and
flushes it to disk. -/
inductive Op
  | copy (name : String) (chunks : List Bytes)
  | truncate (name : String) (size : Nat)
  | unlink (name : String)
  deriving DecidableEq, Repr

def Op.apply : Op → Disk → Disk
  | copy name chunks, d => d.keep name chunks.flatten
  | truncate name size, d => d.truncate name size
  | unlink name, d => d.unlink name

def runOps (ops : List Op) (d : Disk) : Disk := ops.foldl (fun d op => op.apply d) d

/-- What a stop may leave: before the first step, within a copy, or later. -/
inductive Stops : List Op → Disk → Disk → Prop
  | here {ops d} : Stops ops d d
  | torn {name chunks ops d part} (some : part <+: chunks.flatten) :
      Stops (.copy name chunks :: ops) d (d.keep name part)
  | next {op ops d d'} (rest : Stops ops (op.apply d) d') : Stops (op :: ops) d d'

inductive RepairError
  | refused (message : String)
  | assertion
  deriving DecidableEq, Repr

structure RepairPlan where
  report : AuditReport
  firstInvalid : Nat
  breakRecord : Record
  breakFile : LogFile
  newerFiles : List LogFile
  deriving DecidableEq, Repr

/-- The paths are relative to the directory. -/
structure Manifest where
  repairId : String
  repairType : String := "tail_quarantine"
  recordsTotal : Nat
  recordsValid : Nat
  lastValidRecordIndex : Option Nat
  lastValidHash : PyStr
  corruptFromRecordIndex : Nat
  corruptSuffixPath : String
  corruptSuffixSha256 : PyStr
  sealedFile : String
  removedFiles : List String
  newSegmentAnchorHash : PyStr
  operatorRequired : Bool := true
  postRepairStatus : Status
  postRepairRecords : Nat
  deriving DecidableEq, Repr

variable (py : Python)

def verifyPath (d : Disk) : AuditReport :=
  classify py (readRecords py d.logs) (d.logs.map (·.name))

/-- What repair_tail settles before it changes anything. -/
def planRepair (d : Disk) : Except RepairError RepairPlan :=
  let records := readRecords py d.logs
  let report := classify py records (d.logs.map (·.name))
  if report.status = .valid then .error (.refused "Chain is valid; nothing to repair.")
  else if report.status = .empty then .error (.refused "Audit log is empty; nothing to repair.")
  else if !report.repairable ∨ report.status ≠ .brokenTail then
    .error (.refused ("Refusing to repair: status=" ++ report.status.value ++
      " (repairable=False). " ++
      "Interior corruption requires manual investigation; no data was touched."))
  else
    match report.firstInvalidRecord with
    | none => .error .assertion
    | some firstInvalid =>
      match records[firstInvalid]? with
      | none => .error .assertion
      | some breakRecord =>
        match d.logs.find? (·.name = breakRecord.file) with
        | none => .error .assertion
        | some breakFile => .ok
          { report := report
            firstInvalid := firstInvalid
            breakRecord := breakRecord
            breakFile := breakFile
            newerFiles := d.logs.filter (breakFile.name < ·.name) }

def quarantineName (stamp : String) : String := "audit-tail-" ++ stamp ++ ".jsonl"

/-- The corrupt bytes: the tail of the break file, then the newer files. -/
def RepairPlan.chunks (p : RepairPlan) : List Bytes :=
  p.breakFile.data.drop p.breakRecord.byteStart :: p.newerFiles.map (·.data)

def RepairPlan.ops (p : RepairPlan) (stamp : String) : List Op :=
  .copy (quarantineName stamp) p.chunks ::
    .truncate p.breakFile.name p.breakRecord.byteStart ::
      p.newerFiles.map fun f => .unlink f.name

def RepairPlan.manifest (p : RepairPlan) (stamp : String) (post : AuditReport) : Manifest where
  repairId := stamp
  recordsTotal := p.report.recordsTotal
  recordsValid := p.report.recordsValid
  lastValidRecordIndex := p.report.lastValidRecord
  lastValidHash := p.report.lastValidHash
  corruptFromRecordIndex := p.firstInvalid
  corruptSuffixPath := "quarantine/" ++ quarantineName stamp
  corruptSuffixSha256 := py.sha256 p.chunks.flatten
  sealedFile := p.breakFile.name
  removedFiles := p.newerFiles.map (·.name)
  newSegmentAnchorHash := p.report.lastValidHash
  postRepairStatus := post.status
  postRepairRecords := post.recordsTotal

/-- A call that is not stopped: its result, and the directory that it leaves. -/
def repairTail (d : Disk) (stamp : String) : Except RepairError Manifest × Disk :=
  match planRepair py d with
  | .error e => (.error e, d)
  | .ok p =>
    let after := runOps (p.ops stamp) d
    (.ok (p.manifest py stamp (verifyPath py after)), after)

/-- What calls with distinct stamps, each stopped somewhere, may leave. -/
inductive Repaired (d : Disk) : List String → Disk → Prop
  | start : Repaired d [] d
  | call {stamps d₁ d₂ stamp p} (before : Repaired d stamps d₁) (fresh : stamp ∉ stamps)
      (planned : planRepair py d₁ = .ok p) (stops : Stops (p.ops stamp) d₁ d₂) :
      Repaired d (stamp :: stamps) d₂

end Program

section Plan

variable {py : Python} {d : Disk}

/-- What a plan says of the directory: the break file among the others, and the records before
the first invalid one as the records of what stays. -/
structure Planned (py : Python) (d : Disk) (p : RepairPlan) (older : List LogFile) : Prop where
  logs : d.logs = older ++ p.breakFile :: p.newerFiles
  valid : readRecords py (older ++
      [{ p.breakFile with data := p.breakFile.data.take p.breakRecord.byteStart }]) =
    (readRecords py d.logs).take p.firstInvalid
  some : p.firstInvalid ≠ 0
  first : (verifyPath py d).firstInvalidRecord = Option.some p.firstInvalid
  record : (readRecords py d.logs)[p.firstInvalid]? = Option.some p.breakRecord
  file : p.breakRecord.file = p.breakFile.name
  intact : Intact py ((readRecords py d.logs).take p.firstInvalid)
  kept : p.report.recordsValid = p.firstInvalid
  tip : p.report.lastValidHash = tipOf py ((readRecords py d.logs).take p.firstInvalid)

theorem flagged_take (records : List Record) (n : Nat) :
    flagged (records.take n) = (flagged records).take n := by
  have starts (prev : Option String) (records : List Record) (n : Nat) :
      segmentStartsFrom prev (records.take n) = (segmentStartsFrom prev records).take n := by
    induction records generalizing prev n with
    | nil => simp [segmentStartsFrom]
    | cons r rest ih =>
      cases n with
      | zero => rfl
      | succ n => simp [segmentStartsFrom, ih]
  unfold flagged segmentStarts
  rw [starts]
  exact List.take_zipWith.symm

theorem length_flagged (records : List Record) : (flagged records).length = records.length := by
  simp [flagged, segmentStarts, length_segmentStartsFrom]

/-- The records before the first break are intact. -/
theorem firstBreak_some {records : List Record} {n : Nat}
    (h : firstBreak py records (segmentStarts records) = some n) :
    n < records.length ∧ Intact py (records.take n) := by
  obtain ⟨before, x, after, eq, rfl, chain, -⟩ := firstBreakFrom_some.mp h
  have eq : flagged records = before ++ x :: after := eq
  rw [Nat.zero_add]
  constructor
  case left =>
    rw [← length_flagged, eq, List.length_append, List.length_cons]
    omega
  case right =>
    unfold Intact
    rw [flagged_take, eq, List.take_left']
    · exact chain
    · rfl

theorem tipOf_take {records : List Record} {n : Nat} (some : n ≠ 0) (bound : n ≤ records.length) :
    tipOf py (records.take n) =
      ((records[n - 1]?).map (chainHash py)).getD (genesisHash py) := by
  obtain ⟨m, rfl⟩ := Nat.exists_eq_succ_of_ne_zero some
  have at_ : m < records.length := by omega
  have last : records.take (m + 1) = records.take m ++ [records[m]] := by
    rw [List.take_add_one, List.getElem?_eq_getElem at_]
    rfl
  rw [tipOf, last, HashChain.tip_concat]
  simp [List.getElem?_eq_getElem at_]

/-- The files around one of a directory. -/
theorem find_logs {older newer : List LogFile} {f : LogFile} (logs : d.logs = older ++ f :: newer) :
    d.logs.find? (·.name = f.name) = some f ∧ d.logs.filter (f.name < ·.name) = newer ∧
      ∀ g ∈ older, g.name < f.name := by
  have sorted := d.sorted
  rw [logs, List.pairwise_append] at sorted
  obtain ⟨-, rest, apart⟩ := sorted
  have before : ∀ g ∈ older, g.name < f.name := fun g mem => apart g mem f (List.mem_cons_self ..)
  have behind : ∀ g ∈ newer, f.name < g.name := (List.pairwise_cons.mp rest).1
  rw [logs]
  refine ⟨?_, ?_, before⟩
  · rw [List.find?_append, List.find?_eq_none.mpr]
    · simp
    · intro g mem
      simpa using ne_of_lt (before g mem)
  · rw [List.filter_append, List.filter_eq_nil_iff.mpr, List.filter_cons_of_neg,
      List.filter_eq_self.mpr]
    · rfl
    · exact fun g mem => by simpa using behind g mem
    · simp
    · exact fun g mem => by rw [decide_eq_true_eq]; exact lt_asymm (before g mem)

theorem names_lt {older newer : List LogFile} {f : LogFile} (logs : d.logs = older ++ f :: newer) :
    ∀ g ∈ newer, f.name < g.name := by
  have sorted := d.sorted
  rw [logs, List.pairwise_append] at sorted
  exact (List.pairwise_cons.mp sorted.2.1).1

/-- What stays of the break file has the records before the break. -/
theorem readRecords_truncated {files : List LogFile} {P Q : List Record} {r : Record}
    (h : readRecords py files = P ++ r :: Q) : ∃ older f newer, files = older ++ f :: newer ∧
      r.file = f.name ∧
      readRecords py (older ++ [{ f with data := f.data.take r.byteStart }]) = P := by
  obtain ⟨older, f, newer, A, B, rfl, read, rfl⟩ := readRecordsFrom_split h
  obtain ⟨before, l, after, lines, file, -, at_, rfl⟩ := readLines_split read
  refine ⟨older, f, newer, rfl, file, ?_⟩
  have data : f.data = before.flatMap Line.bytes ++ (l :: after).flatMap Line.bytes := by
    rw [← List.flatMap_append, ← lines, bytes_splitLines]
  have taken : f.data.take r.byteStart = before.flatMap Line.bytes := by
    rw [at_, Nat.zero_add, data, List.take_left']
    rfl
  rw [readRecords, readRecordsFrom_append, readRecordsFrom, readRecordsFrom, List.append_nil, taken]
  simp only [readFileRecords, splitLines_before lines, Nat.zero_add]

theorem planRepair_refused (h : (verifyPath py d).status ≠ .brokenTail) :
    ∃ message, planRepair py d = .error (.refused message) := by
  have other : (classify py (readRecords py d.logs) (d.logs.map (·.name))).status ≠ .brokenTail := h
  unfold planRepair
  dsimp only
  rw [if_pos (c := _ ∨ _) (.inr other)]
  split
  · exact ⟨_, rfl⟩
  · split <;> exact ⟨_, rfl⟩

theorem planRepair_ok {p : RepairPlan} (h : planRepair py d = .ok p) :
    (verifyPath py d).status = .brokenTail := by
  by_contra other
  obtain ⟨message, refused⟩ := planRepair_refused other
  rw [refused] at h
  cases h

theorem planRepair_broken (h : (verifyPath py d).status = .brokenTail) :
    ∃ p older, planRepair py d = .ok p ∧ Planned py d p older := by
  obtain ⟨n, found, some, coherent, report⟩ := classify_broken h
  obtain ⟨bound, intact⟩ := firstBreak_some found
  have split : readRecords py d.logs = (readRecords py d.logs).take n ++
      (readRecords py d.logs)[n] :: (readRecords py d.logs).drop (n + 1) := by
    rw [← List.drop_eq_getElem_cons bound, List.take_append_drop]
  obtain ⟨older, f, newer, logs, file, valid⟩ := readRecords_truncated split
  obtain ⟨find, filter, -⟩ := find_logs logs
  obtain ⟨status, repairable, total, kept, first, hash⟩ :=
    reportBreak_tail (d.logs.map (·.name)) some coherent
  rw [← report] at status repairable total kept first hash
  have plan : planRepair py d = .ok
      ⟨verifyPath py d, n, (readRecords py d.logs)[n], f, newer⟩ := by
    unfold planRepair
    simp only [status, repairable, first, List.getElem?_eq_getElem bound, file, find, filter]
    rfl
  refine ⟨_, older, plan, ?_⟩
  constructor
  case logs => exact logs
  case valid => exact valid
  case some => exact some
  case first => exact first
  case record => exact List.getElem?_eq_getElem bound
  case file => exact file
  case intact => exact intact
  case kept => exact kept
  case tip => rw [tipOf_take some bound.le, ← hash]; rfl

end Plan

section Loss

variable {d d' : Disk} {stamps : List String} {name file stamp : String} {data : Bytes}

/-- Bytes that stand together in a quarantine file of one of the stamps. -/
def Saved (d : Disk) (stamps : List String) (piece : Bytes) : Prop :=
  ∃ stamp ∈ stamps, ∃ copy, d.quarantine.get? (quarantineName stamp) = some copy ∧ piece <:+: copy

/-- A log file's bytes: what its log file still has, then pieces in quarantine. -/
def Held (d : Disk) (stamps : List String) (name : String) (data : Bytes) : Prop :=
  ∃ kept pieces, data = kept ++ List.flatten pieces ∧
    (kept = [] ∨ ∃ f ∈ d.logs, f.name = name ∧ f.data = kept) ∧
    ∀ piece ∈ pieces, Saved d stamps piece

theorem quarantineName_injective : Function.Injective quarantineName := by
  intro s t eq
  have eq : ("audit-tail-" ++ s ++ ".jsonl").toList = ("audit-tail-" ++ t ++ ".jsonl").toList :=
    congrArg String.toList eq
  simp only [String.toList_append, List.append_left_inj, List.append_right_inj] at eq
  exact String.toList_inj.mp eq

theorem Saved.keep {piece part : Bytes} (h : Saved d stamps piece) (fresh : stamp ∉ stamps) :
    Saved (d.keep (quarantineName stamp) part) (stamp :: stamps) piece := by
  obtain ⟨s, mem, copy, at_, infix_⟩ := h
  have other : quarantineName s ≠ quarantineName stamp := fun eq =>
    fresh (quarantineName_injective eq ▸ mem)
  exact ⟨s, List.mem_cons_of_mem _ mem, copy, by rw [Disk.keep, Dict.get?_set_ne _ other, at_],
    infix_⟩

theorem Held.keep {part : Bytes} (h : Held d stamps name data) (fresh : stamp ∉ stamps) :
    Held (d.keep (quarantineName stamp) part) (stamp :: stamps) name data := by
  obtain ⟨kept, pieces, eq, here, saved⟩ := h
  exact ⟨kept, pieces, eq, here, fun piece mem => (saved piece mem).keep fresh⟩

theorem Held.truncate {size : Nat} (h : Held d stamps name data)
    (tail : ∀ f ∈ d.logs, f.name = file → Saved d stamps (f.data.drop size)) :
    Held (d.truncate file size) stamps name data := by
  obtain ⟨kept, pieces, rfl, here, saved⟩ := h
  rcases here with rfl | ⟨f, mem, rfl, rfl⟩
  · exact ⟨[], pieces, rfl, .inl rfl, saved⟩
  · have still : Disk.truncated file size f ∈ (d.truncate file size).logs :=
      List.mem_map_of_mem mem
    by_cases hit : f.name = file
    case pos =>
      have cut : (Disk.truncated file size f).data = f.data.take size := by
        rw [Disk.truncated, if_pos hit]
      refine ⟨f.data.take size, f.data.drop size :: pieces, ?_,
        .inr ⟨_, still, Disk.truncated_name .., cut⟩, ?_⟩
      · rw [List.flatten_cons, ← List.append_assoc, List.take_append_drop]
      · intro piece here
        rcases List.mem_cons.mp here with rfl | here
        · exact tail f mem hit
        · exact saved piece here
    case neg =>
      have same : (Disk.truncated file size f).data = f.data := by rw [Disk.truncated, if_neg hit]
      exact ⟨f.data, pieces, rfl, .inr ⟨_, still, Disk.truncated_name .., same⟩, saved⟩

theorem Held.unlink (h : Held d stamps name data)
    (whole : ∀ f ∈ d.logs, f.name = file → Saved d stamps f.data) :
    Held (d.unlink file) stamps name data := by
  obtain ⟨kept, pieces, rfl, here, saved⟩ := h
  rcases here with rfl | ⟨f, mem, rfl, rfl⟩
  · exact ⟨[], pieces, rfl, .inl rfl, saved⟩
  · by_cases hit : f.name = file
    case pos =>
      refine ⟨[], f.data :: pieces, rfl, .inl rfl, ?_⟩
      intro piece here
      rcases List.mem_cons.mp here with rfl | here
      · exact whole f mem hit
      · exact saved piece here
    case neg =>
      have still : f ∈ (d.unlink file).logs := List.mem_filter.mpr ⟨mem, by simpa using hit⟩
      exact ⟨f.data, pieces, rfl, .inr ⟨f, still, rfl, rfl⟩, saved⟩

/-- The newer files are in quarantine when they are removed. -/
theorem Held.unlinks {newer : List LogFile} (stops : Stops (newer.map (.unlink ·.name)) d d')
    (behind : ∀ f ∈ newer, file < f.name)
    (copied : ∀ f ∈ d.logs, file < f.name → Saved d stamps f.data)
    (h : Held d stamps name data) : Held d' stamps name data := by
  induction newer generalizing d with
  | nil =>
    cases stops
    exact h
  | cons g newer ih =>
    cases stops with
    | here => exact h
    | next rest =>
      have after : file < g.name := behind g (List.mem_cons_self ..)
      refine ih rest (fun f mem => behind f (List.mem_cons_of_mem _ mem)) ?_ ?_
      · exact fun f mem later => copied f (List.mem_of_mem_filter mem) later
      · exact h.unlink fun f mem eq => copied f mem (eq ▸ after)

variable {py : Python} {p : RepairPlan} {older : List LogFile}

theorem infix_flatten {α : Type} {x : List α} {xs : List (List α)} (h : x ∈ xs) :
    x <:+: xs.flatten := by
  obtain ⟨before, after, rfl⟩ := List.append_of_mem h
  exact ⟨before.flatten, after.flatten, by simp⟩

/-- A call loses nothing, wherever it stops. -/
theorem Held.call (plan : Planned py d p older) (fresh : stamp ∉ stamps)
    (stops : Stops (p.ops stamp) d d') (h : Held d stamps name data) :
    Held d' (stamp :: stamps) name data := by
  cases stops with
  | here =>
    obtain ⟨kept, pieces, eq, here, saved⟩ := h
    refine ⟨kept, pieces, eq, here, fun piece mem => ?_⟩
    obtain ⟨s, mem, copy⟩ := saved piece mem
    exact ⟨s, List.mem_cons_of_mem _ mem, copy⟩
  | torn => exact h.keep fresh
  | next rest =>
    have copied {piece : Bytes} (mem : piece ∈ p.chunks) :
        Saved (d.keep (quarantineName stamp) p.chunks.flatten) (stamp :: stamps) piece :=
      ⟨stamp, List.mem_cons_self .., _, Dict.get?_set_self .., infix_flatten mem⟩
    have h : Held (d.keep (quarantineName stamp) p.chunks.flatten) (stamp :: stamps) name data :=
      h.keep fresh
    have found := find_logs plan.logs
    cases rest with
    | here => exact h
    | next rest =>
      refine Held.unlinks rest (names_lt plan.logs) ?copied (h.truncate ?tail)
      case copied =>
        intro f mem later
        obtain ⟨g, here, rfl⟩ := List.mem_map.mp mem
        rw [Disk.truncated_name] at later
        have same : (Disk.truncated p.breakFile.name p.breakRecord.byteStart g) = g := by
          rw [Disk.truncated, if_neg later.ne']
        have newer : g ∈ p.newerFiles := by
          rw [← found.2.1]
          exact List.mem_filter.mpr ⟨here, by simpa using later⟩
        rw [same]
        exact copied (List.mem_cons_of_mem _ (List.mem_map_of_mem newer))
      case tail =>
        intro f mem eq
        have same : f = p.breakFile := by
          have mem : f ∈ older ++ p.breakFile :: p.newerFiles := plan.logs ▸ mem
          rcases List.mem_append.mp mem with before | mem
          · exact absurd eq (found.2.2 f before).ne
          · rcases List.mem_cons.mp mem with rfl | behind
            · rfl
            · exact absurd eq (names_lt plan.logs f behind).ne'
        rw [same]
        exact copied (List.mem_cons_self ..)

theorem Repaired.held (h : Repaired py d stamps d') {f : LogFile} (mem : f ∈ d.logs) :
    Held d' stamps f.name f.data := by
  induction h with
  | start => exact ⟨f.data, [], by simp, .inr ⟨f, mem, rfl, rfl⟩, nofun⟩
  | call before fresh planned stops ih =>
    obtain ⟨p, older, plan, facts⟩ := planRepair_broken (planRepair_ok planned)
    rw [planned, Except.ok.injEq] at plan
    exact Held.call (plan ▸ facts) fresh stops ih

end Loss

section Repair

variable {py : Python} {d : Disk} {p : RepairPlan} {older : List LogFile} {stamp : String}

theorem runOps_unlinks (newer : List LogFile) (d : Disk) :
    (runOps (newer.map (.unlink ·.name)) d).logs =
        d.logs.filter (fun f => ∀ g ∈ newer, f.name ≠ g.name) ∧
      (runOps (newer.map (.unlink ·.name)) d).quarantine = d.quarantine := by
  induction newer generalizing d with
  | nil =>
    constructor
    · exact (List.filter_eq_self.mpr fun f _ => by simp).symm
    · rfl
  | cons g newer ih =>
    obtain ⟨logs, quarantine⟩ := ih (d.unlink g.name)
    constructor
    case left =>
      refine logs.trans ?_
      rw [Disk.unlink, List.filter_filter]
      refine List.filter_congr fun f _ => ?_
      simp [Bool.and_comm]
    case right => exact quarantine

/-- What a whole call makes of the directory. -/
theorem Planned.run (plan : Planned py d p older) (stamp : String) :
    (runOps (p.ops stamp) d).logs = older ++
        [{ p.breakFile with data := p.breakFile.data.take p.breakRecord.byteStart }] ∧
      (runOps (p.ops stamp) d).quarantine =
        d.quarantine.set (quarantineName stamp) p.chunks.flatten := by
  obtain ⟨-, -, before⟩ := find_logs plan.logs
  have behind := names_lt plan.logs
  obtain ⟨logs, quarantine⟩ := runOps_unlinks p.newerFiles
    ((d.keep (quarantineName stamp) p.chunks.flatten).truncate p.breakFile.name
      p.breakRecord.byteStart)
  constructor
  case right => exact quarantine
  case left =>
    refine logs.trans ?_
    have cut : (d.logs.map (Disk.truncated p.breakFile.name p.breakRecord.byteStart)) =
        older ++ { p.breakFile with data := p.breakFile.data.take p.breakRecord.byteStart } ::
          p.newerFiles := by
      rw [plan.logs, List.map_append, List.map_cons, List.map_congr_left (g := id),
        List.map_congr_left (f := Disk.truncated _ _) (g := id), List.map_id, List.map_id]
      · rw [Disk.truncated, if_pos rfl]
      · exact fun f mem => if_neg (behind f mem).ne'
      · exact fun f mem => if_neg (before f mem).ne
    show (d.logs.map (Disk.truncated p.breakFile.name p.breakRecord.byteStart)).filter _ = _
    rw [cut, List.filter_append, List.filter_cons_of_pos, List.filter_eq_self.mpr,
      List.filter_eq_nil_iff.mpr]
    · intro f mem
      simpa using ⟨f, mem, rfl⟩
    · intro f mem
      simpa using fun g here => ((before f mem).trans (behind g here)).ne
    · simpa using fun g here => (behind g here).ne

/-- Repair of a tail loses nothing. Anything but a broken tail is refused and nothing changes.
Calls that stop anywhere keep every byte of every file, in its log file or in quarantine. A call
that is not stopped leaves exactly what is before the first invalid record, a valid chain, and
moves the rest to quarantine in order. -/
theorem repair_loses_nothing (py : Python) (d : Disk) :
    ((verifyPath py d).status ≠ .brokenTail → ∀ stamp, ∃ message,
      repairTail py d stamp = (.error (.refused message), d)) ∧
    (∀ stamps d', Repaired py d stamps d' → ∀ f ∈ d.logs, Held d' stamps f.name f.data) ∧
    ((verifyPath py d).status = .brokenTail → ∀ stamp, ∃ manifest d' n r older f newer,
      repairTail py d stamp = (.ok manifest, d') ∧
      (verifyPath py d).firstInvalidRecord = some n ∧ (readRecords py d.logs)[n]? = some r ∧
      r.file = f.name ∧ d.logs = older ++ f :: newer ∧
      d'.logs = older ++ [{ f with data := f.data.take r.byteStart }] ∧
      readRecords py d'.logs = (readRecords py d.logs).take n ∧
      d'.quarantine.get? (quarantineName stamp) =
        some (f.data.drop r.byteStart ++ newer.flatMap (·.data)) ∧
      (verifyPath py d').status = .valid ∧
      (verifyPath py d').recordsTotal = manifest.recordsValid ∧
      (verifyPath py d').lastValidHash = manifest.lastValidHash) := by
  refine ⟨?refuses, fun stamps d' h f mem => h.held mem, ?repairs⟩
  case refuses =>
    intro other stamp
    obtain ⟨message, refused⟩ := planRepair_refused other
    exact ⟨message, by rw [repairTail, refused]⟩
  case repairs =>
    intro broken stamp
    obtain ⟨p, older, plan, facts⟩ := planRepair_broken broken
    obtain ⟨logs, quarantine⟩ := facts.run stamp
    have read : readRecords py (runOps (p.ops stamp) d).logs =
        (readRecords py d.logs).take p.firstInvalid := by rw [logs, facts.valid]
    have bound : p.firstInvalid < (readRecords py d.logs).length :=
      (List.getElem?_eq_some_iff.mp facts.record).1
    have length : ((readRecords py d.logs).take p.firstInvalid).length = p.firstInvalid := by
      rw [List.length_take, min_eq_left bound.le]
    have some : (readRecords py d.logs).take p.firstInvalid ≠ [] :=
      List.ne_nil_of_length_pos (by rw [length]; exact Nat.pos_of_ne_zero facts.some)
    obtain ⟨valid, total, tip⟩ := classify_intact
      ((runOps (p.ops stamp) d).logs.map (·.name)) some facts.intact
    rw [← read] at valid total tip
    refine ⟨p.manifest py stamp (verifyPath py (runOps (p.ops stamp) d)),
      runOps (p.ops stamp) d, p.firstInvalid, p.breakRecord, older, p.breakFile, p.newerFiles,
      by rw [repairTail, plan], facts.first, facts.record, facts.file, facts.logs, logs, read, ?copy,
      valid, ?total, ?tip⟩
    case copy =>
      rw [quarantine, Dict.get?_set_self, RepairPlan.chunks, List.flatten_cons, List.flatMap_def]
    case total => exact total.trans (by rw [read, length]; exact facts.kept.symm)
    case tip => exact tip.trans (by rw [read]; exact facts.tip.symm)

/-- A day whose second record names no predecessor, and a next day without a record of its own. -/
def tornDisk : Disk where
  logs := [⟨"drnt-audit-2026-01-01.jsonl", firstLine ++ newline :: bytesOf "\x7b\x7d"⟩,
    ⟨"drnt-audit-2026-01-02.jsonl", bytesOf "\x7b"⟩]
  sorted := by decide +kernel
  quarantine := ∅

theorem repair_loses_nothing_witness : ∃ manifest d',
    repairTail cpython tornDisk "2026-01-02T00-00-00Z" = (.ok manifest, d') ∧
    (verifyPath cpython d').status = .valid := by
  have broken : (verifyPath cpython tornDisk).status = .brokenTail := by decide +kernel
  obtain ⟨manifest, d', n, r, older, f, newer, run, -, -, -, -, -, -, -, valid, -⟩ :=
    (repair_loses_nothing cpython tornDisk).2.2 broken "2026-01-02T00-00-00Z"
  exact ⟨manifest, d', run, valid⟩

end Repair

end Drnt.Audit
