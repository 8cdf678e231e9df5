import Drnt.Audit.Records
import Drnt.Lib.HashChain

/-! Classification of an audit log: its segmented chain, and what follows the first break. -/
namespace Drnt.Audit

open Lib

inductive Status
  | valid | empty | brokenTail | interior
  deriving DecidableEq, Repr

def Status.value : Status → String
  | valid => "valid"
  | empty => "empty"
  | brokenTail => "broken_tail"
  | interior => "interior_corruption"

structure AuditReport where
  status : Status
  recordsTotal : Nat
  recordsValid : Nat
  firstInvalidRecord : Option Nat
  lastValidRecord : Option Nat
  lastValidHash : PyStr
  repairable : Bool
  corruptSuffixSha256 : Option PyStr
  files : List String
  message : String
  deriving DecidableEq, Repr

def genesisBytes : Bytes := "DRNT-GENESIS".toList.map fun c => .ofNat c.toNat

section Classification

variable (py : Python)

def genesisHash : PyStr := py.sha256 genesisBytes

/-- A record's line as the writer hashed it: without one trailing CR. -/
def unreturned (raw : Bytes) : Bytes :=
  if raw.getLast? = some carriageReturn then raw.dropLast else raw

def chainHash (r : Record) : PyStr := py.sha256 (unreturned r.raw)

/-- parsed.get("prev_hash"), where it is a text. -/
def Record.prevHash? (r : Record) : Option PyStr :=
  match r.parsed.bind (Json.field? (Lib.py "prev_hash")) with
  | some (.str s) => some s
  | _ => none

/-- The flags of _segment_starts, after a record of another file. -/
def segmentStartsFrom : Option String → List Record → List Bool
  | _, [] => []
  | prevFile, r :: rest => decide (some r.file ≠ prevFile) :: segmentStartsFrom (some r.file) rest

def segmentStarts (records : List Record) : List Bool := segmentStartsFrom none records

/-- The loop of _first_break over the flags and records that are left. -/
def firstBreakFrom (prev : PyStr) (i : Nat) : List (Bool × Record) → Option Nat
  | [] => none
  | (starts, r) :: rest =>
    if r.prevHash? = some prev then firstBreakFrom (chainHash py r) (i + 1) rest
    else if starts ∧ r.prevHash? = some (genesisHash py) then
      firstBreakFrom (chainHash py r) (i + 1) rest
    else some i

/-- _first_break; none stands for -1. -/
def firstBreak (records : List Record) (segStarts : List Bool) : Option Nat :=
  firstBreakFrom py (genesisHash py) 0 (segStarts.zip records)

/-- The loop of _has_coherent_continuation after the record `a`. -/
def continuesAfter (a : Record) : List (Bool × Record) → Bool
  | [] => false
  | (starts, b) :: rest =>
    (b.parsed.isSome && (starts && b.prevHash? = some (genesisHash py) ||
      a.parsed.isSome && b.prevHash? = some (chainHash py a))) || continuesAfter b rest

def hasCoherentContinuation (records : List Record) (segStarts : List Bool)
    (firstInvalid : Nat) : Bool :=
  match (segStarts.zip records).drop firstInvalid with
  | [] => false
  | (_, a) :: rest => continuesAfter py a rest

def suffixBytes (records : List Record) : Bytes :=
  records.flatMap fun r =>
    r.raw ++ if r.byteStart + r.raw.length < r.byteEnd then [newline] else []

def suffixSha256 (records : List Record) (firstInvalid : Nat) : PyStr :=
  py.sha256 (suffixBytes (records.drop firstInvalid))

def segmentCount (records : List Record) : Nat :=
  records.countP fun r => r.prevHash? = some (genesisHash py)

/-- The report of a log in which the record `firstInvalid` is the first break. -/
def reportBreak (records : List Record) (segStarts : List Bool) (files : List String)
    (firstInvalid : Nat) : AuditReport :=
  let lastValid := if firstInvalid = 0 then none else some (firstInvalid - 1)
  let lastValidHash := ((lastValid.bind (records[·]?)).map (chainHash py)).getD (genesisHash py)
  let digest := suffixSha256 py records firstInvalid
  if firstInvalid = 0 ∨ hasCoherentContinuation py records segStarts firstInvalid then
    { status := .interior
      recordsTotal := records.length
      recordsValid := firstInvalid
      firstInvalidRecord := some firstInvalid
      lastValidRecord := lastValid
      lastValidHash := lastValidHash
      repairable := false
      corruptSuffixSha256 := some digest
      files := files
      message := "Interior corruption: " ++
        (if firstInvalid = 0 then "first record does not chain from genesis (no trusted prefix)"
          else "a valid record continues after the first break") ++
        ". Manual investigation required." }
  else
    { status := .brokenTail
      recordsTotal := records.length
      recordsValid := firstInvalid
      firstInvalidRecord := some firstInvalid
      lastValidRecord := lastValid
      lastValidHash := lastValidHash
      repairable := true
      corruptSuffixSha256 := some digest
      files := files
      message := "Broken hash-chain tail: " ++ toString firstInvalid ++
        " valid records, corrupt suffix from record " ++ toString firstInvalid ++ "." }

def classify (records : List Record) (files : List String) : AuditReport :=
  match records.getLast? with
  | none =>
    { status := .empty
      recordsTotal := 0
      recordsValid := 0
      firstInvalidRecord := none
      lastValidRecord := none
      lastValidHash := genesisHash py
      repairable := false
      corruptSuffixSha256 := none
      files := files
      message := "No audit records present; a new chain initializes from genesis." }
  | some last =>
    let segStarts := segmentStarts records
    match firstBreak py records segStarts with
    | none =>
      { status := .valid
        recordsTotal := records.length
        recordsValid := records.length
        firstInvalidRecord := none
        lastValidRecord := some last.index
        lastValidHash := chainHash py last
        repairable := false
        corruptSuffixSha256 := none
        files := files
        message := "Chain valid, " ++ toString records.length ++ " records verified across " ++
          toString (segmentCount py records) ++ " segment(s)." }
    | some firstInvalid => reportBreak py records segStarts files firstInvalid

end Classification

section Chain

variable {py : Python}

/-- The records with their flags form a chain in segments. -/
abbrev ChainedFrom (py : Python) (prev : PyStr) (xs : List (Bool × Record)) : Prop :=
  HashChain.Chained Record.prevHash? (chainHash py) (genesisHash py) prev xs

def flagged (records : List Record) : List (Bool × Record) := (segmentStarts records).zip records

/-- The whole list is a chain from genesis. -/
abbrev Intact (py : Python) (records : List Record) : Prop :=
  ChainedFrom py (genesisHash py) (flagged records)

/-- The hash that the next record has to name. -/
abbrev tipOf (py : Python) (records : List Record) : PyStr :=
  HashChain.tip (chainHash py) (genesisHash py) records

theorem firstBreakFrom_cons {prev : PyStr} {i : Nat} {starts : Bool} {r : Record}
    {xs : List (Bool × Record)} : firstBreakFrom py prev i ((starts, r) :: xs) =
      if HashChain.Admits Record.prevHash? (genesisHash py) prev starts r then
        firstBreakFrom py (chainHash py r) (i + 1) xs else some i := by
  have admits : HashChain.Admits Record.prevHash? (genesisHash py) prev starts r ↔
      r.prevHash? = some prev ∨ starts = true ∧ r.prevHash? = some (genesisHash py) := Iff.rfl
  rw [firstBreakFrom]
  by_cases link : r.prevHash? = some prev
  · rw [if_pos link, if_pos (admits.mpr (.inl link))]
  · by_cases anew : starts = true ∧ r.prevHash? = some (genesisHash py)
    · rw [if_neg link, if_pos anew, if_pos (admits.mpr (.inr anew))]
    · rw [if_neg link, if_neg anew, if_neg fun h => (admits.mp h).elim link anew]

theorem firstBreakFrom_none {prev : PyStr} {i : Nat} {xs : List (Bool × Record)} :
    firstBreakFrom py prev i xs = none ↔ ChainedFrom py prev xs := by
  induction xs generalizing prev i with
  | nil => simp [firstBreakFrom, HashChain.Chained]
  | cons x xs ih =>
    obtain ⟨starts, r⟩ := x
    rw [firstBreakFrom_cons]
    split
    case isTrue admits => exact ih.trans ⟨fun chain => ⟨admits, chain⟩, fun chain => chain.2⟩
    case isFalse breaks => exact ⟨(by simp), fun chain => absurd chain.1 breaks⟩

/-- The first break is the first record that the chain up to it does not admit. -/
theorem firstBreakFrom_some {prev : PyStr} {i n : Nat} {xs : List (Bool × Record)} :
    firstBreakFrom py prev i xs = some n ↔ ∃ before x after, xs = before ++ x :: after ∧
      n = i + before.length ∧ ChainedFrom py prev before ∧
      ¬ HashChain.Admits Record.prevHash? (genesisHash py)
        (HashChain.tip (fun x => chainHash py x.2) prev before) x.1 x.2 := by
  induction xs generalizing prev i with
  | nil => simp [firstBreakFrom]
  | cons x xs ih =>
    rw [firstBreakFrom_cons]
    constructor
    case mp =>
      intro h
      split at h
      case isTrue admits =>
        obtain ⟨before, y, after, rfl, rfl, chain, breaks⟩ := ih.mp h
        exact ⟨x :: before, y, after, rfl, by simp; omega, ⟨admits, chain⟩, breaks⟩
      case isFalse breaks =>
        cases h
        exact ⟨[], x, xs, rfl, rfl, trivial, breaks⟩
    case mpr =>
      rintro ⟨before, y, after, eq, rfl, chain, breaks⟩
      cases before with
      | nil =>
        cases eq
        exact if_neg breaks
      | cons z before =>
        cases eq
        rw [if_pos chain.1]
        exact ih.mpr ⟨before, y, after, rfl, by simp; omega, chain.2, breaks⟩

theorem firstBreak_none {records : List Record} :
    firstBreak py records (segmentStarts records) = none ↔ Intact py records := firstBreakFrom_none

theorem reportBreak_status (records : List Record) (flags : List Bool) (files : List String)
    (n : Nat) : (reportBreak py records flags files n).status =
      if n = 0 ∨ hasCoherentContinuation py records flags n then .interior else .brokenTail := by
  unfold reportBreak
  by_cases interior : n = 0 ∨ hasCoherentContinuation py records flags n
  · simp only [if_pos interior]
  · simp only [if_neg interior]

/-- The report of a break that nothing continues. -/
theorem reportBreak_tail {records : List Record} {flags : List Bool} {n : Nat}
    (files : List String) (some : n ≠ 0) (coherent : hasCoherentContinuation py records flags n = false) :
    let report := reportBreak py records flags files n
    report.status = .brokenTail ∧ report.repairable = true ∧
      report.recordsTotal = records.length ∧ report.recordsValid = n ∧
      report.firstInvalidRecord = Option.some n ∧
      report.lastValidHash = ((records[n - 1]?).map (chainHash py)).getD (genesisHash py) := by
  have tail : ¬ (n = 0 ∨ hasCoherentContinuation py records flags n = true) := by
    simp [some, coherent]
  intro report
  have eq : report = reportBreak py records flags files n := rfl
  unfold reportBreak at eq
  simp only [if_neg tail, if_neg some] at eq
  rw [eq]
  exact ⟨rfl, rfl, rfl, rfl, rfl, rfl⟩

/-- The status by the first break. -/
theorem classify_status (records : List Record) (files : List String) :
    (classify py records files).status =
      if records = [] then .empty
      else match firstBreak py records (segmentStarts records) with
        | none => .valid
        | some n =>
          if n = 0 ∨ hasCoherentContinuation py records (segmentStarts records) n then .interior
          else .brokenTail := by
  unfold classify
  cases last : records.getLast? with
  | none => rw [if_pos (List.getLast?_eq_none_iff.mp last)]
  | some r =>
    have some : records ≠ [] := by
      rintro rfl
      cases last
    rw [if_neg some]
    dsimp only
    cases firstBreak py records (segmentStarts records) with
    | none => rfl
    | some n => exact reportBreak_status ..

theorem classify_valid {records : List Record} {files : List String} :
    (classify py records files).status = .valid ↔ records ≠ [] ∧ Intact py records := by
  rw [classify_status, ← firstBreak_none]
  by_cases none : records = []
  · simp [none]
  · cases firstBreak py records (segmentStarts records) with
    | none => simp [none]
    | some n =>
      simp only [if_neg none]
      split <;> simp

/-- The report of a chain that is intact. -/
theorem classify_intact {records : List Record} (files : List String) (some : records ≠ [])
    (intact : Intact py records) : (classify py records files).status = .valid ∧
      (classify py records files).recordsTotal = records.length ∧
      (classify py records files).lastValidHash = tipOf py records := by
  obtain ⟨before, last, rfl⟩ := (List.eq_nil_or_concat' records).resolve_left some
  unfold classify
  rw [List.getLast?_concat]
  dsimp only
  rw [firstBreak_none.mpr intact]
  exact ⟨rfl, rfl, by rw [tipOf, HashChain.tip_concat]⟩

/-- The report of a broken tail. -/
theorem classify_broken {records : List Record} {files : List String}
    (h : (classify py records files).status = .brokenTail) :
    ∃ n, firstBreak py records (segmentStarts records) = some n ∧ n ≠ 0 ∧
      hasCoherentContinuation py records (segmentStarts records) n = false ∧
      classify py records files = reportBreak py records (segmentStarts records) files n := by
  have status := h
  rw [classify_status] at status
  by_cases none : records = []
  · rw [if_pos none] at status
    cases status
  · rw [if_neg none] at status
    cases found : firstBreak py records (segmentStarts records) with
    | none =>
      rw [found] at status
      cases status
    | some n =>
      rw [found] at status
      dsimp only at status
      split at status
      case isTrue => cases status
      case isFalse tail =>
        obtain ⟨some, coherent⟩ := not_or.mp tail
        refine ⟨n, rfl, some, by simpa using coherent, ?_⟩
        obtain ⟨r, last⟩ := Option.ne_none_iff_exists'.mp
          fun out => none (List.getLast?_eq_none_iff.mp out)
        unfold classify
        rw [last]
        dsimp only
        rw [found]

theorem classify_first (records : List Record) (files : List String) :
    (classify py records files).firstInvalidRecord = firstBreak py records (segmentStarts records) := by
  unfold classify
  cases last : records.getLast? with
  | none =>
    rw [List.getLast?_eq_none_iff.mp last]
    rfl
  | some r =>
    dsimp only
    cases firstBreak py records (segmentStarts records) with
    | none => rfl
    | some n =>
      unfold reportBreak
      by_cases interior : n = 0 ∨ hasCoherentContinuation py records (segmentStarts records) n
      · simp only [if_pos interior]
      · simp only [if_neg interior]

/-- Every record of a chain is an object. -/
theorem parsed_of_chained {prev : PyStr} {xs : List (Bool × Record)} (h : ChainedFrom py prev xs)
    {x : Bool × Record} (mem : x ∈ xs) : x.2.parsed ≠ none := by
  induction xs generalizing prev with
  | nil => cases mem
  | cons y xs ih =>
    rcases List.mem_cons.mp mem with rfl | mem
    · intro out
      have admits := h.1
      simp [HashChain.Admits, Record.prevHash?, out] at admits
    · exact ih h.2 mem

theorem classify_empty {records : List Record} {files : List String} :
    (classify py records files).status = .empty ↔ records = [] := by
  rw [classify_status]
  by_cases none : records = []
  · simp [none]
  · rw [if_neg none]
    simp only [none, iff_false]
    cases firstBreak py records (segmentStarts records) with
    | none => simp
    | some n =>
      dsimp only
      split <;> simp

end Chain

end Drnt.Audit
