import Drnt.Lib.Utf8
import Drnt.Lib.Loads

/-! The records of audit log files, with their byte coordinates. -/
namespace Drnt.Audit

open Lib

def newline : UInt8 := 0x0A

def carriageReturn : UInt8 := 0x0D

/-- A physical line: its bytes without the newline, and whether it has one. -/
structure Line where
  raw : Bytes
  ended : Bool
  deriving DecidableEq, Repr

def Line.bytes (l : Line) : Bytes := l.raw ++ if l.ended then [newline] else []

def splitLines : Bytes → List Line
  | [] => []
  | b :: rest =>
    if b = newline then ⟨[], true⟩ :: splitLines rest
    else match splitLines rest with
      | [] => [⟨[b], false⟩]
      | l :: ls => { l with raw := b :: l.raw } :: ls

/-- bytes.strip removes these. -/
def isAsciiSpace (b : UInt8) : Bool := b = 0x20 || (0x09 ≤ b && b ≤ 0x0D)

def isBlank (raw : Bytes) : Bool := raw.all isAsciiSpace

structure LogFile where
  name : String
  data : Bytes
  deriving DecidableEq, Repr

/-- `parsed` is absent when the line is not UTF-8, not JSON or not an object. -/
structure Record where
  index : Nat
  file : String
  byteStart : Nat
  byteEnd : Nat
  raw : Bytes
  parsed : Option (List (PyStr × Json))
  deriving DecidableEq, Repr

section Reading

variable (py : Python)

def parse (raw : Bytes) : Option (List (PyStr × Json)) :=
  match Utf8.decode raw with
  | none => none
  | some text =>
    match Loads.loads py text with
    | .ok (.obj fields) => some fields
    | _ => none

/-- The loop of _read_file_records, from the offset and the index that it has come to. -/
def readLines (file : String) : Nat → Nat → List Line → List Record
  | _, _, [] => []
  | start, idx, l :: rest =>
    let lineEnd := start + l.bytes.length
    if isBlank l.raw then readLines file lineEnd idx rest
    else
      { index := idx
        file := file
        byteStart := start
        byteEnd := lineEnd
        raw := l.raw
        parsed := parse py l.raw } :: readLines file lineEnd (idx + 1) rest

def readFileRecords (f : LogFile) (startIndex : Nat) : List Record :=
  readLines py f.name 0 startIndex (splitLines f.data)

/-- read_records, with the number of records so far. -/
def readRecordsFrom : Nat → List LogFile → List Record
  | _, [] => []
  | n, f :: rest =>
    let records := readFileRecords py f n
    records ++ readRecordsFrom (n + records.length) rest

def readRecords (files : List LogFile) : List Record := readRecordsFrom py 0 files

end Reading

section Lines

@[simp] theorem splitLines_nil : splitLines [] = [] := rfl

theorem splitLines_newline (rest : Bytes) :
    splitLines (newline :: rest) = ⟨[], true⟩ :: splitLines rest := by
  simp [splitLines]

theorem bytes_splitLines (data : Bytes) : (splitLines data).flatMap Line.bytes = data := by
  induction data with
  | nil => rfl
  | cons b rest ih =>
    by_cases end_ : b = newline
    · subst end_
      rw [splitLines_newline, List.flatMap_cons, ih]
      rfl
    · simp only [splitLines, if_neg end_]
      cases h : splitLines rest with
      | nil =>
        rw [h] at ih
        subst ih
        rfl
      | cons l ls =>
        rw [h, List.flatMap_cons] at ih
        rw [List.flatMap_cons, ← ih]
        rfl

theorem splitLines_ended {raw : Bytes} (h : newline ∉ raw) (rest : Bytes) :
    splitLines (raw ++ newline :: rest) = ⟨raw, true⟩ :: splitLines rest := by
  induction raw with
  | nil => exact splitLines_newline rest
  | cons b raw ih =>
    obtain ⟨other, h⟩ := not_or.mp fun mem => h (List.mem_cons.mpr mem)
    rw [List.cons_append, splitLines, if_neg fun eq => other eq.symm, ih h]

/-- The first line, and the lines of what follows it. -/
theorem splitLines_uncons {data : Bytes} {l : Line} {ls : List Line}
    (h : splitLines data = l :: ls) : newline ∉ l.raw ∧
      (l.ended = false → ls = [] ∧ l.raw ≠ []) ∧ splitLines (ls.flatMap Line.bytes) = ls := by
  induction data generalizing l ls with
  | nil => cases h
  | cons b rest ih =>
    by_cases end_ : b = newline
    · subst end_
      rw [splitLines_newline] at h
      cases h
      exact ⟨List.not_mem_nil, nofun, by rw [bytes_splitLines]⟩
    · have other : newline ≠ b := fun eq => end_ eq.symm
      rw [splitLines, if_neg end_] at h
      cases hs : splitLines rest with
      | nil =>
        rw [hs] at h
        cases h
        exact ⟨by simpa using other, fun _ => ⟨rfl, by simp⟩, rfl⟩
      | cons l' ls' =>
        rw [hs] at h
        cases h
        obtain ⟨free, last, tail⟩ := ih hs
        refine ⟨by simp [other, free], fun out => ⟨(last out).1, by simp⟩, tail⟩

/-- A file that ends before one of its lines has the lines before it. -/
theorem splitLines_before {data : Bytes} {before after : List Line} {l : Line}
    (h : splitLines data = before ++ l :: after) :
    splitLines (before.flatMap Line.bytes) = before := by
  induction before generalizing data with
  | nil => rfl
  | cons b before ih =>
    obtain ⟨free, last, tail⟩ := splitLines_uncons h
    have ended : b.ended = true := by
      by_contra out
      simpa using (last (by simpa using out)).1
    rw [List.flatMap_cons, Line.bytes, if_pos ended, List.append_assoc, List.singleton_append,
      splitLines_ended free, ih tail, ← ended]

end Lines

section Positions

variable {py : Python}

theorem readLines_append (file : String) (start idx : Nat) (xs ys : List Line) :
    readLines py file start idx (xs ++ ys) = readLines py file start idx xs ++
      readLines py file (start + (xs.flatMap Line.bytes).length)
        (idx + (readLines py file start idx xs).length) ys := by
  induction xs generalizing start idx with
  | nil => simp [readLines]
  | cons x xs ih =>
    simp only [List.cons_append, readLines, List.flatMap_cons, List.length_append]
    split
    case isTrue => rw [ih, Nat.add_assoc]
    case isFalse =>
      simp only [ih, List.cons_append, List.length_cons, Nat.add_assoc, Nat.add_comm 1]

theorem readRecordsFrom_append (n : Nat) (xs ys : List LogFile) :
    readRecordsFrom py n (xs ++ ys) = readRecordsFrom py n xs ++
      readRecordsFrom py (n + (readRecordsFrom py n xs).length) ys := by
  induction xs generalizing n with
  | nil => simp [readRecordsFrom]
  | cons x xs ih =>
    simp only [List.cons_append, readRecordsFrom, ih, List.append_assoc, List.length_append,
      Nat.add_assoc]

/-- The line that a record stands for, and the records before it. -/
theorem readLines_split {file : String} {start idx : Nat} {ls : List Line} {P Q : List Record}
    {r : Record} (h : readLines py file start idx ls = P ++ r :: Q) :
    ∃ before l after, ls = before ++ l :: after ∧ r.file = file ∧ r.raw = l.raw ∧
      r.byteStart = start + (before.flatMap Line.bytes).length ∧
      P = readLines py file start idx before := by
  induction ls generalizing start idx P with
  | nil => simp [readLines] at h
  | cons x ls ih =>
    simp only [readLines] at h
    split at h
    case isTrue blank =>
      obtain ⟨before, l, after, rfl, file_, raw, at_, rfl⟩ := ih h
      refine ⟨x :: before, l, after, rfl, file_, raw, ?_, ?_⟩
      · rw [at_, List.flatMap_cons, List.length_append, Nat.add_assoc]
      · simp only [readLines, if_pos blank]
    case isFalse text =>
      cases P with
      | nil =>
        cases h
        exact ⟨[], x, ls, rfl, rfl, rfl, rfl, rfl⟩
      | cons p P =>
        rw [List.cons_append, List.cons.injEq] at h
        obtain ⟨rfl, h⟩ := h
        obtain ⟨before, l, after, rfl, file_, raw, at_, rfl⟩ := ih h
        refine ⟨x :: before, l, after, rfl, file_, raw, ?_, ?_⟩
        · rw [at_, List.flatMap_cons, List.length_append, Nat.add_assoc]
        · simp only [readLines, if_neg text]

/-- A record's file, and the records before it. -/
theorem readRecordsFrom_split {n : Nat} {files : List LogFile} {P Q : List Record} {r : Record}
    (h : readRecordsFrom py n files = P ++ r :: Q) :
    ∃ older f newer A B, files = older ++ f :: newer ∧
      readFileRecords py f (n + (readRecordsFrom py n older).length) = A ++ r :: B ∧
      P = readRecordsFrom py n older ++ A := by
  induction files generalizing n P with
  | nil => simp [readRecordsFrom] at h
  | cons f files ih =>
    simp only [readRecordsFrom] at h
    rcases List.append_eq_append_iff.mp h with ⟨X, rfl, rest⟩ | ⟨X, here, rest⟩
    · obtain ⟨older, g, newer, A, B, rfl, read, rfl⟩ := ih rest
      refine ⟨f :: older, g, newer, A, B, rfl, ?_, ?_⟩
      · simpa only [readRecordsFrom, List.length_append, Nat.add_assoc] using read
      · simp only [readRecordsFrom, List.append_assoc]
    · cases X with
      | nil =>
        obtain ⟨older, g, newer, A, B, rfl, read, eq⟩ := ih (P := []) rest.symm
        rw [List.append_nil] at here
        refine ⟨f :: older, g, newer, A, B, rfl, ?_, ?_⟩
        · simpa only [readRecordsFrom, List.length_append, Nat.add_assoc] using read
        · rw [readRecordsFrom, List.append_assoc, ← eq, List.append_nil, here]
      | cons x X =>
        cases rest
        exact ⟨[], f, files, P, X, rfl, here, rfl⟩

end Positions

end Drnt.Audit
