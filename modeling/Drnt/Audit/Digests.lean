import Drnt.Audit.Repair

/-! The digest of a corrupt suffix in a report, which leaves out blank lines, and the one of its
repair, which does not. -/
namespace Drnt.Audit

open Lib

section Agreement

variable (py : Python)

/-- The report and the manifest give the same digest, that of the bytes in quarantine. -/
def DigestsAgree (d : Disk) (stamp : String) : Prop :=
  ∃ manifest d', repairTail py d stamp = (.ok manifest, d') ∧
    (verifyPath py d).corruptSuffixSha256 = some manifest.corruptSuffixSha256 ∧
    (d'.quarantine.get? (quarantineName stamp)).map py.sha256 = some manifest.corruptSuffixSha256

/-- From the first invalid record on there is no line of spaces only. -/
def NoBlankSuffix (d : Disk) : Prop :=
  ∀ n r, (verifyPath py d).firstInvalidRecord = some n → (readRecords py d.logs)[n]? = some r →
    ∀ f ∈ d.logs,
      (f.name = r.file → ∀ l ∈ splitLines (f.data.drop r.byteStart), isBlank l.raw = false) ∧
      (r.file < f.name → ∀ l ∈ splitLines f.data, isBlank l.raw = false)

end Agreement

section Suffix

variable {py : Python} {files : List LogFile} {r : Record}

def withoutBlank (ls : List Line) : List Line := ls.filter fun l => !isBlank l.raw

theorem withoutBlank_append (xs ys : List Line) :
    withoutBlank (xs ++ ys) = withoutBlank xs ++ withoutBlank ys := List.filter_append ..

theorem suffixBytes_append (xs ys : List Record) :
    suffixBytes (xs ++ ys) = suffixBytes xs ++ suffixBytes ys := List.flatMap_append

/-- The digest of a report is taken over the lines that are not blank. -/
theorem suffixBytes_readLines (file : String) (start idx : Nat) (ls : List Line) :
    suffixBytes (readLines py file start idx ls) = (withoutBlank ls).flatMap Line.bytes := by
  induction ls generalizing start idx with
  | nil => rfl
  | cons l ls ih =>
    rw [readLines, withoutBlank, List.filter_cons]
    by_cases blank : isBlank l.raw = true
    · simp only [blank, if_true, Bool.not_true, Bool.false_eq_true, if_false]
      exact ih ..
    · have bytes : l.raw ++
          (if start + l.raw.length < start + l.bytes.length then [newline] else []) = l.bytes := by
        unfold Line.bytes
        cases l.ended <;> simp
      simp only [blank, Bool.false_eq_true, if_false, Bool.not_false, if_true, List.flatMap_cons]
      rw [suffixBytes, List.flatMap_cons]
      dsimp only
      rw [bytes]
      exact congrArg _ (ih ..)

theorem suffixBytes_readRecords (n : Nat) (files : List LogFile) :
    suffixBytes (readRecordsFrom py n files) =
      (withoutBlank (files.flatMap fun f => splitLines f.data)).flatMap Line.bytes := by
  induction files generalizing n with
  | nil => rfl
  | cons f files ih =>
    rw [readRecordsFrom, suffixBytes_append, ih, readFileRecords, suffixBytes_readLines,
      List.flatMap_cons, withoutBlank_append, List.flatMap_append]

theorem splitLines_after {data : Bytes} {before after : List Line}
    (h : splitLines data = before ++ after) : splitLines (after.flatMap Line.bytes) = after := by
  induction before generalizing data with
  | nil =>
    obtain rfl : splitLines data = after := h
    rw [bytes_splitLines]
  | cons b before ih => exact ih (splitLines_uncons h).2.2

theorem bytes_pos {data : Bytes} {l : Line} (h : l ∈ splitLines data) : 0 < l.bytes.length := by
  obtain ⟨before, after, eq⟩ := List.append_of_mem h
  obtain ⟨-, last, -⟩ := splitLines_uncons (splitLines_after eq)
  unfold Line.bytes
  cases ended : l.ended with
  | true => simp
  | false => simpa using List.length_pos_of_ne_nil (last ended).2

theorem withoutBlank_length (ls : List Line) :
    ((withoutBlank ls).flatMap Line.bytes).length ≤ (ls.flatMap Line.bytes).length := by
  induction ls with
  | nil => exact le_rfl
  | cons l ls ih =>
    rw [withoutBlank, List.filter_cons]
    split
    · rw [List.flatMap_cons, List.flatMap_cons, List.length_append, List.length_append]
      exact Nat.add_le_add_left ih _
    · rw [List.flatMap_cons, List.length_append]
      exact ih.trans (Nat.le_add_left _ _)

/-- Blank lines have bytes too, so that leaving one out shows. -/
theorem withoutBlank_bytes {ls : List Line} (some_ : ∀ l ∈ ls, 0 < l.bytes.length) :
    (withoutBlank ls).flatMap Line.bytes = ls.flatMap Line.bytes ↔
      ∀ l ∈ ls, isBlank l.raw = false := by
  induction ls with
  | nil => exact iff_of_true rfl nofun
  | cons l ls ih =>
    obtain ⟨here, some_⟩ := List.forall_mem_cons.mp some_
    rw [List.forall_mem_cons, withoutBlank, List.filter_cons]
    cases blank : isBlank l.raw with
    | false =>
      simp only [Bool.not_false, if_true, List.flatMap_cons, List.append_cancel_left_eq, true_and]
      exact ih some_
    | true =>
      simp only [Bool.not_true, Bool.false_eq_true, if_false, List.flatMap_cons]
      refine iff_of_false (fun same => ?_) fun all => Bool.noConfusion all.1
      have lengths := congrArg List.length same
      have less := withoutBlank_length ls
      rw [List.length_append] at lengths
      unfold withoutBlank at less
      omega

/-- The lines from a record on, and the bytes of the records from it on. -/
theorem readRecords_suffix {P Q : List Record} (h : readRecords py files = P ++ r :: Q) :
    ∃ older f newer ls, files = older ++ f :: newer ∧ r.file = f.name ∧
      splitLines (f.data.drop r.byteStart) = ls ∧ f.data.drop r.byteStart = ls.flatMap Line.bytes ∧
      suffixBytes (r :: Q) =
        (withoutBlank (ls ++ newer.flatMap fun f => splitLines f.data)).flatMap Line.bytes := by
  obtain ⟨older, f, newer, A, B, rfl, read, rfl⟩ := readRecordsFrom_split h
  obtain ⟨before, l, after, lines, file, -, at_, rfl⟩ := readLines_split read
  have data : f.data = before.flatMap Line.bytes ++ (l :: after).flatMap Line.bytes := by
    rw [← List.flatMap_append, ← lines, bytes_splitLines]
  have rest : f.data.drop r.byteStart = (l :: after).flatMap Line.bytes := by
    rw [at_, Nat.zero_add, data, List.drop_left]
  refine ⟨older, f, newer, l :: after, rfl, file, by rw [rest, splitLines_after lines], rest, ?_⟩
  -- the records of the file from the line on, then those of the newer files
  have whole := h
  rw [readRecords, readRecordsFrom_append, List.append_assoc, List.append_cancel_left_eq,
    readRecordsFrom, read, List.append_assoc, List.append_cancel_left_eq] at whole
  rw [readFileRecords, lines, readLines_append, List.append_cancel_left_eq] at read
  rw [← whole, suffixBytes_append, ← read, suffixBytes_readLines, suffixBytes_readRecords,
    withoutBlank_append, List.flatMap_append]

end Suffix

section Theorem

variable {py : Python} {d : Disk}

theorem reportBreak_digest (records : List Record) (flags : List Bool) (files : List String)
    (n : Nat) : (reportBreak py records flags files n).corruptSuffixSha256 =
      some (suffixSha256 py records n) := by
  unfold reportBreak
  dsimp only
  split <;> rfl

/-- The lines of the corrupt suffix: those that the report hashes, and those in quarantine. -/
theorem Planned.suffix {p : RepairPlan} {older : List LogFile} (plan : Planned py d p older) :
    ∃ ls, splitLines (p.breakFile.data.drop p.breakRecord.byteStart) = ls ∧
      p.chunks.flatten = (ls ++ p.newerFiles.flatMap fun f => splitLines f.data).flatMap Line.bytes ∧
      suffixBytes ((readRecords py d.logs).drop p.firstInvalid) = (withoutBlank
        (ls ++ p.newerFiles.flatMap fun f => splitLines f.data)).flatMap Line.bytes := by
  obtain ⟨bound, record⟩ := List.getElem?_eq_some_iff.mp plan.record
  have split : readRecords py d.logs = (readRecords py d.logs).take p.firstInvalid ++
      p.breakRecord :: (readRecords py d.logs).drop (p.firstInvalid + 1) := by
    rw [← record, ← List.drop_eq_getElem_cons bound, List.take_append_drop]
  obtain ⟨older', f, newer, ls, logs, file, lines, bytes, digest⟩ := readRecords_suffix split
  obtain ⟨found, newer_, -⟩ := find_logs logs
  obtain ⟨found', newer_', -⟩ := find_logs plan.logs
  have name : f.name = p.breakFile.name := file.symm.trans plan.file
  rw [name] at found newer_
  cases found.symm.trans found'
  obtain rfl : newer = p.newerFiles := newer_.symm.trans newer_'
  refine ⟨ls, lines, ?_, ?_⟩
  · rw [RepairPlan.chunks, List.flatten_cons, bytes, List.flatMap_append, List.flatMap_assoc]
    simp only [bytes_splitLines]
    rw [List.flatMap_def (f := LogFile.data)]
  · rw [List.drop_eq_getElem_cons bound, record, digest]

theorem noBlank_iff {p : RepairPlan} {older : List LogFile} (plan : Planned py d p older) :
    NoBlankSuffix py d ↔ ∀ l ∈ splitLines (p.breakFile.data.drop p.breakRecord.byteStart) ++
      p.newerFiles.flatMap (fun f => splitLines f.data), isBlank l.raw = false := by
  obtain ⟨-, newer, before⟩ := find_logs plan.logs
  have behind := names_lt plan.logs
  constructor
  · intro clean l mem
    have here := clean p.firstInvalid p.breakRecord plan.first plan.record
    rcases List.mem_append.mp mem with mem | mem
    · refine (here p.breakFile ?_).1 plan.file.symm l mem
      rw [plan.logs]
      exact List.mem_append_right _ (List.mem_cons_self ..)
    · obtain ⟨f, at_, mem⟩ := List.mem_flatMap.mp mem
      refine (here f ?_).2 (by rw [plan.file]; exact behind f at_) l mem
      rw [plan.logs]
      exact List.mem_append_right _ (List.mem_cons_of_mem _ at_)
  · intro clean n r first record f mem
    cases first.symm.trans plan.first
    cases record.symm.trans plan.record
    constructor
    · intro same l line
      refine clean l (List.mem_append_left _ ?_)
      have whole : f = p.breakFile := by
        rw [plan.logs] at mem
        rcases List.mem_append.mp mem with mem | mem
        · exact absurd (same.trans plan.file) (before f mem).ne
        · rcases List.mem_cons.mp mem with rfl | mem
          · rfl
          · exact absurd (same.trans plan.file) (behind f mem).ne'
      rwa [whole] at line
    · intro later l line
      rw [plan.file] at later
      refine clean l (List.mem_append_right _ (List.mem_flatMap.mpr ⟨f, ?_, line⟩))
      rw [← newer]
      exact List.mem_filter.mpr ⟨mem, by simpa using later⟩

/-- Where the digests agree the bytes do, unless SHA-256 has a collision there. -/
theorem DigestsAgree.same {p : RepairPlan} {stamp : String} (planned : planRepair py d = .ok p)
    (broken : (verifyPath py d).status = .brokenTail) (agree : DigestsAgree py d stamp) :
    py.sha256 (suffixBytes ((readRecords py d.logs).drop p.firstInvalid)) =
      py.sha256 p.chunks.flatten := by
  obtain ⟨manifest, d', run, digest, -⟩ := agree
  obtain ⟨q, older, again, plan⟩ := planRepair_broken broken
  cases planned.symm.trans again
  rw [repairTail, planned] at run
  cases run
  obtain ⟨n, found, -, -, report⟩ := classify_broken broken
  have first := plan.first
  have reported : verifyPath py d = reportBreak py (readRecords py d.logs)
    (segmentStarts (readRecords py d.logs)) (d.logs.map (·.name)) n := report
  have here : (verifyPath py d).firstInvalidRecord = some n :=
    (classify_first ..).trans found
  cases here.symm.trans first
  rw [reported, reportBreak_digest] at digest
  exact Option.some.inj digest

/-- For a broken tail, where SHA-256 does not give the two texts the same digest by a collision,
the digests agree just where no blank line stands from the first invalid record on. -/
theorem digests_agree_iff (broken : (verifyPath py d).status = .brokenTail) (stamp : String)
    (free : ∀ p, planRepair py d = .ok p → CollisionFree py
      [suffixBytes ((readRecords py d.logs).drop p.firstInvalid), p.chunks.flatten]) :
    DigestsAgree py d stamp ↔ NoBlankSuffix py d := by
  obtain ⟨p, older, planned, plan⟩ := planRepair_broken broken
  obtain ⟨ls, lines, bytes, digest⟩ := plan.suffix
  have some_ : ∀ l ∈ ls ++ p.newerFiles.flatMap (fun f => splitLines f.data),
      0 < l.bytes.length := by
    intro l mem
    rcases List.mem_append.mp mem with mem | mem
    · exact bytes_pos (lines ▸ mem)
    · obtain ⟨f, -, mem⟩ := List.mem_flatMap.mp mem
      exact bytes_pos mem
  rw [noBlank_iff plan, lines, ← withoutBlank_bytes some_, ← digest, ← bytes]
  constructor
  · intro agree
    exact free p planned _ (by simp) _ (by simp) (agree.same planned broken)
  · intro same
    obtain ⟨-, quarantine⟩ := plan.run stamp
    refine ⟨p.manifest py stamp (verifyPath py (runOps (p.ops stamp) d)), _,
      by rw [repairTail, planned], ?_, ?_⟩
    · obtain ⟨n, found, -, -, report⟩ := classify_broken broken
      have reported : verifyPath py d = reportBreak py (readRecords py d.logs)
        (segmentStarts (readRecords py d.logs)) (d.logs.map (·.name)) n := report
      have here : (verifyPath py d).firstInvalidRecord = some n :=
        (classify_first ..).trans found
      cases here.symm.trans plan.first
      rw [reported, reportBreak_digest, suffixSha256, same]
      rfl
    · rw [quarantine, Dict.get?_set_self]
      rfl

end Theorem

section Sample

/-- A corrupt record after a valid one, on a line of its own and with another newline. -/
def blankDisk : Disk where
  logs := [⟨"drnt-audit-2026-01-01.jsonl",
    firstLine ++ newline :: (bytesOf "\x7b\x7d" ++ [newline, newline])⟩]
  sorted := by decide +kernel
  quarantine := ∅

/-- The interpreter with two more digests. -/
def suffixPython : Python := { cpython with
  sha256 := fun b =>
    if b = bytesOf "\x7b\x7d" ++ [newline] then
      Lib.py "ca3d163bab055381827226140568f3bef7eaac187cebd76878e0b63e9e442356"
    else if b = bytesOf "\x7b\x7d" ++ [newline, newline] then
      Lib.py "c5c24f7ca1c946fa4dfd44407409c8e11ec6e41f0e1c7c45bf8381b42afb31f1"
    else cpython.sha256 b }

/-- The blank line is in quarantine, and not in the digest of the report. -/
theorem blank_line_lost : (verifyPath suffixPython blankDisk).status = .brokenTail ∧
    ¬ DigestsAgree suffixPython blankDisk "2026-01-02T00-00-00Z" := by
  have broken : (verifyPath suffixPython blankDisk).status = .brokenTail := by decide +kernel
  refine ⟨broken, fun agree => ?_⟩
  obtain ⟨p, -, planned, -⟩ := planRepair_broken broken
  have same := agree.same planned broken
  have digests : (planRepair suffixPython blankDisk).toOption.map (fun p =>
      (suffixPython.sha256 (suffixBytes
        ((readRecords suffixPython blankDisk.logs).drop p.firstInvalid)),
      suffixPython.sha256 p.chunks.flatten)) =
    some (Lib.py "ca3d163bab055381827226140568f3bef7eaac187cebd76878e0b63e9e442356",
      Lib.py "c5c24f7ca1c946fa4dfd44407409c8e11ec6e41f0e1c7c45bf8381b42afb31f1") := by
    decide +kernel
  rw [planned] at digests
  have digests := Option.some.inj digests
  rw [Prod.mk.injEq] at digests
  have equal := digests.1.symm.trans (same.trans digests.2)
  exact absurd equal (by decide +kernel)

/-- Two files of which neither record that is quarantined has a newline. -/
theorem digests_agree_iff_witness : DigestsAgree cpython tornDisk "2026-01-02T00-00-00Z" := by
  have broken : (verifyPath cpython tornDisk).status = .brokenTail := by decide +kernel
  obtain ⟨p, older, planned, plan⟩ := planRepair_broken broken
  have texts : (planRepair cpython tornDisk).toOption.map (fun p =>
      decide (suffixBytes ((readRecords cpython tornDisk.logs).drop p.firstInvalid) =
        p.chunks.flatten) &&
      (splitLines (p.breakFile.data.drop p.breakRecord.byteStart) ++
        p.newerFiles.flatMap fun f => splitLines f.data).all fun l => !isBlank l.raw) =
    some true := by decide +kernel
  rw [planned] at texts
  obtain ⟨same, clean⟩ := (Bool.and_eq_true _ _).mp (Option.some.inj texts)
  have same := of_decide_eq_true same
  refine (digests_agree_iff broken _ fun q again => ?_).mpr ((noBlank_iff plan).mpr fun l mem => ?_)
  · cases planned.symm.trans again
    rw [same]
    intro x hx y hy _
    simp only [List.mem_cons, List.not_mem_nil, or_false, or_self] at hx hy
    rw [hx, hy]
  · simpa using List.all_eq_true.mp clean l mem

end Sample

end Drnt.Audit
